import ScriptFront.Proofs.Cursor.Motion
import ScriptFront.Proofs.Extension.Phrases

/-!
# The standard extensions behave

The synonyms are words that symbols take the place of; dates and times are constants whose tokens
their patterns have passed; a print statement passes its first word and then asks for expressions;
and an address reads on from where the cursor stands. So all of them are such as the parser relies
on.
-/

namespace ScriptFront

/-! ## How extensions are compiled -/

theorem Registered.of_ofExtension {extension : Extension} {e : Registered}
    (h : Registered.ofExtension extension = .ok e) :
    e.extension = extension ∧ (extension.pattern = none ∧ e.elements = none ∨
      ∃ pattern elements, extension.pattern = some pattern ∧ e.elements = some elements ∧
        Pattern.compile pattern = .ok elements ∧
        e.minRequired = extension.minRequired.getD (Element.requiredCount elements)) := by
  rw [ofExtension] at h
  split at h
  · next hnone =>
    cases h
    exact ⟨rfl, .inl ⟨hnone, rfl⟩⟩
  · next pattern hpattern =>
    split at h
    · cases h
    · next elements hcompile =>
      cases h
      exact ⟨rfl, .inr ⟨pattern, elements, hpattern, rfl, hcompile, rfl⟩⟩

/-! ## Builders that only look at the match -/

/-- The builder yields a constant or fails, and leaves everything as it is. -/
def Extension.IsConstant (x : Extension) : Prop :=
  ∀ found, (∃ value, ∀ sub, x.build sub found = pure (Expr.constant value)) ∨
    ∃ message, ∀ sub, x.build sub found = Parse.fail (.invalidStatement message)

section

variable {extension : Extension} {e : Registered}

theorem Extension.IsConstant.ends (h : extension.IsConstant) (sub : Subparser) (found : Match)
    (s : ParserState) :
    Parse.Ends (extension.build sub found) s fun _ s' ↦ Parse.Spans False 0 s [] [] s' := by
  rcases h found with ⟨value, hbuild⟩ | ⟨message, hbuild⟩
  · rw [hbuild]
    exact .pure .refl
  · rw [hbuild]
    exact Parse.fail_ends (by simp)

theorem Extension.IsConstant.twin {lee : Leeway} {W : Window Lexer → Window Lexer → Prop}
    {ctx₁ ctx₂ : ParseContext} (h : extension.IsConstant) (halong : Parse.Alongside lee W ctx₁ ctx₂)
    (sub₁ sub₂ : Subparser) (found : Match) :
    Twin lee (ParserState.Like W) (extension.build sub₁ found) (extension.build sub₂ found) := by
  rcases h found with ⟨value, hbuild⟩ | ⟨message, hbuild⟩
  · rw [hbuild, hbuild]
    exact .pure _
  · rw [hbuild, hbuild]
    exact halong.fail _

/-- An extension with a pattern for its tokens and a constant for its node. -/
theorem Registered.behaves_of_isConstant {pattern : String} (h : ofExtension extension = .ok e)
    (hpattern : extension.pattern = some pattern) (hconstant : extension.IsConstant)
    (hstarts : ∀ trigger ∈ extension.starts, trigger ≠ .text "")
    (hreplaces : extension.kind = .replacement → ∃ words,
      e.elements = some (Element.ofWords words) ∧ e.minRequired = words.length ∧
        ∀ found t lexeme, extension.replace found t = some lexeme → lexeme.kind ≠ .endOfInput) :
    e.Behaves := by
  obtain ⟨rfl, ⟨hnone, -⟩ | ⟨-, elements, -, helements, -⟩⟩ := of_ofExtension h
  · rw [hpattern] at hnone
    cases hnone
  · refine ⟨hstarts, hreplaces, fun found _ _ _ ↦ ?_, fun found halong _ ↦ ?_⟩
    · rw [helements]
      exact hconstant.ends _ found _
    · exact hconstant.twin halong _ _ found

end

/-! ## The standard extensions, one by one -/

namespace Standard

theorem synonym_behaves {phrase replacement : String} {e : Registered}
    (hmem : (phrase, replacement) ∈ synonyms)
    (h : Registered.ofExtension (synonym phrase replacement) = .ok e) : e.Behaves := by
  have hstarts : ∀ pair ∈ synonyms, ∀ trigger ∈ (synonym pair.1 pair.2).starts,
      trigger ≠ .text "" := by decide
  have hlexemes : ∀ pair ∈ synonyms, (lexemeOf pair.2).kind ≠ .endOfInput := by decide
  obtain rfl : entry (phrase, replacement) = e :=
    Except.ok.inj ((ofExtension_eq (isPlainPhrase_of_mem_synonyms hmem)).symm.trans h)
  refine Registered.behaves_of_isConstant h rfl (fun _ ↦ .inr ⟨_, fun _ ↦ rfl⟩)
    (hstarts (phrase, replacement) hmem) fun _ ↦ ?_
  refine ⟨phraseWords phrase, rfl, rfl, ?_⟩
  rintro found t lexeme ⟨⟩
  exact hlexemes (phrase, replacement) hmem

theorem date_behaves {e : Registered} (h : Registered.ofExtension date = .ok e) : e.Behaves := by
  refine Registered.behaves_of_isConstant h rfl (fun found ↦ ?_) (by decide) fun hkind ↦ by
    cases hkind
  have hbuild (sub : Subparser) : date.build sub found = buildDate found := rfl
  simp only [hbuild, buildDate]
  cases dateOf _ _ _ with
  | ok value => exact .inl ⟨value, fun _ ↦ rfl⟩
  | error text => exact .inr ⟨_, fun _ ↦ rfl⟩

theorem time_behaves {e : Registered} (h : Registered.ofExtension time = .ok e) : e.Behaves := by
  refine Registered.behaves_of_isConstant h rfl (fun found ↦ ?_) (by decide) fun hkind ↦ by
    cases hkind
  have hbuild (sub : Subparser) : time.build sub found = buildTime found := rfl
  simp only [hbuild, buildTime]
  split
  · exact .inl ⟨_, fun _ ↦ rfl⟩
  · exact .inr ⟨_, fun _ ↦ rfl⟩

theorem print_behaves {e : Registered} (h : Registered.ofExtension print = .ok e) : e.Behaves := by
  obtain ⟨hextension, ⟨-, hnone⟩ | ⟨_, _, hpattern, -⟩⟩ := Registered.of_ofExtension h
  · refine ⟨?_, ?_, fun {ctx levels fuel sub s} found hsub hfits hend ↦ ?_,
      fun {lee W ctx₁ ctx₂ sub₁ sub₂} found halong hsub ↦ ?_⟩
    · rw [hextension]
      decide
    · rw [hextension]
      exact fun hkind ↦ by cases hkind
    · rw [hextension, hnone]
      have hbuild : print.build sub found = buildPrint sub := rfl
      rw [hbuild]
      refine (Parse.advance_ends hfits.sound (hend hnone)).bind fun _ s₁ hpassed ↦ .ask rfl ?_
      have h₁ : Parse.Spans False 1 s [] [] s₁ := hpassed.spans_nil False.elim
      refine .branch (fun _ ↦ .pure h₁) fun _ ↦ ?_
      refine (hsub.expression (hfits.after h₁)).bind fun first s₂ h₂ ↦ .ask rfl ?_
      have h₁₂ : Parse.Spans False 1 s [] [] s₂ := ((h₁.trans h₂).cast False.elim).slower (by omega)
      refine (Parse.looseArgsWithin_ends hsub (hfits.after h₁₂) (by omega)).bind
        fun args s₃ h₃ ↦ .pure ?_
      exact (h₁₂.cast False.elim).trans (h₃.cast False.elim)
    · rw [hextension]
      have hbuild (sub : Subparser) : print.build sub found = buildPrint sub := rfl
      rw [hbuild, hbuild]
      refine (halong.advance 1 false).bind fun _ ↦ Parse.twin_tokens_bind fun v w hvw ↦ ?_
      have hsame : w.isEndOfStatementOrBlock = v.isEndOfStatementOrBlock := by
        simp only [Window.isEndOfStatementOrBlock, Window.isEndOfStatement, Window.isExplicitEnd,
          Window.isEnded, Window.is, Window.kind, halong.windows.current hvw]
      rw [hsame]
      refine .ite (.pure _) ((hsub (.expression false)).bind fun first ↦ ?_)
      exact Parse.twin_rounds_bind fun m n ↦
        (halong.looseArgsWithin hsub m n [first]).bind fun _ ↦ .pure _
  · cases hpattern

/-! ## All of them -/

variable {f f' : Frontend}

theorem exists_of_bind {α β : Type} {x : Except ScriptError α}
    {g : α → Except ScriptError β} {b : β}
    (h : x >>= g = .ok b) : ∃ a, x = .ok a ∧ g a = .ok b := by
  cases x with
  | ok a => exact ⟨a, rfl, h⟩
  | error e => cases h

/-- Registering an extension adds it, compiled. -/
theorem exists_of_register {extension : Extension} (h : f.register extension = .ok f') :
    ∃ e, Registered.ofExtension extension = .ok e ∧
      f'.registry = { f.registry with entries := f.registry.entries ++ [e] } := by
  rw [Frontend.register] at h
  split at h
  · next registry hregister =>
    cases h
    rw [Registry.register] at hregister
    split at hregister
    · cases hregister
    · next e he =>
      cases hregister
      exact ⟨e, he, rfl⟩
  · cases h

/-- All extensions behave, and there are no others of the lexer. -/
def AllBehave (f : Frontend) : Prop :=
  (∀ e ∈ f.registry.entries, e.Behaves) ∧ f.registry.lexical = []

theorem AllBehave.register {extension : Extension} (hf : AllBehave f)
    (hbehaves : ∀ e, Registered.ofExtension extension = .ok e → e.Behaves)
    (h : f.register extension = .ok f') : AllBehave f' := by
  obtain ⟨e, he, hregistry⟩ := exists_of_register h
  rw [AllBehave, hregistry]
  refine ⟨fun e' he' ↦ ?_, hf.2⟩
  rcases List.mem_append.mp he' with he' | he'
  · exact hf.1 e' he'
  · rw [List.mem_singleton.mp he']
    exact hbehaves e he

theorem AllBehave.synonyms {pairs : List (String × String)} (hf : AllBehave f)
    (hpairs : ∀ pair ∈ pairs, pair ∈ Standard.synonyms)
    (h : pairs.foldlM (fun f (phrase, replacement) ↦ f.register (synonym phrase replacement)) f =
      .ok f') : AllBehave f' := by
  induction pairs generalizing f with
  | nil =>
    cases h
    exact hf
  | cons pair pairs ih =>
    rw [List.foldlM_cons] at h
    obtain ⟨f₁, hregister, h⟩ := exists_of_bind h
    refine ih (hf.register (fun e he ↦ ?_) hregister) (fun pair hpair ↦ ?_) h
    · exact synonym_behaves (hpairs _ List.mem_cons_self) he
    · exact hpairs pair (List.mem_cons_of_mem _ hpair)

/-- **The standard extensions behave.** -/
theorem behaves_of_registerAll (hf : f.registry = .empty) (h : registerAll f = .ok f') :
    (∀ e ∈ f'.registry.entries, e.Behaves) ∧ f'.registry.lexical = [address] := by
  have hempty : AllBehave f := by
    rw [AllBehave, hf]
    exact ⟨by simp [Registry.empty], rfl⟩
  obtain ⟨f₁, hsynonyms, h⟩ := exists_of_bind h
  obtain ⟨f₂, hdate, h⟩ := exists_of_bind h
  obtain ⟨f₃, htime, h⟩ := exists_of_bind h
  obtain ⟨f₄, hprint, h⟩ := exists_of_bind h
  have h₁ := hempty.synonyms (fun _ hpair ↦ hpair) hsynonyms
  have h₂ := h₁.register (fun _ ↦ date_behaves) hdate
  have h₃ := h₂.register (fun _ ↦ time_behaves) htime
  have h₄ := h₃.register (fun _ ↦ print_behaves) hprint
  cases h
  refine ⟨h₄.1, ?_⟩
  rw [Frontend.registerLexical, Registry.registerLexical, h₄.2]
  rfl

/-- Reading an address does not move the cursor back, and does not fail. -/
theorem isTame_address {d : Dialect} (h : d.extensions = [address]) : d.IsTame := by
  intro e he t c
  rw [h, List.mem_singleton] at he
  subst he
  refine ⟨?_, fun err herr ↦ by cases herr⟩
  have hmoved : (address.lex t c).2 = c.advance (c.rest.takeWhile isAddressChar).length := rfl
  rw [hmoved, Cursor.left_eq_length, Cursor.left_eq_length, Cursor.rest_advance, List.length_drop]
  exact Nat.sub_le _ _

end Standard

end ScriptFront
