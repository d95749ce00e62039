import ScriptFront.Proofs.Extension.Matching
import ScriptFront.Proofs.Parse.Accounts

/-!
# Parsers with extensions

An extension claims tokens, and then either puts a lexeme in their place or builds a node of them.
The parser relies on four things that it does not check: an extension does not start at the end of
the tokens, it does not replace the end, its builder passes a token unless its pattern has done so,
and its builder depends on nothing but what a production may depend on. `Registered.Behaves` lists
them. With such extensions the parser still runs side by side with itself, and still never runs out
of fuel.
-/

namespace ScriptFront

open Window (Leads Holds Sound Walk)

/-! ## What a claim tells -/

theorem Lexer.isLockstep_allows : Window.IsLockstep tighter Allows :=
  ⟨fun count _ _ h ↦ batch_agree count h, Allows.tokensLeft_eq⟩

section

variable {plain : Prop} {w w' w₀ : Window Lexer} {e : Registered} {symbols : SymbolTable}

/-- Within its reach, a window fails to look ahead only as its lexer does. -/
theorem Window.Sound.peek_isOfLexer {count : Nat} {error : ScriptError} (h : Sound plain w)
    (hcount : count ≤ w.lookahead) (herror : Window.peek count false w = .error error w') :
    error.IsOfLexer := by
  have hself : Window.Lockstep Lexer.Allows (fun m n ↦ m = n) w w := by
    refine ⟨rfl, rfl, ⟨h.sight, h.sight, rfl⟩, fun hex ↦ ?_⟩
    obtain ⟨lx, hlx, -, htame⟩ := h.source hex
    exact ⟨rfl, rfl, lx, lx, hlx, hlx, .refl htame⟩
  have hagree := Window.lockstep_peek_within Lexer.isLockstep_allows false hself hcount hcount
  rw [herror] at hagree
  cases hagree with
  | error hcommon => exact hcommon
  | first hfirst => exact hfirst.2
  | second hsecond => exact hsecond.elim

/-- Looking ahead keeps what a window holds. -/
theorem Window.isSeen_holds (h : Sound plain w₀) :
    Window.IsSeen ⟨ScriptError.IsOfLexer, fun _ ↦ False, fun _ ↦ False⟩
      fun v w ↦ v = w ∧ Holds plain w₀ w where
  current hvw := by rw [hvw.1]
  lookahead hvw := by rw [hvw.1]
  peek := by
    rintro v _ count ⟨rfl, hholds⟩ hcount
    have hsound := hholds.leads.sound h
    have hrun := hsound.peek_ensures count false
    cases hpeek : Window.peek count false v with
    | ok t w => exact .ok ⟨rfl, rfl, hholds.trans (hrun.of_ok hpeek).1⟩
    | error e w => exact .error (hsound.peek_isOfLexer hcount hpeek)
  failures e he := by simpa using he

/-- Whether tokens are claimed or not, none is passed, and there is always an answer. -/
theorem Registered.claim_ensures (h : Sound plain w) (e : Registered) (symbols : SymbolTable) :
    Ensures ScriptError.WithinFuel (e.claim symbols) w fun _ w' ↦ Holds plain w w' := by
  have hagree := (Window.isSeen_holds h).claim e symbols w w ⟨rfl, .refl⟩
  refine .intro (fun found w' hrun ↦ ?_) fun error w' hrun ↦ ?_
  · rw [hrun] at hagree
    cases hagree with
    | ok hsame => exact hsame.2.2
  · rw [hrun] at hagree
    cases hagree with
    | error hcommon => exact hcommon.withinFuel
    | first hfirst => exact hfirst.elim
    | second hsecond => exact hsecond.elim

/-- Tokens are claimed at a start token only, and a pattern claims at least one. -/
theorem Registered.of_claim_eq_some {count : Nat} {captures : Captures}
    (h : e.claim symbols w = .ok (some (count, captures)) w') :
    e.mayStart w.current symbols = true ∧ (e.elements = none ∧ count = 0 ∧ w' = w ∨
      ∃ elements s, e.elements = some elements ∧ 0 < count ∧ s.overflowed = false ∧
        Matching.sequence ⟨e.extension, symbols⟩ e.minRequired 0 elements ⟨w, 0, .empty, false⟩ =
          .ok true s ∧ count = s.offset ∧ captures = s.captures ∧ w' = s.window) := by
  rw [claim] at h
  cases hstart : e.mayStart w.current symbols with
  | false =>
    rw [hstart] at h
    cases h
  | true =>
    rw [hstart] at h
    refine ⟨rfl, ?_⟩
    cases helements : e.elements with
    | none =>
      rw [helements] at h
      cases h
      exact .inl ⟨rfl, rfl, rfl⟩
    | some elements =>
      simp only [helements, Bool.not_true, Bool.false_eq_true, if_false] at h
      split at h
      · cases h
      · next matched s hrun =>
        split at h
        · next hmatched =>
          simp only [Bool.and_eq_true, Bool.not_eq_true', decide_eq_true_eq] at hmatched
          obtain ⟨⟨rfl, hover⟩, hpos⟩ := hmatched
          cases h
          exact .inr ⟨elements, s, rfl, hpos, hover, hrun, rfl, rfl, rfl⟩
        · cases h

/-- A match that one of the entries has claimed, on a window that holds what `w` holds. -/
def Registry.Finds (plain : Prop) (entries : List Registered) (kind : ExtensionKind)
    (symbols : SymbolTable) (w : Window Lexer) (found : Match × Extension) (w' : Window Lexer) :
    Prop :=
  ∃ e ∈ entries, e.extension = found.2 ∧ e.extension.kind = kind ∧ ∃ w₁, Holds plain w w₁ ∧
    e.claim symbols w₁ = .ok (some (found.1.count, found.1.captures)) w'

/-- What is found is a claim of an extension of the registry. -/
theorem Registry.find_ensures (h : Sound plain w) (registry : Registry) (kind : ExtensionKind)
    (symbols : SymbolTable) :
    Ensures ScriptError.WithinFuel (registry.find kind symbols) w fun result w' ↦
      Holds plain w w' ∧
        ∀ found, result = some found → Finds plain registry.entries kind symbols w found w' := by
  rw [find]
  generalize registry.entries = entries
  generalize 0 = index
  induction entries generalizing w index with
  | nil => exact .pure ⟨.refl, by simp⟩
  | cons e rest ih =>
    have hnext {w₁ : Window Lexer} (hholds : Holds plain w w₁) :
        Ensures ScriptError.WithinFuel (findFrom kind symbols (index + 1) rest) w₁ fun result w' ↦
          Holds plain w w' ∧
            ∀ found, result = some found → Finds plain (e :: rest) kind symbols w found w' := by
      refine (ih (hholds.leads.sound h) (index + 1)).mono ?_
      rintro result w' ⟨hholds', hfound⟩
      refine ⟨hholds.trans hholds', fun found hsome ↦ ?_⟩
      obtain ⟨e', hmem, hext, hkind, w₂, hholds₂, hclaim⟩ := hfound found hsome
      exact ⟨e', List.mem_cons_of_mem _ hmem, hext, hkind, w₂, hholds.trans hholds₂, hclaim⟩
    rw [findFrom]
    refine .branch (fun hkind ↦ ?_) fun _ ↦ hnext .refl
    refine (e.claim_ensures h symbols).remember.bind ?_
    rintro claimed w₁ ⟨hclaim, hholds⟩
    cases claimed with
    | none => exact hnext hholds
    | some found =>
      obtain ⟨count, captures⟩ := found
      refine .pure ⟨hholds, ?_⟩
      rintro _ ⟨⟩
      exact ⟨e, List.mem_cons_self, rfl, hkind, w, .refl, hclaim⟩

end

/-! ## Patterns that are words -/

/-- A pattern that consists of words. -/
def Element.ofWords (words : List String) : List Element :=
  words.map fun w ↦ .leaf (.literal w) true

theorem Element.requiredCount_ofWords (words : List String) :
    requiredCount (ofWords words) = words.length := by
  have hall : (ofWords words).filter required = ofWords words :=
    List.filter_eq_self.mpr fun e he ↦ by
      obtain ⟨word, -, rfl⟩ := List.mem_map.mp he
      rfl
  rw [requiredCount, hall, ofWords, List.length_map]

namespace Matching

variable {plain : Prop} {s s' : State} {c : Consult}

/-- The last token matched is not the end. -/
def Reached (s : State) : Prop :=
  0 < s.offset → ∃ place t, Walk false s.window.ahead (s.offset - 1) place ∧
    s.window.ahead[place]? = some t ∧ t.isEnd = false

theorem peek_ensures (hs : Sound plain s.window) (n : Nat) :
    Ensures ScriptError.IsOfLexer (peek n) s fun found s' ↦
      Holds plain s.window s'.window ∧ s'.offset = s.offset ∧ ∀ t, found = some t →
        ∃ place, Walk false s'.window.ahead n place ∧ s'.window.ahead[place]? = some t := by
  by_cases hfar : s.window.lookahead < n
  · exact .known (peek_of_far hfar) ⟨.refl, rfl, by simp⟩
  · have hrun := hs.peek_ensures n false
    cases hpeek : Window.peek n false s.window with
    | ok t w =>
      obtain ⟨hholds, place, hwalk, ht⟩ := hrun.of_ok hpeek
      refine .known (peek_of_ok hpeek) ⟨hholds, rfl, ?_⟩
      rintro u ⟨⟩
      exact ⟨place, hwalk, ht⟩
    | error e w =>
      have he := hs.peek_isOfLexer (Nat.le_of_not_lt hfar) hpeek
      rw [Ensures, peek_of_error he hpeek]
      exact he

/-- A word is matched at the token after those matched before. -/
theorem leaf_literal_ensures (hs : Sound plain s.window) (c : Consult) (text : String) :
    Ensures ScriptError.IsOfLexer (leaf c (.literal text)) s fun found s' ↦
      Holds plain s.window s'.window ∧ (found = true → Reached s') := by
  refine Ensures.bind (Ensures.get_bind (peek_ensures hs _)) fun first s₁ ⟨hholds, hoffset,
    hseen⟩ ↦ ?_
  cases first with
  | none => exact .pure ⟨hholds, by simp⟩
  | some first =>
    refine .branch (fun _ ↦ .pure ⟨hholds, by simp⟩) fun hnot ↦ ?_
    refine .branch (fun _ ↦ ?_) fun _ ↦ .pure ⟨hholds, by simp⟩
    refine .modify_bind (.pure ⟨hholds, fun _ _ ↦ ?_⟩)
    obtain ⟨place, hwalk, hfirst⟩ := hseen first rfl
    refine ⟨place, first, ?_, hfirst, ?_⟩
    · simpa [Stretch.one, hoffset] using hwalk
    · simp only [Bool.or_eq_true, not_or, Bool.not_eq_true] at hnot
      exact hnot.1

/-- A pattern of words is matched word by word, and not in part. -/
theorem sequence_words_ensures {minRequired matched : Nat} (hs : Sound plain s.window) (c : Consult)
    (words : List String) (hreached : Reached s) (hcount : minRequired = matched + words.length) :
    Ensures ScriptError.IsOfLexer (sequence c minRequired matched (Element.ofWords words)) s
      fun found s' ↦ Holds plain s.window s'.window ∧ (found = true → Reached s') := by
  induction words generalizing s matched with
  | nil =>
    rw [Element.ofWords, List.map_nil, sequence]
    exact .pure ⟨.refl, fun _ ↦ hreached⟩
  | cons word words ih =>
    rw [Element.ofWords, List.map_cons, sequence]
    refine .get_bind ?_
    rw [element]
    refine (leaf_literal_ensures hs c word).bind fun found s₁ ⟨hholds, hfound⟩ ↦ ?_
    refine .branch (fun hyes ↦ ?_) fun _ ↦ ?_
    · have hnext : minRequired = matched + 1 + words.length := by
        rw [hcount, List.length_cons]
        omega
      refine (ih (hholds.leads.sound hs) (hfound hyes) hnext).mono fun found s₂ ⟨hholds₂, h₂⟩ ↦ ?_
      exact ⟨hholds.trans hholds₂, h₂⟩
    · refine .modify_bind (.get_bind (.branch (fun _ ↦ .pure ⟨hholds, by simp⟩) fun _ ↦ ?_))
      refine .branch (fun hnot ↦ absurd hnot (by simp [Element.required])) fun _ ↦ ?_
      refine .branch (fun hall ↦ ?_) fun _ ↦ .pure ⟨hholds, by simp⟩
      rw [List.length_cons] at hcount
      omega

end Matching

/-! ## Extensions that behave -/

/-- What the parser relies on without checking it. -/
structure Registered.Behaves (e : Registered) : Prop where
  /-- The end of the tokens has an empty spelling, and is no start token. -/
  starts : ∀ trigger ∈ e.extension.starts, trigger ≠ .text ""
  /-- Words are replaced, and not by the end. -/
  replaces : e.extension.kind = .replacement → ∃ words, e.elements = some (Element.ofWords words) ∧
    e.minRequired = words.length ∧
      ∀ found t lexeme, e.extension.replace found t = some lexeme → lexeme.kind ≠ .endOfInput
  /-- What is built comes to an end. Without a pattern, a token is passed on the way. -/
  ends : ∀ {ctx : ParseContext} {levels fuel : Nat} {sub : Subparser} {s : ParserState}
      (found : Match),
    Parse.Serves False ctx levels fuel sub → Parse.HasRoom False ctx levels fuel 2 s →
    (e.elements = none → s.tokens.current.isEnd = false) →
    Parse.Ends (e.extension.build sub found) s fun _ s' ↦
      Parse.Spans False (if e.elements.isSome then 0 else 1) s [] [] s'
  /-- What is built depends on nothing but what a production depends on. -/
  twin : ∀ {lee : Leeway} {W : Window Lexer → Window Lexer → Prop} {ctx₁ ctx₂ : ParseContext}
    {sub₁ sub₂ : Subparser} (found : Match), Parse.Alongside lee W ctx₁ ctx₂ →
    Parse.Twins lee W sub₁ sub₂ → Twin lee (ParserState.Like W) (e.extension.build sub₁ found)
      (e.extension.build sub₂ found)

theorem Registered.Behaves.isEnd_eq_false {e : Registered} (h : e.Behaves) {t : Token}
    {symbols : SymbolTable} (hstart : e.mayStart t symbols = true) : t.isEnd = false := by
  rw [mayStart, Bool.and_eq_true, List.any_eq_true] at hstart
  obtain ⟨⟨trigger, hmem, haccepts⟩, -⟩ := hstart
  rw [← Bool.not_eq_true]
  intro hend
  have hkind : t.kind = .endOfInput := eq_of_beq hend
  cases trigger with
  | text spelling =>
    have htext : t.text = "" := by
      rw [Token.kind] at hkind
      rw [Token.text]
      revert hkind
      cases t.lexeme <;> simp [Lexeme.kind, Lexeme.text]
    have hsame : t.text = spelling := eq_of_beq haccepts
    exact h.starts _ hmem (by rw [← hsame, htext])
  | _ => simp [Trigger.accepts, hkind] at haccepts

namespace Parse

variable {ctx ctx₁ ctx₂ : ParseContext} {s : ParserState} {lee lee' : Leeway}
  {W : Window Lexer → Window Lexer → Prop}

theorem find_ends {plain : Prop} (hs : Sound plain s.tokens) (kind : ExtensionKind) :
    Ends (ctx.find kind) s fun result s' ↦ Holds plain s.tokens s'.tokens ∧
      s' = { s with tokens := s'.tokens } ∧ ∀ found, result = some found →
        Registry.Finds plain ctx.registry.entries kind s.symbols s.tokens found s'.tokens :=
  .get_bind (onTokens_ends (Registry.find_ensures hs ctx.registry kind s.symbols)
    fun _ _ ⟨hholds, hfound⟩ ↦ ⟨hholds, rfl, hfound⟩)

/-- Replacing tokens passes none. -/
theorem replaceTokens_ends (hentries : ∀ e ∈ ctx.registry.entries, e.Behaves)
    (hs : Sound False s.tokens) :
    Ends ctx.replaceTokens s fun _ s' ↦ Spans False 0 s [] [] s' := by
  refine (find_ends hs _).bind fun result s₁ ⟨hholds, hrest, hfound⟩ ↦ ?_
  have hspans : Spans False 0 s [] [] s₁ := .of_holds hholds.leads (by rw [hrest]; rfl)
  cases result with
  | none => exact .pure hspans
  | some found =>
    obtain ⟨m, extension⟩ := found
    refine .ask rfl ?_
    cases hreplace : extension.replace m s₁.tokens.current with
    | none => exact .pure hspans
    | some lexeme =>
      obtain ⟨e, hmem, rfl, hkind, w, hholds₁, hclaim⟩ := hfound _ rfl
      obtain ⟨words, helements, hmin, hlexeme⟩ := (hentries e hmem).replaces hkind
      obtain ⟨-, ⟨hnone, -⟩ | ⟨elements, walk, hsome, hpos, -, hrun, hcount, -, hwindow⟩⟩ :=
        Registered.of_claim_eq_some hclaim
      · rw [helements] at hnone
        cases hnone
      · obtain rfl : Element.ofWords words = elements :=
          Option.some.inj (helements.symm.trans hsome)
        -- the last word matched is not the end, so the end is not replaced
        have hwords := Matching.sequence_words_ensures (hholds₁.leads.sound hs)
          ⟨e.extension, s.symbols⟩
          words (s := ⟨w, 0, .empty, false⟩) (fun hpos ↦ absurd hpos (Nat.lt_irrefl 0))
          (show e.minRequired = 0 + words.length by rw [hmin, Nat.zero_add])
        obtain ⟨place, t, hwalk, ht, hend⟩ := (hwords.of_ok hrun).2 rfl (hcount ▸ hpos)
        rw [← hwindow] at hwalk ht
        have hlast : max m.count 1 - 1 = walk.offset - 1 := by
          have : m.count = walk.offset := hcount
          omega
        refine onTokens_ends ((hspans.sound hs).replace_ensures (by simp) (hlast ▸ hwalk) ht hend
          (hlexeme _ _ _ hreplace)) fun _ w' hleads ↦ ?_
        have hreplaced : Spans False 0 s₁ [] [] { s₁ with tokens := w' } := .of_holds hleads rfl
        exact hspans.quiet hreplaced

/-- A node that is built passes a token. -/
theorem build?_ends {levels fuel : Nat} {sub : Subparser}
    (hentries : ∀ e ∈ ctx.registry.entries, e.Behaves) (hsub : Serves False ctx levels fuel sub)
    (kind : ExtensionKind) (hfits : HasRoom False ctx levels fuel 2 s) :
    Ends (ctx.build? sub kind) s (IsBuilt False s) := by
  refine (find_ends hfits.sound kind).bind fun result s₁ ⟨hholds, hrest, hfound⟩ ↦ ?_
  have hspans : Spans False 0 s [] [] s₁ := .of_holds hholds.leads (by rw [hrest]; rfl)
  have hcurrent := hholds.current_eq hfits.sound.held
  cases result with
  | none => exact .pure ⟨hspans, hcurrent⟩
  | some found =>
    obtain ⟨m, extension⟩ := found
    obtain ⟨e, hmem, rfl, -, w, hholds₁, hclaim⟩ := hfound _ rfl
    obtain ⟨hstart, hcases⟩ := Registered.of_claim_eq_some hclaim
    have hbehaves := hentries e hmem
    have hend : s₁.tokens.current.isEnd = false := by
      rw [hcurrent, ← hholds₁.current_eq hfits.sound.held]
      exact hbehaves.isEnd_eq_false hstart
    -- the tokens of a pattern are passed before the builder begins
    have hadvance : Ends (advance m.count false) s₁ fun _ s₂ ↦
        Spans False (if e.elements.isSome then 1 else 0) s₁ [] [] s₂ ∧
          (e.elements = none → s₂.tokens.current.isEnd = false) := by
      have hsound := hspans.sound hfits.sound
      rcases hcases with ⟨hnone, hzero, -⟩ | ⟨elements, walk, hsome, hpos, -⟩
      · have hzero' : m.count = 0 := hzero
        rw [hzero', hnone]
        refine onTokens_ends hsound.forgetPassed_ensures fun _ w₂ hholds₂ ↦ ?_
        exact ⟨.of_holds hholds₂.leads rfl, fun _ ↦ (hholds₂.current_eq hsound.held).symm ▸ hend⟩
      · rw [hsome]
        refine onTokens_ends (hsound.advance_ensures false m.count) fun _ w₂ ⟨read, hleads,
          hread⟩ ↦ ?_
        refine ⟨⟨⟨read, hleads, ?_, False.elim⟩, rfl⟩, fun hnone ↦ by cases hnone⟩
        exact List.length_pos_iff.mpr (hread hpos hend)
    refine .ask rfl (.ask rfl (hadvance.bind fun _ s₂ ⟨h₂, hend₂⟩ ↦ ?_))
    have hfits₂ := (hfits.after hspans).after h₂
    refine (hbehaves.ends m hsub hfits₂ hend₂).bind fun node s₃ h₃ ↦ .pure ?_
    have hall := (hspans.trans h₂).trans h₃
    refine ((hall.cast False.elim).slower ?_ : Spans False 1 s [] _ s₃)
    cases e.elements <;> simp

/-- Extensions that behave are accounted for, as far as tokens are passed. -/
theorem accounted_of_behaves (hentries : ∀ e ∈ ctx.registry.entries, e.Behaves) :
    Accounted False ctx :=
  ⟨replaceTokens_ends hentries, fun hsub kind _ hfits ↦ build?_ends hentries hsub kind hfits⟩

/-! ## Two parsers with the same extensions -/

/-- Both parsers find the same extension. -/
theorem twin_find (hseen : Window.IsSeen lee' W) (hloosen : ∀ e, (lee'.common e → lee.common e) ∧
    (lee'.first e → lee.first e) ∧ (lee'.second e → lee.second e))
    (hregistry : ctx₂.registry = ctx₁.registry) (kind : ExtensionKind) :
    Twin lee (ParserState.Like W) (ctx₁.find kind) (ctx₂.find kind) := by
  refine .get_bind fun s t hst ↦ ?_
  have hsymbols : t.symbols = s.symbols := by rw [hst.rest]
  rw [hregistry, hsymbols]
  exact twin_onTokens fun v w hvw ↦ (hseen.find ctx₁.registry kind s.symbols v w hvw).loosen
    (fun e ↦ (hloosen e).1) (fun e ↦ (hloosen e).2.1) fun e ↦ (hloosen e).2.2

/-- What is found is an extension of the registry. -/
theorem find_mem (kind : ExtensionKind) :
    Ensures (fun _ ↦ True) (ctx.find kind) s fun result _ ↦
      ∀ found, result = some found → ∃ e ∈ ctx.registry.entries, e.extension = found.2 := by
  have hentries (w : Window Lexer) : Ensures (fun _ ↦ True)
      (ctx.registry.find kind s.symbols) w fun result _ ↦
        ∀ found, result = some found → ∃ e ∈ ctx.registry.entries, e.extension = found.2 := by
    rw [Registry.find]
    generalize ctx.registry.entries = entries
    generalize 0 = index
    induction entries generalizing w index with
    | nil => exact .pure (by simp)
    | cons e rest ih =>
      have hnext (w₁ : Window Lexer) : Ensures (fun _ ↦ True)
          (Registry.findFrom kind s.symbols (index + 1) rest) w₁ fun result _ ↦
            ∀ found, result = some found → ∃ e' ∈ e :: rest, e'.extension = found.2 :=
        (ih w₁ (index + 1)).mono fun result _ hfound found hsome ↦
          (hfound found hsome).imp fun e' he' ↦ ⟨List.mem_cons_of_mem _ he'.1, he'.2⟩
      rw [Registry.findFrom]
      refine .branch (fun _ ↦ ?_) fun _ ↦ hnext w
      refine Ensures.bind (Q := fun _ _ ↦ True) (.intro (by simp) (by simp)) fun claimed w₁ _ ↦ ?_
      cases claimed with
      | none => exact hnext w₁
      | some claimed =>
        refine .pure ?_
        rintro _ ⟨⟩
        exact ⟨e, List.mem_cons_self, rfl⟩
  exact .get_bind (.mapState (onTokens_run _) (hentries s.tokens) fun _ _ h ↦ h)

/-- Parsers with the same extensions run side by side if they would do so without. -/
theorem Alongside.of_behaves (hentries : ∀ e ∈ ctx₁.registry.entries, e.Behaves)
    (hregistry : ctx₂.registry = ctx₁.registry) (hbounds : Bounded lee ctx₁.limits ctx₂.limits)
    (hcommon : ∀ e, lee.common e)
    (hfuel : ∀ e : ScriptError, e.cause = .outOfFuel → lee.first e ∧ lee.second e)
    (hW : Window.IsTwin lee W) (hseen : Window.IsSeen lee' W)
    (hloosen : ∀ e, (lee'.common e → lee.common e) ∧ (lee'.first e → lee.first e) ∧
      (lee'.second e → lee.second e))
    (hreplace : ∀ count lexeme, Twin lee W (Window.replace count lexeme)
      (Window.replace count lexeme)) :
    Alongside lee W ctx₁ ctx₂ := by
  -- builders only use what there is without extensions
  have hbare : Alongside lee W { ctx₁ with registry := .empty } { ctx₂ with registry := .empty } :=
    .of_entries rfl rfl hbounds hcommon hfuel hW
  refine ⟨hbounds, hcommon, hfuel, hW, ?_, fun hsub kind ↦ ?_⟩
  · refine (twin_find hseen hloosen hregistry _).bind fun result ↦ ?_
    cases result with
    | none => exact .pure _
    | some found =>
      obtain ⟨m, extension⟩ := found
      refine hbare.current.bind fun t ↦ ?_
      cases extension.replace m t with
      | none => exact .pure _
      | some lexeme => exact twin_onTokens (hreplace _ _)
  · intro s t hst
    -- the extension found is one of the registry, so its builder behaves
    refine ((twin_find hseen hloosen hregistry kind s t hst).ensuring (find_mem kind)).bind
      fun result _ s₁ t₁ ⟨⟨hsame, hst₁⟩, hmem⟩ ↦ ?_
    subst hsame
    cases result with
    | none => exact .ok ⟨rfl, hst₁⟩
    | some found =>
      obtain ⟨e, he, hextension⟩ := hmem found rfl
      have hbuild := (hentries e he).twin found.1 hbare hsub
      rw [hextension] at hbuild
      refine Twin.bind hbare.position (fun place ↦ twin_scope.bind fun scope ↦ ?_) s₁ t₁ hst₁
      exact (hbare.advance _ false).bind fun _ ↦ hbuild.bind fun _ ↦ .pure _

end Parse

end ScriptFront
