import ScriptFront.Proofs.Extension.Standard
import ScriptFront.Proofs.Streaming

/-!
# Bounds only cut off

Every bound on a script is a number that something is compared with, and if the comparison fails, so
does the parse. Nothing else is decided by a bound. So under tighter bounds a script has the result
that it has under wider ones, or it fails at a bound.

Two parsers with different bounds run side by side on windows in lockstep, whose lexers differ in
the levels of embedded sections they allow. The standard extensions match patterns on these windows
and take no failure for an answer but that of looking too far, which both windows have or neither.
-/

namespace ScriptFront

/-- No bound is greater than the other one. -/
structure Limits.Within (l l' : Limits) : Prop where
  /-- The bound on characters. -/
  length : l.maxScriptLength ≤ l'.maxScriptLength
  /-- The bound on blocks. -/
  statements : l.maxStatementDepth ≤ l'.maxStatementDepth
  /-- The bound on argument lists. -/
  calls : l.maxCallDepth ≤ l'.maxCallDepth
  /-- The bound on links. -/
  members : l.maxMemberDepth ≤ l'.maxMemberDepth
  /-- The bound on parentheses. -/
  parens : l.maxParenDepth ≤ l'.maxParenDepth
  /-- The bound on operands. -/
  operands : l.maxExpressionDepth ≤ l'.maxExpressionDepth
  /-- The bound on embedded sections. -/
  sections : l.maxInterpolationDepth ≤ l'.maxInterpolationDepth
  /-- The bound on parameters. -/
  params : l.maxParams ≤ l'.maxParams
  /-- The bound on aliases. -/
  aliases : l.maxAliases ≤ l'.maxAliases

/-- The first run may stop at a bound. The second one may exceed the fuel it was given. -/
def cutOff : Leeway where
  common _ := True
  first e := e.category = .limit
  second e := e.cause = .outOfFuel

theorem Limits.Within.bounded {l l' : Limits} (h : l.Within l') : Parse.Bounded cutOff l l' where
  statements := .inr ⟨h.statements, fun _ he ↦ he⟩
  calls := .inr ⟨h.calls, fun _ he ↦ he⟩
  members := .inr ⟨h.members, fun _ he ↦ he⟩
  parens := .inr ⟨h.parens, fun _ he ↦ he⟩
  operands := .inr ⟨h.operands, fun _ he ↦ he⟩
  params := .inr ⟨h.params, fun _ he ↦ he⟩
  aliases := .inr ⟨h.aliases, fun _ he ↦ he⟩

/-! ## Windows on lexers with different levels -/

namespace Window

/-- The windows hold the same tokens, and their lexers differ in nothing but levels. -/
abbrev Tiered : Window Lexer → Window Lexer → Prop := Lockstep Lexer.Allows fun m n ↦ n = m

theorem isSeen_tiered : IsSeen Lexer.tighter Tiered where
  current h := h.current_eq.symm
  lookahead h := h.sight.2.2.symm
  peek h hcount := lockstep_peek_within Lexer.isLockstep_allows false h hcount
    (h.sight.2.2 ▸ hcount)
  failures e he := by
    rcases he with he | he | he
    · exact he
    · exact he.2
    · exact he.elim

theorem isLockstep_cutOff : IsLockstep cutOff Lexer.Allows :=
  ⟨fun count _ _ h ↦ (Lexer.batch_agree count h).loosen (fun _ _ ↦ trivial) (fun _ he ↦ he.1)
    fun _ he ↦ he.elim, Lexer.Allows.tokensLeft_eq⟩

end Window

namespace Parse

variable {ctx ctx' : ParseContext}

theorem alongside_cutOff (hentries : ∀ e ∈ ctx.registry.entries, e.Behaves)
    (hregistry : ctx'.registry = ctx.registry) (hlimits : ctx.limits.Within ctx'.limits) :
    Alongside cutOff Window.Tiered ctx ctx' :=
  .of_behaves hentries hregistry hlimits.bounded (fun _ ↦ trivial)
    (fun _ he ↦ ⟨congrArg Cause.category he, he⟩)
    (Window.isTwin_lockstep Window.isLockstep_cutOff) Window.isSeen_tiered
    (fun _ ↦ ⟨fun _ ↦ trivial, fun he ↦ he.1, fun he ↦ he.elim⟩)
    fun count lexeme ↦ Window.lockstep_replace Window.isLockstep_cutOff (fun _ _ ↦ trivial)
      (fun _ _ h ↦ h) count lexeme

end Parse

namespace Frontend

/-- The extensions of the host are none, or the standard ones. -/
def IsCustomary (f : Frontend) : Prop :=
  f.registry = .empty ∨ ∃ base all : Frontend, base.registry = .empty ∧
    Standard.registerAll base = .ok all ∧ f.registry = all.registry

/-- The same set-up with other bounds. -/
def withLimits (f : Frontend) (limits : Limits) : Frontend :=
  { f with settings := { f.settings with limits } }

variable {f : Frontend} {l l' : Limits}

theorem IsCustomary.behaves (hf : f.IsCustomary) :
    (∀ e ∈ f.registry.entries, e.Behaves) ∧ f.dialect.IsTame := by
  rcases hf with hempty | ⟨base, all, hbase, hall, hregistry⟩
  · have hlexical : f.dialect.extensions = [] := by rw [dialect, hempty]; rfl
    refine ⟨by simp [hempty, Registry.empty], fun e he ↦ ?_⟩
    simp [hlexical] at he
  · obtain ⟨hentries, hlexical⟩ := Standard.behaves_of_registerAll hbase hall
    refine ⟨hregistry ▸ hentries, Standard.isTame_address ?_⟩
    rw [dialect, hregistry, hlexical]

/-- What a text is parsed to, before a failure is given the name of the script. -/
def unnamed (f : Frontend) (text : String) : Except ScriptError Program :=
  if f.settings.limits.maxScriptLength < text.length then
    .error (.ofCause .start (.scriptTooLong text.length f.settings.limits.maxScriptLength))
  else f.window text >>= fun w ↦ Parse.parseProgram f.context w f.host

theorem parse_eq_named (f : Frontend) (text : String) :
    f.parse text = f.named (f.unnamed text) := by
  rw [parse, unnamed]
  cases f.window text <;> rfl

/-- **A parser never runs out of its own fuel.** -/
theorem parse_withinFuel (hf : f.IsCustomary) {text : String} {e : ScriptError}
    (h : f.parse text = .error e) : e.WithinFuel := by
  obtain ⟨hentries, htame⟩ := hf.behaves
  have hmade :=
    Window.ofSource_ensures (Lexer.isOpen_ofText f.dialect text) htame f.settings.lookahead
  have hctx : Parse.Accounted False f.context := Parse.accounted_of_behaves hentries
  have hunnamed (e' : ScriptError) (he' : f.unnamed text = .error e') : e'.WithinFuel := by
    rw [unnamed] at he'
    split at he'
    · cases he'
      simp [ScriptError.WithinFuel, ScriptError.ofCause]
    · cases hwindow : f.window text with
      | error e'' =>
        rw [hwindow] at he'
        cases he'
        exact hmade.2 _ hwindow
      | ok w =>
        rw [hwindow] at he'
        exact (Parse.parseProgram_ensures hctx (hmade.1 w hwindow).1).1 e' he'
  rw [parse_eq_named] at h
  obtain ⟨e', he'⟩ := exists_error_of_named h
  rw [he'] at h
  cases h
  exact hunnamed e' he'

/-- The name of a script is no difference between two set-ups. -/
theorem named_conform {r r' : Except ScriptError Program} (h : Conform cutOff Eq r r') :
    Conform cutOff Eq ((f.withLimits l).named r) ((f.withLimits l').named r') := by
  cases h with
  | ok h => exact .ok h
  | error _ => exact .error trivial
  | first h => exact .first h
  | second h => exact .second h

theorem parse_conform (hf : f.IsCustomary) (h : l.Within l') (text : String) :
    Conform cutOff Eq ((f.withLimits l).parse text) ((f.withLimits l').parse text) := by
  obtain ⟨hentries, htame⟩ := hf.behaves
  rw [parse_eq_named, parse_eq_named]
  refine named_conform ?_
  rw [unnamed, unnamed]
  by_cases hlong : (f.withLimits l).settings.limits.maxScriptLength < text.length
  · rw [if_pos hlong]
    exact .first rfl
  · have hlong' : ¬ (f.withLimits l').settings.limits.maxScriptLength < text.length :=
      fun hlt ↦ hlong (Nat.lt_of_le_of_lt h.length hlt)
    rw [if_neg hlong, if_neg hlong']
    have hlexers : Lexer.Allows (.ofText (f.withLimits l).dialect text)
        (.ofText (f.withLimits l').dialect text) := ⟨h.sections, rfl, htame⟩
    have hwindows : Conform cutOff Window.Tiered ((f.withLimits l).window text)
        ((f.withLimits l').window text) :=
      Window.lockstep_ofSource (S := fun m n ↦ n = m) Window.isLockstep_cutOff hlexers
        (fun _ ↦ rfl) _
    have halong : Parse.Alongside cutOff Window.Tiered (f.withLimits l).context
        (f.withLimits l').context := Parse.alongside_cutOff hentries rfl h
    exact hwindows.bind fun v w hvw ↦ halong.parseProgram_conform hvw f.host

/-- **Bounds only cut off.** Under tighter bounds, a text has the result that it has under wider
ones, or it fails at a bound. -/
theorem parse_withLimits (hf : f.IsCustomary) (h : l.Within l') (text : String) :
    (f.withLimits l).parse text = (f.withLimits l').parse text ∨
      ∃ e, (f.withLimits l).parse text = .error e ∧ e.category = .limit ∧ e.cause ≠ .outOfFuel := by
  have hwithin (limits : Limits) (e : ScriptError)
      (he : (f.withLimits limits).parse text = .error e) : e.WithinFuel :=
    parse_withinFuel (f := f.withLimits limits) hf he
  have hconform := parse_conform hf h text
  revert hconform hwithin
  generalize hr : (f.withLimits l).parse text = r
  generalize hr' : (f.withLimits l').parse text = r'
  intro hwithin hconform
  cases hconform with
  | ok hsame => exact .inl (congrArg Except.ok hsame)
  | error _ => exact .inl rfl
  | first hlimit => exact .inr ⟨_, rfl, hlimit, hwithin l _ hr⟩
  | second hfuel => exact absurd hfuel (hwithin l' _ hr')

/-- The standard bounds, but no parentheses. -/
def flatLimits : Limits := { Limits.standard with maxParenDepth := 0 }

theorem flatLimits_within : flatLimits.Within .standard :=
  ⟨Nat.le_refl _, Nat.le_refl _, Nat.le_refl _, Nat.le_refl _, Nat.zero_le _, Nat.le_refl _,
    Nat.le_refl _, Nat.le_refl _, Nat.le_refl _⟩

theorem parse_withLimits_flatLimits :
    ∃ f : Frontend, Standard.registerAll standard = .ok f ∧ flatLimits.Within .standard ∧
      ((f.withLimits flatLimits).parse "print (june 5), at 9:30" =
          (f.withLimits .standard).parse "print (june 5), at 9:30" ∨
        ∃ e, (f.withLimits flatLimits).parse "print (june 5), at 9:30" = .error e ∧
          e.category = .limit ∧ e.cause ≠ .outOfFuel) := by
  obtain ⟨f, h⟩ : ∃ f, Standard.registerAll standard = .ok f :=
    exists_eq_ok_of_isSome (by decide +kernel)
  exact ⟨f, h, flatLimits_within,
    parse_withLimits (.inr ⟨standard, f, rfl, h, rfl⟩) flatLimits_within _⟩

end Frontend

end ScriptFront
