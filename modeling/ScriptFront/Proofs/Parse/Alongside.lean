import ScriptFront.Proofs.Parse.Kindred

/-!
# Two parsers on the same tokens

Two parsers that are shown the same tokens are alike in the strictest sense: related tokens are
equal, and it does not matter where anything stands. `Window.IsTwin` lists what is asked of a
relation between windows, namely that moving and looking ahead keep it and show the same tokens, and
`Parse.Alongside` adds what is asked of the two contexts. What the productions do then is what they
do for any likeness.
-/

namespace ScriptFront

/-- A relation between windows that moving and looking ahead keep, and that shows in both the same
tokens. -/
structure Window.IsTwin (lee : Leeway) (W : Window Lexer → Window Lexer → Prop) : Prop where
  /-- The current tokens are the same. -/
  current : ∀ {v w : Window Lexer}, W v w → v.current = w.current
  /-- Both can move on. -/
  advance : ∀ (count : Nat) (passNewLine : Bool),
    Twin lee W (Window.advance count passNewLine) (Window.advance count passNewLine)
  /-- Both can move over line breaks. -/
  skipNewLines : Twin lee W Window.skipNewLines Window.skipNewLines
  /-- Both can look ahead, as far as every window reaches. -/
  peek : ∀ {count : Nat} (passNewLine : Bool), count ≤ Window.minLookahead →
    Twin lee W (Window.peek count passNewLine) (Window.peek count passNewLine)
  /-- New windows on the same tokens are related. -/
  nested : ∀ {v w : Window Lexer} (list : List Token), W v w →
    W (.ofTokens list v.lookahead) (.ofTokens list w.lookahead)

namespace Parse

/-- The subparsers agree on every goal. -/
def Twins (lee : Leeway) (W : Window Lexer → Window Lexer → Prop) (sub₁ sub₂ : Subparser) : Prop :=
  ∀ goal, Twin lee (ParserState.Like W) (sub₁ goal) (sub₂ goal)

/-- What is asked of the surroundings of two parsers that are to agree. -/
structure Alongside (lee : Leeway) (W : Window Lexer → Window Lexer → Prop)
    (ctx₁ ctx₂ : ParseContext) : Prop extends Bounded lee ctx₁.limits ctx₂.limits where
  /-- Any failure may be common to both. -/
  common : ∀ e, lee.common e
  /-- Either run may exceed the fuel it was given. -/
  fuel : ∀ e : ScriptError, e.cause = .outOfFuel → lee.first e ∧ lee.second e
  /-- The windows show the same tokens. -/
  windows : Window.IsTwin lee W
  /-- Extensions replace the same tokens. -/
  replaceTokens : Twin lee (ParserState.Like W) ctx₁.replaceTokens ctx₂.replaceTokens
  /-- Extensions build the same nodes. -/
  build? : ∀ {sub₁ sub₂ : Subparser}, Twins lee W sub₁ sub₂ → ∀ kind,
    Twin lee (ParserState.Like W) (ctx₁.build? sub₁ kind) (ctx₂.build? sub₂ kind)

variable {lee : Leeway} {W : Window Lexer → Window Lexer → Prop} {ctx₁ ctx₂ : ParseContext}
  {sub₁ sub₂ : Subparser} {α β : Type}

/-! ## The likeness of equal tokens -/

/-- The windows show the same tokens, and it does not matter where these stand. -/
def sameTokens (lee : Leeway) (W : Window Lexer → Window Lexer → Prop) : Likeness :=
  ⟨lee, W, Eq, fun _ ↦ True⟩

theorem places_of_same {x y : Parse Expr} (h : Twin lee (ParserState.Like W) x y) :
    (sameTokens lee W).Places x y := fun s t hst ↦
  (h s t hst).mono fun _ _ _ _ hab ↦ ⟨⟨hab.1.symm, trivial⟩, hab.2⟩

theorem twins_iff_serves : Twins lee W sub₁ sub₂ ↔ (sameTokens lee W).Serves sub₁ sub₂ := by
  constructor
  · intro h
    refine ⟨h .statement, h .conditional, fun grouped ↦ places_of_same (h (.expression grouped)),
      places_of_same (h .operand), fun {list list'} hlist ↦ ?_⟩
    obtain rfl : list = list' := by
      rwa [show (sameTokens lee W).tokens = Eq from rfl, List.forall₂_eq_eq_eq] at hlist
    exact h (.embedded list)
  · intro h goal
    cases goal with
    | statement => exact h.statement
    | conditional => exact h.conditional
    | expression grouped => exact (h.expression grouped).same
    | operand => exact h.operand.same
    | embedded list => exact h.embedded (List.forall₂_same.mpr fun t _ ↦ (rfl : t = t))

/-! ## Computations on the same tokens -/

theorem twin_scope : Twin lee (ParserState.Like W) scope scope :=
  Likeness.same_scope (c := sameTokens lee W)

theorem twin_onTokens {f g : WindowM Lexer α} (h : Twin lee W f g) :
    Twin lee (ParserState.Like W) (onTokens f) (onTokens g) :=
  Likeness.pairs_onTokens (c := sameTokens lee W) h

/-- The number of rounds may differ. -/
theorem twin_rounds_bind {f g : Nat → Parse α}
    (h : ∀ m n, Twin lee (ParserState.Like W) (f m) (g n)) :
    Twin lee (ParserState.Like W) (rounds >>= f) (rounds >>= g) :=
  Likeness.pairs_rounds (c := sameTokens lee W) h

/-- The windows may differ, within the relation. -/
theorem twin_tokens_bind {f g : Window Lexer → Parse α}
    (h : ∀ v w, W v w → Twin lee (ParserState.Like W) (f v) (g w)) :
    Twin lee (ParserState.Like W) (tokens >>= f) (tokens >>= g) :=
  Likeness.pairs_tokens (c := sameTokens lee W) h

namespace Alongside

/-- Two parsers on the same tokens are alike. -/
theorem kindred (h : Alongside lee W ctx₁ ctx₂) : (sameTokens lee W).Kindred ctx₁ ctx₂ where
  toBounded := h.toBounded
  kept := {
    current := fun hvw ↦ h.windows.current hvw
    advances := h.windows.advance
    skips := h.windows.skipNewLines
    peeks := h.windows.peek
    nested := fun {v w list list'} hvw hlist ↦ by
      obtain rfl : list = list' := by
        rwa [show (sameTokens lee W).tokens = Eq from rfl, List.forall₂_eq_eq_eq] at hlist
      exact h.windows.nested list hvw
    lexeme := fun {t u} htu ↦ by
      obtain rfl : t = u := htu
      exact .refl (fun _ ↦ rfl) _
    position := fun {t u} htu ↦ by
      obtain rfl : t = u := htu
      rfl
    placed := fun _ ↦ trivial
    exact := .inl fun _ _ htu ↦ htu.symm
    common := fun e _ ↦ h.common e
    fuel := h.fuel }
  replaceTokens := h.replaceTokens
  build? hsub kind s t hst := (h.build? (twins_iff_serves.mpr hsub) kind s t hst).mono
    fun _ _ _ _ hab ↦ ⟨⟨hab.1.symm, fun _ _ ↦ trivial⟩, hab.2⟩

/-- Without extensions, nothing is asked but that the bounds are widened. -/
theorem of_entries (h₁ : ctx₁.registry.entries = []) (h₂ : ctx₂.registry.entries = [])
    (hbounds : Bounded lee ctx₁.limits ctx₂.limits) (hcommon : ∀ e, lee.common e)
    (hfuel : ∀ e : ScriptError, e.cause = .outOfFuel → lee.first e ∧ lee.second e)
    (hW : Window.IsTwin lee W) : Alongside lee W ctx₁ ctx₂ where
  toBounded := hbounds
  common := hcommon
  fuel := hfuel
  windows := hW
  replaceTokens s t hst := by
    rw [replaceTokens_run h₁, replaceTokens_run h₂]
    exact .ok ⟨rfl, hst⟩
  build? _ kind s t hst := by
    rw [build?_run h₁, build?_run h₂]
    exact .ok ⟨rfl, hst⟩

section

variable (h : Alongside lee W ctx₁ ctx₂)

include h

theorem current : Twin lee (ParserState.Like W) Parse.current Parse.current :=
  h.kindred.kept.current_shows

/-- The position of the current token is the same. -/
theorem position : Twin lee (ParserState.Like W) Parse.position Parse.position := fun _ _ hst ↦
  .ok ⟨congrArg Token.position (h.windows.current hst.tokens), hst⟩

theorem advance (count : Nat) (passNewLine : Bool) :
    Twin lee (ParserState.Like W) (Parse.advance count passNewLine)
      (Parse.advance count passNewLine) := h.kindred.kept.advance count passNewLine

theorem fail (cause : Cause) :
    Twin lee (ParserState.Like W) (Parse.fail cause : Parse α) (Parse.fail cause) :=
  h.kindred.kept.fail fun _ ↦ rfl

theorem looseArgsWithin (hsub : Twins lee W sub₁ sub₂) (m n : Nat) (args : List Expr) :
    Twin lee (ParserState.Like W) (Parse.looseArgsWithin sub₁ m args)
      (Parse.looseArgsWithin sub₂ n args) :=
  h.kindred.looseArgsWithin (twins_iff_serves.mp hsub) m n args

theorem run (levels₁ levels₂ m n : Nat) :
    Twins lee W (Parse.run ctx₁ levels₁ m) (Parse.run ctx₂ levels₂ n) :=
  twins_iff_serves.mpr (h.kindred.run levels₁ levels₂ m n)

theorem programWithin (hsub : Twins lee W sub₁ sub₂) (m n : Nat) (done : List Expr) :
    Twin lee (ParserState.Like W) (Parse.programWithin sub₁ m done)
      (Parse.programWithin sub₂ n done) :=
  h.kindred.programWithin (twins_iff_serves.mp hsub) m n done

end

end Alongside

/-- Two parsers side by side have the same outcome, except where something is allowed for. -/
theorem Alongside.parseProgram_conform (h : Alongside lee W ctx₁ ctx₂)
    {v w : Window Lexer} (hvw : W v w)
    (table : SymbolTable) :
    Conform lee Eq (parseProgram ctx₁ v table) (parseProgram ctx₂ w table) :=
  h.kindred.parseProgram_conform hvw table

end Parse

end ScriptFront
