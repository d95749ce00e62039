import ScriptFront.Proofs.Parse.Derivation
import ScriptFront.Proofs.Streaming

/-!
# The parser makes derivations

This module goes through the productions of the grammar once and says of each which rule of
`Derives` it follows. Only runs that succeed are looked at, so nothing has to be known about tokens:
a step of the window changes neither the names nor the counters, and that is all that is asked of
it.

`Parse.Builds` relates a state that was reached to what was open and what was defined before some
trees. The statement about a goal, `Parse.Derived`, is again the invariant of the recursion: every
production preserves it, and the parser has it for any fuel.
-/

namespace ScriptFront

/-- How much is open in a state. -/
def ParserState.openings (s : ParserState) : Openings :=
  ⟨s.statementDepth, s.parenDepth, s.expressionDepth⟩

namespace Parse

variable {α β : Type} {ctx : ParseContext} {sub : Subparser}
    {s s' s₁ s₂ : ParserState} {r r' : Role}
  {d : Openings} {t : SymbolTable} {es more : List Expr} {fuel : Nat} {start : Position}

/-- If the computation succeeds from the state `s`, `Q` holds of its result and of the state it
leaves.
-/
abbrev Upholds (x : Parse α) (s : ParserState) (Q : α → ParserState → Prop) : Prop :=
  Ensures (fun _ ↦ True) x s Q

theorem upholds_fail {cause : Cause} {Q : α → ParserState → Prop} : Upholds (fail cause) s Q :=
  .get_bind (.throw trivial)

theorem upholds_failExpected {wanted : String} {Q : α → ParserState → Prop} :
    Upholds (failExpected wanted) s Q := .ask rfl upholds_fail

/-- A check that is required. -/
theorem upholds_require {p : Prop} [Decidable p] {x : Parse Unit} {f : Unit → Parse α}
    {Q : α → ParserState → Prop} (hx : Upholds x s fun _ _ ↦ False) (h : ¬ p → Upholds (f ()) s Q) :
    Upholds (if p then x >>= f else f ()) s Q :=
  .branch (fun _ ↦ hx.bind fun _ _ h ↦ h.elim) h

/-! ## Steps that keep names and counters -/

/-- Names and counters are the same in two states. -/
structure Quiet (s s' : ParserState) : Prop where
  /-- The names. -/
  symbols : s'.symbols = s.symbols
  /-- The counters. -/
  openings : s'.openings = s.openings

theorem Quiet.refl : Quiet s s := ⟨rfl, rfl⟩

theorem Quiet.trans (h : Quiet s s₁) (h' : Quiet s₁ s₂) : Quiet s s₂ :=
  ⟨h'.symbols.trans h.symbols, h'.openings.trans h.openings⟩

/-- Wherever the computation succeeds, names and counters are the same. -/
def Silent (x : Parse α) : Prop := ∀ s, Upholds x s fun _ s' ↦ Quiet s s'

namespace Silent

theorem pure (a : α) : Silent (pure a) := fun _ ↦ .pure .refl

theorem bind {x : Parse α} {f : α → Parse β} (h : Silent x) (hf : ∀ a, Silent (f a)) :
    Silent (x >>= f) :=
  fun s ↦ (h s).bind fun a s₁ h₁ ↦ (hf a s₁).mono fun _ _ h₂ ↦ h₁.trans h₂

theorem ite {p : Prop} [Decidable p] {x y : Parse α} (hx : Silent x) (hy : Silent y) :
    Silent (if p then x else y) :=
  fun s ↦ .branch (fun _ ↦ hx s) fun _ ↦ hy s

/-- A step that is taken or not, before what follows in any case. -/
theorem optional {p : Prop} [Decidable p] {x : Parse Unit} {f : Unit → Parse α} (hx : Silent x)
    (hf : ∀ u, Silent (f u)) : Silent (if p then x >>= f else f ()) :=
  .ite (hx.bind hf) (hf ())

/-- A question does not change the state. -/
theorem ask {x : Parse α} {g : ParserState → α} (hx : ∀ s, x s = .ok (g s) s) : Silent x :=
  fun s ↦ .known (hx s) .refl

theorem onTokens (f : WindowM Lexer α) : Silent (onTokens f) := by
  intro s
  refine Ensures.mapState (Q := fun _ _ ↦ True) (onTokens_run f) ?_ fun _ _ _ ↦ ⟨rfl, rfl⟩
  exact .intro (fun _ _ _ ↦ trivial) fun _ _ _ ↦ trivial

theorem fail (cause : Cause) : Silent (fail cause : Parse α) := fun _ ↦ upholds_fail

theorem failExpected (wanted : String) : Silent (failExpected wanted : Parse α) :=
  fun _ ↦ upholds_failExpected

theorem is (text : String) : Silent (is text) := .ask fun _ ↦ rfl

theorem tokens_bind {f : Window Lexer → Parse α} (hf : ∀ w, Silent (f w)) : Silent (tokens >>= f) :=
  .bind (.ask fun _ ↦ rfl) hf

theorem rounds_bind {f : Nat → Parse α} (hf : ∀ n, Silent (f n)) : Silent (rounds >>= f) :=
  .bind (.ask fun _ ↦ rfl) hf

theorem requireProgress (before : Nat × Nat) : Silent (requireProgress before) := by
  refine .bind (.ask fun _ ↦ rfl) fun _ ↦ .bind (.ask fun _ ↦ rfl) fun _ ↦ ?_
  exact .ite (.bind (.ask fun _ ↦ rfl) fun _ ↦ .fail _) (.pure _)

theorem passSeparatorsWithin (n : Nat) : Silent (passSeparatorsWithin n) := by
  induction n with
  | zero => exact .fail _
  | succ n ih =>
    refine (onTokens _).bind fun _ ↦ (is ";").bind fun _ ↦ ?_
    exact .ite ((onTokens _).bind fun _ ↦ ih) (.pure _)

theorem passSeparators : Silent passSeparators := rounds_bind passSeparatorsWithin

theorem continuesWith (text : String) : Silent (continuesWith text) := by
  refine .bind (.ask fun _ ↦ rfl) fun _ ↦ .ite ((onTokens _).bind fun _ ↦ ?_) (is text)
  exact .optional (onTokens _) fun _ ↦ is text

theorem endStatement : Silent endStatement :=
  tokens_bind fun _ ↦ .ite (onTokens _) (.ite (failExpected _) (.pure _))

theorem paramsWithin (n : Nat) (names : List String) : Silent (paramsWithin ctx n names) := by
  induction n generalizing names with
  | zero => exact .fail _
  | succ n ih =>
    refine (is ")").bind fun _ ↦ .ite ((onTokens _).bind fun _ ↦ .pure _) ?_
    refine (onTokens _).bind fun name ↦ .optional (.fail _) fun _ ↦ (is ",").bind fun _ ↦ ?_
    refine .ite ((onTokens _).bind fun _ ↦ ih _) ((is ")").bind fun _ ↦ ?_)
    exact .optional (failExpected _) fun _ ↦ ih _

theorem params : Silent (params ctx) :=
  (onTokens _).bind fun _ ↦ rounds_bind fun n ↦ paramsWithin n []

theorem aliasesWithin (n : Nat) (done : List String) : Silent (aliasesWithin ctx n done) := by
  induction n generalizing done with
  | zero => exact .fail _
  | succ n ih =>
    refine (is ",").bind fun _ ↦ .ite ((onTokens _).bind fun _ ↦ ?_) (.pure _)
    exact (onTokens _).bind fun name ↦ .optional (.fail _) fun _ ↦ ih _

theorem mapKey : Silent mapKey := by
  refine .bind (.ask fun _ ↦ rfl) fun token ↦ ?_
  split
  · exact .pure _
  · exact .pure _
  · exact .pure _
  · exact failExpected _

theorem isForEach (parens : Bool) : Silent (isForEach parens) :=
  (onTokens _).bind fun _ ↦ .ite ((onTokens _).bind fun _ ↦ .pure _) (.pure _)

end Silent

/-! ## Trees that were built -/

/-- Some trees were read, and lead from what was open and defined before them to the state
reached. -/
structure Builds (ctx : ParseContext) (r : Role) (d : Openings) (t : SymbolTable) (es : List Expr)
    (s : ParserState) : Prop where
  /-- As much is open as before. -/
  openings : s.openings = d
  /-- The trees have a derivation. -/
  derives : Derives ctx.limits r d t es s.symbols

namespace Builds

theorem nil : Builds ctx r s.openings s.symbols [] s := ⟨rfl, .nil⟩

/-- A step that changes nothing may follow. -/
theorem quiet (h : Builds ctx r d t es s) (hq : Quiet s s') : Builds ctx r d t es s' :=
  ⟨hq.openings.trans h.openings, hq.symbols ▸ h.derives⟩

/-- A step that changes nothing may come first. -/
theorem behind (hq : Quiet s s₁) (h : Builds ctx r s₁.openings s₁.symbols es s') :
    Builds ctx r s.openings s.symbols es s' := by
  rwa [hq.openings, hq.symbols] at h

/-- What follows starts where the trees before it have led to. -/
theorem next (h : Builds ctx r d t es s) (h' : Builds ctx r' s.openings s.symbols more s') :
    Builds ctx r' d s.symbols more s' := h.openings ▸ h'

theorem append (h : Builds ctx r d t es s) (h' : Builds ctx r s.openings s.symbols more s') :
    Builds ctx r d t (es ++ more) s' := by
  have hnext := h.next h'
  exact ⟨hnext.openings, h.derives.append hnext.derives⟩

/-- Lists are collected with the last tree first. -/
theorem reverse_cons {e : Expr} (h : Builds ctx r d t es.reverse s)
    (h' : Builds ctx r s.openings s.symbols [e] s') : Builds ctx r d t (e :: es).reverse s' := by
  rw [List.reverse_cons]
  exact h.append h'

end Builds

/-- Every goal that is reached has made a derivation. -/
structure Derived (ctx : ParseContext) (sub : Subparser) : Prop where
  /-- Statements. -/
  statement : ∀ s, Upholds (sub .statement) s fun found s' ↦
    Builds ctx .statement s.openings s.symbols found.toList s'
  /-- Conditionals. -/
  conditional : ∀ s, Upholds (sub .conditional) s fun e s' ↦
    Builds ctx .conditional s.openings s.symbols [e] s'
  /-- Expressions. -/
  expression : ∀ grouped s, Upholds (sub (.expression grouped)) s fun e s' ↦
    Builds ctx (.expression 0) s.openings s.symbols [e] s'
  /-- Operands. -/
  operand : ∀ s, Upholds (sub .operand) s fun e s' ↦ Builds ctx .atom s.openings s.symbols [e] s'
  /-- Embedded sections. -/
  embedded : ∀ list s, Upholds (sub (.embedded list)) s fun e s' ↦
    Builds ctx (.expression 0) s.openings s.symbols [e] s'

/-! ## What is open -/

theorem upholds_limit {depth max : Nat} {what : Nesting} :
    Upholds (ParseContext.limit depth max what) s fun _ s' ↦ s' = s ∧ depth ≤ max :=
  .branch (fun _ ↦ upholds_fail) fun h ↦ .pure ⟨rfl, Nat.le_of_not_lt h⟩

theorem upholds_enterParen : Upholds ctx.enterParen s fun _ s' ↦
    s'.symbols = s.symbols ∧ s'.openings = s.openings.inParen ∧
      s.openings.parens + 1 ≤ ctx.limits.maxParenDepth := by
  refine .modify_bind (.get_bind (upholds_limit.mono ?_))
  rintro _ s' ⟨rfl, hbound⟩
  exact ⟨rfl, rfl, hbound⟩

theorem upholds_enterBlock : Upholds ctx.enterBlock s fun _ s' ↦
    s'.symbols = s.symbols ∧ s'.openings = s.openings.inBlock ∧
      s.openings.blocks + 1 ≤ ctx.limits.maxStatementDepth := by
  refine .modify_bind (.get_bind (upholds_limit.mono ?_))
  rintro _ s' ⟨rfl, hbound⟩
  exact ⟨rfl, rfl, hbound⟩

theorem upholds_enterCall : Upholds ctx.enterCall s fun _ s' ↦ Quiet s s' := by
  refine .modify_bind (.get_bind (upholds_limit.mono ?_))
  rintro _ s' ⟨rfl, -⟩
  exact ⟨rfl, rfl⟩

/-- One operand deeper, there is one more operand open. -/
theorem upholds_deeper {x : Parse Expr}
    (hx : ∀ s₁, s₁.symbols = s.symbols → s₁.openings = s.openings.inOperand →
      Upholds x s₁ fun e s' ↦ Builds ctx .operand s₁.openings t [e] s') :
    Upholds (ctx.deeper x) s fun e s' ↦ Builds ctx .atom s.openings t [e] s' := by
  refine Ensures.mapState (Q := fun e s' ↦ Builds ctx .operand s.openings.inOperand t [e] s' ∧
    s.openings.operands + 1 ≤ ctx.limits.maxExpressionDepth) (deeper_run ctx x) ?_ ?_
  · refine .get_bind (upholds_limit.bind ?_)
    rintro _ s₁ ⟨rfl, hbound⟩
    exact (hx { s with expressionDepth := s.expressionDepth + 1 } rfl rfl).mono fun e s' h ↦
      ⟨h, hbound⟩
  · rintro e s' ⟨h, hbound⟩
    refine ⟨?_, h.derives.atom hbound⟩
    have hopenings := h.openings
    simp_all [ParserState.openings, Openings.inOperand]

/-! ## Blocks -/

theorem statementsWithin_builds {done : List Expr} (hsub : Derived ctx sub)
    (h : Builds ctx .statement d t done.reverse s) :
    Upholds (statementsWithin sub fuel done) s fun found s' ↦
      Builds ctx .statement d t found s' := by
  induction fuel generalizing s done with
  | zero => exact upholds_fail
  | succ fuel ih =>
    rw [statementsWithin]
    refine (Silent.passSeparators s).bind fun _ s₁ h₁ ↦ .ask rfl ?_
    refine .branch (fun _ ↦ .pure (h.quiet h₁)) fun _ ↦ .ask rfl ?_
    refine upholds_require upholds_failExpected fun _ ↦ .ask rfl ?_
    refine (hsub.statement s₁).bind fun found s₂ h₂ ↦ ?_
    cases found with
    | none => exact upholds_failExpected
    | some statement =>
      have hmore := (h.quiet h₁).reverse_cons h₂
      exact (Silent.requireProgress _ s₂).bind fun _ s₃ h₃ ↦ ih (hmore.quiet h₃)

/-- Some statements were read in a scope of their own. -/
structure Encloses (ctx : ParseContext) (kind : ScopeKind) (names : List String) (s : ParserState)
    (found : List Expr × ScopeId) (s' : ParserState) : Prop where
  /-- The scope is a new one. -/
  scope : found.2 = s.symbols.scopes.size
  /-- The statements are derived in it, and it is left behind them. -/
  body : ∃ t₁ outer, Derives ctx.limits .statement s.openings.inBlock (s.symbols.opened kind names)
    found.1 t₁ ∧ t₁.pop = .ok (outer, s'.symbols)
  /-- As much is open as before. -/
  openings : s'.openings = s.openings
  /-- The bound on blocks was respected. -/
  bound : s.openings.blocks + 1 ≤ ctx.limits.maxStatementDepth

theorem upholds_popScope : Upholds popScope s fun _ s' ↦
    s'.openings = s.openings ∧ ∃ outer, s.symbols.pop = .ok (outer, s'.symbols) := by
  refine .get_bind ?_
  cases hpop : s.symbols.pop with
  | ok popped => exact .known rfl ⟨rfl, popped.1, rfl⟩
  | error cause => exact upholds_fail

theorem statementsInScope_builds {kind : ScopeKind} {names : List String} (hsub : Derived ctx sub) :
    Upholds (statementsInScope ctx sub kind names) s (Encloses ctx kind names s) := by
  rw [statementsInScope]
  refine (Silent.continuesWith _ s).bind fun found s₁ h₁ ↦ ?_
  refine upholds_require upholds_failExpected fun _ ↦ ?_
  refine upholds_enterBlock.bind ?_
  rintro _ s₂ ⟨hsymbols, hopenings, hbound⟩
  refine (Silent.onTokens _ s₂).bind fun _ s₃ h₃ ↦ .ask rfl (.ask rfl (.ask rfl ?_))
  refine (statementsWithin_builds hsub .nil).bind fun statements s₄ h₄ ↦ ?_
  refine upholds_popScope.bind ?_
  rintro _ s₅ ⟨hopenings₅, outer, hpop⟩
  refine .ask rfl ((Silent.onTokens _ _).bind fun _ s₆ h₆ ↦ .pure ?_)
  have hsymbols₃ : s₃.symbols = s.symbols := (h₃.symbols.trans hsymbols).trans h₁.symbols
  have hopenings₃ : s₃.openings = s.openings.inBlock := by
    rw [h₃.openings, hopenings, h₁.openings]
  have hbody : Derives ctx.limits .statement s₃.openings (s₃.symbols.opened kind names) statements
      s₄.symbols := h₄.derives
  rw [hopenings₃, hsymbols₃] at hbody
  refine ⟨congrArg (·.scopes.size) hsymbols₃, ⟨s₄.symbols, outer, hbody, ?_⟩, ?_,
    h₁.openings ▸ hbound⟩
  · rw [h₆.symbols]
    exact hpop
  · have hinside : s₅.openings = s.openings.inBlock :=
      hopenings₅.trans (h₄.openings.trans hopenings₃)
    rw [h₆.openings]
    simp_all [ParserState.openings, Openings.inBlock]

theorem blockWith_builds {names : List String} (hsub : Derived ctx sub) :
    Upholds (blockWith ctx sub names) s fun e s' ↦
      Builds ctx (.block names) s.openings s.symbols [e] s' := by
  refine .ask rfl ((statementsInScope_builds hsub).bind fun found s₁ h₁ ↦ .pure ⟨h₁.openings, ?_⟩)
  obtain ⟨t₁, outer, hbody, hpop⟩ := h₁.body
  rw [h₁.scope]
  exact .block hbody hpop h₁.bound

/-! ## Arguments and links -/

theorem callArgsWithin_builds {args : List Expr} (hsub : Derived ctx sub)
    (h : Builds ctx (.expression 0) d t args.reverse s) :
    Upholds (callArgsWithin sub fuel args) s fun found s' ↦
      Builds ctx (.expression 0) d t found s' := by
  induction fuel generalizing s args with
  | zero => exact upholds_fail
  | succ fuel ih =>
    rw [callArgsWithin]
    refine (Silent.onTokens _ s).bind fun _ s₁ h₁ ↦
      .ask rfl (.branch (fun _ ↦ .pure (h.quiet h₁)) fun _ ↦ ?_)
    refine (hsub.expression false s₁).bind fun arg s₂ h₂ ↦ ?_
    have hmore := (h.quiet h₁).reverse_cons h₂
    refine (Silent.onTokens _ s₂).bind fun _ s₃ h₃ ↦
      .ask rfl (.branch (fun _ ↦ ?_) fun _ ↦ .ask rfl ?_)
    · exact (Silent.onTokens _ s₃).bind fun _ s₄ h₄ ↦ ih ((hmore.quiet h₃).quiet h₄)
    · exact upholds_require upholds_failExpected fun _ ↦ ih (hmore.quiet h₃)

theorem callArgs_builds (hsub : Derived ctx sub) :
    Upholds (callArgs ctx sub) s fun args s' ↦
      Builds ctx (.expression 0) s.openings s.symbols args s' := by
  refine (Silent.onTokens _ s).bind fun _ s₁ h₁ ↦ upholds_enterCall.bind fun _ s₂ h₂ ↦ .ask rfl ?_
  refine (callArgsWithin_builds hsub .nil).bind fun args s₃ h₃ ↦ ?_
  refine (Silent.onTokens _ s₃).bind fun _ s₄ h₄ ↦ .ask rfl (.pure ?_)
  refine .behind (h₁.trans h₂) ?_
  exact (h₃.quiet h₄).quiet ⟨rfl, rfl⟩

theorem looseArgsWithin_builds {args : List Expr} (hsub : Derived ctx sub)
    (h : Builds ctx (.expression 0) d t args.reverse s) :
    Upholds (looseArgsWithin sub fuel args) s fun found s' ↦
      Builds ctx (.expression 0) d t found s' := by
  induction fuel generalizing s args with
  | zero => exact upholds_fail
  | succ fuel ih =>
    rw [looseArgsWithin]
    refine .ask rfl (.branch (fun _ ↦ ?_) fun _ ↦ .pure h)
    refine (Silent.onTokens _ s).bind fun _ s₁ h₁ ↦
      (hsub.expression false s₁).bind fun arg s₂ h₂ ↦ ?_
    exact ih ((h.quiet h₁).reverse_cons h₂)

theorem looseArgs_builds (hsub : Derived ctx sub) :
    Upholds (looseArgs ctx sub) s fun args s' ↦
      Builds ctx (.expression 0) s.openings s.symbols args s' := by
  refine upholds_enterCall.bind fun _ s₁ h₁ ↦ (hsub.expression false s₁).bind fun first s₂ h₂ ↦
    .ask rfl ?_
  refine (looseArgsWithin_builds hsub h₂).bind fun args s₃ h₃ ↦ .ask rfl (.pure ?_)
  refine .behind h₁ ?_
  exact h₃.quiet ⟨rfl, rfl⟩

theorem linksWithin_builds {links : Nat} {e : Expr} {qualified : List String}
    (hsub : Derived ctx sub)
    (h : Builds ctx (.chain links) d t [e] s) (hqualified : qualified ≠ [] → s.symbols = t) :
    Upholds (linksWithin ctx sub start fuel links e qualified) s fun found s' ↦
      Builds ctx .operand d t [found] s' := by
  induction fuel generalizing s links e qualified with
  | zero => exact upholds_fail
  | succ fuel ih =>
    rw [linksWithin]
    refine .ask rfl (.branch (fun _ ↦ ?_) fun _ ↦ .branch (fun _ ↦ ?_) fun _ ↦
      .branch (fun _ ↦ ?_) fun _ ↦ .branch (fun _ ↦ ?_) fun _ ↦ .branch (fun _ ↦ ?_) fun _ ↦ ?_)
    · refine upholds_limit.bind ?_
      rintro _ s₁ ⟨rfl, hbound⟩
      refine (Silent.onTokens _ _).bind fun _ s₂ h₂ ↦ (Silent.onTokens _ _).bind fun name s₃ h₃ ↦ ?_
      have hmember := (h.quiet h₂).quiet h₃
      refine .ask rfl (ih ⟨hmember.openings, hmember.derives.member hbound⟩ fun hne ↦ ?_)
      rw [h₃.symbols, h₂.symbols]
      exact hqualified fun hnil ↦ hne (by simp [hnil])
    · refine upholds_limit.bind ?_
      rintro _ s₁ ⟨rfl, hbound⟩
      refine (Silent.onTokens _ _).bind fun _ s₂ h₂ ↦
        (hsub.expression false s₂).bind fun key s₃ h₃ ↦ ?_
      refine (Silent.onTokens _ _).bind fun _ s₄ h₄ ↦ (Silent.onTokens _ _).bind fun _ s₅ h₅ ↦ ?_
      have hkey := (((h.quiet h₂).next h₃).quiet h₄).quiet h₅
      refine .ask rfl (ih ⟨hkey.openings, ?_⟩ fun hne ↦ absurd rfl hne)
      exact .index (h.quiet h₂).derives hkey.derives hbound
    · refine upholds_limit.bind ?_
      rintro _ s₁ ⟨rfl, hbound⟩
      refine (callArgs_builds hsub).bind fun args s₂ h₂ ↦ .ask rfl ?_
      have hargs := h.next h₂
      refine ih ⟨hargs.openings, ?_⟩ fun hne ↦ absurd rfl hne
      by_cases hnil : qualified = []
      · subst hnil
        exact .callComputed h.derives hargs.derives hbound
      · -- the chain of names leaves the table as it was
        have hsame := hqualified hnil
        rw [callOn, if_neg (by simpa using hnil)]
        exact .callQualified (hsame ▸ hargs.derives) hbound
    · refine (Silent.onTokens _ s).bind fun _ s₁ h₁ ↦ .known rfl ⟨(h.quiet h₁).openings, ?_⟩
      exact .postChange (h.quiet h₁).derives
    · refine (Silent.onTokens _ s).bind fun _ s₁ h₁ ↦ .known rfl ⟨(h.quiet h₁).openings, ?_⟩
      exact .postChange (h.quiet h₁).derives
    · exact .pure ⟨h.openings, .links h.derives⟩

theorem links_builds {e : Expr} {qualified : List String} (hsub : Derived ctx sub)
    (h : Builds ctx (.chain 0) d t [e] s) (hqualified : qualified ≠ [] → s.symbols = t) :
    Upholds (links ctx sub e qualified) s fun found s' ↦ Builds ctx .operand d t [found] s' :=
  .ask rfl (linksWithin_builds hsub h hqualified)

/-! ## Forms of operands -/

theorem named_builds {name : String} (hsub : Derived ctx sub) :
    Upholds (named ctx sub name start) s fun e s' ↦
      Builds ctx .operand s.openings s.symbols [e] s' := by
  refine .ask rfl
    (.ask rfl (.ask rfl (.branch (fun _ ↦ .ask rfl ?_) fun _ ↦ .ask rfl (.ask rfl ?_))))
  · refine .branch (fun _ ↦ ?_) fun _ ↦ .ask rfl (.ask rfl (.pure ⟨rfl, .callLoose .nil⟩))
    refine (looseArgs_builds hsub).bind fun args s₁ h₁ ↦ .ask rfl (.pure ⟨h₁.openings, ?_⟩)
    exact .callLoose h₁.derives
  · exact links_builds hsub ⟨rfl, .var⟩ fun _ ↦ rfl

theorem itemsWithin_builds {items : List Expr} {wanting : Bool} (hsub : Derived ctx sub)
    (h : Builds ctx .part d t items.reverse s) :
    Upholds (itemsWithin sub fuel items wanting) s fun found s' ↦
      Builds ctx .part d t found s' := by
  induction fuel generalizing s items wanting with
  | zero => exact upholds_fail
  | succ fuel ih =>
    rw [itemsWithin]
    refine (Silent.onTokens _ s).bind fun _ s₁ h₁ ↦
      .ask rfl (.branch (fun _ ↦ .pure (h.quiet h₁)) fun _ ↦ ?_)
    have hitems := h.quiet h₁
    refine .ask rfl (upholds_require upholds_failExpected fun _ ↦
      .ask rfl (.branch (fun _ ↦ ?_) fun _ ↦ ?_))
    · -- a place that is left empty holds a constant
      refine .branch (fun _ ↦ .ask rfl (.ask rfl (.ask rfl ?_))) fun _ ↦ .ask rfl ?_
      · refine (Silent.onTokens _ s₁).bind fun _ s₂ h₂ ↦ ih (Builds.quiet ?_ h₂)
        exact hitems.reverse_cons ⟨rfl, .partConstant⟩
      · exact (Silent.onTokens _ s₁).bind fun _ s₂ h₂ ↦ ih (hitems.quiet h₂)
    · refine upholds_require upholds_failExpected fun _ ↦ (hsub.expression false s₁).bind
        fun item s₂ h₂ ↦ ih (hitems.reverse_cons ⟨h₂.openings, .partExpression h₂.derives⟩)

theorem array_builds (hsub : Derived ctx sub) :
    Upholds (array sub) s fun e s' ↦ Builds ctx (.chain 0) s.openings s.symbols [e] s' := by
  refine .ask rfl ((Silent.onTokens _ s).bind fun _ s₁ h₁ ↦ .ask rfl ?_)
  refine (itemsWithin_builds hsub .nil).bind fun items s₂ h₂ ↦ ?_
  refine (Silent.onTokens _ s₂).bind fun _ s₃ h₃ ↦ .known rfl ?_
  have hitems := Builds.behind h₁ (h₂.quiet h₃)
  exact ⟨hitems.openings, .array hitems.derives⟩

theorem entriesWithin_builds {entries : List MapEntry} (hsub : Derived ctx sub)
    (h : Builds ctx (.expression 0) d t (entries.map MapEntry.value).reverse s) :
    Upholds (entriesWithin sub fuel entries) s fun found s' ↦
      Builds ctx (.expression 0) d t (found.map MapEntry.value) s' := by
  induction fuel generalizing s entries with
  | zero => exact upholds_fail
  | succ fuel ih =>
    rw [entriesWithin]
    refine (Silent.onTokens _ s).bind fun _ s₁ h₁ ↦ .ask rfl (.branch (fun _ ↦ .pure ?_) fun _ ↦ ?_)
    · rw [List.map_reverse]
      exact h.quiet h₁
    refine (Silent.mapKey s₁).bind fun key s₂ h₂ ↦ (Silent.onTokens _ s₂).bind fun _ s₃ h₃ ↦ ?_
    refine (Silent.onTokens _ s₃).bind fun _ s₄ h₄ ↦
      (hsub.expression false s₄).bind fun value s₅ h₅ ↦ ?_
    have hentries : Builds ctx (.expression 0) d t
        ((MapEntry.mk key value :: entries).map MapEntry.value).reverse s₅ :=
      ((((h.quiet h₁).quiet h₂).quiet h₃).quiet h₄).reverse_cons h₅
    refine (Silent.onTokens _ s₅).bind fun _ s₆ h₆ ↦
      .ask rfl (.branch (fun _ ↦ ?_) fun _ ↦ .ask rfl ?_)
    · exact (Silent.onTokens _ s₆).bind fun _ s₇ h₇ ↦ ih ((hentries.quiet h₆).quiet h₇)
    · exact upholds_require upholds_failExpected fun _ ↦ ih (hentries.quiet h₆)

theorem map_builds (hsub : Derived ctx sub) :
    Upholds (map sub) s fun e s' ↦ Builds ctx .operand s.openings s.symbols [e] s' := by
  refine .ask rfl ((Silent.onTokens _ s).bind fun _ s₁ h₁ ↦ .ask rfl ?_)
  refine (entriesWithin_builds hsub .nil).bind fun entries s₂ h₂ ↦ ?_
  refine (Silent.onTokens _ s₂).bind fun _ s₃ h₃ ↦ .known rfl ?_
  have hentries := Builds.behind h₁ (h₂.quiet h₃)
  exact ⟨hentries.openings, .map hentries.derives⟩

/-- A parameter list that may be left out, before what follows. -/
theorem upholds_optionalParams {p : Prop} [Decidable p] {f : List String → Parse α}
    {Q : α → ParserState → Prop} (hf : ∀ names s₁, Quiet s s₁ → Upholds (f names) s₁ Q) :
    Upholds (if p then params ctx >>= f else pure [] >>= f) s Q :=
  .branch (fun _ ↦ (Silent.params s).bind hf) fun _ ↦ .ask rfl (hf [] s .refl)

theorem lambda_builds (hsub : Derived ctx sub) :
    Upholds (lambda ctx sub) s fun e s' ↦ Builds ctx .operand s.openings s.symbols [e] s' := by
  refine .ask rfl ((Silent.onTokens _ s).bind fun _ s₁ h₁ ↦ .ask rfl ?_)
  refine upholds_optionalParams fun names s₂ h₂ ↦ ?_
  refine (statementsInScope_builds hsub).bind fun found s₃ h₃ ↦ .ask rfl (.pure ?_)
  refine .behind (h₁.trans h₂) ⟨h₃.openings, ?_⟩
  obtain ⟨t₁, outer, hbody, hpop⟩ := h₃.body
  rw [h₃.scope]
  exact .lambda hbody hpop h₃.bound

theorem pieces_builds {parts : List Section} (hsub : Derived ctx sub) :
    Upholds (pieces sub start parts) s fun found s' ↦
      Builds ctx .part s.openings s.symbols found s' := by
  induction parts generalizing s with
  | nil => exact .pure .nil
  | cons piece parts ih =>
    cases piece with
    | text value =>
      refine .ask rfl (ih.bind fun found s₁ h₁ ↦ .pure ?_)
      exact Builds.append ⟨rfl, .partConstant⟩ h₁
    | tokens list =>
      refine (hsub.embedded list s).bind fun e s₁ h₁ ↦ ih.bind fun found s₂ h₂ ↦ .pure ?_
      exact Builds.append ⟨h₁.openings, .partExpression h₁.derives⟩ h₂

theorem prefixed_builds {op : UnaryOp} (hsub : Derived ctx sub) :
    Upholds (prefixed sub op start) s fun e s' ↦
      Builds ctx .operand s.openings s.symbols [e] s' := by
  refine (Silent.onTokens _ s).bind fun _ s₁ h₁ ↦ (hsub.operand s₁).bind fun e s₂ h₂ ↦ .known rfl ?_
  exact .behind h₁ ⟨h₂.openings, .prefixed h₂.derives⟩

theorem prefixedChange_builds {op : UnaryOp} (hsub : Derived ctx sub) :
    Upholds (prefixedChange sub op start) s fun e s' ↦
      Builds ctx .operand s.openings s.symbols [e] s' := by
  refine (Silent.onTokens _ s).bind fun _ s₁ h₁ ↦ (hsub.operand s₁).bind fun e s₂ h₂ ↦ ?_
  refine .branch (fun _ ↦ .throw trivial) fun _ ↦ .known rfl ?_
  exact .behind h₁ ⟨h₂.openings, .prefixed h₂.derives⟩

theorem minus_builds (hsub : Derived ctx sub) :
    Upholds (minus sub start) s fun e s' ↦ Builds ctx .operand s.openings s.symbols [e] s' := by
  refine (Silent.onTokens _ s).bind fun token s₁ h₁ ↦ ?_
  cases token.lexeme.number? with
  | some n =>
    refine (Silent.onTokens _ s₁).bind fun _ s₂ h₂ ↦ .known rfl ?_
    exact Builds.behind (h₁.trans h₂) ⟨rfl, .links .constant⟩
  | none => exact (prefixed_builds hsub).mono fun e s₂ h₂ ↦ .behind h₁ h₂

theorem parenthesized_builds (hsub : Derived ctx sub) :
    Upholds (parenthesized ctx sub) s fun e s' ↦
      Builds ctx .operand s.openings s.symbols [e] s' := by
  refine upholds_enterParen.bind fun _ s₁ ⟨hsymbols, hopenings, hbound⟩ ↦ ?_
  refine (Silent.onTokens _ s₁).bind fun _ s₂ h₂ ↦
    (hsub.expression true s₂).bind fun inner s₃ h₃ ↦ ?_
  refine (Silent.onTokens _ s₃).bind fun _ s₄ h₄ ↦ .ask rfl ?_
  have hinner := h₃.quiet h₄
  rw [h₂.symbols, hsymbols, h₂.openings, hopenings] at hinner
  refine links_builds hsub ⟨?_, .parens hinner.derives hbound⟩ fun hne ↦ absurd rfl hne
  have hparens := hinner.openings
  simp_all [ParserState.openings, Openings.inParen]

/-! ## Operands -/

theorem plainOperand_builds (hsub : Derived ctx sub) :
    Upholds (plainOperand ctx sub) s fun e s' ↦
      Builds ctx .operand s.openings s.symbols [e] s' := by
  refine .ask rfl ?_
  dsimp only
  split
  · refine (Silent.onTokens _ s).bind fun _ s₁ h₁ ↦ (pieces_builds hsub).bind fun list s₂ h₂ ↦
      .known rfl ?_
    exact .behind h₁ ⟨h₂.openings, .interpolated h₂.derives⟩
  · exact (Silent.onTokens _ s).bind fun _ s₁ h₁ ↦ (named_builds hsub).mono fun e s₂ h₂ ↦
      .behind h₁ h₂
  · exact lambda_builds hsub
  · exact minus_builds hsub
  · exact prefixed_builds hsub
  · exact prefixedChange_builds hsub
  · exact prefixedChange_builds hsub
  · exact parenthesized_builds hsub
  · exact (array_builds hsub).bind fun e s₁ h₁ ↦ links_builds hsub h₁ fun hne ↦ absurd rfl hne
  · exact map_builds hsub
  · exact upholds_failExpected
  · refine .branch (fun _ ↦ ?_) fun _ ↦ upholds_fail
    refine (Silent.onTokens _ s).bind fun _ s₁ h₁ ↦ .ask rfl ?_
    exact links_builds hsub (.behind h₁ ⟨rfl, .constant⟩) fun hne ↦ absurd rfl hne

theorem operand_builds (hctx : ctx.registry.entries = []) (hsub : Derived ctx sub) :
    Upholds (operand ctx sub) s fun e s' ↦ Builds ctx .atom s.openings s.symbols [e] s' := by
  refine upholds_deeper fun s₁ hsymbols _ ↦ .ask (build?_run hctx sub .expression) ?_
  exact (plainOperand_builds hsub).mono fun e s₂ h₂ ↦ hsymbols ▸ h₂

/-! ## Expressions -/

theorem upholds_settled {found : Option α} :
    Upholds (settled found) s fun a s' ↦ s = s' ∧ found = some a := by
  cases found with
  | some a => exact .pure ⟨rfl, rfl⟩
  | none => exact upholds_failExpected

/-- What the stacks hold in a state. -/
structure Holds (ctx : ParseContext) (t : SymbolTable) (wanting : Bool) (y : Yard)
    (s : ParserState) :
    Prop where
  /-- If an operand must come next, the stacks lead to the state. -/
  wants : wanting = true → Stacked ctx.limits t s.openings y.waiting y.operands s.symbols
  /-- Otherwise the operand on top was read last. -/
  has : wanting = false → ∃ e rest t₁, y.operands = e :: rest ∧
    Stacked ctx.limits t s.openings y.waiting rest t₁ ∧
      Derives ctx.limits .atom s.openings t₁ [e] s.symbols

theorem Holds.quiet {wanting : Bool} {y : Yard} (h : Holds ctx t wanting y s) (hq : Quiet s s') :
    Holds ctx t wanting y s' := by
  refine ⟨fun hwanting ↦ ?_, fun hwanting ↦ ?_⟩
  · rw [hq.openings, hq.symbols]
    exact h.wants hwanting
  · rw [hq.openings, hq.symbols]
    exact h.has hwanting

/-- A group that is closed is an operand of what is around it. -/
theorem closeGroup_builds {yard : Yard} (hsub : Derived ctx sub) (h : Holds ctx t false yard s) :
    Upholds (closeGroup ctx sub yard) s fun y s' ↦
      Holds ctx t false y s' ∧ s.openings = s'.openings.inParen := by
  obtain ⟨e, rest, t₁, hoperands, hstack, he⟩ := h.has rfl
  obtain ⟨operands, waiting⟩ := yard
  cases hoperands
  refine .ask rfl ((Silent.onTokens _ _).bind fun _ s₁ h₁ ↦ upholds_settled.bind ?_)
  rintro ⟨group, y⟩ _ ⟨rfl, hclose⟩
  obtain ⟨d', t', hopenings, hbound, hstack', hgroup⟩ :=
    hstack.closeParen (fun _ ↦ .single he) hclose
  have hopenings₁ : s₁.openings = d' := by
    rw [h₁.openings]
    simp_all [ParserState.openings, Openings.inParen]
  rw [hopenings] at hgroup
  have hlinks : Upholds (ctx.deeper (links ctx sub group [])) s₁ fun e s' ↦
      Builds ctx .atom s₁.openings t' [e] s' := by
    refine upholds_deeper fun s₂ hsymbols₂ hopenings₂ ↦ links_builds hsub ⟨rfl, ?_⟩ fun hne ↦
      absurd rfl hne
    rw [hopenings₂, hopenings₁, hsymbols₂, h₁.symbols]
    exact .group hgroup hbound
  refine hlinks.bind fun e' s₂ h₂ ↦ .pure ⟨⟨fun hne ↦ by simp at hne, fun _ ↦ ?_⟩, ?_⟩
  · refine ⟨e', y.operands, t', rfl, ?_, ?_⟩
    · rw [h₂.openings, hopenings₁]
      exact hstack'
    · rw [h₂.openings]
      exact h₂.derives
  · rw [h₂.openings, hopenings₁, hopenings]

theorem expressionWithin_builds {grouped wanting : Bool} {groups : Nat} {yard : Yard}
    (hctx : ctx.registry.entries = []) (hsub : Derived ctx sub) (h : Holds ctx t wanting yard s) :
    Upholds (expressionWithin ctx sub grouped fuel groups wanting yard) s fun e s' ↦
      Builds ctx (.expression 0) (s.openings.closing groups) t [e] s' := by
  induction fuel generalizing s groups wanting yard with
  | zero => exact upholds_fail
  | succ fuel ih =>
    rw [expressionWithin]
    refine .optional (fun _ ↦ Silent.onTokens _ s) (fun _ ↦ .refl) fun _ s₁ h₁ ↦ ?_
    refine .ask (replaceTokens_run hctx) (.ask rfl ?_)
    have hstacks := h.quiet h₁
    rw [← h₁.openings]
    refine .branch (fun hwanting ↦ .branch (fun _ ↦ ?_) fun _ ↦ ?_) fun hwanting ↦
      .branch (fun hclose ↦ ?_) fun _ ↦ ?_
    · -- a parenthesis is opened
      refine upholds_enterParen.bind ?_
      rintro _ s₂ ⟨hsymbols, hopenings, hbound⟩
      refine (Silent.onTokens _ s₂).bind fun _ s₃ h₃ ↦
        (ih ⟨fun _ ↦ ?_, fun hne ↦ by simp at hne⟩).mono
        fun e s₄ h₄ ↦ ?_
      · rw [h₃.openings, hopenings, h₃.symbols, hsymbols]
        exact .paren (hstacks.wants hwanting) hbound
      · rw [h₃.openings, hopenings, Openings.closing_inParen] at h₄
        exact h₄
    · refine (hsub.operand s₁).bind fun e s₂ h₂ ↦ ?_
      have hhas : Holds ctx t false (yard.pushOperand e) s₂ := by
        refine ⟨fun hne ↦ by simp at hne, fun _ ↦ ⟨e, yard.operands, s₁.symbols, rfl, ?_, ?_⟩⟩
        · rw [h₂.openings]
          exact hstacks.wants hwanting
        · rw [h₂.openings]
          exact h₂.derives
      exact h₂.openings ▸ ih hhas
    · have hnot : wanting = false := by simpa using hwanting
      subst hnot
      refine (closeGroup_builds hsub hstacks).bind ?_
      rintro y s₂ ⟨h₂, hopenings⟩
      have hpos : 0 < groups := of_decide_eq_true (Bool.and_eq_true _ _ ▸ hclose).2
      obtain ⟨n, rfl⟩ := Nat.exists_eq_succ_of_ne_zero (Nat.ne_of_gt hpos)
      rw [hopenings, Openings.closing_inParen]
      exact ih h₂
    · have hnot : wanting = false := by simpa using hwanting
      subst hnot
      obtain ⟨e, rest, t₁, hoperands, hstack, he⟩ := hstacks.has rfl
      obtain ⟨operands, waiting⟩ := yard
      cases hoperands
      split
      · next op _ =>
        refine upholds_settled.bind ?_
        rintro y _ ⟨rfl, hpush⟩
        refine (Silent.onTokens _ _).bind fun _ s₂ h₂ ↦ ?_
        rw [← h₂.openings]
        refine ih ⟨fun _ ↦ ?_, fun hne ↦ by simp at hne⟩
        rw [h₂.openings, h₂.symbols]
        exact hstack.pushOperator (fun _ ↦ .single he) hpush
      · refine upholds_require upholds_fail fun _ ↦
          upholds_require upholds_failExpected fun hgroups ↦ ?_
        have hzero : groups = 0 := by omega
        subst hzero
        refine upholds_settled.mono ?_
        rintro e' _ ⟨rfl, hfinish⟩
        exact ⟨rfl, hstack.finish (fun _ ↦ .single he) hfinish⟩

theorem expression_builds {grouped : Bool} (hctx : ctx.registry.entries = [])
    (hsub : Derived ctx sub) :
    Upholds (expression ctx sub grouped) s fun e s' ↦
      Builds ctx (.expression 0) s.openings s.symbols [e] s' :=
  .ask rfl (expressionWithin_builds hctx hsub ⟨fun _ ↦ .empty, fun hne ↦ by simp at hne⟩)

/-! ## Statements -/

theorem upholds_defineTarget {target : Expr} {op : AssignOp} :
    Upholds (defineTarget target op) s fun _ s' ↦
      s'.symbols = s.symbols.assigned target op ∧ s'.openings = s.openings := by
  rw [defineTarget, SymbolTable.assigned]
  split
  · cases target.varName? with
    | none => exact .pure ⟨rfl, rfl⟩
    | some name => exact .known rfl ⟨rfl, rfl⟩
  · exact .pure ⟨rfl, rfl⟩

theorem simpleStatement_builds (hsub : Derived ctx sub) :
    Upholds (simpleStatement sub) s fun e s' ↦
      Builds ctx .simple s.openings s.symbols [e] s' := by
  refine .ask rfl ((hsub.expression false s).bind fun target s₁ h₁ ↦ .ask rfl ?_)
  split
  · exact .pure ⟨h₁.openings, .simpleExpression h₁.derives⟩
  · next op _ =>
    refine .branch (fun _ ↦ .throw trivial) fun _ ↦ (Silent.onTokens _ s₁).bind fun _ s₂ h₂ ↦ ?_
    refine (hsub.expression false s₂).bind fun value s₃ h₃ ↦ ?_
    have hvalue := (h₁.quiet h₂).next h₃
    refine upholds_defineTarget.bind fun _ s₄ ⟨hsymbols, hopenings⟩ ↦ .ask rfl (.pure ⟨?_, ?_⟩)
    · exact hopenings.trans hvalue.openings
    · have hcurrent : s₄.symbols.current = s₃.symbols.current := by
        rw [hsymbols]
        exact (SymbolTable.grows_assigned _ _ _).current
      rw [hcurrent, hsymbols]
      exact .assignment (h₁.quiet h₂).derives hvalue.derives

theorem declaration_builds (hsub : Derived ctx sub) :
    Upholds (declaration sub) s fun e s' ↦
      Builds ctx .declaration s.openings s.symbols [e] s' := by
  refine .ask rfl ((Silent.onTokens _ s).bind fun name s₁ h₁ ↦ .ask rfl (.ask rfl ?_))
  -- the name is defined before its initial value is read
  have hnone : Builds ctx (.expression 0) s.openings (s.symbols.defineVar name) []
      { s₁ with symbols := s₁.symbols.defineVar name } :=
    ⟨h₁.openings, h₁.symbols ▸ .nil⟩
  have hmade (value : Option Expr) (s' : ParserState)
      (h : Builds ctx (.expression 0) s.openings (s.symbols.defineVar name) value.toList s') :
      Builds ctx .declaration s.openings s.symbols
        [.mk (.assign (.mk (.var name) s.tokens.position s'.symbols.current) .assign value true)
          s.tokens.position s'.symbols.current] s' := ⟨h.openings, .declaration h.derives⟩
  refine .branch (fun _ ↦ ?_) fun _ ↦ .ask rfl (.ask rfl (.pure (hmade none _ hnone)))
  refine (Silent.onTokens _ _).bind fun _ s₂ h₂ ↦
    (hsub.expression false s₂).bind fun value s₃ h₃ ↦ ?_
  exact .ask rfl (.ask rfl (.pure (hmade (some value) _ ((hnone.quiet h₂).append h₃))))

theorem declarationsWithin_builds {done : List Expr} (hsub : Derived ctx sub)
    (h : Builds ctx .declaration d t done.reverse s) :
    Upholds (declarationsWithin sub fuel done) s fun found s' ↦
      Builds ctx .declaration d t found s' := by
  induction fuel generalizing s done with
  | zero => exact upholds_fail
  | succ fuel ih =>
    rw [declarationsWithin]
    refine (declaration_builds hsub).bind fun entry s₁ h₁ ↦ ?_
    have hentries := h.reverse_cons h₁
    refine .ask rfl (.branch (fun _ ↦ ?_) fun _ ↦ .pure hentries)
    exact (Silent.onTokens _ s₁).bind fun _ s₂ h₂ ↦ ih (hentries.quiet h₂)

theorem varStatement_builds (hsub : Derived ctx sub) :
    Upholds (varStatement sub) s fun e s' ↦ Builds ctx .simple s.openings s.symbols [e] s' := by
  refine .ask rfl ((Silent.onTokens _ s).bind fun _ s₁ h₁ ↦ .ask rfl ?_)
  refine (declarationsWithin_builds hsub .nil).bind fun entries s₂ h₂ ↦ ?_
  have hentries := Builds.behind h₁ h₂
  split
  · exact .pure ⟨hentries.openings, .declared hentries.derives⟩
  · exact .known rfl ⟨hentries.openings, .declarations hentries.derives⟩

theorem returnStatement_builds (hsub : Derived ctx sub) :
    Upholds (returnStatement sub) s fun e s' ↦
      Builds ctx .statement s.openings s.symbols [e] s' := by
  refine .ask rfl ((Silent.onTokens _ s).bind fun _ s₁ h₁ ↦ .ask rfl ?_)
  have hmade (value : Option Expr) (s' : ParserState)
      (h : Builds ctx (.expression 0) s₁.openings s₁.symbols value.toList s') :
      Builds ctx .statement s.openings s.symbols
        [.mk (.returning value) s.tokens.position s'.symbols.current] s' :=
    .behind h₁ ⟨h.openings, .returning h.derives⟩
  refine .branch (fun _ ↦ .known rfl (hmade none s₁ .nil)) fun _ ↦ ?_
  exact (hsub.expression false s₁).bind fun value s₂ h₂ ↦ .known rfl (hmade (some value) s₂ h₂)

theorem throwStatement_builds (hsub : Derived ctx sub) :
    Upholds (throwStatement sub) s fun e s' ↦
      Builds ctx .statement s.openings s.symbols [e] s' := by
  refine .ask rfl ((Silent.onTokens _ s).bind fun _ s₁ h₁ ↦
    (hsub.expression false s₁).bind fun value s₂ h₂ ↦ ?_)
  exact .known rfl (.behind h₁ ⟨h₂.openings, .throwing h₂.derives⟩)

theorem wordStatement_builds {form : Form} {Q : Expr → ParserState → Prop}
    (hQ : ∀ position s', Quiet s s' → Q (.mk form position s'.symbols.current) s') :
    Upholds (wordStatement form) s Q :=
  .ask rfl ((Silent.onTokens _ s).bind fun _ s₁ h₁ ↦ .known rfl (hQ _ s₁ h₁))

/-! ## Branches and loops -/

theorem blockOrStatement_builds (hsub : Derived ctx sub) :
    Upholds (blockOrStatement ctx sub) s fun e s' ↦
      Builds ctx (.block []) s.openings s.symbols [e] s' := by
  refine (Silent.onTokens _ s).bind fun _ s₁ h₁ ↦
    .ask rfl (.branch (fun _ ↦ ?_) fun _ ↦ .ask rfl ?_)
  · exact (blockWith_builds hsub).mono fun e s₂ h₂ ↦ .behind h₁ h₂
  · refine upholds_enterBlock.bind fun _ s₂ ⟨hsymbols, hopenings, hbound⟩ ↦ .ask rfl ?_
    refine (hsub.statement _).bind fun found s₃ h₃ ↦ ?_
    cases found with
    | none => exact upholds_failExpected
    | some statement =>
      refine upholds_popScope.bind fun _ s₄ ⟨hopenings₄, outer, hpop⟩ ↦ .ask rfl (.pure ?_)
      have hbody :
          Derives ctx.limits .statement s₂.openings (s₂.symbols.opened .block []) [statement]
          s₃.symbols := h₃.derives
      rw [hopenings, hsymbols] at hbody
      refine .behind h₁ ⟨?_, ?_⟩
      · have hinside : s₄.openings = s₁.openings.inBlock :=
          hopenings₄.trans (h₃.openings.trans hopenings)
        simp_all [ParserState.openings, Openings.inBlock]
      · rw [hsymbols]
        exact .block hbody hpop hbound

theorem guarded_builds (hsub : Derived ctx sub) :
    Upholds (guarded ctx sub) s fun e s' ↦
      Builds ctx (.block []) s.openings s.symbols [e] s' := by
  refine .ask rfl (.branch (fun _ ↦ ?_) fun _ ↦ ?_)
  · exact (Silent.onTokens _ s).bind fun _ s₁ h₁ ↦ (blockOrStatement_builds hsub).mono
      fun e s₂ h₂ ↦ .behind h₁ h₂
  · refine (Silent.continuesWith _ s).bind fun found s₁ h₁ ↦ .branch (fun _ ↦ ?_) fun _ ↦
      upholds_failExpected
    exact (blockWith_builds hsub).mono fun e s₂ h₂ ↦ .behind h₁ h₂

theorem alternative_builds (hsub : Derived ctx sub) :
    Upholds (alternative ctx sub) s fun e s' ↦
      Builds ctx .alternative s.openings s.symbols [e] s' := by
  refine .ask rfl (.branch (fun _ ↦ ?_) fun _ ↦ ?_)
  · refine upholds_enterBlock.bind fun _ s₁ ⟨hsymbols, hopenings, hbound⟩ ↦ ?_
    refine (hsub.conditional s₁).bind fun e s₂ h₂ ↦ .ask rfl (.pure ?_)
    rw [hsymbols, hopenings] at h₂
    refine ⟨?_, .chained h₂.derives hbound⟩
    have hinside := h₂.openings
    simp_all [ParserState.openings, Openings.inBlock]
  · exact (blockOrStatement_builds hsub).mono fun e s₁ h₁ ↦
      ⟨h₁.openings, .alternativeBlock h₁.derives⟩

theorem conditional_builds (hsub : Derived ctx sub) :
    Upholds (conditional ctx sub) s fun e s' ↦
      Builds ctx .conditional s.openings s.symbols [e] s' := by
  refine .ask rfl ((Silent.onTokens _ s).bind fun _ s₁ h₁ ↦ ?_)
  refine (hsub.expression false s₁).bind fun test s₂ h₂ ↦
    (guarded_builds hsub).bind fun body s₃ h₃ ↦ ?_
  have htest := Builds.behind h₁ h₂
  have hbody := htest.next h₃
  refine (Silent.continuesWith _ s₃).bind fun found s₄ h₄ ↦ ?_
  have hmade (elseBranch : Option Expr) (s' : ParserState)
      (h : Builds ctx .alternative s.openings s₃.symbols elseBranch.toList s') :
      Builds ctx .conditional s.openings s.symbols
        [.mk (.conditional test body elseBranch) s.tokens.position s'.symbols.current] s' :=
    ⟨h.openings, .conditional htest.derives hbody.derives h.derives⟩
  refine .branch (fun _ ↦ ?_) fun _ ↦ .known rfl (hmade none s₄ ?_)
  · refine (Silent.onTokens _ s₄).bind fun _ s₅ h₅ ↦ (alternative_builds hsub).bind
      fun elseBranch s₆ h₆ ↦ .known rfl (hmade (some elseBranch) s₆ ?_)
    exact hbody.next (Builds.behind (h₄.trans h₅) h₆)
  · exact Builds.quiet ⟨hbody.openings, .nil⟩ h₄

theorem whileStatement_builds (hsub : Derived ctx sub) :
    Upholds (whileStatement ctx sub) s fun e s' ↦
      Builds ctx .statement s.openings s.symbols [e] s' := by
  refine .ask rfl ((Silent.onTokens _ s).bind fun _ s₁ h₁ ↦ ?_)
  refine (hsub.expression false s₁).bind fun test s₂ h₂ ↦
    (guarded_builds hsub).bind fun body s₃ h₃ ↦ ?_
  have htest := Builds.behind h₁ h₂
  have hbody := htest.next h₃
  exact .known rfl ⟨hbody.openings, .whileLoop htest.derives hbody.derives⟩

theorem forEachStatement_builds {parens : Bool} (hsub : Derived ctx sub) :
    Upholds (forEachStatement ctx sub start parens) s fun e s' ↦
      Builds ctx .statement s.openings s.symbols [e] s' := by
  rw [forEachStatement]
  refine .optional (fun _ ↦ Silent.onTokens _ s) (fun _ ↦ .refl) fun _ s₁ h₁ ↦ ?_
  refine (Silent.onTokens _ s₁).bind fun name s₂ h₂ ↦ (Silent.onTokens _ s₂).bind fun _ s₃ h₃ ↦ ?_
  refine (hsub.expression false s₃).bind fun source s₄ h₄ ↦ ?_
  have hsource := Builds.behind ((h₁.trans h₂).trans h₃) h₄
  refine .optional (fun _ ↦ Silent.onTokens _ s₄) (fun _ ↦ .refl) fun _ s₅ h₅ ↦ ?_
  refine (blockWith_builds hsub).bind fun body s₆ h₆ ↦ .known rfl ?_
  have hbody := (hsource.quiet h₅).next h₆
  exact ⟨hbody.openings, .forEach (hsource.quiet h₅).derives hbody.derives⟩

theorem countingLoop_builds (hsub : Derived ctx sub) :
    Upholds (countingLoop ctx sub start) s fun e s' ↦
      Builds ctx .statement s.openings s.symbols [e] s' := by
  refine (Silent.onTokens _ s).bind fun _ s₁ h₁ ↦ .ask rfl (.ask rfl ?_)
  have hrest (initial : Expr) (s₂ : ParserState)
      (h₂ : Builds ctx .simple s₁.openings (s₁.symbols.opened .block []) [initial] s₂) :
      Upholds (do
        expect ";" true
        let condition ← sub (.expression false)
        expect ";" true
        let increment ← simpleStatement sub
        expect ")" false
        let body ← block ctx sub
        popScope
        return Expr.mk (.forLoop initial condition increment body) start s₁.symbols.scopes.size) s₂
        fun e s' ↦ Builds ctx .statement s.openings s.symbols [e] s' := by
    refine (Silent.onTokens _ s₂).bind fun _ s₃ h₃ ↦
      (hsub.expression false s₃).bind fun test s₄ h₄ ↦ ?_
    have htest := (h₂.quiet h₃).next h₄
    refine (Silent.onTokens _ s₄).bind fun _ s₅ h₅ ↦ (simpleStatement_builds hsub).bind
      fun increment s₆ h₆ ↦ ?_
    have hincrement := (htest.quiet h₅).next h₆
    refine (Silent.onTokens _ s₆).bind fun _ s₇ h₇ ↦
      (blockWith_builds hsub).bind fun body s₈ h₈ ↦ ?_
    have hbody := (hincrement.quiet h₇).next h₈
    refine upholds_popScope.bind fun _ s₉ ⟨hopenings, outer, hpop⟩ ↦ .pure (.behind h₁ ⟨?_, ?_⟩)
    · exact hopenings.trans hbody.openings
    · exact .forLoop (h₂.quiet h₃).derives (htest.quiet h₅).derives (hincrement.quiet h₇).derives
        hbody.derives hpop
  refine .branch (fun _ ↦ ?_) fun _ ↦ ?_
  · exact (varStatement_builds hsub).bind fun initial s₂ h₂ ↦ hrest initial s₂ h₂
  · exact (simpleStatement_builds hsub).bind fun initial s₂ h₂ ↦ hrest initial s₂ h₂

theorem forStatement_builds (hsub : Derived ctx sub) :
    Upholds (forStatement ctx sub) s fun e s' ↦
      Builds ctx .statement s.openings s.symbols [e] s' := by
  refine .ask rfl ((Silent.onTokens _ s).bind fun _ s₁ h₁ ↦ .ask rfl ?_)
  refine (Silent.isForEach _ s₁).bind fun _ s₂ h₂ ↦ .branch (fun _ ↦ ?_) fun _ ↦ ?_
  · exact (forEachStatement_builds hsub).mono fun e s₃ h₃ ↦ .behind (h₁.trans h₂) h₃
  · exact (countingLoop_builds hsub).mono fun e s₃ h₃ ↦ .behind (h₁.trans h₂) h₃

theorem tryStatement_builds (hsub : Derived ctx sub) :
    Upholds (tryStatement ctx sub) s fun e s' ↦
      Builds ctx .statement s.openings s.symbols [e] s' := by
  refine .ask rfl ((Silent.onTokens _ s).bind fun _ s₁ h₁ ↦
    (blockWith_builds hsub).bind fun body s₂ h₂ ↦ ?_)
  have hbody := Builds.behind h₁ h₂
  refine (Silent.continuesWith _ s₂).bind fun found s₃ h₃ ↦
    upholds_require upholds_failExpected fun _ ↦ ?_
  refine (Silent.onTokens _ s₃).bind fun _ s₄ h₄ ↦ .ask rfl ?_
  refine .optional (fun _ ↦ Silent.onTokens _ s₄) (fun _ ↦ .refl) fun _ s₅ h₅ ↦ ?_
  refine (Silent.onTokens _ s₅).bind fun name s₆ h₆ ↦ ?_
  refine .optional (fun _ ↦ Silent.onTokens _ s₆) (fun _ ↦ .refl) fun _ s₇ h₇ ↦ ?_
  have hcatch := hbody.quiet ((((h₃.trans h₄).trans h₅).trans h₆).trans h₇)
  refine (blockWith_builds hsub).bind fun handler s₈ h₈ ↦ .known rfl ?_
  have hhandler := hcatch.next h₈
  exact ⟨hhandler.openings, .tryCatch hcatch.derives hhandler.derives⟩

theorem functionStatement_builds (hsub : Derived ctx sub) :
    Upholds (functionStatement ctx sub) s fun e s' ↦
      Builds ctx .statement s.openings s.symbols [e] s' := by
  refine .ask rfl ((Silent.onTokens _ s).bind fun _ s₁ h₁ ↦
    (Silent.onTokens _ s₁).bind fun name s₂ h₂ ↦ .ask rfl ?_)
  refine .optional (fun _ ↦ Silent.onTokens _ s₂) (fun _ ↦ .refl) fun _ s₃ h₃ ↦ .ask rfl ?_
  refine (Silent.aliasesWithin _ _ s₃).bind fun aliases s₄ h₄ ↦ .ask rfl ?_
  refine upholds_optionalParams fun names s₅ h₅ ↦ .ask rfl ?_
  have hquiet := (((h₁.trans h₂).trans h₃).trans h₄).trans h₅
  refine (statementsInScope_builds hsub).bind fun found s₆ h₆ ↦ .ask rfl (.ask rfl (.pure ?_))
  obtain ⟨t₁, outer, hbody, hpop⟩ := h₆.body
  have hderives := Derives.function hbody hpop h₆.bound
    (show FunctionDecl.mk _ found.1 _ s.tokens.position = _ from rfl)
  rw [← h₆.scope, ← SymbolTable.current_attachDecl] at hderives
  exact .behind hquiet ⟨h₆.openings, hderives⟩

/-! ## All statements -/

theorem ended_builds {x : Parse Expr}
    (hx : Upholds x s fun e s' ↦ Builds ctx .statement s.openings s.symbols [e] s') :
    Upholds (ended x) s fun found s' ↦ Builds ctx .statement s.openings s.symbols found.toList s' :=
  hx.bind fun _ s₁ h₁ ↦ (Silent.endStatement s₁).bind fun _ _ h₂ ↦ .pure (h₁.quiet h₂)

theorem simple_builds (hsub : Derived ctx sub) :
    Upholds (ended (simpleStatement sub)) s fun found s' ↦
      Builds ctx .statement s.openings s.symbols found.toList s' :=
  ended_builds ((simpleStatement_builds hsub).mono fun _ _ h ↦ ⟨h.openings, .simple h.derives⟩)

theorem plainStatement_builds (hsub : Derived ctx sub) :
    Upholds (plainStatement ctx sub) s fun found s' ↦
      Builds ctx .statement s.openings s.symbols found.toList s' := by
  refine .ask rfl ?_
  split
  · exact (conditional_builds hsub).bind fun e s₁ h₁ ↦ .pure ⟨h₁.openings, .branching h₁.derives⟩
  · exact (whileStatement_builds hsub).bind fun e s₁ h₁ ↦ .pure h₁
  · exact (forStatement_builds hsub).bind fun e s₁ h₁ ↦ .pure h₁
  · exact (tryStatement_builds hsub).bind fun e s₁ h₁ ↦ .pure h₁
  · refine (Silent.onTokens _ s).bind fun _ s₁ h₁ ↦ .branch (fun _ ↦ ?_) fun _ ↦ ?_
    · exact (functionStatement_builds hsub).bind fun e s₂ h₂ ↦ .pure (.behind h₁ h₂)
    · exact (simple_builds hsub).mono fun e s₂ h₂ ↦ .behind h₁ h₂
  · exact (blockWith_builds hsub).bind fun e s₁ h₁ ↦ .pure ⟨h₁.openings, .nested h₁.derives⟩
  · exact ended_builds ((varStatement_builds hsub).mono fun _ _ h ↦ ⟨h.openings, .simple h.derives⟩)
  · exact ended_builds (returnStatement_builds hsub)
  · exact ended_builds (throwStatement_builds hsub)
  · exact ended_builds (wordStatement_builds fun _ _ hq ↦ .behind hq ⟨rfl, .breakLoop⟩)
  · exact ended_builds (wordStatement_builds fun _ _ hq ↦ .behind hq ⟨rfl, .continueLoop⟩)
  · exact upholds_fail
  · exact simple_builds hsub

theorem statement_builds (hctx : ctx.registry.entries = []) (hsub : Derived ctx sub) :
    Upholds (statement ctx sub) s fun found s' ↦
      Builds ctx .statement s.openings s.symbols found.toList s' := by
  refine (Silent.passSeparators s).bind fun _ s₁ h₁ ↦ .ask rfl ?_
  refine .branch (fun _ ↦ .pure (.behind h₁ .nil)) fun _ ↦ ?_
  refine .ask (replaceTokens_run hctx) (.ask (build?_run hctx sub .statement) ?_)
  exact (plainStatement_builds hsub).mono fun found s₂ h₂ ↦ .behind h₁ h₂

/-! ## The parser -/

theorem embeddedWith_builds {subs : Nat → Subparser} (hsubs : ∀ n, Derived ctx (subs n))
    (list : List Token) :
    Upholds (embeddedWith subs list) s fun e s' ↦
      Builds ctx (.expression 0) s.openings s.symbols [e] s' := by
  refine Ensures.mapState (Q := fun e s' ↦ Builds ctx (.expression 0) s.openings s.symbols [e] s')
    (aside_run list _) ?_ fun e s' h ↦ ⟨h.openings, h.derives⟩
  refine .ask rfl (((hsubs _).expression false _).bind fun e s₁ h₁ ↦ .ask rfl ?_)
  exact upholds_require upholds_failExpected fun _ ↦ .pure h₁

theorem derived_runWith {inner : (fuel : Nat) → List Token → Parse Expr}
    (hctx : ctx.registry.entries = [])
    (hinner : ∀ fuel list s, Upholds (inner fuel list) s fun e s' ↦
      Builds ctx (.expression 0) s.openings s.symbols [e] s') (fuel : Nat) :
    Derived ctx (runWith ctx inner fuel) := by
  induction fuel with
  | zero =>
    exact ⟨fun _ ↦ upholds_fail, fun _ ↦ upholds_fail, fun _ _ ↦ upholds_fail, fun _ ↦ upholds_fail,
      fun _ _ ↦ upholds_fail⟩
  | succ fuel ih =>
    exact ⟨fun _ ↦ statement_builds hctx ih, fun _ ↦ conditional_builds ih,
      fun _ _ ↦ expression_builds hctx ih, fun _ ↦ operand_builds hctx ih, fun list s ↦
        hinner fuel list s⟩

/-- The parser makes derivations, for any fuel. -/
theorem derived_run (hctx : ctx.registry.entries = []) (levels fuel : Nat) :
    Derived ctx (run ctx levels fuel) := by
  induction levels generalizing fuel with
  | zero => exact derived_runWith hctx (fun _ _ _ ↦ upholds_fail) fuel
  | succ levels ih =>
    exact derived_runWith hctx (fun _ list _ ↦ embeddedWith_builds (fun _ ↦ ih _) list) fuel

theorem programWithin_builds {done : List Expr} (hsub : Derived ctx sub)
    (h : Builds ctx .statement d t done.reverse s) :
    Upholds (programWithin sub fuel done) s fun found s' ↦ Builds ctx .statement d t found s' := by
  induction fuel generalizing s done with
  | zero => exact upholds_fail
  | succ fuel ih =>
    rw [programWithin]
    refine .ask rfl ((hsub.statement s).bind fun found s₁ h₁ ↦ ?_)
    cases found with
    | none =>
      refine .pure ?_
      have hall := h.append h₁
      rwa [Option.toList, List.append_nil] at hall
    | some statement =>
      exact (Silent.requireProgress _ s₁).bind fun _ s₂ h₂ ↦ ih ((h.reverse_cons h₁).quiet h₂)

/-- **Every parsed program has a derivation.** Without extensions, the statements of a program are
derived from nothing open and from the names that were there before, and lead to its symbols. -/
theorem parseProgram_derives (hctx : ctx.registry.entries = []) {w : Window Lexer} {p : Program}
    (h : parseProgram ctx w t = .ok p) :
    Derives ctx.limits .statement .none t p.statements p.symbols := by
  have hrun : Upholds (program ctx) (.initial w t) fun found s' ↦
      Builds ctx .statement .none t found s' :=
    .ask rfl (.ask rfl (programWithin_builds (derived_run hctx _ _) ⟨rfl, .nil⟩))
  rw [parseProgram] at h
  split at h
  · next hprogram =>
    cases h
    exact (hrun.of_ok hprogram).derives
  · cases h

end Parse

namespace Frontend

variable {f : Frontend} {text : String} {p : Program}

/-- So has every accepted script. -/
theorem parse_derives (hf : f.registry.entries = []) (h : f.parse text = .ok p) :
    Derives f.settings.limits .statement .none f.host p.statements p.symbols := by
  have hinner := named_eq_ok_iff.mp h
  split at hinner
  · cases hinner
  · split at hinner
    · cases hinner
    · exact Parse.parseProgram_derives hf hinner

end Frontend

end ScriptFront
