import ScriptFront.Extension.Recipe
import ScriptFront.Proofs.Balance
import ScriptFront.Proofs.Extension.Claims
import ScriptFront.Proofs.Parse.Rounds
import ScriptFront.Proofs.Parse.Shapes
import ScriptFront.Proofs.Tree.Depth

/-!
# Operands that extensions build

Wherever an operand is due, extensions are asked first. There are two such places. The loop over
operands and operators comes to points at which an operand is wanted, and a prefix operator asks for
the one behind it. In both an extension that claims the tokens ahead builds the operand: if its
builder fails, there is no expression, and otherwise its node is put on the stack of operands and
stays in the tree, since whatever becomes of the stacks later, nothing on them is taken apart.

There is one exception. An opening parenthesis that the loop comes to is taken for a group before
any extension is asked, so an extension that starts at a parenthesis has its turn behind a prefix
operator only.
-/

namespace ScriptFront

/-! ## Nodes within a tree -/

/-- A node is within a tree: it is the one at the top, or it is within one of the trees right
below. -/
inductive Expr.IsWithin (e : Expr) : Expr → Prop
  /-- The node at the top. -/
  | top : e.IsWithin e
  /-- A node further down. -/
  | under {child whole : Expr} (hchild : child ∈ whole.children) (h : e.IsWithin child) :
    e.IsWithin whole

/-- What holds of a tree holds of every tree that it is a part of. -/
def Expr.Rises (p : Expr → Prop) : Prop :=
  ∀ child whole : Expr, child ∈ whole.children → p child → p whole

theorem Expr.rises_isWithin (e : Expr) : Rises e.IsWithin := fun _ _ hchild h ↦ .under hchild h

theorem Parse.children_callOn (target : Expr) (args : List Expr) :
    (callOn target [] args).children = target :: args := rfl

namespace Yard

variable {p : Expr → Prop} {y z : Yard}

/-! ## Stacks keep what is on them -/

/-- Some operand has the property. -/
def Has (p : Expr → Prop) (y : Yard) : Prop := ∃ e ∈ y.operands, p e

theorem Has.pushOperand (h : y.Has p) (e : Expr) : (y.pushOperand e).Has p :=
  h.imp fun _ he ↦ ⟨List.mem_cons_of_mem _ he.1, he.2⟩

/-- Applying operators puts operands below others. -/
theorem has_settle (hp : Expr.Rises p) {waits : Operator → Bool} {waiting : List Waiting}
    {operands : List Expr} (h : ∃ e ∈ operands, p e)
    (hsettle : settle waits waiting operands = some y) :
    y.Has p := by
  induction waiting generalizing operands with
  | nil =>
    cases hsettle
    exact h
  | cons top waiting ih =>
    cases top with
    | paren below =>
      cases hsettle
      exact h
    | operator op =>
      rw [settle] at hsettle
      split at hsettle
      · cases hsettle
        exact h
      · rcases operands with _ | ⟨right, _ | ⟨left, rest⟩⟩
        · simp [combine] at hsettle
        · simp [combine] at hsettle
        · refine ih ?_ hsettle
          obtain ⟨e, he, hpe⟩ := h
          have hrises (child : Expr) (hchild : child ∈ [left, right]) (hpchild : p child) :
              p (.operation op left right) :=
            hp child _ (Expr.children_operation op left right ▸ hchild) hpchild
          rcases List.mem_cons.mp he with rfl | he
          · exact ⟨_, List.mem_cons_self, hrises e (by simp) hpe⟩
          · rcases List.mem_cons.mp he with rfl | he
            · exact ⟨_, List.mem_cons_self, hrises e (by simp) hpe⟩
            · exact ⟨e, List.mem_cons_of_mem _ he, hpe⟩

theorem Has.pushOperator (hp : Expr.Rises p) {op : Operator} (h : y.Has p)
    (hpush : y.pushOperator op = some z) : z.Has p := by
  rw [Yard.pushOperator, Option.map_eq_some_iff] at hpush
  obtain ⟨settled, hsettle, rfl⟩ := hpush
  exact (has_settle hp h hsettle : settled.Has p)

/-- An operand is in the group that is closed, or it stays where it is. -/
theorem Has.closeParen (hp : Expr.Rises p) {group : Expr} (h : y.Has p)
    (hclose : y.closeParen = some (group, z)) : p group ∨ z.Has p := by
  rw [Yard.closeParen] at hclose
  split at hclose
  · next hsettle =>
    split at hclose
    · cases hclose
      obtain ⟨e, he, hpe⟩ := has_settle hp h hsettle
      rcases List.mem_cons.mp he with rfl | he
      · exact .inl hpe
      · exact .inr ⟨e, he, hpe⟩
    · cases hclose
  · cases hclose

theorem Has.finish (hp : Expr.Rises p) {e : Expr} (h : y.Has p) (hfinish : y.finish = some e) :
    p e := by
  rw [Yard.finish] at hfinish
  split at hfinish
  · next hsettle =>
    cases hfinish
    obtain ⟨e', he', hpe⟩ := has_settle hp h hsettle
    rwa [List.mem_singleton.mp he'] at hpe
  · cases hfinish

end Yard

namespace Parse

variable {ctx : ParseContext} {sub : Subparser} {p : Expr → Prop} {α β : Type}

/-- Nothing is asked of the result. -/
theorem Gives.any {x : Parse α} : Gives False x fun _ ↦ True :=
  fun _ _ ↦ .intro (fun _ _ _ ↦ ⟨False.elim, trivial⟩) fun _ _ _ ↦ trivial

/-! ## Expressions keep their operands -/

/-- Links are put around the operand that they follow. -/
theorem linksWithin_gives_rising (hp : Expr.Rises p) {start : Position}
    {fuel links : Nat} {e : Expr}
    (h : p e) : Gives False (linksWithin ctx sub start fuel links e []) p := by
  induction fuel generalizing links e with
  | zero => exact .fail
  | succ fuel ih =>
    rw [linksWithin]
    refine Gives.current.bind fun t _ ↦ .branch (fun _ ↦ ?member) fun _ ↦
      .branch (fun _ ↦ ?index) fun _ ↦
      .branch (fun _ ↦ ?call) fun _ ↦ .branch (fun _ ↦ ?increment) fun _ ↦
        .branch (fun _ ↦ ?decrement) fun _ ↦ .pure h
    case member =>
      refine Gives.any.bind fun _ _ ↦ Gives.any.bind fun _ _ ↦ Gives.any.bind fun name _ ↦ ?_
      exact .bind (.node fun _ ↦ hp e _ (List.mem_cons_self ..) h) fun _ hlink ↦ ih hlink
    case index =>
      refine Gives.any.bind fun _ _ ↦ Gives.any.bind fun _ _ ↦ Gives.any.bind fun key _ ↦
        Gives.any.bind fun _ _ ↦ Gives.any.bind fun _ _ ↦ ?_
      exact .bind (.node fun _ ↦ hp e _ (List.mem_cons_self ..) h) fun _ hlink ↦ ih hlink
    case call =>
      refine Gives.any.bind fun _ _ ↦ Gives.any.bind fun args _ ↦ Gives.any.bind fun scope _ ↦ ?_
      exact ih (hp e _ (children_callOn e args ▸ List.mem_cons_self ..) h)
    case increment => exact Gives.any.bind fun _ _ ↦ .node fun _ ↦ hp e _ (List.mem_cons_self ..) h
    case decrement => exact Gives.any.bind fun _ _ ↦ .node fun _ ↦ hp e _ (List.mem_cons_self ..) h

/-- A group that is closed is one operand, with its links around it. -/
theorem closeGroup_gives_has (hp : Expr.Rises p) {yard : Yard} (h : yard.Has p) :
    Gives False (closeGroup ctx sub yard) (Yard.Has p) := by
  refine Gives.any.bind fun _ _ ↦ Gives.any.bind fun _ _ ↦
    Gives.settled.bind fun closed hclosed ↦ ?_
  obtain ⟨group, rest⟩ := closed
  rcases h.closeParen hp hclosed with hgroup | hrest
  · refine (Gives.deeper (.bind Gives.any fun _ _ ↦ linksWithin_gives_rising hp hgroup)).bind
      fun e he ↦ .pure ⟨e, List.mem_cons_self, he⟩
  · exact Gives.any.bind fun e _ ↦ .pure (hrest.pushOperand e)

/-- A round keeps what is on the stack of operands, and the last one keeps it in the tree. -/
theorem expressionRound_gives_has (hp : Expr.Rises p) {grouped wanting : Bool} {groups : Nat}
    {yard : Yard} (h : yard.Has p) :
    Gives False (expressionRound ctx sub grouped (groups, wanting, yard)) fun
      | .again (_, _, yard') => yard'.Has p
      | .done e => p e := by
  refine Gives.any.bind fun t _ ↦ .branch (fun _ ↦ .branch (fun _ ↦ ?openParen) fun _ ↦
    ?operand) fun _ ↦
    .branch (fun _ ↦ ?closeParen) fun _ ↦ ?rest
  case openParen => exact Gives.any.bind fun _ _ ↦ Gives.any.bind fun _ _ ↦ .pure h
  case operand => exact Gives.any.bind fun e _ ↦ .pure (h.pushOperand e)
  case closeParen => exact (closeGroup_gives_has hp h).bind fun _ h' ↦ .pure h'
  case rest =>
    cases (if t.kind = .symbol then Operator.ofSymbol? t.text else none) with
    | some op =>
      exact Gives.settled.bind fun _ hpush ↦ Gives.any.bind fun _ _ ↦
        .pure (h.pushOperator hp hpush)
    | none =>
      refine .require .fail fun _ ↦ .require .failExpected fun _ ↦ ?_
      exact Gives.settled.bind fun e hfinish ↦ .pure (h.finish hp hfinish)

/-- What is on the stack of operands at some point of an expression is in its tree. -/
theorem rounded_gives_rising (hp : Expr.Rises p) {grouped : Bool} (fuel : Nat)
    {a : Nat × Bool × Yard} (h : a.2.2.Has p) :
    Gives False (rounded (expressionRound ctx sub grouped) fuel a) p := by
  induction fuel generalizing a with
  | zero => exact .fail
  | succ fuel ih =>
    refine (expressionRound_gives_has hp h).bind fun next hnext ↦ ?_
    cases next with
    | again b => exact ih hnext
    | done e => exact .pure hnext

/-! ## Operands that are built -/

section

variable {s s₁ s' : ParserState} {kind : ExtensionKind} {found : Match} {extension : Extension}
  {levels fuel : Nat} {e : Expr}

/-- What the builder of an extension makes of the tokens that it claims. They are passed first,
unless it moves over them itself, and the node stands where they began. -/
def builtBy (sub : Subparser) (found : Match) (extension : Extension) : Parse Expr := do
  let position ← position
  let scope ← scope
  advance found.count false
  let e ← extension.build sub found
  return (e.moveTo position).inScope scope

/-- Looking for an extension may read further tokens, and leaves everything else as it is. -/
theorem find_eq_ok_iff {result : Option (Match × Extension)} :
    ctx.find kind s = .ok result s₁ ↔
      ∃ tokens, ctx.registry.find kind s.symbols s.tokens = .ok result tokens ∧
      s₁ = { s with tokens } := by
  have hrun : ctx.find kind s =
      mapState (fun tokens ↦ { s with tokens }) (ctx.registry.find kind s.symbols s.tokens) :=
    onTokens_run _
  rw [hrun]
  cases ctx.registry.find kind s.symbols s.tokens with
  | ok result' tokens => simp [mapState, eq_comm]
  | error error tokens => simp [mapState]

/-- A computation that is run one level deeper needs room for that level. -/
theorem deeper_eq_ok_iff {x : Parse α} {a : α} :
    ctx.deeper x s = .ok a s' ↔ s.expressionDepth + 1 ≤ ctx.limits.maxExpressionDepth ∧
      mapState (fun s ↦ { s with expressionDepth := s.expressionDepth - 1 })
        (x { s with expressionDepth := s.expressionDepth + 1 }) = .ok a s' := by
  rw [deeper_run, get_bind_run, ParseContext.limit]
  by_cases hroom : ctx.limits.maxExpressionDepth < s.expressionDepth + 1
  · rw [if_pos hroom]
    constructor
    · intro h
      cases h
    · rintro ⟨hle, -⟩
      exact absurd hle (Nat.not_le.mpr hroom)
  · rw [if_neg hroom]
    exact (and_iff_right (Nat.le_of_not_lt hroom)).symm

/-- An operand is what the extension builds that claims the tokens there. -/
theorem operand_eq_ok_iff (h : ctx.find .expression s = .ok (some (found, extension)) s₁) :
    operand ctx sub s = .ok e s' ↔ ctx.deeper (builtBy sub found extension) s₁ = .ok e s' := by
  obtain ⟨tokens, hfind, rfl⟩ := find_eq_ok_iff.mp h
  have hdeeper : ctx.find .expression { s with expressionDepth := s.expressionDepth + 1 } =
      .ok (some (found, extension)) { s with tokens, expressionDepth := s.expressionDepth + 1 } :=
    find_eq_ok_iff.mpr ⟨tokens, hfind, rfl⟩
  rw [operand, deeper_eq_ok_iff, deeper_eq_ok_iff, ParseContext.build?, bind_assoc,
    bind_eq_of_ok hdeeper]
  simp only [builtBy, bind_assoc, pure_bind]

theorem run_operand (ctx : ParseContext) (levels fuel : Nat) :
    run ctx levels (fuel + 1) .operand = operand ctx (run ctx levels fuel) := by
  cases levels <;> rfl

theorem run_expression (ctx : ParseContext) (levels fuel : Nat) (grouped : Bool) :
    run ctx levels (fuel + 1) (.expression grouped) = expression ctx
      (run ctx levels fuel) grouped := by
  cases levels <;> rfl

end

/-! ## Operands at which an extension is found -/

section

variable {ctx : ParseContext} {sub : Subparser} {levels fuel : Nat}
    {s s₁ start here after : ParserState}
  {found : Match} {extension : Extension} {grouped : Bool} {groups : Nat} {yard : Yard} {t : Token}
  {whole : Expr}

/-- A loop goes on from every point that it comes to. -/
theorem Comes.exists_rounded {round : α → Parse (Round α β)} {a b : α} {result : β} {n : Nat}
    (h : Comes round a s b s₁) (hrun : rounded round n a s = .ok result after) :
    ∃ m, rounded round m b s₁ = .ok result after := by
  induction h with
  | start => exact ⟨n, hrun⟩
  | @round b c s₁ s₂ _ hround ih =>
    obtain ⟨m, hrun⟩ := ih
    cases m with
    | zero => cases hrun
    | succ m =>
      rw [rounded, bind_eq_of_ok hround] at hrun
      exact ⟨m, hrun⟩

/-- A round at which an operand is wanted and no group is opened is the operand. -/
theorem expressionRound_operand (hnext : nextOfExpression ctx grouped groups here = .ok t s)
    (ht : t.isSymbol "(" = false) :
    expressionRound ctx sub grouped (groups, true, yard) here =
      (do return .again (groups, false, yard.pushOperand (← sub .operand)) :
        Parse (Round (Nat × Bool × Yard) Expr)) s := by
  rw [expressionRound, bind_eq_of_ok hnext, if_pos rfl, ht, if_neg Bool.false_ne_true]

/-- **Extensions build the operands that they claim.** Where an extension claims the tokens ahead,
an operand is what its builder makes of them, and nothing else; and whenever an expression succeeds,
at all points of it at which an operand is wanted, no parenthesis is current, and an extension
claims the tokens, the builder of that extension has succeeded, its node has become the operand, and
the node is in the tree of the expression. -/
theorem extension_builds_operand
    (hfind : ctx.find .expression s = .ok (some (found, extension)) s₁) :
    (∀ e s', run ctx levels (fuel + 1) .operand s = .ok e s' ↔
      ctx.deeper (builtBy (run ctx levels fuel) found extension) s₁ = .ok e s') ∧
    ∀ {grouped : Bool} {groups : Nat} {yard : Yard} {t : Token} {start here after : ParserState}
      {whole : Expr},
      Comes (expressionRound ctx (run ctx levels (fuel + 1)) grouped) (0, true, .empty) start
        (groups, true, yard) here →
      nextOfExpression ctx grouped groups here = .ok t s → t.isSymbol "(" = false →
      run ctx levels (fuel + 2) (.expression grouped) start = .ok whole after →
      ∃ e s₂, ctx.deeper (builtBy (run ctx levels fuel) found extension) s₁ = .ok e s₂ ∧
        Comes (expressionRound ctx (run ctx levels (fuel + 1)) grouped) (0, true, .empty) start
          (groups, false, yard.pushOperand e) s₂ ∧
        e.IsWithin whole := by
  have hoperand (e : Expr) (s' : ParserState) : run ctx levels (fuel + 1) .operand s = .ok e s' ↔
      ctx.deeper (builtBy (run ctx levels fuel) found extension) s₁ = .ok e s' := by
    rw [run_operand]
    exact operand_eq_ok_iff hfind
  refine ⟨hoperand, fun {grouped groups yard t start here after whole} hcomes hnext ht hrun ↦ ?_⟩
  -- the loop goes on from here, with a round that reads the operand
  rw [run_expression, expression] at hrun
  obtain ⟨n, _, hrounds, hrun⟩ := bind_eq_ok_iff.mp hrun
  cases hrounds
  rw [expressionWithin_eq_rounded] at hrun
  obtain ⟨m, hrun⟩ := hcomes.exists_rounded hrun
  cases m with
  | zero => cases hrun
  | succ m =>
    rw [rounded] at hrun
    obtain ⟨next, s₂, hround, hrun⟩ := bind_eq_ok_iff.mp hrun
    have hround' := hround
    rw [expressionRound_operand hnext ht] at hround'
    obtain ⟨e, s₃, he, hagain⟩ := bind_eq_ok_iff.mp hround'
    cases hagain
    refine ⟨e, s₂, (hoperand e s₂).mp he, hcomes.round hround, ?_⟩
    -- and what follows keeps it
    have hhas : (yard.pushOperand e).Has e.IsWithin := ⟨e, List.mem_cons_self, .top⟩
    exact ((rounded_gives_rising e.rises_isWithin m hhas s₂ False.elim).of_ok hrun).2

/-! ### Runs -/

/-- An extension that starts at a word and passes it. -/
def sampleWord : Recipe where
  name := "now"
  kind := .expression
  starts := [.text "now"]
  pattern := none
  minRequired := none
  skipDefined := false
  firstMap := []
  secondMap := []
  steps := some [.advance 1 false]
  replacement := none

/-- An extension for expressions in parentheses. -/
def sampleGroup : Recipe :=
  { sampleWord with
    name := "group"
    starts := [.text "("]
    steps := some [.advance 1 false, .expression, .expect ")" false] }

/-- A context with one extension, which has no pattern. -/
def contextWith (r : Recipe) : ParseContext := ⟨.standard, ⟨[⟨r.extension, none, 0⟩], []⟩⟩

/-- A state before a text. -/
def before (text : String) : ParserState :=
  .initial (.ofTokens ((tokenize text).toOption.getD []) 2) .empty

/-- The result of a run, if it succeeds. -/
def resultOf {α : Type} : EStateM.Result ScriptError ParserState α → Option α
  | .ok a _ => some a
  | .error _ _ => none

theorem exists_ok_of_resultOf {α : Type} {r : EStateM.Result ScriptError ParserState α}
    {g : α → β} {b : β}
    (h : (resultOf r).map g = some b) : ∃ a s, r = .ok a s ∧ g a = b := by
  cases r with
  | ok a s => exact ⟨a, s, rfl, Option.some.inj h⟩
  | error e s => cases h

/-- What is claimed at the start of an expression, with the token there. -/
def claimed (ctx : ParseContext) : Parse (Token × Match) := do
  let t ← nextOfExpression ctx false 0
  match ← ctx.find .expression with
  | some (found, _) => return (t, found)
  | none => failExpected "extension"

theorem exists_find_of_claimed {r : Recipe} {start : ParserState} {opens : Bool}
    (h : (resultOf (claimed (contextWith r) start)).map (·.1.isSymbol "(") = some opens) :
    ∃ t s found s₁, nextOfExpression (contextWith r) false 0 start = .ok t s ∧
      (contextWith r).find .expression s = .ok (some (found, r.extension)) s₁ ∧
      t.isSymbol "(" = opens := by
  obtain ⟨⟨t, found⟩, s₁, hrun, ht⟩ := exists_ok_of_resultOf h
  obtain ⟨t', s, hnext, hrun⟩ := bind_eq_ok_iff.mp hrun
  obtain ⟨result, s₂, hfind, hrun⟩ := bind_eq_ok_iff.mp hrun
  cases result with
  | none => cases hrun
  | some result =>
    obtain ⟨found', extension⟩ := result
    cases hrun
    obtain ⟨e, hmem, hextension⟩ := (find_mem .expression).of_ok hfind _ rfl
    obtain rfl := List.mem_singleton.mp hmem
    obtain rfl : r.extension = extension := hextension
    exact ⟨t, s, found, s₁, hnext, hfind, ht⟩

theorem extension_builds_operand_sampleWord :
    ∃ s s₁ found whole after e s₂,
      (contextWith sampleWord).find .expression s = .ok (some (found, sampleWord.extension)) s₁ ∧
      run (contextWith sampleWord) 1 9 (.expression false) (before "now + a") = .ok whole after ∧
      (contextWith sampleWord).deeper
          (builtBy (run (contextWith sampleWord) 1 7) found sampleWord.extension) s₁ = .ok e s₂ ∧
      e.IsWithin whole := by
  have hclaimed : (resultOf (claimed (contextWith sampleWord) (before "now + a"))).map
      (·.1.isSymbol "(") = some false := by decide +kernel
  obtain ⟨t, s, found, s₁, hnext, hfind, ht⟩ := exists_find_of_claimed hclaimed
  have hsucceeds :
      succeeds (run (contextWith sampleWord) 1 9 (.expression false) (before "now + a")) =
      true := by decide +kernel
  obtain ⟨whole, after, hrun⟩ := exists_ok_of_succeeds hsucceeds
  obtain ⟨-, hbuilt⟩ := @extension_builds_operand (contextWith sampleWord) 1 7 s s₁ found _ hfind
  obtain ⟨e, s₂, he, -, hwithin⟩ := hbuilt .start hnext ht hrun
  exact ⟨s, s₁, found, whole, after, e, s₂, hfind, hrun, he, hwithin⟩

/-- What an extension from a recipe builds is a call into the host. -/
theorem builtBy_sampleGroup_gives (ctx : ParseContext) (found : Match) :
    Gives False (ctx.deeper (builtBy sub found sampleGroup.extension)) (·.varName? = none) := by
  refine .deeper (Gives.any.bind fun position _ ↦ Gives.any.bind fun scope _ ↦
    Gives.any.bind fun _ _ ↦ ?_)
  have hbuild : Gives False (sampleGroup.extension.build sub found) (·.varName? = none) :=
    Gives.any.bind fun _ _ ↦ .pure rfl
  exact hbuild.bind fun _ he ↦ .pure he

/-- **At an open parenthesis no extension is asked.** In the expression `(a)` an operand is wanted
at the parenthesis, where an extension claims the tokens, and yet the tree is not what the extension
builds. -/
theorem not_extension_builds_operand :
    ¬ ∀ (ctx : ParseContext) (levels fuel : Nat) (start here s s₁
      after : ParserState) (grouped : Bool)
      (groups : Nat) (yard : Yard) (t : Token) (found : Match) (extension : Extension)
      (whole : Expr),
      Comes (expressionRound ctx (run ctx levels (fuel + 1)) grouped) (0, true, .empty) start
        (groups, true, yard) here →
      nextOfExpression ctx grouped groups here = .ok t s →
      ctx.find .expression s = .ok (some (found, extension)) s₁ →
      run ctx levels (fuel + 2) (.expression grouped) start = .ok whole after →
      ∃ e s₂, ctx.deeper (builtBy (run ctx levels fuel) found extension) s₁ = .ok e s₂ ∧
        e.IsWithin whole := by
  intro hall
  have hclaimed : (resultOf (claimed (contextWith sampleGroup) (before "(a)"))).map
      (·.1.isSymbol "(") = some true := by decide +kernel
  obtain ⟨t, s, found, s₁, hnext, hfind, -⟩ := exists_find_of_claimed hclaimed
  have hname : (resultOf (run (contextWith sampleGroup) 1 9 (.expression false) (before "(a)"))).map
      (·.varName?) = some (some "a") := by decide +kernel
  obtain ⟨whole, after, hrun, hname⟩ := exists_ok_of_resultOf hname
  obtain ⟨e, s₂, he, hwithin⟩ := hall _ 1 7 _ _ s s₁ after false 0 .empty t found _ whole
    .start hnext hfind hrun
  have hcall : e.varName? = none := ((builtBy_sampleGroup_gives _ found s₁ False.elim).of_ok he).2
  cases hwithin with
  | top =>
    rw [hcall] at hname
    cases hname
  | under hchild _ =>
    -- nothing is below a name
    rw [Expr.varName?] at hname
    rw [Expr.children] at hchild
    split at hname
    · next hform =>
      rw [hform] at hchild
      cases hchild
    · cases hname

end

end Parse

end ScriptFront
