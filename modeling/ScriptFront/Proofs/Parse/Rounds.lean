import ScriptFront.Parse.Run
import ScriptFront.Proofs.Computation

/-!
# Loops of the parser, round by round

The loops of the parser are recursions with fuel, which hide what one round does: it asks for
another one, with what has been collected so far, or it is the last. `Parse.rounded` is the loop of
a given round, and every loop of the parser is of this form. So what a round preserves, the loop
preserves, and `Parse.Comes` names the points that a loop reaches between two rounds.
-/

namespace ScriptFront.Parse

variable {α β γ : Type}

/-- How a round of a loop ends. -/
inductive Round (α β : Type) where
  /-- Another round follows, with this collected. -/
  | again (collected : α)
  /-- The loop is over, with this result. -/
  | done (result : β)

/-- The loop of a round; `fuel` bounds the number of rounds. -/
def rounded (round : α → Parse (Round α β)) : (fuel : Nat) → α → Parse β
  | 0, _ => failFuel
  | fuel + 1, collected => do
    match ← round collected with
    | .again collected => rounded round fuel collected
    | .done result => return result

/-- A loop that starts with `collected` in the state `s` comes to the point between two rounds where
`collected'` is collected in the state `s'`. -/
inductive Comes (round : α → Parse (Round α β)) (collected : α) (s : ParserState) :
    α → ParserState → Prop
  /-- The loop starts here. -/
  | start : Comes round collected s collected s
  /-- A round leads on. -/
  | round {a a' : α} {s₁ s₂ : ParserState} (h : Comes round collected s a s₁)
      (hround : round a s₁ = .ok (.again a') s₂) : Comes round collected s a' s₂

/-- Behind the last round comes `k`. -/
def Round.before (k : β → Parse γ) : Round α β → Parse (Round α γ)
  | .again a => return .again a
  | .done b => return .done (← k b)

/-- What comes behind a loop belongs to its last round. -/
theorem rounded_bind (round : α → Parse (Round α β)) (k : β → Parse γ) (m : Nat) (a : α) :
    rounded round m a >>= k = rounded (fun a ↦ round a >>= Round.before k) m a := by
  induction m generalizing a with
  | zero => rfl
  | succ m ih =>
    rw [rounded, rounded, bind_assoc, bind_assoc]
    refine bind_congr fun next ↦ ?_
    cases next with
    | again a => exact ih a
    | done b => rw [Round.before, bind_assoc]; simp only [pure_bind, bind_pure]

/-! ## Blocks -/

/-- Move over line breaks and a semicolon. -/
def separatorsRound : Unit → Parse (Round Unit Unit) := fun _ ↦ do
  skipNewLines
  if ← is ";" then
    advance 1 true
    return .again ()
  else return .done ()

/-- One parameter. -/
def paramsRound (ctx : ParseContext) (params : List String) :
    Parse (Round (List String) (List String)) := do
  if ← is ")" then
    expect ")" false
    return .done params.reverse
  let name ← expectName true
  let params := name :: params
  if ctx.limits.maxParams < params.length then
    fail (.tooMany .parameters ctx.limits.maxParams)
  if ← is "," then advance 1 true
  else if !(← is ")") then failExpected ")"
  return .again params

/-- One more statement, or `ended` if there is none. -/
def statementRound (sub : Subparser) (ended : Parse (Round (List Expr) (List Expr)))
    (done : List Expr) : Parse (Round (List Expr) (List Expr)) := do
  let before ← place
  match ← sub .statement with
  | none => ended
  | some statement =>
    requireProgress before
    return .again (statement :: done)

/-- One statement of a block. -/
def statementsRound (sub : Subparser) (done : List Expr) : Parse (Round (List Expr) (List Expr)) :=
  do
  passSeparators
  if ← is "\x7d" then return .done done.reverse
  if ← isEnded then failExpected "\x7d"
  statementRound sub (failExpected "\x7d") done

/-- One statement of a script. -/
def programRound (sub : Subparser) (done : List Expr) : Parse (Round (List Expr) (List Expr)) :=
  statementRound sub (return .done done.reverse) done

/-! ## Lists of values -/

/-- One argument in parentheses. -/
def callArgsRound (sub : Subparser) (args : List Expr) : Parse (Round (List Expr) (List Expr)) := do
  skipNewLines
  if ← is ")" then return .done args.reverse
  let arg ← sub (.expression false)
  skipNewLines
  if ← is "," then advance 1 true
  else if !(← is ")") then failExpected ")"
  return .again (arg :: args)

/-- One more argument without parentheses. -/
def looseArgsRound (sub : Subparser) (args : List Expr) : Parse (Round (List Expr) (List Expr)) :=
  do
  if ← is "," then
    advance 1 true
    let arg ← sub (.expression false)
    return .again (arg :: args)
  else return .done args.reverse

/-- One item of a list, or one comma. -/
def itemsRound (sub : Subparser) :
    List Expr × Bool → Parse (Round (List Expr × Bool) (List Expr)) := fun (items, wanting) ↦ do
  skipNewLines
  if ← is "]" then return .done items.reverse
  if ← isEnded then failExpected "]"
  if ← is "," then
    let items ← if wanting then pure ((← node (.constant .null) (← position)) :: items)
      else pure items
    advance 1 true
    return .again (items, true)
  else
    if !wanting then failExpected "]"
    let item ← sub (.expression false)
    return .again (item :: items, false)

/-- One entry of a map. -/
def entriesRound (sub : Subparser) (entries : List MapEntry) :
    Parse (Round (List MapEntry) (List MapEntry)) := do
  skipNewLines
  if ← is "\x7d" then return .done entries.reverse
  let key ← mapKey
  advance 1 false
  expect ":" true
  let value ← sub (.expression false)
  skipNewLines
  if ← is "," then advance 1 true
  else if !(← is "\x7d") then failExpected "\x7d"
  return .again (.mk key value :: entries)

/-! ## Links -/

/-- One link behind an operand. -/
def linksRound (ctx : ParseContext) (sub : Subparser) (start : Position) :
    Nat × Expr × List String → Parse (Round (Nat × Expr × List String) Expr) :=
  fun (links, e, qualified) ↦ do
    let t ← current
    if t.isSymbol "." then
      ParseContext.limit (links + 1) ctx.limits.maxMemberDepth .memberAccess
      advance 1 true
      let name ← expectName false
      let qualified := if qualified.isEmpty then [] else qualified ++ [name]
      return .again (links + 1, ← node (.member e name) start, qualified)
    else if t.isSymbol "[" then
      ParseContext.limit (links + 1) ctx.limits.maxMemberDepth .memberAccess
      advance 1 true
      let key ← sub (.expression false)
      skipNewLines
      expect "]" false
      return .again (links + 1, ← node (.index e key) start, [])
    else if t.isSymbol "(" then
      ParseContext.limit (links + 1) ctx.limits.maxMemberDepth .memberAccess
      let args ← callArgs ctx sub
      let call := ((callOn e qualified args).moveTo start).inScope (← scope)
      return .again (links + 1, call, [])
    else if t.isSymbol "++" && e.isAssignable then
      advance 1 false
      return .done (← node (.unary .postIncrement e) start)
    else if t.isSymbol "--" && e.isAssignable then
      advance 1 false
      return .done (← node (.unary .postDecrement e) start)
    else return .done e

/-! ## Expressions -/

/-- Move to what decides a round of an expression with `groups` groups open. -/
def nextOfExpression (ctx : ParseContext) (grouped : Bool) (groups : Nat) : Parse Token := do
  if grouped || 0 < groups then skipNewLines
  ctx.replaceTokens
  current

/-- One operand, operator or parenthesis of an expression. -/
def expressionRound (ctx : ParseContext) (sub : Subparser) (grouped : Bool) :
    Nat × Bool × Yard → Parse (Round (Nat × Bool × Yard) Expr) := fun (groups, wanting, yard) ↦ do
  let t ← nextOfExpression ctx grouped groups
  if wanting then
    if t.isSymbol "(" then
      ctx.enterParen
      advance 1 true
      return .again (groups + 1, true, yard.openParen)
    else
      let e ← sub .operand
      return .again (groups, false, yard.pushOperand e)
  else if t.isSymbol ")" && 0 < groups then
    let yard ← closeGroup ctx sub yard
    return .again (groups - 1, false, yard)
  else
    match if t.kind = .symbol then Operator.ofSymbol? t.text else none with
    | some op =>
      let yard ← settled (yard.pushOperator op)
      advance 1 true
      return .again (groups, true, yard)
    | none =>
      if opensOperand t then fail (.missingOperator t.text)
      if 0 < groups then failExpected ")"
      return .done (← settled yard.finish)

/-! ## Declarations -/

/-- One declaration, and the comma behind it. -/
def declarationsRound (sub : Subparser) (done : List Expr) :
    Parse (Round (List Expr) (List Expr)) := do
  let entry ← declaration sub
  if ← is "," then
    advance 1 true
    return .again (entry :: done)
  else return .done (entry :: done).reverse

/-- One alias. -/
def aliasesRound (ctx : ParseContext) (done : List String) :
    Parse (Round (List String) (List String)) := do
  if ← is "," then
    advance 1 false
    let name ← expectName false
    let done := name :: done
    if ctx.limits.maxAliases < done.length then fail (.tooMany .aliases ctx.limits.maxAliases)
    return .again done
  else return .done done.reverse

/-! ## The loops -/

section

variable {ctx : ParseContext} {sub : Subparser} {start : Position} {grouped : Bool}

theorem ite_bind {p : Prop} [Decidable p] (x y : Parse α) (f : α → Parse β) :
    (if p then x else y) >>= f = if p then x >>= f else y >>= f := by
  split <;> rfl

theorem passSeparatorsWithin_eq_rounded (fuel : Nat) :
    passSeparatorsWithin fuel = rounded separatorsRound fuel () := by
  induction fuel with
  | zero => rfl
  | succ fuel ih =>
    simp only [passSeparatorsWithin, rounded, separatorsRound, bind_assoc, ite_bind, pure_bind, ih]

theorem paramsWithin_eq_rounded (fuel : Nat) (params : List String) :
    paramsWithin ctx fuel params = rounded (paramsRound ctx) fuel params := by
  induction fuel generalizing params with
  | zero => rfl
  | succ fuel ih =>
    simp only [paramsWithin, rounded, paramsRound, bind_assoc, ite_bind, pure_bind, ih]

theorem callArgsWithin_eq_rounded (fuel : Nat) (args : List Expr) :
    callArgsWithin sub fuel args = rounded (callArgsRound sub) fuel args := by
  induction fuel generalizing args with
  | zero => rfl
  | succ fuel ih =>
    simp only [callArgsWithin, rounded, callArgsRound, bind_assoc, ite_bind, pure_bind, ih]

theorem looseArgsWithin_eq_rounded (fuel : Nat) (args : List Expr) :
    looseArgsWithin sub fuel args = rounded (looseArgsRound sub) fuel args := by
  induction fuel generalizing args with
  | zero => rfl
  | succ fuel ih =>
    simp only [looseArgsWithin, rounded, looseArgsRound, bind_assoc, ite_bind, pure_bind, ih]

theorem linksWithin_eq_rounded (fuel links : Nat) (e : Expr) (qualified : List String) :
    linksWithin ctx sub start fuel links e qualified =
      rounded (linksRound ctx sub start) fuel (links, e, qualified) := by
  induction fuel generalizing links e qualified with
  | zero => rfl
  | succ fuel ih =>
    simp only [linksWithin, rounded, linksRound, bind_assoc, ite_bind, pure_bind, bind_pure, ih]

theorem expressionWithin_eq_rounded (fuel groups : Nat) (wanting : Bool) (yard : Yard) :
    expressionWithin ctx sub grouped fuel groups wanting yard =
      rounded (expressionRound ctx sub grouped) fuel (groups, wanting, yard) := by
  induction fuel generalizing groups wanting yard with
  | zero => rfl
  | succ fuel ih =>
    rw [rounded, expressionRound, bind_assoc, expressionWithin]
    simp only [ih]
    have hnext {k : Token → Parse Expr} : (if grouped || 0 < groups then do
          skipNewLines
          ctx.replaceTokens
          let t ← current
          k t
        else do
          ctx.replaceTokens
          let t ← current
          k t) = nextOfExpression ctx grouped groups >>= k := by
      simp only [nextOfExpression, bind_assoc, ite_bind]
    simp only [hnext]
    refine bind_congr fun t ↦ ?_
    cases (if t.kind = .symbol then Operator.ofSymbol? t.text else none) <;>
      simp only [bind_assoc, ite_bind, pure_bind, bind_pure]

theorem itemsWithin_eq_rounded (fuel : Nat) (items : List Expr) (wanting : Bool) :
    itemsWithin sub fuel items wanting = rounded (itemsRound sub) fuel (items, wanting) := by
  induction fuel generalizing items wanting with
  | zero => rfl
  | succ fuel ih =>
    simp only [itemsWithin, rounded, itemsRound, bind_assoc, ite_bind, pure_bind, ih]

theorem entriesWithin_eq_rounded (fuel : Nat) (entries : List MapEntry) :
    entriesWithin sub fuel entries = rounded (entriesRound sub) fuel entries := by
  induction fuel generalizing entries with
  | zero => rfl
  | succ fuel ih =>
    simp only [entriesWithin, rounded, entriesRound, bind_assoc, ite_bind, pure_bind, ih]

theorem declarationsWithin_eq_rounded (fuel : Nat) (done : List Expr) :
    declarationsWithin sub fuel done = rounded (declarationsRound sub) fuel done := by
  induction fuel generalizing done with
  | zero => rfl
  | succ fuel ih =>
    simp only [declarationsWithin, rounded, declarationsRound, bind_assoc, ite_bind, pure_bind, ih]

theorem aliasesWithin_eq_rounded (fuel : Nat) (done : List String) :
    aliasesWithin ctx fuel done = rounded (aliasesRound ctx) fuel done := by
  induction fuel generalizing done with
  | zero => rfl
  | succ fuel ih =>
    simp only [aliasesWithin, rounded, aliasesRound, bind_assoc, ite_bind, pure_bind, ih]

theorem statementRound_bind (ended : Parse (Round (List Expr) (List Expr))) (done : List Expr)
    (f : Round (List Expr) (List Expr) → Parse α) : statementRound sub ended done >>= f = (do
      let before ← place
      match ← sub .statement with
      | none => ended >>= f
      | some statement => do
        requireProgress before
        f (.again (statement :: done))) := by
  rw [statementRound, bind_assoc]
  refine bind_congr fun before ↦ ?_
  rw [bind_assoc]
  refine bind_congr fun found ↦ ?_
  cases found <;> simp only [bind_assoc, pure_bind]

theorem statementsWithin_eq_rounded (fuel : Nat) (done : List Expr) :
    statementsWithin sub fuel done = rounded (statementsRound sub) fuel done := by
  induction fuel generalizing done with
  | zero => rfl
  | succ fuel ih =>
    rw [statementsWithin, rounded, statementsRound]
    simp only [bind_assoc, ite_bind, pure_bind]
    refine bind_congr fun _ ↦ bind_congr fun closes ↦ ite_congr rfl (fun _ ↦ rfl) fun _ ↦ ?_
    refine bind_congr fun ended ↦ ite_congr rfl (fun _ ↦ bind_congr fun _ ↦ ?_) fun _ ↦ ?_
    all_goals
      rw [statementRound_bind]
      refine bind_congr fun before ↦ bind_congr fun found ↦ ?_
      cases found with
      | none => rfl
      | some statement => exact bind_congr fun _ ↦ ih (statement :: done)

theorem programWithin_eq_rounded (fuel : Nat) (done : List Expr) :
    programWithin sub fuel done = rounded (programRound sub) fuel done := by
  induction fuel generalizing done with
  | zero => rfl
  | succ fuel ih =>
    rw [rounded, programRound, statementRound_bind]
    refine bind_congr fun before ↦ bind_congr fun found ↦ ?_
    cases found with
    | none => rfl
    | some statement => exact bind_congr fun _ ↦ ih (statement :: done)

end

end ScriptFront.Parse
