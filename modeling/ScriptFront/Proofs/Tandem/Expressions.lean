import ScriptFront.Proofs.Parse.Stacks
import ScriptFront.Proofs.Tandem.Operands

/-!
# Expressions in tandem

Between two rounds of an expression, two parsers have as many groups open, want an operand or not,
and have stacks that agree up to positions.

An expression of a group may end in front of the end of the first tokens, behind line breaks, and
then the second parser may go on with the tail. This makes no difference, because the mark that
closes the group is missing in the first list: what comes behind an expression decides whether it
may end there. So an expression is followed together with what comes behind it, which is taken as a
part of its last round.
-/

namespace ScriptFront

/-! ## Stacks that agree -/

/-- The stacks agree up to positions. -/
def Yard.Alike (y y' : Yard) : Prop := y'.unplaced = y.unplaced

namespace Yard.Alike

variable {y y' : Yard} {e e' : Expr}

theorem pushOperand (h : y.Alike y') (he : e.Alike e') :
    (y.pushOperand e).Alike (y'.pushOperand e') := by
  rw [Yard.Alike, unplaced_pushOperand, unplaced_pushOperand, h, he]

theorem openParen (h : y.Alike y') : y.openParen.Alike y'.openParen := by
  rw [Yard.Alike, unplaced_openParen, unplaced_openParen, h]

theorem pushOperator (h : y.Alike y') (op : Operator) {z : Yard} (hz : y.pushOperator op = some z) :
    ∃ z', y'.pushOperator op = some z' ∧ z.Alike z' :=
  exists_of_unplaced_pushOperator (by rw [h, pushOperator_unplaced, hz, Option.map_some])

theorem closeParen (h : y.Alike y') {p : Expr × Yard} (hp : y.closeParen = some p) :
    ∃ p', y'.closeParen = some p' ∧ p.1.Alike p'.1 ∧ p.2.Alike p'.2 := by
  have hunplaced : y'.unplaced.closeParen = some (p.1.unplaced, p.2.unplaced) := by
    rw [h, closeParen_unplaced, hp, Option.map_some, Prod.map]
  obtain ⟨group, z, hz, hboth⟩ := exists_of_unplaced_closeParen hunplaced
  exact ⟨(group, z), hz, hboth⟩

theorem finish (h : y.Alike y') (he : y.finish = some e) : ∃ e', y'.finish = some e' ∧ e.Alike e' :=
  exists_of_unplaced_finish (by rw [h, finish_unplaced, he, Option.map_some])

end Yard.Alike

namespace Parse

variable {α β : Type} {tail : List Token} {ctx : ParseContext} {sub sub₁ sub₂ : Subparser}
    {grouped : Bool}

/-! ## Rounds -/

/-- What two expressions have in common between their rounds: the groups, whether an operand must
come, and the stacks. -/
def ReadsAlike (a b : Nat × Bool × Yard) : Prop := b.1 = a.1 ∧ b.2.1 = a.2.1 ∧ a.2.2.Alike b.2.2

/-- Line breaks may have been passed where an operand must come. -/
def readingPairing (tail : List Token) (a : Nat × Bool × Yard) : Pairing :=
  if a.2.1 = true then JoinsLax tail else Joins tail

/-- What a round of an expression does about the current token. -/
def decided (ctx : ParseContext) (sub : Subparser) (t : Token) :
    Nat × Bool × Yard → Parse (Round (Nat × Bool × Yard) Expr) := fun (groups, wanting, yard) ↦ do
  if wanting then
    if t.isSymbol "(" then
      ctx.enterParen
      advance 1 true
      return .again (groups + 1, true, yard.openParen)
    else
      let e ← sub .operand
      return .again (groups, false, yard.pushOperand e)
  else if t.isSymbol ")" && 0 < groups then
    let yard ← closeGroup ctx sub yard
    return .again (groups - 1, false, yard)
  else
    match if t.kind = .symbol then Operator.ofSymbol? t.text else none with
    | some op =>
      let yard ← settled (yard.pushOperator op)
      advance 1 true
      return .again (groups, true, yard)
    | none =>
      if opensOperand t then fail (.missingOperator t.text)
      if 0 < groups then failExpected ")"
      return .done (← settled yard.finish)

theorem expressionRound_eq (a : Nat × Bool × Yard) : expressionRound ctx sub grouped a =
    nextOfExpression ctx grouped a.1 >>= fun t ↦ decided ctx sub t a := rfl

/-! ## At the end of the tokens -/

namespace Dies

variable {f : α → Parse β}

theorem nextOfExpression (hctx : ctx.registry.entries = []) {groups : Nat} {f : Token → Parse β}
    (h : ∀ t : Token, t.IsStop → Dies (f t)) :
    Dies (nextOfExpression ctx grouped groups >>= f) := by
  have hnext : Dies (do
      ctx.replaceTokens
      let t ← Parse.current
      f t) := replaceTokens hctx
        (.current fun t ht ↦ h t (.inl (by rw [Token.isEnd, Token.kind, ht]; rfl)))
  simp only [Parse.nextOfExpression, bind_assoc, ite_bind]
  exact ite (fun _ ↦ .skipNewLines hnext) fun _ ↦ hnext

theorem decided (hsub : Dies (sub .operand)) {t : Token} (ht : t.IsStop) {a : Nat × Bool × Yard}
    {f : Round (Nat × Bool × Yard) Expr → Parse β} (hf : a.2.1 = true ∨ 0 < a.1 ∨
      ∀ e, Dies (f (.done e))) :
    Dies (decided ctx sub t a >>= f) := by
  obtain ⟨groups, wanting, yard⟩ := a
  have hsymbol : t.kind ≠ .symbol := ht.kind_ne (by simp) (by simp)
  dsimp only [Parse.decided]
  rw [ht.isSymbol_eq_false, ht.isSymbol_eq_false, if_neg hsymbol, opensOperand_of_isStop ht]
  cases wanting with
  | true => exact bind (bind hsub)
  | false =>
    by_cases hgroups : 0 < groups
    · simp only [Bool.false_and, Bool.false_eq_true, if_false, if_pos hgroups]
      exact bind failExpected.bind
    · have hdone := hf.elim (fun h ↦ absurd h Bool.false_ne_true) fun h ↦ h.resolve_left hgroups
      simp only [Bool.false_and, Bool.false_eq_true, if_false, if_neg hgroups, bind_assoc,
        pure_bind]
      exact settled hdone

end Dies

/-! ## Round by round -/

section

variable (htail : IsTailOfTokens tail) (hsub : Tandem sub₁ sub₂)

include htail hsub

theorem closeGroup_follows {y y' : Yard} (h : y.Alike y') :
    Follows (JoinsSolid tail) (closeGroup ctx sub₁ y) (closeGroup ctx sub₂ y') Yard.Alike
      fun _ ↦ Joins tail := by
  refine Follows.leaveParen.bind fun _ _ _ ↦ (Follows.advance false).bind fun _ _ _ ↦
    (Follows.settled (V := fun p p' ↦ p.1.Alike p'.1 ∧ p.2.Alike p'.2) fun p ↦ h.closeParen).bind
      fun p p' hp ↦ ?_
  obtain ⟨group, y⟩ := p
  obtain ⟨group', y'⟩ := p'
  refine (links_follows htail hsub hp.1 []).deeper.bind fun e e' he ↦ ?_
  exact .pure (hp.2.pushOperand he) fun _ _ ↦ id

theorem decided_follows {t t' : Token} (hmeets : t.Meets t') {a b : Nat × Bool × Yard}
    (h : ReadsAlike a b) :
    Follows (JoinsAt tail t t') (decided ctx sub₁ t a) (decided ctx sub₂ t' b)
      (Round.Matches ReadsAlike Expr.Alike) (Round.pairing (readingPairing tail) (Joins tail)) := by
  obtain ⟨groups, wanting, y⟩ := a
  obtain ⟨groups', wanting', y'⟩ := b
  obtain ⟨rfl, rfl, hyard⟩ := h
  have hoperator : (if t'.kind = .symbol then Operator.ofSymbol? t'.text else none) =
      if t.kind = .symbol then Operator.ofSymbol? t.text else none := by
    by_cases hkind : t.kind = .symbol
    · rw [if_pos hkind, if_pos ((hmeets.kind_iff (by simp) (by simp)).mpr hkind),
        hmeets.text_eq hkind]
    · rw [if_neg hkind, if_neg (mt (hmeets.kind_iff (by simp) (by simp)).mp hkind)]
  dsimp only [decided]
  rw [hmeets.isSymbol_eq, hmeets.isSymbol_eq, opensOperand_eq hmeets, hoperator]
  -- both take the same branch: a group is opened, an operand read, a group closed, an operator
  -- waits, or the expression is over
  refine .ite Iff.rfl (fun _ ↦ .ite Iff.rfl (fun hopen ↦ ?_) fun _ ↦ ?_)
    fun _ ↦ .ite Iff.rfl (fun hclose ↦ ?_) fun _ ↦ ?_
  · refine Follows.enterParen.bind fun _ _ _ ↦
      (Follows.advance_at (Token.not_isStop_of_isSymbol hopen) true).bind fun _ _ _ ↦ ?_
    exact .pure (.again ⟨rfl, rfl, hyard.openParen⟩) fun _ _ ↦ id
  · refine ((hsub.operand htail).of_implies fun _ _ ↦ JoinsAt.joins).bind fun e e' he ↦ ?_
    exact .pure (.again ⟨rfl, rfl, hyard.pushOperand he⟩) fun _ _ ↦ id
  · have hstop := Token.not_isStop_of_isSymbol (Bool.and_eq_true _ _ ▸ hclose).1
    refine ((closeGroup_follows htail hsub hyard).of_implies fun _ _ hat ↦ hat.solid hstop).bind
      fun y y' hy ↦ ?_
    exact .pure (.again ⟨rfl, rfl, hy⟩) fun _ _ ↦ id
  · split
    · next op hop =>
      have hkind : t.kind = .symbol := by
        by_contra hnot
        simp [hnot] at hop
      have hstop : ¬ t.IsStop := fun hstop ↦ hstop.kind_ne (by simp) (by simp) hkind
      refine (Follows.settled fun z ↦ hyard.pushOperator op).bind fun z z' hz ↦
        (Follows.advance_at hstop true).bind fun _ _ _ ↦ ?_
      exact .pure (.again ⟨rfl, rfl, hz⟩) fun _ _ ↦ id
    · refine .require (Orderly.fails_fail id) id fun _ ↦
        .require Orderly.fails_failExpected id fun _ ↦ ?_
      refine (Follows.settled fun e ↦ hyard.finish).bind fun e e' he ↦ ?_
      exact .pure (.done he) fun _ _ ↦ JoinsAt.joins

variable (hctx : ctx.registry.entries = [])

include hctx

omit hsub in
/-- What decides a round, at two tokens that meet. The first parser may pass line breaks before only
if nothing succeeds at the end of its tokens. -/
theorem nextOfExpression_follows {a b : Nat × Bool × Yard} (h : ReadsAlike a b)
    {f f' : Token → Parse α}
    {V : α → α → Prop} {P : α → Pairing}
    (hf : ∀ t t', t.Meets t' → Follows (JoinsAt tail t t') (f t) (f' t') V P)
    (hdies : ∀ t : Token, t.IsStop → a.2.1 = true ∨ (grouped || 0 < a.1) = true → Dies (f t)) :
    Follows (readingPairing tail a) (nextOfExpression ctx grouped a.1 >>= f)
      (nextOfExpression ctx grouped b.1 >>= f') V P := by
  have hnext : Follows (Joins tail) (do
      ctx.replaceTokens
      let t ← current
      f t) (do
      ctx.replaceTokens
      let t ← current
      f' t) V P := (Follows.replaceTokens hctx).bind fun _ _ _ ↦ Follows.current_bind htail hf
  have hspent (hwanting : a.2.1 = true ∨ (grouped || 0 < a.1) = true) : Dies (do
      ctx.replaceTokens
      let t ← current
      f t) := .replaceTokens hctx (.current fun t ht ↦
        hdies t (.inl (by rw [Token.isEnd, Token.kind, ht]; rfl)) hwanting)
  simp only [nextOfExpression, bind_assoc, ite_bind, readingPairing]
  refine .ite (by rw [h.1]) (fun hskip ↦ ?_) fun _ ↦ ?_
  · refine .of_implies (R := JoinsLax tail) (Follows.skipNewLines.bind fun _ _ _ ↦
      hnext.of_lax (hspent (.inr hskip))) fun _ _ h ↦ ?_
    split at h
    · exact h
    · exact h.lax
  · split
    · next hwanting => exact hnext.of_lax (hspent (.inl hwanting))
    · exact hnext

/-- An expression and what comes behind it. A group may end only if what comes behind it does not
succeed at the end of the first tokens. -/
theorem expression_bind_follows {k k' : Expr → Parse Expr}
    (hk : ∀ e e', e.Alike e' → Follows (Joins tail) (k e) (k' e') Expr.Alike fun _ ↦ Joins tail)
    (hdies : grouped = true → ∀ e, Dies (k e)) :
    Follows (Joins tail) (expression ctx sub₁ grouped >>= k)
      (expression ctx sub₂ grouped >>= k') Expr.Alike
      fun _ ↦ Joins tail := by
  rw [expression, expression, bind_assoc, bind_assoc]
  refine Follows.rounds.bind fun m n _ ↦ ?_
  -- what comes behind the expression becomes a part of its last round
  rw [expressionWithin_eq_rounded, expressionWithin_eq_rounded, rounded_bind, rounded_bind]
  have hround {a b : Nat × Bool × Yard} (h : ReadsAlike a b) :
      Follows (readingPairing tail a) (expressionRound ctx sub₁ grouped a >>= Round.before k)
        (expressionRound ctx sub₂ grouped b >>= Round.before k')
        (Round.Matches ReadsAlike Expr.Alike)
        (Round.pairing (readingPairing tail) (Joins tail)) := by
    rw [expressionRound_eq, expressionRound_eq, bind_assoc, bind_assoc]
    refine nextOfExpression_follows htail hctx h (fun t t' hmeets ↦ ?_) fun t ht hwanting ↦ ?_
    · refine (decided_follows htail hsub hmeets h).bind fun next next' hnext ↦ ?_
      cases hnext with
      | again hab => exact .pure (.again hab) fun _ _ ↦ id
      | done he => exact (hk _ _ he).bind fun e e' he ↦ .pure (.done he) fun _ _ ↦ id
    · refine .decided hsub.operand_dies ht ?_
      rcases hwanting with hwanting | hskip
      · exact .inl hwanting
      · rcases Bool.or_eq_true_iff.mp hskip with hgrouped | hgroups
        · exact .inr (.inr fun e ↦ .bind (hdies hgrouped e))
        · exact .inr (.inl (of_decide_eq_true hgroups))
  refine (Follows.rounded (P := readingPairing tail) (fun a b ↦ hround) m n
    (a := (0, true, .empty)) (b := (0, true, .empty)) ⟨rfl, rfl, rfl⟩).of_implies
    fun _ _ ↦ Joins.lax

theorem expression_follows :
    Follows (Joins tail) (expression ctx sub₁ false) (expression ctx sub₂ false)
    Expr.Alike fun _ ↦ Joins tail := by
  have h : Follows (Joins tail) (expression ctx sub₁ false >>= pure)
    (expression ctx sub₂ false >>= pure)
      Expr.Alike fun _ ↦ Joins tail :=
    expression_bind_follows htail hsub hctx (fun e e' he ↦ .pure he fun _ _ ↦ id) (by simp)
  rwa [bind_pure, bind_pure] at h

theorem group_follows : Follows (Joins tail) (do
      let e ← expression ctx sub₁ true
      expect ")" false
      return e) (do
      let e ← expression ctx sub₂ true
      expect ")" false
      return e) Expr.Alike fun _ ↦ Joins tail :=
  expression_bind_follows htail hsub hctx
    (fun e e' he ↦ (Follows.expect htail (by decide) false).bind fun _ _ _ ↦ .pure he fun _ _ ↦ id)
    fun _ e ↦ (Dies.expect (by decide) false).bind

end

theorem expression_dies (hctx : ctx.registry.entries = []) (hsub : Dies (sub .operand))
    (grouped : Bool) :
    Dies (expression ctx sub grouped) := by
  refine .ask (fun _ ↦ rfl) fun s ↦ ?_
  rw [expressionWithin_eq_rounded]
  cases hm : 2 * s.tokens.tokensLeft + 2 with
  | zero => exact .of_fails (Orderly.fails_fail id)
  | succ m =>
    rw [rounded, expressionRound_eq, bind_assoc]
    exact .nextOfExpression hctx fun t ht ↦ .decided hsub ht (.inl rfl)

end Parse

end ScriptFront
