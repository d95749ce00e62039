import ScriptFront.Proofs.LineBreaks.Operands
import ScriptFront.Proofs.Tandem.Expressions

/-!
# Expressions with more line breaks

Between two rounds of an expression, two parsers have as many groups open, want an operand or not,
and have stacks that agree up to positions. Each group that is open is a bracket more around the
place that they are at. Where an operand must come, the lists begin with similar tokens, because
line breaks were passed with the operator or the bracket in front of it. Behind an operand they may
not: inside a group the next round passes line breaks first, and outside the expression ends for
both parsers, for the first one because nothing that may stand in the next line goes on with it.
-/

namespace ScriptFront

/-- The place inside so many groups more. -/
def Place.deep (p : Place) : (groups : Nat) → Place
  | 0 => p
  | groups + 1 => (p.deep groups).within .group

namespace Parse

variable {p q : Place} {ctx : ParseContext} {sub₁ sub₂ : Subparser} {grouped : Bool}

/-- The place between two rounds. -/
def readingPlace (p : Place) (a : Nat × Bool × Yard) : Place :=
  (p.deep a.1).now (if a.2.1 then .fresh else .operand)

/-- The lists between two rounds: where an operand must come, line breaks were passed. -/
abbrev readingSpread (p : Place) (a : Nat × Bool × Yard) : Pairing :=
  SpreadMoved (readingPlace p a) a.2.1

section

variable (hsub : Spaced sub₁ sub₂)

include hsub

theorem closeGroup_spaced {y y' : Yard} (h : y.Alike y') :
    Follows (Ahead (q.now .operand) 1) (closeGroup ctx sub₁ y) (closeGroup ctx sub₂ y')
      Yard.Alike fun _ ↦ Spread (q.now .operand) := by
  refine Follows.leaveParen.bind fun _ _ _ ↦ (Follows.advance_ahead false).bind fun _ _ _ ↦
    (Follows.settled (V := fun p p' ↦ p.1.Alike p'.1 ∧ p.2.Alike p'.2) fun p ↦ h.closeParen).bind
      fun p p' hp ↦ ?_
  obtain ⟨group, y⟩ := p
  obtain ⟨group', y'⟩ := p'
  refine (links_spaced hsub hp.1 []).deeper.bind fun e e' he ↦ ?_
  exact .pure (hp.2.pushOperand he) fun _ _ ↦ id

/-- What a round does about two tokens that meet. -/
theorem decided_spaced {t t' : Token} (hmeets : t.Meets t') {a b : Nat × Bool × Yard}
    (h : ReadsAlike a b) :
    Follows (BegunAt (readingPlace p a) t t') (decided ctx sub₁ t a) (decided ctx sub₂ t' b)
      (Round.Matches ReadsAlike Expr.Alike)
      (Round.pairing (readingSpread p) (Begun (p.now .operand))) := by
  obtain ⟨groups, wanting, y⟩ := a
  obtain ⟨groups', wanting', y'⟩ := b
  obtain ⟨hgroups, hwanting, hyard⟩ := h
  dsimp only at hgroups hwanting hyard
  subst hgroups hwanting
  have hoperator : (if t'.kind = .symbol then Operator.ofSymbol? t'.text else none) =
      if t.kind = .symbol then Operator.ofSymbol? t.text else none := by
    by_cases hkind : t.kind = .symbol
    · rw [if_pos hkind, if_pos ((hmeets.kind_iff (by simp) (by simp)).mpr hkind),
        hmeets.text_eq hkind]
    · rw [if_neg hkind, if_neg (mt (hmeets.kind_iff (by simp) (by simp)).mp hkind)]
  dsimp only [decided, readingPlace]
  rw [hmeets.isSymbol_eq, hmeets.isSymbol_eq, opensOperand_eq hmeets, hoperator]
  -- both take the same branch: a group is opened, an operand read, a group closed, an operator
  -- waits, or the expression is over
  refine .ite Iff.rfl (fun hwanting ↦ .ite Iff.rfl (fun hopen ↦ ?_) fun _ ↦ ?_) fun hwanting ↦
    .ite Iff.rfl (fun hclose ↦ ?_) fun _ ↦ ?_
  · rw [if_pos hwanting]
    refine Follows.enterParen.bind fun _ _ _ ↦
      (Follows.advance_symbol hopen (by simp) (Place.afterSymbol_fresh _).1 true).bind
      fun _ _ _ ↦ ?_
    refine .pure (.again ⟨rfl, rfl, hyard.openParen⟩) fun _ _ hbegun ↦ ?_
    rw [← Place.now_fresh_within] at hbegun
    exact hbegun
  · rw [if_pos hwanting]
    have hoperand := hsub.operand (p := p.deep groups') (.inl rfl)
    exact (hoperand.of_implies fun _ _ ↦ BegunAt.begun).bind fun e e' he ↦
      .pure (.again ⟨rfl, rfl, hyard.pushOperand he⟩) fun _ _ ↦ id
  · rw [if_neg hwanting]
    obtain ⟨hsymbol, hsome⟩ := Bool.and_eq_true_iff.mp hclose
    obtain ⟨groups, rfl⟩ := Nat.exists_eq_succ_of_ne_zero (Nat.ne_of_gt (of_decide_eq_true hsome))
    have hgroup := @closeGroup_spaced (p.deep groups) ctx _ _ hsub _ _ hyard
    refine (hgroup.of_implies fun _ _ hat ↦ ?_).bind fun y y' hy ↦ ?_
    · have hahead := ahead_of_isSymbol hat hsymbol (by simp)
      rwa [Place.afterSymbol_close _ (by decide), Place.closed_now, Place.deep, Place.closed_within]
        at hahead
    · exact .pure (.again ⟨rfl, rfl, hy⟩) fun _ _ ↦ id
  · rw [if_neg hwanting]
    split
    · next op hop =>
      have hkind : t.kind = .symbol := by
        by_contra hnot
        simp [hnot] at hop
      rw [if_pos hkind] at hop
      have htext : op.symbol = t.text := by
        rw [Operator.ofSymbol?] at hop
        simpa using List.find?_some hop
      have hsymbol : t.isSymbol op.symbol = true := by
        rw [Token.isSymbol, hkind, htext]
        exact beq_self_eq_true t.text
      refine (Follows.settled fun z ↦ hyard.pushOperator op).bind fun z z' hz ↦
        (Follows.advance_symbol hsymbol (by simp) (Place.afterSymbol_operator _ op) true).bind
          fun _ _ _ ↦ ?_
      exact .pure (.again ⟨rfl, rfl, hz⟩) fun _ _ ↦ id
    · refine .require (Orderly.fails_fail id) id fun _ ↦
        .require Orderly.fails_failExpected id fun hgroups ↦ ?_
      obtain rfl : groups' = 0 := Nat.eq_zero_of_not_pos hgroups
      refine (Follows.settled fun e ↦ hyard.finish).bind fun e e' he ↦ ?_
      exact .pure (.done he) fun _ _ ↦ BegunAt.begun

omit hsub in
/-- Where no group is open and the second list may have a line break more, the expression is
over. -/
theorem decided_gap {t t' : Token} (hp : p.IsUngrouped)
    (hgap : t.lexeme.IsLineBreak ∨ (p.now .operand).frees t = true) (hbreak : t'.lexeme.IsLineBreak)
    {y y' : Yard} (h : y.Alike y') :
    Follows (Spread (p.now .operand)) (decided ctx sub₁ t (0, false, y))
      (decided ctx sub₂ t' (0, false, y')) (Round.Matches ReadsAlike Expr.Alike)
      (Round.pairing (readingSpread p) (Spread (p.now .operand))) := by
  have hstop : t'.IsStop := .inr hbreak
  have hoperator : (if t.kind = .symbol then Operator.ofSymbol? t.text else none) = none := by
    split
    · next hkind =>
      rcases hgap with hline | hfrees
      · exact absurd hkind (Token.IsStop.kind_ne (.inr hline) (by simp) (by simp))
      · obtain ⟨level, hlevel, -, htext⟩ := Place.exists_of_frees hfrees rfl
        generalize t.text = text at htext
        cases level with
        | group => exact absurd hlevel hp
        | list | bare => revert text; decide
    · rfl
  have hoperator' : (if t'.kind = .symbol then Operator.ofSymbol? t'.text else none) = none :=
    if_neg (hstop.kind_ne (by simp) (by simp))
  dsimp only [decided]
  rw [hoperator, hoperator', opensOperand_eq_false_of_gap rfl hgap, opensOperand_of_isStop hstop]
  simp only [Nat.lt_irrefl, decide_false, Bool.and_false, Bool.false_eq_true, if_false]
  exact (Follows.settled fun e ↦ h.finish).bind fun e e' he ↦ .pure (.done he) fun _ _ ↦ id

/-! ## Round by round -/

variable (hctx : ctx.registry.entries = [])

include hctx

theorem expressionRound_spaced (hp : grouped = false → p.IsUngrouped) {a b : Nat × Bool × Yard}
    (h : ReadsAlike a b) :
    Follows (readingSpread p a) (expressionRound ctx sub₁ grouped a)
      (expressionRound ctx sub₂ grouped b) (Round.Matches ReadsAlike Expr.Alike)
      (Round.pairing (readingSpread p) (SpreadMoved (p.now .operand) grouped)) := by
  have hbegun : Follows (Begun (readingPlace p a)) (do
      ctx.replaceTokens
      let t ← current
      decided ctx sub₁ t a) (do
      ctx.replaceTokens
      let t ← current
      decided ctx sub₂ t b) (Round.Matches ReadsAlike Expr.Alike)
      (Round.pairing (readingSpread p) (SpreadMoved (p.now .operand) grouped)) := by
    refine (Follows.replaceTokens hctx).bind fun _ _ _ ↦ .current_begun fun t t' hmeets ↦ ?_
    refine (decided_spaced hsub hmeets h).mono fun next l l' hnext ↦ ?_
    cases next with
    | again a => exact hnext
    | done e => exact Begun.moved hnext grouped
  rw [expressionRound_eq, expressionRound_eq]
  simp only [nextOfExpression, bind_assoc, ite_bind]
  refine .ite (by rw [h.1]) (fun _ ↦ ?_) fun hskip ↦ ?_
  · exact (Follows.skipNewLines_spread.bind fun _ _ _ ↦ hbegun).of_implies fun _ _ ↦
      SpreadMoved.spread
  obtain ⟨groups, wanting, y⟩ := a
  obtain ⟨groups', wanting', y'⟩ := b
  obtain ⟨hgroups, hwanting, hyard⟩ := h
  dsimp only at hgroups hwanting hyard
  subst hgroups hwanting
  cases wanting' with
  | true => exact hbegun
  | false =>
    simp only [Bool.or_eq_true, decide_eq_true_eq, not_or, Bool.not_eq_true] at hskip
    obtain ⟨rfl, hnone⟩ := hskip
    obtain rfl : groups' = 0 := Nat.eq_zero_of_not_pos hnone
    refine (Follows.replaceTokens hctx).bind fun _ _ _ ↦ .current_spread (fun t t' hmeets ↦ ?_)
      fun t t' hbreak hgap ↦ decided_gap (hp rfl) hgap hbreak hyard
    refine (decided_spaced (p := p) (a := (0, false, y)) (b := (0, false, y')) hsub hmeets
      ⟨rfl, rfl, hyard⟩).mono fun next l l' hnext ↦ ?_
    cases next with
    | again a => exact hnext
    | done e => exact Begun.spread hnext

theorem expression_spaced (hp : grouped = false → p.IsUngrouped) :
    Follows (Begun (p.now .fresh)) (expression ctx sub₁ grouped)
      (expression ctx sub₂ grouped) Expr.Alike fun _ ↦ SpreadMoved (p.now .operand) grouped := by
  refine Follows.rounds.bind fun m n _ ↦ ?_
  rw [expressionWithin_eq_rounded, expressionWithin_eq_rounded]
  exact Follows.rounded (P := readingSpread p)
    (fun a b h ↦ expressionRound_spaced hsub hctx hp h) m n
    (a := (0, true, .empty)) (b := (0, true, .empty)) ⟨rfl, rfl, rfl⟩

theorem group_spaced : Follows (Begun (p.within .group)) (do
      let e ← expression ctx sub₁ true
      expect ")" false
      return e) (do
      let e ← expression ctx sub₂ true
      expect ")" false
      return e) Expr.Alike fun _ ↦ Spread (p.now .operand) := by
  have hinner := @expression_spaced (p.within .group) ctx _ _ true hsub hctx (by simp)
  rw [Place.now_fresh_within] at hinner
  refine hinner.bind fun e e' he ↦
    (Follows.expect_begun (by decide) (Place.leads_close (by decide) .operand) false).bind
    fun _ _ _ ↦ ?_
  rw [Place.closed_within]
  exact .pure he fun _ _ ↦ id

end

end Parse

end ScriptFront
