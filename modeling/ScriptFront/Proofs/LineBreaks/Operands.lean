import ScriptFront.Proofs.LineBreaks.Blocks

/-!
# Operands with more line breaks

Brackets lead from where an operand may begin to behind it: what they hold is read inside them, and
the mark that closes them leads back. Behind an operand the links follow at once, so where the
second list has a line break more, neither parser finds one.

A name is read as a call without parentheses if it is that of a function. The arguments then take up
the rest of the bracket; behind them a line break is free only in front of the mark that closes it,
so that in any case no more is free than behind an operand.
-/

namespace ScriptFront.Parse

open Window (isNewLine)

variable {p : Place} {ctx : ParseContext}
  {sub₁ sub₂ : Subparser} {start start' : Position} {depth : Nat} {outer : List Level}

section

variable (hsub : Spaced sub₁ sub₂)

include hsub

/-- An item of a list in brackets. -/
theorem Spaced.item : Follows (Begun (p.within .list)) (sub₁ (.expression false))
    (sub₂ (.expression false)) Expr.Alike fun _ ↦ Spread ((p.within .list).now .operand) := by
  have h := hsub.expression p.isUngrouped_list
  rwa [Place.now_fresh_within] at h

/-- An argument of a call without parentheses. -/
theorem Spaced.looseItem : Follows (Begun p.bared) (sub₁ (.expression false))
    (sub₂ (.expression false)) Expr.Alike fun _ ↦ Spread (p.bared.now .operand) := by
  have h := hsub.expression p.isUngrouped_bared
  rwa [Place.now_fresh_bared] at h

/-! ## Arguments and links -/

theorem callArgsRound_spaced {args args' : List Expr} (hargs : Alikes args args') :
    Follows (Begun (p.within .list)) (callArgsRound sub₁ args) (callArgsRound sub₂ args')
      (Round.Matches Alikes Alikes)
      (Round.pairing (fun _ ↦ Begun (p.within .list)) (Ahead (p.now .operand) 1)) := by
  have hclose : (p.within .list).Leads ")" (p.now .operand) := by
    have h : ((p.within .list).now .fresh).Leads ")" (p.within .list).closed :=
      Place.leads_close (by decide) .fresh
    rwa [Place.now_fresh_within, Place.closed_within] at h
  rw [callArgsRound, callArgsRound]
  refine Follows.skipNewLines_begun.bind fun _ _ _ ↦
    .is_begun_branch (by decide) hclose (.pure (.done hargs.reverse) fun _ _ ↦ id) ?_
  refine hsub.item.bind fun e e' he ↦ Follows.skipNewLines_spread.bind fun _ _ _ ↦
    .listSeparator_begun (by decide) ?_
  rw [Place.now_fresh_within]
  exact .pure (.again (.cons he hargs)) fun _ _ ↦ id

theorem callArgs_spaced :
    Follows (Ahead (p.within .list) 1) (callArgs ctx sub₁) (callArgs ctx sub₂) Alikes
      fun _ ↦ Spread (p.now .operand) := by
  refine (Follows.expect_ahead (by decide) true).bind fun _ _ _ ↦ Follows.enterCall.bind fun _ _ _ ↦
    Follows.rounds.bind fun m n _ ↦ ?_
  rw [callArgsWithin_eq_rounded, callArgsWithin_eq_rounded]
  refine (Follows.rounded (P := fun _ ↦ Begun (p.within .list)) (R := Ahead (p.now .operand) 1)
    (fun _ _ hargs ↦ callArgsRound_spaced hsub hargs) m n .nil).bind fun args args' hargs ↦ ?_
  exact (Follows.advance_ahead false).bind fun _ _ _ ↦ Follows.leaveCall.bind fun _ _ _ ↦
    .pure hargs fun _ _ ↦ id

theorem looseArgsRound_spaced {args args' : List Expr} (hargs : Alikes args args') :
    Follows (Spread (p.bared.now .operand)) (looseArgsRound sub₁ args)
      (looseArgsRound sub₂ args') (Round.Matches Alikes Alikes)
      (Round.pairing (fun _ ↦ Spread (p.bared.now .operand)) (Spread (p.bared.now .operand))) := by
  have hcomma : (p.bared.now .operand).Withholds "," :=
    Place.withholds_now rfl fun level hlevel ↦ by
      rcases p with ⟨_ | _, _⟩ | _ <;> cases hlevel
      decide
  rw [looseArgsRound, looseArgsRound]
  refine .is_spread_branch (by decide) hcomma (Place.leads_separator (by decide) .operand) ?_
    (.pure (.done hargs.reverse) fun _ _ ↦ id)
  rw [Place.now_fresh_bared]
  refine (Follows.advance_ahead true).bind fun _ _ _ ↦ hsub.looseItem.bind fun e e' he ↦ ?_
  exact .pure (.again (.cons he hargs)) fun _ _ ↦ id

/-- Behind the arguments no more is free than behind another operand. -/
theorem looseArgs_spaced :
    Follows (Begun p.bared) (looseArgs ctx sub₁) (looseArgs ctx sub₂) Alikes
      fun _ ↦ Spread (p.now .operand) := by
  refine Follows.enterCall.bind fun _ _ _ ↦ hsub.looseItem.bind fun e e' he ↦
    Follows.rounds.bind fun m n _ ↦ ?_
  rw [looseArgsWithin_eq_rounded, looseArgsWithin_eq_rounded]
  refine (Follows.rounded (P := fun _ ↦ Spread (p.bared.now .operand))
    (R := Spread (p.bared.now .operand)) (fun _ _ hargs ↦ looseArgsRound_spaced hsub hargs) m n
      (.cons he .nil)).bind fun args args' hargs ↦ Follows.leaveCall.bind fun _ _ _ ↦ ?_
  exact .pure hargs fun _ _ hspread ↦ hspread.refine (Place.Refines.bared_operand p)

/-- One link: a member, an index, the arguments of a call, or a change behind the operand, which
ends the chain. -/
theorem linksRound_spaced {link link' : Nat × Expr × List String} (h : LinksAlike link link') :
    Follows (Spread (p.now .operand)) (linksRound ctx sub₁ start link)
      (linksRound ctx sub₂ start' link') (Round.Matches LinksAlike Expr.Alike)
      (Round.pairing (fun _ ↦ Spread (p.now .operand)) (Spread (p.now .operand))) := by
  obtain ⟨links, e, qualified⟩ := link
  obtain ⟨links', e', qualified'⟩ := link'
  obtain ⟨rfl, he, rfl⟩ := h
  refine .current_spread (fun t t' hmeets ↦ ?_) fun t t' hbreak hgap ↦ ?_
  · simp only [hmeets.isSymbol_eq, he.isAssignable_eq]
    refine .ite Iff.rfl (fun hdot ↦ ?_) fun _ ↦ .ite Iff.rfl (fun hopen ↦ ?_) fun _ ↦
      .ite Iff.rfl (fun hopen ↦ ?_) fun _ ↦ .ite Iff.rfl (fun hinc ↦ ?_) fun _ ↦
        .ite Iff.rfl (fun hdec ↦ ?_) fun _ ↦ ?_
    · refine (Follows.limit _ _ _).bind fun _ _ _ ↦
        (Follows.advance_symbol hdot (by simp) p.afterSymbol_operand.2.2.2.1 true).bind fun _ _ _ ↦
          (Follows.expectName_begun (fun _ ↦ Place.inFront_now (by simp)) false).bind
          fun name _ hname ↦ ?_
      subst hname
      rw [Place.afterName_dot]
      exact (Follows.node (.member he name) _ _).bind fun u u' hu ↦
        .pure (.again ⟨rfl, hu, rfl⟩) fun _ _ ↦ id
    · refine (Follows.limit _ _ _).bind fun _ _ _ ↦
        (Follows.advance_symbol hopen (by simp) p.afterSymbol_operand.2.1 true).bind fun _ _ _ ↦
          hsub.item.bind fun key key' hkey ↦ Follows.skipNewLines_spread.bind fun _ _ _ ↦
            (Follows.expect_begun (by decide) (Place.leads_close (by decide) .operand) false).bind
            fun _ _ _ ↦ ?_
      rw [Place.closed_within]
      exact (Follows.node (.index he hkey) _ _).bind fun u u' hu ↦
        .pure (.again ⟨rfl, hu, rfl⟩) fun _ _ ↦ id
    · have hargs := (@callArgs_spaced p ctx _ _ hsub).of_implies
        fun l l' (hat : BegunAt (p.now .operand) t t' l l') ↦ p.afterSymbol_operand.1 ▸
          ahead_of_isSymbol hat hopen (by simp)
      refine (Follows.limit _ _ _).bind fun _ _ _ ↦ hargs.bind fun args args' hargs ↦
        Follows.scope.bind fun scope scope' hscope ↦ ?_
      subst hscope
      exact .pure (.again ⟨rfl, (callOn_alike he hargs _).placed, rfl⟩) fun _ _ ↦ id
    · refine (Follows.advance_symbol (Bool.and_eq_true_iff.mp hinc).1 (by simp)
        p.afterSymbol_operand.2.2.2.2.1 false).bind fun _ _ _ ↦ ?_
      exact (Follows.node (.unary _ he) _ _).bind fun u u' hu ↦ .pure (.done hu) fun _ _ ↦ id
    · refine (Follows.advance_symbol (Bool.and_eq_true_iff.mp hdec).1 (by simp)
        p.afterSymbol_operand.2.2.2.2.2 false).bind fun _ _ _ ↦ ?_
      exact (Follows.node (.unary _ he) _ _).bind fun u u' hu ↦ .pure (.done hu) fun _ _ ↦ id
    · exact .pure (.done he) fun _ _ hat ↦ hat.begun.spread
  -- neither parser finds a link
  · have hnone (text : String) (htext : text ∈ [".", "[", "(", "++", "--"]) :
        t.isSymbol text = false ∧ t'.isSymbol text = false := by
      refine ⟨isSymbol_eq_false_of_gap (Place.withholds_now rfl fun level _ ↦ ?_) hgap,
        Token.IsStop.isSymbol_eq_false (.inr hbreak)⟩
      revert text
      cases level <;> decide
    simp only [hnone "." (by decide), hnone "[" (by decide), hnone "(" (by decide),
      hnone "++" (by decide), hnone "--" (by decide), Bool.false_and, Bool.false_eq_true, if_false]
    exact .pure (.done he) fun _ _ ↦ id

theorem links_spaced {e e' : Expr} (he : e.Alike e') (qualified : List String) :
    Follows (Spread (p.now .operand)) (links ctx sub₁ e qualified)
      (links ctx sub₂ e' qualified) Expr.Alike fun _ ↦ Spread (p.now .operand) := by
  refine Follows.rounds.bind fun m n _ ↦ ?_
  rw [linksWithin_eq_rounded, linksWithin_eq_rounded]
  exact Follows.rounded (P := fun _ ↦ Spread (p.now .operand))
    (fun _ _ h ↦ linksRound_spaced hsub h) m n ⟨rfl, he, rfl⟩

/-! ## Names -/

/-- A name is a call without parentheses if a function is defined under it. Otherwise what is free
behind it is free behind any operand. -/
theorem named_spaced (name : String) :
    Follows (Spread (p.now .callee)) (named ctx sub₁ name start)
      (named ctx sub₂ name start') Expr.Alike
      fun _ ↦ Spread (p.now .operand) := by
  have hmark (text : String) (htext : text ∈ ["(", "."]) : (p.now .callee).Withholds text := by
    refine Place.withholds_now rfl fun level _ ↦ ?_
    revert text
    cases level <;> decide
  have hcall {R : Pairing} {args args' : List Expr} (hargs : Alikes args args') : Follows R
      (do return ((Expr.call name args).moveTo start).inScope (← scope))
      (do return ((Expr.call name args').moveTo start').inScope (← scope)) Expr.Alike
      fun _ ↦ R := by
    refine Follows.scope.bind fun scope scope' hscope ↦ ?_
    subst hscope
    exact .pure (Form.Alike.call name hargs).node fun _ _ ↦ id
  refine (Follows.symbols fun table ↦ table.isFunction_unplaced name).bind
    fun isFunction _ hfunction ↦
    (Follows.is_spread (by decide) (hmark "(" (by decide))).bind fun opens _ hopens ↦
      (Follows.is_spread (by decide) (hmark "." (by decide))).bind fun dots _ hdots ↦ ?_
  subst hfunction hopens hdots
  refine .ite Iff.rfl (fun _ ↦ .current_spread (fun t t' hmeets ↦ ?_) fun t t' hbreak hgap ↦
    ?_) fun _ ↦ ?_
  · refine .ite (by rw [opensOperand_eq hmeets]) (fun hopens ↦ ?_) fun _ ↦ ?_
    · refine Follows.bind ((looseArgs_spaced (p := p) hsub).of_implies fun _ _ hat ↦
        (hat.move (Place.after_callee hopens)).begun) fun args args' ↦ hcall
    · refine .bind (.pure .nil fun _ _ hat ↦ ?_) fun args args' ↦ hcall
      exact hat.begun.spread.refine (Place.Refines.callee_operand p)
  -- the function is called without arguments by both
  · rw [opensOperand_eq_false_of_gap rfl hgap, opensOperand_of_isStop (.inr hbreak)]
    refine .bind (.pure .nil fun _ _ hspread ↦ ?_) fun args args' ↦ hcall
    exact hspread.refine (Place.Refines.callee_operand p)
  · refine (Follows.symbols fun table ↦ table.isModule_unplaced name).bind
      fun isModule _ hmodule ↦ ?_
    subst hmodule
    refine (Follows.node (.refl _) _ _).bind fun e e' he ↦ ?_
    exact (links_spaced hsub he _).of_implies fun _ _ hspread ↦
      hspread.refine (Place.Refines.callee_operand p)

/-! ## Lists and maps -/

theorem itemsRound_spaced {items items' : List Expr × Bool} (h : ItemsAlike items items') :
    Follows (Spread ((p.within .list).now (if items.2 then .fresh else .operand)))
      (itemsRound sub₁ items) (itemsRound sub₂ items') (Round.Matches ItemsAlike Alikes)
      (Round.pairing
        (fun items ↦ Spread ((p.within .list).now (if items.2 then .fresh else .operand)))
        (Ahead (p.now .operand) 1)) := by
  obtain ⟨items, wanting⟩ := items
  obtain ⟨items', wanting'⟩ := items'
  obtain ⟨hitems, hwanting⟩ := h
  dsimp only at hwanting
  subst hwanting
  refine Follows.skipNewLines_spread.bind fun _ _ _ ↦
    .is_begun_branch (by decide) (Place.leads_close (by decide) _) ?_ ?_
  · rw [Place.closed_within]
    exact .pure (.done hitems.reverse) fun _ _ ↦ id
  refine Follows.isEnded_begun.bind fun ended _ hended ↦ ?_
  subst hended
  refine .require Orderly.fails_failExpected id fun _ ↦
    .is_begun_branch (by decide) (Place.leads_separator (by decide) _) ?_ ?_
  · have hpass {items items' : List Expr} (hitems : Alikes items items') :
        Follows (Ahead ((p.within .list).now .fresh) 1) (do
          advance 1 true
          return .again (items, true) : Parse (Round (List Expr × Bool) (List Expr))) (do
          advance 1 true
          return .again (items', true)) (Round.Matches ItemsAlike Alikes)
        (Round.pairing
          (fun items ↦ Spread ((p.within .list).now (if items.2 then .fresh else .operand)))
          (Ahead (p.now .operand) 1)) :=
      (Follows.advance_ahead true).bind fun _ _ _ ↦ .pure (.again ⟨hitems, rfl⟩) fun _ _ ↦
      Begun.spread
    refine .ite Iff.rfl (fun _ ↦ Follows.position.bind fun _ _ _ ↦ ?_) fun _ ↦ ?_
    · exact (Follows.node (.refl _) _ _).bind fun e e' he ↦
        .bind (.pure (.cons he hitems) fun _ _ ↦ id) fun _ _ ↦ hpass
    · exact .bind (.pure hitems fun _ _ ↦ id) fun _ _ ↦ hpass
  · refine .require Orderly.fails_failExpected id fun hwanting ↦ ?_
    obtain rfl : wanting' = true := by simpa using hwanting
    rw [if_pos rfl, Place.now_fresh_within]
    refine hsub.item.bind fun e e' he ↦ ?_
    exact .pure (.again ⟨.cons he hitems, rfl⟩) fun _ _ ↦ id

theorem array_spaced : Follows (Ahead (p.within .list) 1) (array sub₁) (array sub₂)
    Expr.Alike fun _ ↦ Spread (p.now .operand) := by
  refine Follows.position.bind fun _ _ _ ↦ (Follows.expect_ahead (by decide) true).bind fun _ _ _ ↦
    Follows.rounds.bind fun m n _ ↦ ?_
  rw [itemsWithin_eq_rounded, itemsWithin_eq_rounded]
  have hitems := Follows.rounded (V := ItemsAlike) (R := Ahead (p.now .operand) 1)
    (P := fun items ↦ Spread ((p.within .list).now (if items.2 then .fresh else .operand)))
    (fun _ _ h ↦ itemsRound_spaced hsub h) m n (a := ([], true)) (b := ([], true)) ⟨.nil, rfl⟩
  refine (hitems.of_implies fun l l' (hbegun : Begun (p.within .list) l l') ↦ ?_).bind
    fun items items' hitems ↦ ?_
  · rw [if_pos rfl, Place.now_fresh_within]
    exact hbegun.spread
  · exact (Follows.advance_ahead false).bind fun _ _ _ ↦ .node (.array hitems) _ _

omit hsub in
/-- Only a string, a name or a number is a key. -/
theorem mapKey_spaced : Follows (Begun (p.now .fresh)) mapKey mapKey Eq
    fun _ ↦ Ahead (p.now .operand) 1 := by
  refine .current_begun fun t t' hmeets ↦ ?_
  have hpass {text : String} (hstop : ¬ t.IsStop)
      (ht : ((p.now .fresh).after t).Refines (p.now .operand)) :
      Follows (BegunAt (p.now .fresh) t t') (pure text) (pure text) Eq
        fun _ ↦ Ahead (p.now .operand) 1 :=
    .pure rfl fun _ _ hat ↦
      (hat.ahead (Bool.eq_false_iff.mpr fun hend ↦ hstop (.inl hend))).refine ht
  rcases hmeets.lexeme_cases with ⟨hsame, -, hstop⟩ | ⟨raw, parts, parts', hl, hl', -⟩ | ⟨ht, -⟩
  · have hliteral (h : t.lexeme.isLiteral = true) :
        ((p.now .fresh).after t).Refines (p.now .operand) :=
      Place.after_literal (.inl h) ▸ .refl _
    rw [hsame]
    split
    · next value hlexeme => exact hpass hstop (hliteral (by rw [hlexeme]; rfl))
    · next name hlexeme =>
        exact hpass hstop (Place.after_ident hlexeme ▸ Place.Refines.callee_operand p)
    · next value hlexeme => exact hpass hstop (hliteral (by rw [hlexeme]; rfl))
    · exact .failExpected
  · rw [hl, hl']
    exact .failExpected
  · rcases ht.lexeme_cases with h | ⟨_, -, h⟩ <;> rw [h] <;> exact .failExpected

theorem entriesRound_spaced {entries entries' : List MapEntry}
    (h : AgreeUnder MapEntry.unplaced entries entries') :
    Follows (Begun (p.within .list)) (entriesRound sub₁ entries)
      (entriesRound sub₂ entries')
      (Round.Matches (AgreeUnder MapEntry.unplaced) (AgreeUnder MapEntry.unplaced))
      (Round.pairing (fun _ ↦ Begun (p.within .list)) (Ahead (p.now .operand) 1)) := by
  have hcolon : ((p.within .list).now .operand).Withholds ":" :=
    Place.withholds_now rfl fun level _ ↦ by cases level <;> decide
  rw [entriesRound, entriesRound, ← Place.now_fresh_within]
  refine Follows.skipNewLines_begun.bind fun _ _ _ ↦
    .is_begun_branch (by decide) (Place.leads_close (by decide) .fresh) ?_ ?_
  · rw [Place.closed_within]
    exact .pure (.done h.reverse) fun _ _ ↦ id
  refine mapKey_spaced.bind fun key _ hkey ↦ (Follows.advance_ahead false).bind fun _ _ _ ↦
    (Follows.expect_spread (by decide) hcolon
      (Place.leads_separator (by decide) .operand) true).bind
      fun _ _ _ ↦ ?_
  subst hkey
  rw [Place.now_fresh_within]
  refine hsub.item.bind fun e e' he ↦ Follows.skipNewLines_spread.bind fun _ _ _ ↦
    .listSeparator_begun (by decide) ?_
  rw [Place.now_fresh_within]
  exact .pure (.again (.cons (congrArg (MapEntry.mk key) he) h)) fun _ _ ↦ id

theorem map_spaced : Follows (Ahead (p.within .list) 1) (map sub₁) (map sub₂) Expr.Alike
    fun _ ↦ Spread (p.now .operand) := by
  refine Follows.position.bind fun _ _ _ ↦ (Follows.expect_ahead (by decide) true).bind fun _ _ _ ↦
    Follows.rounds.bind fun m n _ ↦ ?_
  rw [entriesWithin_eq_rounded, entriesWithin_eq_rounded]
  refine (Follows.rounded (P := fun _ ↦ Begun (p.within .list)) (R := Ahead (p.now .operand) 1)
    (fun _ _ h ↦ entriesRound_spaced hsub h) m n .nil).bind fun entries entries' hentries ↦ ?_
  exact (Follows.advance_ahead false).bind fun _ _ _ ↦ .node (.map hentries) _ _

/-! ## Functions without a name -/

omit hsub in
/-- A parameter list that may be left out, before what follows. -/
theorem optionalParams_spaced {α β : Type} {V : α → β → Prop} {P : α → Pairing}
    {g : List String → Parse α} {k : List String → Parse β}
    (h : ∀ names, Follows (Spread (p.now .operand)) (g names) (k names) V P) :
    Follows (Spread (p.now .operand)) (do if ← is "(" then params ctx >>= g else pure [] >>= g)
      (do if ← is "(" then params ctx >>= k else pure [] >>= k) V P := by
  have hopen : (p.now .operand).Leads "(" (p.within .list) := by
    have h : (p.now .operand).Leads "(" ((p.now .operand).afterSymbol "(") :=
      Place.leads_symbol (by decide) (by decide)
    rwa [p.afterSymbol_operand.1] at h
  have hfree : (p.now .operand).Withholds "(" :=
    Place.withholds_now rfl fun level _ ↦ by cases level <;> decide
  refine .is_spread_branch (by decide) hfree hopen (params_spaced.bind fun names _ hnames ↦ ?_)
    (.bind (V := Eq) (P := fun _ ↦ Spread (p.now .operand)) (.pure rfl fun _ _ ↦ id)
      fun names _ hnames ↦ ?_)
  · subst hnames
    exact h names
  · subst hnames
    exact h names

/-- The body is a block. -/
theorem lambda_spaced :
    Follows (Ahead (p.now .operand) 1) (lambda ctx sub₁) (lambda ctx sub₂) Expr.Alike
      fun _ ↦ Spread (p.now .operand) := by
  refine Follows.position.bind fun _ _ _ ↦ (Follows.expect_ahead (by decide) false).bind fun _ _ _ ↦
    optionalParams_spaced fun names ↦
      (statementsInScope_spaced hsub .function names).bind fun found found' hfound ↦ ?_
  obtain ⟨body, inner⟩ := found
  obtain ⟨body', inner'⟩ := found'
  obtain ⟨hbody, rfl⟩ := hfound
  refine Follows.scope.bind fun outer _ houter ↦ ?_
  subst houter
  exact .pure (Form.Alike.lambda (.intro hbody _)).node fun _ _ ↦ id

/-! ## Forms of operands -/

theorem prefixed_spaced (op : UnaryOp) :
    Follows (Ahead (p.now .sign) 1) (prefixed sub₁ op start) (prefixed sub₂ op start')
      Expr.Alike fun _ ↦ Spread (p.now .operand) :=
  (Follows.advance_ahead false).bind fun _ _ _ ↦
  ((hsub.operand (.inr rfl)).of_implies fun _ _ hspread ↦
    Spread.begun hspread p.isTight_sign).bind fun _ _ he ↦ .node (.unary op he) _ _

theorem prefixedChange_spaced (op : UnaryOp) :
    Follows (Ahead (p.now .sign) 1) (prefixedChange sub₁ op start)
      (prefixedChange sub₂ op start') Expr.Alike fun _ ↦ Spread (p.now .operand) := by
  refine (Follows.advance_ahead false).bind fun _ _ _ ↦ ((hsub.operand (.inr rfl)).of_implies
    fun _ _ hspread ↦ Spread.begun hspread p.isTight_sign).bind fun e e' he ↦ ?_
  rw [he.isAssignable_eq]
  exact .require (Orderly.fails_throw id) id fun _ ↦ .node (.unary op he) _ _

theorem parenthesized_spaced :
    Follows (Ahead (p.within .group) 1) (parenthesized ctx sub₁) (parenthesized ctx sub₂)
      Expr.Alike fun _ ↦ Spread (p.now .operand) := by
  have hparens (sub : Subparser) : insideParens ctx sub = (do
      ctx.enterParen
      advance 1 true
      insideGroup sub) := rfl
  rw [parenthesized_eq, parenthesized_eq, hparens, hparens]
  refine Follows.bind (V := Expr.Alike) (P := fun _ ↦ Spread (p.now .operand)) ?_ fun e e' he ↦
    Follows.leaveParen.bind fun _ _ _ ↦ links_spaced hsub he []
  exact Follows.enterParen.bind fun _ _ _ ↦ (Follows.advance_ahead true).bind fun _ _ _ ↦ hsub.group

/-- Whether a number follows the sign is seen one token ahead, where no line break more stands. -/
theorem minus_spaced :
    Follows (Ahead (p.now .sign) 1) (minus sub₁ start) (minus sub₂ start') Expr.Alike
      fun _ ↦ Spread (p.now .operand) := by
  refine (Follows.peek_ahead (by decide) p.isTight_sign fun _ _ ↦ id).bind fun u u' hmeets ↦ ?_
  rw [hmeets.number?_eq]
  cases hnumber : u.lexeme.number? with
  | some n =>
    obtain ⟨text, hlexeme⟩ : ∃ text, u.lexeme = .number text n := by
      cases hlexeme : u.lexeme with
      | number text value =>
        rw [hlexeme] at hnumber
        exact ⟨text, by rw [Option.some.inj hnumber]⟩
      | _ => rw [hlexeme] at hnumber; cases hnumber
    have hend : u.isEnd = false := by rw [Token.isEnd, Token.kind, hlexeme]; rfl
    have hafter : (p.now .sign).after u = p.now .operand := by
      rw [Place.after_sign (by rw [isNewLine, Token.kind, hlexeme]; rfl)]
      exact Place.after_literal (.inl (by rw [hlexeme]; rfl))
    exact (Follows.advance_two_ahead.of_implies fun _ _ h ↦ hafter ▸ h.2 hend).bind fun _ _ _ ↦
      .node (.refl _) _ _
  | none => exact (prefixed_spaced hsub .negate).of_implies fun _ _ h ↦ h.1

/-! ## Operands -/

omit hsub in
/-- Behind a prefix operator, an operand begins as it does at the beginning. -/
theorem Follows.begun_lately {t t' : Token} {lately : Lately}
    (hlately : lately = .fresh ∨ lately = .sign) (hstop : ¬ t.IsStop) {x y : Parse Expr}
    (h : Follows (BegunAt (p.now .fresh) t t') x y Expr.Alike fun _ ↦ Spread (p.now .operand)) :
    Follows (BegunAt (p.now lately) t t') x y Expr.Alike fun _ ↦ Spread (p.now .operand) := by
  refine h.of_implies fun l l' hat ↦ ?_
  rcases hlately with rfl | rfl
  · exact hat
  · refine hat.move (Place.after_sign (Bool.eq_false_iff.mpr fun hbreak ↦ hstop (.inr ?_)))
    exact (hat.similar.lexeme.isLineBreak (beq_iff_eq.mp hbreak)).1

omit hsub in
/-- A symbol leads to where what follows it may begin. -/
theorem Follows.begun_symbol {t t' : Token} {text : String} {q : Place} {x y : Parse Expr}
    (hlexeme : t.lexeme = .symbol text) (hq : (p.now .fresh).afterSymbol text = q)
    (h : Follows (Ahead q 1) x y Expr.Alike fun _ ↦ Spread (p.now .operand)) :
    Follows (BegunAt (p.now .fresh) t t') x y Expr.Alike fun _ ↦ Spread (p.now .operand) :=
  h.of_implies fun _ _ hat ↦ hq ▸ ahead_of_isSymbol hat (isSymbol_iff.mpr hlexeme) (by simp)

theorem plainOperand_spaced {lately : Lately}
    (hlately : lately = .fresh ∨ lately = .sign) :
    Follows (Begun (p.now lately)) (plainOperand ctx sub₁) (plainOperand ctx sub₂)
      Expr.Alike fun _ ↦ Spread (p.now .operand) := by
  refine .current_begun fun t t' hmeets ↦ ?_
  dsimp only
  have hend (hstop : ¬ t.IsStop) : t.isEnd = false :=
    Bool.eq_false_iff.mpr fun hend ↦ hstop (.inl hend)
  rcases hmeets.lexeme_cases with
    ⟨hsame, hkind, hstop⟩ | ⟨raw, parts, parts', hl, hl', hparts⟩ | ⟨ht, -⟩
  · refine .begun_lately hlately hstop ?_
    rw [hsame]
    split
    · next raw parts hlexeme => exact absurd (congrArg Lexeme.kind hlexeme) hkind
    · next name hlexeme =>
      exact (Follows.advance_begun (hend hstop) (Place.after_ident hlexeme) false).bind fun _ _ _ ↦
        named_spaced hsub name
    · next hlexeme =>
      exact (lambda_spaced hsub).of_implies fun _ _ hat ↦
        Place.after_function hlexeme ▸ hat.ahead (hend hstop)
    · next hlexeme =>
      exact .begun_symbol hlexeme (p.afterSymbol_sign (by decide)) (minus_spaced hsub)
    · next hlexeme =>
        exact .begun_symbol hlexeme (p.afterSymbol_sign (by decide)) (prefixed_spaced hsub .not)
    · next hlexeme =>
      exact .begun_symbol hlexeme (p.afterSymbol_sign (by decide))
        (prefixedChange_spaced hsub .preIncrement)
    · next hlexeme =>
      exact .begun_symbol hlexeme (p.afterSymbol_sign (by decide))
        (prefixedChange_spaced hsub .preDecrement)
    · next hlexeme => exact .begun_symbol hlexeme p.afterSymbol_fresh.1 (parenthesized_spaced hsub)
    · next hlexeme =>
      exact .begun_symbol hlexeme p.afterSymbol_fresh.2.1
        ((array_spaced hsub).bind fun e e' he ↦ links_spaced hsub he [])
    · next hlexeme => exact .begun_symbol hlexeme p.afterSymbol_fresh.2.2 (map_spaced hsub)
    · exact .failExpected
    -- a literal of one token, or nothing that begins an operand
    · refine .ite Iff.rfl (fun hliteral ↦ ?_) fun _ ↦ .of_fails (Orderly.fails_fail id)
      refine (Follows.advance_begun (hend hstop) (Place.after_literal (.inl hliteral)) false).bind
        fun _ _ _ ↦ ?_
      exact (Follows.node (.refl _) _ _).bind fun e e' he ↦ links_spaced hsub he []
  -- a string with embedded sections, which may differ in their positions
  · have hkind : t.kind = .interpolated := congrArg Lexeme.kind hl
    have hstop : ¬ t.IsStop := fun hstop ↦ hstop.kind_ne (by simp) (by simp) hkind
    refine .begun_lately hlately hstop ?_
    rw [hl, hl']
    refine (Follows.advance_begun (hend hstop) (Place.after_literal (.inr hkind)) false).bind
      fun _ _ _ ↦ ?_
    exact (pieces_follows hsub.tandem hparts).bind fun list list' hlist ↦
      .node (.interpolated hlist) _ _
  -- at the end of a statement no operand is found
  · rcases ht.lexeme_cases with h | ⟨_, -, h⟩ <;> rw [h]
    · exact .failExpected
    · exact .of_fails (Orderly.fails_fail id)

theorem operand_spaced (hctx : ctx.registry.entries = []) {lately : Lately}
    (hlately : lately = .fresh ∨ lately = .sign) :
    Follows (Begun (p.now lately)) (operand ctx sub₁) (operand ctx sub₂) Expr.Alike
      fun _ ↦ Spread (p.now .operand) := by
  rw [operand_eq, operand_eq]
  exact (Follows.build?_bind hctx (plainOperand_spaced hsub hlately)).deeper

end

end ScriptFront.Parse
