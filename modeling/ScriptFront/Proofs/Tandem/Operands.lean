import ScriptFront.Proofs.Tandem.Blocks

/-!
# Operands in tandem

Brackets of all kinds hold their contents together over line breaks. Inside them the first list may
be spent behind line breaks while the second one goes on, but then the first parser misses the
closing mark, and nothing is asked. So every operand that the first parser reads is read by the
second one, up to positions, and both stand behind it.

A list of arguments without parentheses is the one form whose beginning depends on the next token
only, whether it opens an operand; that is the same of two tokens that meet.
-/

namespace ScriptFront.Parse

variable {α β : Type} {R : Pairing} {tail : List Token} {ctx : ParseContext} {sub₁ sub₂ : Subparser}
  {start start' : Position}

theorem callOn_alike {e e' : Expr} {args args' : List Expr} (he : e.Alike e')
    (hargs : Alikes args args')
    (qualified : List String) : (callOn e qualified args).Alike (callOn e' qualified args') := by
  rw [callOn, callOn]
  split
  · exact (Form.Alike.callComputed he hargs).node
  · exact (Form.Alike.call _ hargs).node

/-- No operand begins where a statement ends. -/
theorem opensOperand_of_isStop {t : Token} (h : t.IsStop) : opensOperand t = false := by
  have hkind {kind : TokenKind} (hend : kind ≠ .endOfInput) (hbreak : kind ≠ .newLine) :
      (t.kind == kind) = false := beq_eq_false_iff_ne.mpr (h.kind_ne hend hbreak)
  have hliteral : t.lexeme.isLiteral = false := by
    rcases h.lexeme_cases with ht | ht
    · rw [ht]
      rfl
    · rw [Lexeme.isLiteral, ht.kind_eq]
  rw [opensOperand, hliteral, hkind (by simp) (by simp), hkind (by simp) (by simp),
    h.isSymbol_eq_false, h.isSymbol_eq_false]
  rfl

/-- An operand begins at both of two tokens that meet, or at neither. -/
theorem opensOperand_eq {t t' : Token} (h : t.Meets t') : opensOperand t' = opensOperand t := by
  have hsymbols (text : String) : t'.isSymbol text = t.isSymbol text := h.isSymbol_eq
  rcases h with ⟨hsimilar, -⟩ | ⟨ht, ht'⟩
  · have hliteral : t'.lexeme.isLiteral = t.lexeme.isLiteral := by
      rw [Lexeme.isLiteral, Lexeme.isLiteral, hsimilar.lexeme.kind_eq]
    rw [opensOperand, opensOperand, hliteral, hsimilar.kind_eq, hsymbols, hsymbols]
  · rw [opensOperand_of_isStop ht, opensOperand_of_isStop ht']

section

variable (htail : IsTailOfTokens tail) (hsub : Tandem sub₁ sub₂)

include htail hsub

/-! ## Arguments and links -/

theorem callArgsRound_follows {args args' : List Expr} (hargs : Alikes args args') :
    Follows (JoinsLax tail) (callArgsRound sub₁ args) (callArgsRound sub₂ args')
      (Round.Matches Alikes Alikes) (Round.pairing (fun _ ↦ JoinsLax tail) (JoinsSolid tail)) := by
  rw [callArgsRound, callArgsRound]
  refine Follows.skipNewLines.bind fun _ _ _ ↦
    .of_lax ?_ (.is_branch (by decide) (hsub.expression_dies false).bind)
  refine .is_branch htail (by decide) (.pure (.done hargs.reverse) fun _ _ ↦ id) ?_
  refine (hsub.expression htail).bind fun e e' he ↦
    (Follows.skipNewLines.of_implies fun _ _ ↦ Joins.lax).bind fun _ _ _ ↦ ?_
  exact .listSeparator htail (by decide) (.pure (.again (.cons he hargs)) fun _ _ ↦ id)

theorem callArgs_follows :
    Follows (Joins tail) (callArgs ctx sub₁) (callArgs ctx sub₂) Alikes fun _ ↦ Joins tail := by
  refine (Follows.expect htail (by decide) true).bind fun _ _ _ ↦ Follows.enterCall.bind fun _ _ _ ↦
    Follows.rounds.bind fun m n _ ↦ ?_
  rw [callArgsWithin_eq_rounded, callArgsWithin_eq_rounded]
  refine (Follows.rounded (P := fun _ ↦ JoinsLax tail) (R := JoinsSolid tail)
    (fun _ _ hargs ↦ callArgsRound_follows htail hsub hargs) m n .nil).bind
    fun args args' hargs ↦ ?_
  exact (Follows.advance false).bind fun _ _ _ ↦ Follows.leaveCall.bind fun _ _ _ ↦
    .pure hargs fun _ _ ↦ id

theorem looseArgsRound_follows {args args' : List Expr} (hargs : Alikes args args') :
    Follows (Joins tail) (looseArgsRound sub₁ args) (looseArgsRound sub₂ args')
      (Round.Matches Alikes Alikes) (Round.pairing (fun _ ↦ Joins tail) (Joins tail)) := by
  rw [looseArgsRound, looseArgsRound]
  refine .is_branch htail (by decide) ?_ (.pure (.done hargs.reverse) fun _ _ ↦ id)
  refine (Follows.advance true).bind fun _ _ _ ↦ (hsub.argument htail).bind fun e e' he ↦ ?_
  exact .pure (.again (.cons he hargs)) fun _ _ ↦ id

theorem looseArgs_follows :
    Follows (Joins tail) (looseArgs ctx sub₁) (looseArgs ctx sub₂) Alikes fun _ ↦ Joins tail := by
  refine Follows.enterCall.bind fun _ _ _ ↦ (hsub.expression htail).bind fun e e' he ↦
    Follows.rounds.bind fun m n _ ↦ ?_
  rw [looseArgsWithin_eq_rounded, looseArgsWithin_eq_rounded]
  refine (Follows.rounded (P := fun _ ↦ Joins tail) (R := Joins tail)
    (fun _ _ hargs ↦ looseArgsRound_follows htail hsub hargs) m n (.cons he .nil)).bind
      fun args args' hargs ↦ ?_
  exact Follows.leaveCall.bind fun _ _ _ ↦ .pure hargs fun _ _ ↦ id

/-- Links agree: their number, the operand so far and the full name. -/
def LinksAlike (link link' : Nat × Expr × List String) : Prop :=
  link'.1 = link.1 ∧ link.2.1.Alike link'.2.1 ∧ link'.2.2 = link.2.2

/-- One link: a member, an index, the arguments of a call, or a change behind the operand, which
ends the chain. -/
theorem linksRound_follows {link link' : Nat × Expr × List String} (h : LinksAlike link link') :
    Follows (Joins tail) (linksRound ctx sub₁ start link) (linksRound ctx sub₂ start' link')
      (Round.Matches LinksAlike Expr.Alike) (Round.pairing (fun _ ↦ Joins tail) (Joins tail)) := by
  obtain ⟨links, e, qualified⟩ := link
  obtain ⟨links', e', qualified'⟩ := link'
  obtain ⟨rfl, he, rfl⟩ := h
  refine .current_bind htail fun t t' hmeets ↦ ?_
  simp only [hmeets.isSymbol_eq, he.isAssignable_eq]
  refine .ite Iff.rfl (fun hdot ↦ ?_) fun _ ↦ .ite Iff.rfl (fun hopen ↦ ?_) fun _ ↦
    .ite Iff.rfl (fun _ ↦ ?_) fun _ ↦ .ite Iff.rfl (fun hinc ↦ ?_) fun _ ↦
      .ite Iff.rfl (fun hdec ↦ ?_) fun _ ↦ ?_
  · refine (Follows.limit _ _ _).bind fun _ _ _ ↦
      (Follows.advance_at (Token.not_isStop_of_isSymbol hdot) true).bind fun _ _ _ ↦
        (Follows.expectName_lax htail false).bind fun name _ hname ↦ ?_
    subst hname
    exact (Follows.node (.member he name) _ _).bind fun u u' hu ↦
      .pure (.again ⟨rfl, hu, rfl⟩) fun _ _ ↦ id
  · refine (Follows.limit _ _ _).bind fun _ _ _ ↦
      (Follows.advance_at (Token.not_isStop_of_isSymbol hopen) true).bind fun _ _ _ ↦
        (hsub.argument htail).bind fun key key' hkey ↦ ?_
    refine (Follows.skipNewLines.of_implies fun _ _ ↦ Joins.lax).bind fun _ _ _ ↦
      (Follows.expect_lax htail (by decide) false).bind fun _ _ _ ↦ ?_
    exact (Follows.node (.index he hkey) _ _).bind fun u u' hu ↦
      .pure (.again ⟨rfl, hu, rfl⟩) fun _ _ ↦ id
  · refine (Follows.limit _ _ _).bind fun _ _ _ ↦
      ((callArgs_follows htail hsub).of_implies fun _ _ ↦
      JoinsAt.joins).bind fun args args' hargs ↦ Follows.scope.bind fun scope scope' hscope ↦ ?_
    subst hscope
    exact .pure (.again ⟨rfl, (callOn_alike he hargs _).placed, rfl⟩) fun _ _ ↦ id
  · have hstop := Token.not_isStop_of_isSymbol (Bool.and_eq_true _ _ ▸ hinc).1
    refine (Follows.advance_at hstop false).bind fun _ _ _ ↦ ?_
    exact (Follows.node (.unary _ he) _ _).bind fun u u' hu ↦ .pure (.done hu) fun _ _ ↦ id
  · have hstop := Token.not_isStop_of_isSymbol (Bool.and_eq_true _ _ ▸ hdec).1
    refine (Follows.advance_at hstop false).bind fun _ _ _ ↦ ?_
    exact (Follows.node (.unary _ he) _ _).bind fun u u' hu ↦ .pure (.done hu) fun _ _ ↦ id
  · exact .pure (.done he) fun _ _ ↦ JoinsAt.joins

theorem links_follows {e e' : Expr} (he : e.Alike e') (qualified : List String) :
    Follows (Joins tail) (links ctx sub₁ e qualified) (links ctx sub₂ e' qualified) Expr.Alike
      fun _ ↦ Joins tail := by
  refine Follows.rounds.bind fun m n _ ↦ ?_
  rw [linksWithin_eq_rounded, linksWithin_eq_rounded]
  exact Follows.rounded (P := fun _ ↦ Joins tail) (fun _ _ h ↦ linksRound_follows htail hsub h) m n
    ⟨rfl, he, rfl⟩

/-! ## Forms of operands -/

/-- A name is a call without parentheses if a function is defined under it, so the names of the two
parsers must agree. -/
theorem named_follows (name : String) :
    Follows (Joins tail) (named ctx sub₁ name start) (named ctx sub₂ name start') Expr.Alike
      fun _ ↦ Joins tail := by
  have hcall {args args' : List Expr} (hargs : Alikes args args') : Follows (Joins tail)
      (do return ((Expr.call name args).moveTo start).inScope (← scope))
      (do return ((Expr.call name args').moveTo start').inScope (← scope)) Expr.Alike
      fun _ ↦ Joins tail := by
    refine Follows.scope.bind fun scope scope' hscope ↦ ?_
    subst hscope
    exact .pure (Form.Alike.call name hargs).node fun _ _ ↦ id
  refine (Follows.symbols fun table ↦ table.isFunction_unplaced name).bind
    fun isFunction _ hfunction ↦
    (Follows.is htail (by decide)).bind fun opens _ hopens ↦
      (Follows.is htail (by decide)).bind fun dots _ hdots ↦ ?_
  subst hfunction hopens hdots
  refine .ite Iff.rfl (fun _ ↦ .current_bind htail fun t t' hmeets ↦ ?_) fun _ ↦ ?_
  · refine .of_implies (.ite (by rw [opensOperand_eq hmeets]) (fun _ ↦ ?_) fun _ ↦ ?_)
      fun _ _ ↦ JoinsAt.joins
    · exact (looseArgs_follows htail hsub).bind fun args args' ↦ hcall
    · exact .bind (.pure .nil fun _ _ ↦ id) fun args args' ↦ hcall
  · refine (Follows.symbols fun table ↦ table.isModule_unplaced name).bind
      fun isModule _ hmodule ↦ ?_
    subst hmodule
    exact (Follows.node (.refl _) _ _).bind fun e e' he ↦ links_follows htail hsub he _

/-- Items agree, and whether one is wanted. -/
def ItemsAlike (items items' : List Expr × Bool) : Prop :=
  Alikes items.1 items'.1 ∧ items'.2 = items.2

theorem itemsRound_follows {items items' : List Expr × Bool} (h : ItemsAlike items items') :
    Follows (JoinsLax tail) (itemsRound sub₁ items) (itemsRound sub₂ items')
      (Round.Matches ItemsAlike Alikes)
      (Round.pairing (fun _ ↦ JoinsLax tail) (JoinsSolid tail)) := by
  obtain ⟨items, wanting⟩ := items
  obtain ⟨items', wanting'⟩ := items'
  obtain ⟨hitems, rfl⟩ := h
  refine Follows.skipNewLines.bind fun _ _ _ ↦ .of_lax ?_ (.is_branch (by decide) .isEnded_require)
  refine .is_branch htail (by decide) (.pure (.done hitems.reverse) fun _ _ ↦ id) ?_
  refine .isEnded_require htail Orderly.fails_failExpected (.is_branch htail (by decide) ?_ ?_)
  · have hpass {items items' : List Expr} (hitems : Alikes items items') :
        Follows (JoinsSolid tail) (do
          advance 1 true
          return .again (items, true) : Parse (Round (List Expr × Bool) (List Expr))) (do
          advance 1 true
          return .again (items', true)) (Round.Matches ItemsAlike Alikes)
        (Round.pairing (fun _ ↦ JoinsLax tail) (JoinsSolid tail)) :=
      (Follows.advance true).bind fun _ _ _ ↦ .pure (.again ⟨hitems, rfl⟩) fun _ _ ↦ id
    refine .ite Iff.rfl (fun _ ↦ Follows.position.bind fun _ _ _ ↦ ?_) fun _ ↦ ?_
    · exact (Follows.node (.refl _) _ _).bind fun e e' he ↦
        .bind (.pure (.cons he hitems) fun _ _ ↦ id)
        fun _ _ ↦ hpass
    · exact .bind (.pure hitems fun _ _ ↦ id) fun _ _ ↦ hpass
  · refine .require Orderly.fails_failExpected id fun _ ↦
      (hsub.expression htail).bind fun e e' he ↦ ?_
    exact .pure (.again ⟨.cons he hitems, rfl⟩) fun _ _ ↦ Joins.lax

theorem array_follows :
    Follows (Joins tail) (array sub₁) (array sub₂) Expr.Alike fun _ ↦ Joins tail := by
  refine Follows.position.bind fun _ _ _ ↦ (Follows.expect htail (by decide) true).bind fun _ _ _ ↦
    Follows.rounds.bind fun m n _ ↦ ?_
  rw [itemsWithin_eq_rounded, itemsWithin_eq_rounded]
  refine (Follows.rounded (P := fun _ ↦ JoinsLax tail) (R := JoinsSolid tail)
    (fun _ _ h ↦ itemsRound_follows htail hsub h) m n ⟨.nil, rfl⟩).bind fun items items' hitems ↦ ?_
  exact (Follows.advance false).bind fun _ _ _ ↦ .node (.array hitems) _ _

omit hsub in
/-- Only a string, a name or a number is a key. -/
theorem mapKey_follows : Follows (Joins tail) mapKey mapKey Eq fun _ ↦ JoinsSolid tail := by
  refine .current_bind htail fun t t' hmeets ↦ ?_
  rcases hmeets.lexeme_cases with ⟨hsame, -, hstop⟩ | ⟨raw, parts, parts', hl, hl', -⟩ | ⟨ht, -⟩
  · rw [hsame]
    split
    · exact .pure rfl fun _ _ hat ↦ hat.solid hstop
    · exact .pure rfl fun _ _ hat ↦ hat.solid hstop
    · exact .pure rfl fun _ _ hat ↦ hat.solid hstop
    · exact .failExpected
  · rw [hl, hl']
    exact .failExpected
  · rcases ht.lexeme_cases with h | ⟨_, -, h⟩ <;> rw [h] <;> exact .failExpected

theorem entriesRound_follows {entries entries' : List MapEntry}
    (h : AgreeUnder MapEntry.unplaced entries entries') :
    Follows (JoinsLax tail) (entriesRound sub₁ entries) (entriesRound sub₂ entries')
      (Round.Matches (AgreeUnder MapEntry.unplaced) (AgreeUnder MapEntry.unplaced))
      (Round.pairing (fun _ ↦ JoinsLax tail) (JoinsSolid tail)) := by
  rw [entriesRound, entriesRound]
  refine Follows.skipNewLines.bind fun _ _ _ ↦ .of_lax ?_ (.is_branch (by decide) (Dies.bind ?_))
  · refine .is_branch htail (by decide) (.pure (.done h.reverse) fun _ _ ↦ id) ?_
    refine (mapKey_follows htail).bind fun key _ hkey ↦ (Follows.advance false).bind fun _ _ _ ↦
      (Follows.expect htail (by decide) true).bind fun _ _ _ ↦
      (hsub.argument htail).bind fun e e' he ↦ ?_
    subst hkey
    refine (Follows.skipNewLines.of_implies fun _ _ ↦ Joins.lax).bind fun _ _ _ ↦ ?_
    exact .listSeparator htail (by decide)
      (.pure (.again (.cons (congrArg (MapEntry.mk key) he) h)) fun _ _ ↦ id)
  · exact .current fun t ht ↦ by rw [ht]; exact .failExpected

theorem map_follows : Follows (Joins tail) (map sub₁) (map sub₂) Expr.Alike fun _ ↦ Joins tail := by
  refine Follows.position.bind fun _ _ _ ↦ (Follows.expect htail (by decide) true).bind fun _ _ _ ↦
    Follows.rounds.bind fun m n _ ↦ ?_
  rw [entriesWithin_eq_rounded, entriesWithin_eq_rounded]
  refine (Follows.rounded (P := fun _ ↦ JoinsLax tail) (R := JoinsSolid tail)
    (fun _ _ h ↦ entriesRound_follows htail hsub h) m n .nil).bind
    fun entries entries' hentries ↦ ?_
  exact (Follows.advance false).bind fun _ _ _ ↦ .node (.map hentries) _ _

omit hsub in
/-- A parameter list that may be left out, before what follows. -/
theorem optionalParams_follows {p : Prop} [Decidable p] {f : List String → Parse α}
    {g : List String → Parse β} {V : α → β → Prop} {P : α → Pairing}
    (h : ∀ names, Follows (Joins tail) (f names) (g names) V P) :
    Follows (Joins tail) (if p then params ctx >>= f else pure [] >>= f)
      (if p then params ctx >>= g else pure [] >>= g) V P := by
  refine .ite Iff.rfl (fun _ ↦ (params_follows htail).bind fun names _ hnames ↦ ?_) fun _ ↦
    .bind (V := Eq) (P := fun _ ↦ Joins tail) (.pure rfl fun _ _ ↦ id) fun names _ hnames ↦ ?_
  · subst hnames
    exact h names
  · subst hnames
    exact h names

theorem lambda_follows :
    Follows (Joins tail) (lambda ctx sub₁) (lambda ctx sub₂) Expr.Alike fun _ ↦ Joins tail := by
  refine Follows.position.bind fun _ _ _ ↦ (Follows.expect htail (by decide) false).bind fun _ _ _ ↦
    (Follows.is htail (by decide)).bind fun opens _ hopens ↦ ?_
  subst hopens
  refine optionalParams_follows htail fun names ↦
    (statementsInScope_follows htail hsub .function names).bind fun found found' hfound ↦ ?_
  obtain ⟨body, inner⟩ := found
  obtain ⟨body', inner'⟩ := found'
  obtain ⟨hbody, rfl⟩ := hfound
  refine Follows.scope.bind fun outer _ houter ↦ ?_
  subst houter
  exact .pure (Form.Alike.lambda (.intro hbody _)).node fun _ _ ↦ id

omit htail in
/-- Embedded sections are parsed on their own, whatever is around them. -/
theorem pieces_follows {parts parts' : List Section}
    (h : List.Forall₂ Section.Similar parts parts') :
    Follows R (pieces sub₁ start parts) (pieces sub₂ start' parts') Alikes fun _ ↦ R := by
  induction h with
  | nil => exact .pure .nil fun _ _ ↦ id
  | cons hpart _ ih =>
    cases hpart with
    | text value =>
      exact (Follows.node (.refl _) _ _).bind fun e e' he ↦ ih.bind fun list list' hlist ↦
        .pure (.cons he hlist) fun _ _ ↦ id
    | tokens hclosed _ htokens =>
      exact (hsub.embedded hclosed htokens R).bind fun e e' he ↦ ih.bind fun list list' hlist ↦
        .pure (.cons he hlist) fun _ _ ↦ id

theorem prefixed_follows (op : UnaryOp) :
    Follows (JoinsSolid tail) (prefixed sub₁ op start) (prefixed sub₂ op start') Expr.Alike
      fun _ ↦ Joins tail :=
  (Follows.advance false).bind fun _ _ _ ↦ (hsub.operand htail).bind fun _ _ he ↦
  .node (.unary op he) _ _

theorem prefixedChange_follows (op : UnaryOp) :
    Follows (JoinsSolid tail) (prefixedChange sub₁ op start)
      (prefixedChange sub₂ op start') Expr.Alike
      fun _ ↦ Joins tail := by
  refine (Follows.advance false).bind fun _ _ _ ↦ (hsub.operand htail).bind fun e e' he ↦ ?_
  rw [he.isAssignable_eq]
  exact .require (Orderly.fails_throw id) id fun _ ↦ .node (.unary op he) _ _

theorem parenthesized_follows :
    Follows (JoinsSolid tail) (parenthesized ctx sub₁) (parenthesized ctx sub₂) Expr.Alike
      fun _ ↦ Joins tail := by
  have hparens (sub : Subparser) : insideParens ctx sub = (do
      ctx.enterParen
      advance 1 true
      insideGroup sub) := rfl
  rw [parenthesized_eq, parenthesized_eq, hparens, hparens]
  refine Follows.bind (V := Expr.Alike) (P := fun _ ↦ Joins tail) ?_ fun e e' he ↦
    Follows.leaveParen.bind fun _ _ _ ↦ links_follows htail hsub he []
  refine Follows.enterParen.bind fun _ _ _ ↦ (Follows.advance true).bind fun _ _ _ ↦ ?_
  exact Follows.of_lax (hsub.group htail) (hsub.expression_dies true).bind

/-- Whether a number follows the sign is seen one token ahead. -/
theorem minus_follows :
    Follows (JoinsSolid tail) (minus sub₁ start) (minus sub₂ start') Expr.Alike fun _ ↦
      Joins tail := by
  refine ((Follows.peek htail (by decide)).of_implies fun _ _ ↦ JoinsSolid.far).bind
    fun u u' hmeets ↦ ?_
  rw [hmeets.number?_eq]
  cases hnumber : u.lexeme.number? with
  | some n =>
    have hstop : ¬ u.IsStop := by
      intro hstop
      rcases hstop.lexeme_cases with hend | ⟨text, -, hbreak⟩
      · simp [hend, Lexeme.number?] at hnumber
      · simp [hbreak, Lexeme.number?] at hnumber
    exact (Follows.advance_two.of_implies fun _ _ h ↦ h.2 hstop).bind fun _ _ _ ↦
      .node (.refl _) _ _
  | none => exact (prefixed_follows htail hsub .negate).of_implies fun _ _ h ↦ h.1.solid

/-! ## Operands -/

omit htail hsub in
theorem plainOperand_dies {sub : Subparser} : Dies (plainOperand ctx sub) :=
  .current fun t ht ↦ by
    rw [ht]
    exact .failExpected

theorem plainOperand_follows :
    Follows (Joins tail) (plainOperand ctx sub₁) (plainOperand ctx sub₂) Expr.Alike fun _ ↦
      Joins tail := by
  refine .current_bind htail fun t t' hmeets ↦ ?_
  dsimp only
  rcases hmeets.lexeme_cases with
    ⟨hsame, hkind, hstop⟩ | ⟨raw, parts, parts', hl, hl', hparts⟩ | ⟨ht, -⟩
  · refine Follows.of_implies (R := JoinsSolid tail) ?_ fun _ _ hat ↦ hat.solid hstop
    have hjoins {x y : Parse Expr} (h : Follows (Joins tail) x y Expr.Alike fun _ ↦ Joins tail) :
        Follows (JoinsSolid tail) x y Expr.Alike fun _ ↦ Joins tail :=
      h.of_implies fun _ _ ↦ JoinsSolid.joins
    rw [hsame]
    split
    · next raw parts hlexeme => exact absurd (congrArg Lexeme.kind hlexeme) hkind
    · next name hlexeme =>
      exact (Follows.advance false).bind fun _ _ _ ↦ named_follows htail hsub name
    · exact hjoins (lambda_follows htail hsub)
    · exact minus_follows htail hsub
    · exact prefixed_follows htail hsub .not
    · exact prefixedChange_follows htail hsub .preIncrement
    · exact prefixedChange_follows htail hsub .preDecrement
    · exact parenthesized_follows htail hsub
    · exact hjoins ((array_follows htail hsub).bind fun e e' he ↦ links_follows htail hsub he [])
    · exact hjoins (map_follows htail hsub)
    · exact .failExpected
    -- a literal of one token, or nothing that begins an operand
    · refine .ite Iff.rfl (fun _ ↦ (Follows.advance false).bind fun _ _ _ ↦ ?_) fun _ ↦
        .of_fails (Orderly.fails_fail id)
      exact (Follows.node (.refl _) _ _).bind fun e e' he ↦ links_follows htail hsub he []
  -- a string with embedded sections, which may differ in their positions
  · have hkind : t.kind = .interpolated := congrArg Lexeme.kind hl
    have hstop : ¬ t.IsStop := fun hstop ↦ hstop.kind_ne (by simp) (by simp) hkind
    rw [hl, hl']
    refine (Follows.advance_at hstop false).bind fun _ _ _ ↦ ?_
    exact (pieces_follows hsub hparts).bind fun list list' hlist ↦ .node (.interpolated hlist) _ _
  -- at the end of a statement no operand is found, whatever the second parser does there
  · rcases ht.lexeme_cases with h | ⟨_, -, h⟩ <;> rw [h]
    · exact .failExpected
    · exact .of_fails (Orderly.fails_fail id)

omit htail hsub in
theorem operand_dies {sub : Subparser} (hctx : ctx.registry.entries = []) :
    Dies (operand ctx sub) := by
  rw [operand_eq]
  exact .deeper (.ask (g := fun _ ↦ none) (fun _ ↦ build?_run hctx sub .expression)
    fun _ ↦ plainOperand_dies)

theorem operand_follows (hctx : ctx.registry.entries = []) :
    Follows (Joins tail) (operand ctx sub₁) (operand ctx sub₂) Expr.Alike fun _ ↦ Joins tail := by
  rw [operand_eq, operand_eq]
  exact (Follows.build?_bind hctx (plainOperand_follows htail hsub)).deeper

end

end ScriptFront.Parse
