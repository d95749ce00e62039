import ScriptFront.Proofs.Parse.Likeness
import ScriptFront.Proofs.Parse.Stacks

/-!
# Two parsers side by side

Two parsers that run on related windows take the same decisions: every decision of a production
depends on the current token, on a token that is looked at, or on the names defined so far. This
module goes through the productions once and says so. The loops are taken round by round, and what
is collected between two rounds is the same on both sides; of the operands on the stacks, and of
what links are put behind, it is also kept that they stand at places that are allowed.

A loop that runs out of fuel on one side is always allowed for, so nothing has to be known about the
fuel on either side.
-/

namespace ScriptFront

/-- The outcome of a parse is that of its program. -/
theorem Parse.parseProgram_eq_outcome (ctx : ParseContext) (w : Window Lexer)
    (symbols : SymbolTable) :
    Parse.parseProgram ctx w symbols = outcome (fun statements s ↦ ⟨statements, s.symbols⟩)
      (Parse.program ctx (.initial w symbols)) := by
  cases hrun : Parse.program ctx (.initial w symbols) with
  | ok statements s => simp only [Parse.parseProgram, hrun, outcome]
  | error e s => simp only [Parse.parseProgram, hrun, outcome]

namespace Likeness.Kindred

variable {c : Likeness} {ctx₁ ctx₂ : ParseContext} {sub₁ sub₂ : Subparser} {α β : Type}

/-- Nothing is kept of what is collected. -/
abbrev Any : α → Prop := fun _ ↦ True

section

variable (h : c.Kindred ctx₁ ctx₂)

include h

/-! ## Blocks -/

theorem passSeparators : c.Same Parse.passSeparators Parse.passSeparators := by
  refine pairs_rounds fun m n ↦ ?_
  rw [Parse.passSeparatorsWithin_eq_rounded, Parse.passSeparatorsWithin_eq_rounded]
  refine h.kept.rounded (I := Any) (fun _ _ ↦ ?_) m n trivial
  refine h.kept.skipNewLines.paired fun _ ↦ (h.kept.is (by decide)).paired fun _ ↦ ?_
  exact .ite ((h.kept.advance 1 true).paired fun _ ↦ rounds_again trivial) (rounds_done rfl)

theorem continuesWith {text : String} (htext : Lexeme.IsAsked text) :
    c.Same (Parse.continuesWith text) (Parse.continuesWith text) := by
  rw [Parse.continuesWith]
  refine h.kept.kind.paired fun _ ↦ ?_
  refine .ite ((h.kept.peek (by decide) true).bind fun t u htu ↦ ?_) (h.kept.is htext)
  rw [(h.kept.lexeme htu).is_eq htext]
  exact pairs_branch h.kept.skipNewLines fun _ ↦ h.kept.is htext

theorem endStatement : c.Same Parse.endStatement Parse.endStatement := by
  refine pairs_tokens fun v w hvw ↦ ?_
  rw [h.kept.isExplicitEnd_eq hvw, h.kept.isEndOfStatementOrBlock_eq hvw,
    h.kept.is_eq hvw (by decide : Lexeme.IsAsked "else")]
  exact .ite (h.kept.advance 1 false) (.ite (h.kept.failExpected _) (.pure rfl))

theorem paramList : c.Same (Parse.params ctx₁) (Parse.params ctx₂) := by
  refine (h.kept.expect (by decide) true).paired fun _ ↦ pairs_rounds fun m n ↦ ?_
  rw [Parse.paramsWithin_eq_rounded, Parse.paramsWithin_eq_rounded]
  refine h.kept.rounded (I := Any) (fun names _ ↦ ?_) m n trivial
  refine (h.kept.is (by decide)).paired fun _ ↦
    .ite ((h.kept.expect (by decide) false).paired fun _ ↦ rounds_done rfl) ?_
  refine (h.kept.expectName true).paired fun name ↦ ?_
  refine h.check_bind h.params (fun _ ↦ rfl) fun _ ↦ ?_
  refine (h.kept.is (by decide)).paired fun _ ↦
    .ite ((h.kept.advance 1 true).paired fun _ ↦ rounds_again trivial) ?_
  exact (h.kept.is (by decide)).paired fun _ ↦
    pairs_branch (h.kept.failExpected _) fun _ ↦ rounds_again trivial

/-- One more statement, or the end of the loop. -/
theorem statementRound (hsub : c.Serves sub₁ sub₂)
    {ended₁ ended₂ : Parse (Parse.Round (List Expr) (List Expr))}
    (hended : c.Rounds Any Eq ended₁ ended₂) (done : List Expr) :
    c.Rounds Any Eq (Parse.statementRound sub₁ ended₁ done)
      (Parse.statementRound sub₂ ended₂ done) := by
  refine h.kept.place.bind fun before before' hbefore ↦ hsub.statement.paired fun found ↦ ?_
  cases found with
  | none => exact hended
  | some statement =>
    exact (h.kept.requireProgress hbefore).paired fun _ ↦ rounds_again trivial

theorem statementsWithin (hsub : c.Serves sub₁ sub₂) (m n : Nat) (done : List Expr) :
    c.Same (Parse.statementsWithin sub₁ m done) (Parse.statementsWithin sub₂ n done) := by
  rw [Parse.statementsWithin_eq_rounded, Parse.statementsWithin_eq_rounded]
  refine h.kept.rounded (I := Any) (fun done _ ↦ ?_) m n trivial
  refine h.passSeparators.paired fun _ ↦ (h.kept.is (by decide)).paired fun _ ↦
    .ite (rounds_done rfl) ?_
  refine h.kept.isEnded.paired fun _ ↦ pairs_branch (h.kept.failExpected _) fun _ ↦ ?_
  exact h.statementRound hsub (h.kept.failExpected _) done

theorem statementsInScope (hsub : c.Serves sub₁ sub₂) (kind : ScopeKind) (names : List String) :
    c.Same (Parse.statementsInScope ctx₁ sub₁ kind names)
      (Parse.statementsInScope ctx₂ sub₂ kind names) := by
  refine (h.continuesWith (by decide)).bind fun _ ↦ pairs_branch (h.kept.failExpected _) fun _ ↦ ?_
  refine h.enterBlock.paired fun _ ↦ (h.kept.advance 1 true).paired fun _ ↦ ?_
  refine (same_pushScope kind).paired fun scope ↦ (same_modifySymbols _).paired fun _ ↦ ?_
  refine pairs_rounds fun m n ↦ (h.statementsWithin hsub m n []).paired fun statements ↦ ?_
  exact h.kept.popScope.paired fun _ ↦ leaveBlock.paired fun _ ↦
    (h.kept.advance 1 false).paired fun _ ↦ .pure rfl

theorem blockWith (hsub : c.Serves sub₁ sub₂) (names : List String) :
    c.Same (Parse.blockWith ctx₁ sub₁ names) (Parse.blockWith ctx₂ sub₂ names) :=
  h.kept.position_bind fun _ _ ↦ (h.statementsInScope hsub .block names).paired fun _ ↦ .pure rfl

/-! ## Arguments and links -/

theorem callArgs (hsub : c.Serves sub₁ sub₂) :
    c.Same (Parse.callArgs ctx₁ sub₁) (Parse.callArgs ctx₂ sub₂) := by
  refine (h.kept.expect (by decide) true).paired fun _ ↦ h.enterCall.paired fun _ ↦
    pairs_rounds fun m n ↦ Paired.bind (Q := Eq) ?_ fun args _ hargs ↦ ?_
  · rw [Parse.callArgsWithin_eq_rounded, Parse.callArgsWithin_eq_rounded]
    refine h.kept.rounded (I := Any) (fun args _ ↦ ?_) m n trivial
    refine h.kept.skipNewLines.paired fun _ ↦ (h.kept.is (by decide)).paired fun _ ↦
      .ite (rounds_done rfl) ?_
    refine (hsub.expression false).bind fun arg _ ↦ h.kept.skipNewLines.paired fun _ ↦ ?_
    refine (h.kept.is (by decide)).paired fun _ ↦
      .ite ((h.kept.advance 1 true).paired fun _ ↦ rounds_again trivial) ?_
    exact (h.kept.is (by decide)).paired fun _ ↦
      pairs_branch (h.kept.failExpected _) fun _ ↦ rounds_again trivial
  · subst hargs
    exact (h.kept.advance 1 false).paired fun _ ↦ leaveCall.paired fun _ ↦ .pure rfl

theorem looseArgsWithin (hsub : c.Serves sub₁ sub₂) (m n : Nat) (args : List Expr) :
    c.Same (Parse.looseArgsWithin sub₁ m args) (Parse.looseArgsWithin sub₂ n args) := by
  rw [Parse.looseArgsWithin_eq_rounded, Parse.looseArgsWithin_eq_rounded]
  refine h.kept.rounded (I := Any) (fun args _ ↦ ?_) m n trivial
  refine (h.kept.is (by decide)).paired fun _ ↦
    .ite ((h.kept.advance 1 true).paired fun _ ↦ ?_) (rounds_done rfl)
  exact (hsub.expression false).bind fun arg _ ↦ rounds_again trivial

theorem looseArgs (hsub : c.Serves sub₁ sub₂) :
    c.Same (Parse.looseArgs ctx₁ sub₁) (Parse.looseArgs ctx₂ sub₂) := by
  refine h.enterCall.paired fun _ ↦ (hsub.expression false).bind fun first _ ↦ ?_
  refine pairs_rounds fun m n ↦ (h.looseArgsWithin hsub m n [first]).paired fun _ ↦ ?_
  exact leaveCall.paired fun _ ↦ .pure rfl

/-- Links are put behind a node that stands where the first one did. -/
theorem linksRound (hsub : c.Serves sub₁ sub₂) {start : Position} (hstart : c.places start)
    (links : Nat) {e : Expr} (he : c.places e.position) (qualified : List String) :
    c.Rounds (fun collected : Nat × Expr × List String ↦ c.places collected.2.1.position) c.SameNode
      (Parse.linksRound ctx₁ sub₁ start (links, e, qualified))
      (Parse.linksRound ctx₂ sub₂ start (links, e, qualified)) := by
  refine h.kept.current_shows.bind fun t u htu ↦ ?_
  have hsymbol {text : String} (htext : Lexeme.IsAsked text) : u.isSymbol text = t.isSymbol text :=
    (h.kept.lexeme htu).isSymbol_eq htext
  rw [hsymbol (by decide : Lexeme.IsAsked "."), hsymbol (by decide : Lexeme.IsAsked "["),
    hsymbol (by decide : Lexeme.IsAsked "("), hsymbol (by decide : Lexeme.IsAsked "++"),
    hsymbol (by decide : Lexeme.IsAsked "--")]
  refine .ite ?_ (.ite ?_ (.ite ?_ (.ite ?_ (.ite ?_ (rounds_done ⟨rfl, he⟩)))))
  · refine (h.limit h.members _ _).paired fun _ ↦ (h.kept.advance 1 true).paired fun _ ↦ ?_
    refine (h.kept.expectName false).paired fun name ↦ (places_node hstart _).bind fun e he ↦ ?_
    exact rounds_again he
  · refine (h.limit h.members _ _).paired fun _ ↦ (h.kept.advance 1 true).paired fun _ ↦ ?_
    refine (hsub.expression false).bind fun key _ ↦ h.kept.skipNewLines.paired fun _ ↦ ?_
    refine (h.kept.expect (by decide) false).paired fun _ ↦
      (places_node hstart _).bind fun e he ↦ ?_
    exact rounds_again he
  · refine (h.limit h.members _ _).paired fun _ ↦ (h.callArgs hsub).paired fun args ↦ ?_
    exact same_scope.paired fun _ ↦ rounds_again hstart
  · exact (h.kept.advance 1 false).paired fun _ ↦ (places_node hstart _).bind fun e he ↦
      rounds_done ⟨rfl, he⟩
  · exact (h.kept.advance 1 false).paired fun _ ↦ (places_node hstart _).bind fun e he ↦
      rounds_done ⟨rfl, he⟩

theorem links (hsub : c.Serves sub₁ sub₂) {e : Expr} (he : c.places e.position)
    (qualified : List String) :
    c.Places (Parse.links ctx₁ sub₁ e qualified) (Parse.links ctx₂ sub₂ e qualified) := by
  refine pairs_rounds fun m n ↦ ?_
  rw [Parse.linksWithin_eq_rounded, Parse.linksWithin_eq_rounded]
  exact h.kept.rounded (fun ⟨links, e, qualified⟩ he' ↦ h.linksRound hsub he links he' qualified) m
    n he

theorem named (hsub : c.Serves sub₁ sub₂) (name : String) {start : Position}
    (hstart : c.places start) :
    c.Places (Parse.named ctx₁ sub₁ name start) (Parse.named ctx₂ sub₂ name start) := by
  refine (same_symbols _).paired fun isFunction ↦ ?_
  refine (h.kept.is (by decide)).paired fun _ ↦ (h.kept.is (by decide)).paired fun _ ↦ .ite ?_ ?_
  · refine h.kept.current_shows.bind fun t u htu ↦ ?_
    rw [(h.kept.lexeme htu).opensOperand_eq]
    refine .ite ((h.looseArgs hsub).paired fun _ ↦ ?_) ?_
    · exact same_scope.paired fun _ ↦ .pure ⟨rfl, hstart⟩
    · exact Paired.bind (Q := Eq) (.pure rfl) fun _ _ hargs ↦
        hargs ▸ same_scope.paired fun _ ↦ .pure ⟨rfl, hstart⟩
  · refine (same_symbols _).paired fun _ ↦ (places_node hstart _).bind fun e he ↦ ?_
    exact h.links hsub he _

/-! ## Lists and maps -/

theorem array (hsub : c.Serves sub₁ sub₂) : c.Places (Parse.array sub₁) (Parse.array sub₂) := by
  refine h.kept.position_bind fun start hstart ↦ (h.kept.expect (by decide) true).paired fun _ ↦
    pairs_rounds fun m n ↦ Paired.bind (Q := Eq) ?_ fun items _ hitems ↦ ?_
  · rw [Parse.itemsWithin_eq_rounded, Parse.itemsWithin_eq_rounded]
    refine h.kept.rounded (I := Any) (fun (items, wanting) _ ↦ ?_) m n trivial
    refine h.kept.skipNewLines.paired fun _ ↦ (h.kept.is (by decide)).paired fun _ ↦
      .ite (rounds_done rfl) ?_
    refine h.kept.isEnded.paired fun _ ↦ pairs_branch (h.kept.failExpected _) fun _ ↦ ?_
    refine (h.kept.is (by decide)).paired fun _ ↦ .ite ?_ ?_
    · have hrest (items : List Expr) :=
        (h.kept.advance 1 true).paired (S := ParserState.Like c.windows)
        fun _ ↦ rounds_again (c := c) (I := Any) (Q := (Eq : List Expr → List Expr → Prop))
          (a := (items, true)) trivial
      refine .ite ?_ (.bind (Q := Eq) (.pure rfl) fun _ _ hitems ↦ hitems ▸ hrest _)
      exact h.kept.position_bind fun _ _ ↦ (same_node _ _).paired fun _ ↦
        .bind (Q := Eq) (.pure rfl) fun _ _ hitems ↦ hitems ▸ hrest _
    · refine pairs_branch (h.kept.failExpected _) fun _ ↦ ?_
      exact (hsub.expression false).bind fun item _ ↦ rounds_again trivial
  · subst hitems
    exact (h.kept.advance 1 false).paired fun _ ↦ places_node hstart _

theorem mapKey : c.Same Parse.mapKey Parse.mapKey := by
  refine h.kept.current_shows.bind fun t u htu ↦ ?_
  have hlexeme : Lexeme.Matches c.tokens t.lexeme u.lexeme := h.kept.lexeme htu
  have hfails :
      c.Same (Parse.failExpected "map key" : Parse String) (Parse.failExpected "map key") :=
    h.kept.failExpected _
  generalize t.lexeme = l at hlexeme
  generalize u.lexeme = l' at hlexeme
  cases hlexeme with
  | same =>
    split
    · exact .pure rfl
    · exact .pure rfl
    · exact .pure rfl
    · exact hfails
  | gap _ hl hl' =>
    rcases hl.cases with
      ⟨_, rfl⟩ | ⟨_, rfl⟩ <;> rcases hl'.cases with ⟨_, rfl⟩ | ⟨_, rfl⟩ <;> exact hfails
  | interpolated => exact hfails

theorem map (hsub : c.Serves sub₁ sub₂) : c.Places (Parse.map sub₁) (Parse.map sub₂) := by
  refine h.kept.position_bind fun start hstart ↦ (h.kept.expect (by decide) true).paired fun _ ↦
    pairs_rounds fun m n ↦ Paired.bind (Q := Eq) ?_ fun entries _ hentries ↦ ?_
  · rw [Parse.entriesWithin_eq_rounded, Parse.entriesWithin_eq_rounded]
    refine h.kept.rounded (I := Any) (fun entries _ ↦ ?_) m n trivial
    refine h.kept.skipNewLines.paired fun _ ↦ (h.kept.is (by decide)).paired fun _ ↦
      .ite (rounds_done rfl) ?_
    refine h.mapKey.paired fun key ↦ (h.kept.advance 1 false).paired fun _ ↦ ?_
    refine (h.kept.expect (by decide) true).paired fun _ ↦
      (hsub.expression false).bind fun value _ ↦ h.kept.skipNewLines.paired fun _ ↦ ?_
    refine (h.kept.is (by decide)).paired fun _ ↦
      .ite ((h.kept.advance 1 true).paired fun _ ↦ rounds_again trivial) ?_
    exact (h.kept.is (by decide)).paired fun _ ↦
      pairs_branch (h.kept.failExpected _) fun _ ↦ rounds_again trivial
  · subst hentries
    exact (h.kept.advance 1 false).paired fun _ ↦ places_node hstart _

/-! ## Functions and strings -/

/-- A parameter list that may be left out, before what follows. -/
theorem optionalParams_bind {Q : α → α → Prop} {f g : List String → Parse α}
    (hfg : ∀ names, c.Pairs Q (f names) (g names)) :
    c.Pairs Q (do if ← Parse.is "(" then Parse.params ctx₁ >>= f else pure [] >>= f)
      (do if ← Parse.is "(" then Parse.params ctx₂ >>= g else pure [] >>= g) :=
  (h.kept.is (by decide)).paired fun _ ↦
    .ite (h.paramList.paired hfg) (.bind (Q := Eq) (.pure rfl) fun _ _ hnames ↦ hnames ▸ hfg _)

theorem lambda (hsub : c.Serves sub₁ sub₂) :
    c.Places (Parse.lambda ctx₁ sub₁) (Parse.lambda ctx₂ sub₂) := by
  refine h.kept.position_bind fun start hstart ↦ (h.kept.expect (by decide) false).paired fun _ ↦ ?_
  refine h.optionalParams_bind fun names ↦ ?_
  exact (h.statementsInScope hsub .function names).paired fun _ ↦ same_scope.paired fun _ ↦
    .pure ⟨rfl, hstart⟩

omit h in
theorem pieces (hsub : c.Serves sub₁ sub₂) (start : Position) {parts parts' : List Section}
    (hparts : List.Forall₂ (Section.Matches c.tokens) parts parts') :
    c.Same (Parse.pieces sub₁ start parts) (Parse.pieces sub₂ start parts') := by
  induction hparts with
  | nil => exact .pure _
  | cons hpart _ ih =>
    cases hpart with
    | text value => exact (same_node _ _).bind fun _ ↦ ih.bind fun _ ↦ .pure _
    | tokens hlist => exact (hsub.embedded hlist).bind fun _ ↦ ih.bind fun _ ↦ .pure _

/-! ## Prefix operators and parentheses -/

theorem prefixed (hsub : c.Serves sub₁ sub₂) (op : UnaryOp) {start : Position}
    (hstart : c.places start) :
    c.Places (Parse.prefixed sub₁ op start) (Parse.prefixed sub₂ op start) :=
  (h.kept.advance 1 false).paired fun _ ↦ hsub.operand.bind fun _ _ ↦ places_node hstart _

/-- A failure that is noticed at the operand stands at a place that is allowed. -/
theorem prefixedChange (hsub : c.Serves sub₁ sub₂) (op : UnaryOp) {start : Position}
    (hstart : c.places start) :
    c.Places (Parse.prefixedChange sub₁ op start) (Parse.prefixedChange sub₂ op start) :=
  (h.kept.advance 1 false).paired fun _ ↦ hsub.operand.bind fun _ hplace ↦
    pairs_branch (.throw (h.kept.common _ hplace)) fun _ ↦ places_node hstart _

theorem minus (hsub : c.Serves sub₁ sub₂) {start : Position} (hstart : c.places start) :
    c.Places (Parse.minus sub₁ start) (Parse.minus sub₂ start) := by
  refine (h.kept.peek (by decide) false).bind fun t u htu ↦ ?_
  have hnumber : u.lexeme.number? = t.lexeme.number? :=
    Lexeme.Matches.number?_eq (h.kept.lexeme htu)
  rw [hnumber]
  cases t.lexeme.number? with
  | some n => exact (h.kept.advance 2 false).paired fun _ ↦ places_node hstart _
  | none => exact h.prefixed hsub .negate hstart

theorem parenthesized (hsub : c.Serves sub₁ sub₂) :
    c.Places (Parse.parenthesized ctx₁ sub₁) (Parse.parenthesized ctx₂ sub₂) := by
  refine h.enterParen.paired fun _ ↦ (h.kept.advance 1 true).paired fun _ ↦ ?_
  refine (hsub.expression true).bind fun inner hplace ↦
    (h.kept.expect (by decide) false).paired fun _ ↦ ?_
  exact leaveParen.paired fun _ ↦ h.links hsub hplace _

/-! ## Operands -/

theorem plainOperand (hsub : c.Serves sub₁ sub₂) :
    c.Places (Parse.plainOperand ctx₁ sub₁) (Parse.plainOperand ctx₂ sub₂) := by
  refine h.kept.current_shows.bind fun t u htu ↦ ?_
  have hlexeme : Lexeme.Matches c.tokens t.lexeme u.lexeme := h.kept.lexeme htu
  have hstart : c.places t.position := h.kept.placed htu
  have hexact : (∀ t u, c.tokens t u → u = t) → u.lexeme = t.lexeme :=
    fun hexact ↦ by rw [hexact t u htu]
  rw [h.kept.position htu]
  dsimp only
  generalize t.position = start at hstart ⊢
  generalize t.lexeme = l at hlexeme hexact ⊢
  generalize u.lexeme = l' at hlexeme hexact ⊢
  cases hlexeme with
  | same =>
    split
    · next hkind => exact absurd rfl hkind
    · exact (h.kept.advance 1 false).paired fun _ ↦ h.named hsub _ hstart
    · exact h.lambda hsub
    · exact h.minus hsub hstart
    · exact h.prefixed hsub _ hstart
    · exact h.prefixedChange hsub _ hstart
    · exact h.prefixedChange hsub _ hstart
    · exact h.parenthesized hsub
    · exact (h.array hsub).bind fun _ hplace ↦ h.links hsub hplace _
    · exact h.map hsub
    · exact h.kept.failExpected _
    · refine .ite ((h.kept.advance 1 false).paired fun _ ↦ ?_) (h.kept.fail fun _ ↦ rfl)
      exact (places_node hstart _).bind fun _ hplace ↦ h.links hsub hplace _
  | gap _ hl hl' =>
    have hfails : c.Places (Parse.fail (.unexpectedToken l.text))
        (Parse.fail (.unexpectedToken l'.text)) := h.kept.fail fun hall ↦ by rw [hexact hall]
    rcases hl.cases with
      ⟨_, rfl⟩ | ⟨_, rfl⟩ <;> rcases hl'.cases with ⟨_, rfl⟩ | ⟨_, rfl⟩ <;> exact hfails
  | interpolated raw hparts =>
    exact (h.kept.advance 1 false).paired fun _ ↦ (pieces hsub _ hparts).paired fun _ ↦
      places_node hstart _

theorem operand (hsub : c.Serves sub₁ sub₂) :
    c.Places (Parse.operand ctx₁ sub₁) (Parse.operand ctx₂ sub₂) := by
  refine h.deeper ((h.build? hsub .expression).bind fun found found' hfound ↦ ?_)
  obtain ⟨rfl, hplaced⟩ := hfound
  cases found' with
  | some e => exact .pure ⟨rfl, hplaced e rfl⟩
  | none => exact h.plainOperand hsub

/-! ## Expressions -/

/-- A result of the stacks is the one that was computed. -/
theorem settled (found : Option α) :
    c.Pairs (fun a a' ↦ a' = a ∧ found = some a) (Parse.settled found) (Parse.settled found) := by
  cases found with
  | some a => exact .pure ⟨rfl, rfl⟩
  | none => exact h.kept.failExpected _

/-- All operands on the stacks stand at places that are allowed. -/
def HoldsPlaced (c : Likeness) (yard : Yard) : Prop := yard.Holds fun e ↦ c.places e.position

omit h in
theorem isCombining_places : Yard.IsCombining fun e ↦ c.places e.position :=
  fun _ _ _ hleft _ ↦ hleft

theorem closeGroup (hsub : c.Serves sub₁ sub₂) {yard : Yard} (hyard : HoldsPlaced c yard) :
    c.Pairs (fun y y' ↦ y' = y ∧ HoldsPlaced c y) (Parse.closeGroup ctx₁ sub₁ yard)
      (Parse.closeGroup ctx₂ sub₂ yard) := by
  refine leaveParen.paired fun _ ↦ (h.kept.advance 1 false).paired fun _ ↦
    (h.settled _).bind fun closed closed' hclosed ↦ ?_
  obtain ⟨rfl, hclose⟩ := hclosed
  obtain ⟨hgroup, hrest⟩ := hyard.closeParen isCombining_places hclose
  have hlinks : c.Places _ _ := h.deeper (h.links hsub hgroup [])
  exact hlinks.bind fun e hplace ↦ .pure ⟨rfl, hrest.pushOperand hplace⟩

theorem expressionRound (hsub : c.Serves sub₁ sub₂) (grouped : Bool) (groups : Nat) (wanting : Bool)
    {yard : Yard} (hyard : HoldsPlaced c yard) :
    c.Rounds (fun collected : Nat × Bool × Yard ↦ HoldsPlaced c collected.2.2) c.SameNode
      (Parse.expressionRound ctx₁ sub₁ grouped (groups, wanting, yard))
      (Parse.expressionRound ctx₂ sub₂ grouped (groups, wanting, yard)) := by
  have hnext : c.Shows (Parse.nextOfExpression ctx₁ grouped groups)
      (Parse.nextOfExpression ctx₂ grouped groups) :=
    pairs_branch h.kept.skipNewLines fun _ ↦ h.replaceTokens.paired fun _ ↦ h.kept.current_shows
  refine hnext.bind fun t u htu ↦ ?_
  have hmatches := h.kept.lexeme htu
  have hoperator : (if u.kind = .symbol then Operator.ofSymbol? u.text else none) =
      if t.kind = .symbol then Operator.ofSymbol? t.text else none := by
    rw [hmatches.kind_eq]
    split
    · next hsymbol => rw [hmatches.text_eq_of_symbol hsymbol]
    · rfl
  rw [hmatches.isSymbol_eq (by decide : Lexeme.IsAsked "("), hmatches.isSymbol_eq
    (by decide : Lexeme.IsAsked ")"), hmatches.opensOperand_eq, hoperator]
  refine .ite (.ite ?_ ?_) (.ite ?_ ?_)
  · exact h.enterParen.paired fun _ ↦ (h.kept.advance 1 true).paired fun _ ↦ rounds_again hyard
  · exact hsub.operand.bind fun e hplace ↦ rounds_again (hyard.pushOperand hplace)
  · refine (h.closeGroup hsub hyard).bind fun y y' hy ↦ ?_
    obtain ⟨rfl, hholds⟩ := hy
    exact rounds_again hholds
  · split
    · refine (h.settled _).bind fun y y' hy ↦ ?_
      obtain ⟨rfl, hpush⟩ := hy
      exact (h.kept.advance 1 true).paired fun _ ↦
        rounds_again (hyard.pushOperator isCombining_places hpush)
    · refine pairs_branch (h.kept.fail fun hexact ↦ by rw [hexact t u htu]) fun _ ↦
        pairs_branch (h.kept.failExpected _) fun _ ↦ (h.settled _).bind fun e e' he ↦ ?_
      obtain ⟨rfl, hfinish⟩ := he
      exact rounds_done ⟨rfl, hyard.finish isCombining_places hfinish⟩

theorem expression (hsub : c.Serves sub₁ sub₂) (grouped : Bool) :
    c.Places (Parse.expression ctx₁ sub₁ grouped) (Parse.expression ctx₂ sub₂ grouped) := by
  refine pairs_rounds fun m n ↦ ?_
  rw [Parse.expressionWithin_eq_rounded, Parse.expressionWithin_eq_rounded]
  exact h.kept.rounded (I := fun collected : Nat × Bool × Yard ↦ HoldsPlaced c collected.2.2)
    (fun (groups, wanting, yard) hyard ↦ h.expressionRound hsub grouped groups wanting hyard) m n
    (fun e he ↦ absurd he (List.not_mem_nil))

/-! ## Simple statements -/

omit h in
theorem defineTarget (target : Expr) (op : AssignOp) :
    c.Same (Parse.defineTarget target op) (Parse.defineTarget target op) := by
  refine .ite ?_ (.pure _)
  split
  · exact .pure _
  · exact same_modifySymbols _

/-- A failure that is noticed at the target stands at a place that is allowed. -/
theorem simpleStatement (hsub : c.Serves sub₁ sub₂) :
    c.Same (Parse.simpleStatement sub₁) (Parse.simpleStatement sub₂) := by
  refine h.kept.position_bind fun start _ ↦ (hsub.expression false).bind fun target hplace ↦ ?_
  have hop : c.Same Parse.assignOp? Parse.assignOp? := by
    refine h.kept.current_shows.bind fun t u htu ↦ ?_
    have hmatches := h.kept.lexeme htu
    rw [hmatches.kind_eq]
    split
    · next hsymbol =>
      rw [hmatches.text_eq_of_symbol hsymbol]
      exact .pure rfl
    · exact .pure rfl
  refine hop.paired fun found ↦ ?_
  cases found with
  | none => exact .pure rfl
  | some op =>
    refine pairs_branch (.throw (h.kept.common _ hplace)) fun _ ↦
      (h.kept.advance 1 true).paired fun _ ↦ (hsub.expression false).bind fun value _ ↦ ?_
    exact (defineTarget target op).paired fun _ ↦ same_scope.paired fun _ ↦ .pure rfl

theorem declaration (hsub : c.Serves sub₁ sub₂) :
    c.Same (Parse.declaration sub₁) (Parse.declaration sub₂) := by
  refine h.kept.position_bind fun _ _ ↦ (h.kept.expectName false).paired fun _ ↦ ?_
  refine (same_modifySymbols _).paired fun _ ↦ (h.kept.is (by decide)).paired fun _ ↦ .ite ?_ ?_
  · refine (h.kept.advance 1 true).paired fun _ ↦ (hsub.expression false).bind fun _ _ ↦ ?_
    exact Twin.paired (.pure _) fun _ ↦ same_scope.paired fun _ ↦ .pure rfl
  · exact Twin.paired (.pure _) fun _ ↦ same_scope.paired fun _ ↦ .pure rfl

theorem varStatement (hsub : c.Serves sub₁ sub₂) :
    c.Same (Parse.varStatement sub₁) (Parse.varStatement sub₂) := by
  refine h.kept.position_bind fun _ _ ↦ (h.kept.expect (by decide) false).paired fun _ ↦
    pairs_rounds fun m n ↦ Twin.paired ?_ fun entries ↦ ?_
  · rw [Parse.declarationsWithin_eq_rounded, Parse.declarationsWithin_eq_rounded]
    refine h.kept.rounded (I := Any) (fun done _ ↦ ?_) m n trivial
    refine (h.declaration hsub).paired fun entry ↦ (h.kept.is (by decide)).paired fun _ ↦
      .ite ?_ (rounds_done rfl)
    exact (h.kept.advance 1 true).paired fun _ ↦ rounds_again trivial
  · split
    · exact .pure rfl
    · exact same_node _ _

theorem returnStatement (hsub : c.Serves sub₁ sub₂) :
    c.Same (Parse.returnStatement sub₁) (Parse.returnStatement sub₂) := by
  refine h.kept.position_bind fun _ _ ↦ (h.kept.expect (by decide) false).paired fun _ ↦ ?_
  refine pairs_tokens fun v w hvw ↦ ?_
  rw [h.kept.isEndOfStatementOrBlock_eq hvw, h.kept.is_eq hvw (by decide : Lexeme.IsAsked "else")]
  exact .ite (same_node _ _) ((hsub.expression false).bind fun _ _ ↦ same_node _ _)

theorem throwStatement (hsub : c.Serves sub₁ sub₂) :
    c.Same (Parse.throwStatement sub₁) (Parse.throwStatement sub₂) :=
  h.kept.position_bind fun _ _ ↦ (h.kept.advance 1 false).paired fun _ ↦
    (hsub.expression false).bind fun _ _ ↦ same_node _ _

theorem wordStatement (form : Form) :
    c.Same (Parse.wordStatement form) (Parse.wordStatement form) :=
  h.kept.position_bind fun _ _ ↦ (h.kept.advance 1 false).paired fun _ ↦ same_node _ _

/-! ## Branches and loops -/

theorem blockOrStatement (hsub : c.Serves sub₁ sub₂) :
    c.Same (Parse.blockOrStatement ctx₁ sub₁) (Parse.blockOrStatement ctx₂ sub₂) := by
  refine h.kept.skipNewLines.bind fun _ ↦ (h.kept.is (by decide)).bind fun _ ↦
    .ite (h.blockWith hsub []) ?_
  refine h.kept.position_bind fun _ _ ↦ h.enterBlock.paired fun _ ↦
    (same_pushScope _).paired fun _ ↦ hsub.statement.paired fun found ↦ ?_
  cases found with
  | none => exact h.kept.failExpected _
  | some statement => exact h.kept.popScope.paired fun _ ↦ leaveBlock.paired fun _ ↦ .pure rfl

theorem guarded (hsub : c.Serves sub₁ sub₂) :
    c.Same (Parse.guarded ctx₁ sub₁) (Parse.guarded ctx₂ sub₂) := by
  refine (h.kept.is (by decide)).bind fun _ ↦ .ite ?_ ?_
  · exact (h.kept.advance 1 true).bind fun _ ↦ h.blockOrStatement hsub
  · exact (h.continuesWith (by decide)).bind fun _ ↦
      .ite (h.blockWith hsub []) (h.kept.failExpected _)

theorem alternative (hsub : c.Serves sub₁ sub₂) :
    c.Same (Parse.alternative ctx₁ sub₁) (Parse.alternative ctx₂ sub₂) := by
  refine (h.kept.is (by decide)).bind fun _ ↦ .ite ?_ (h.blockOrStatement hsub)
  exact h.enterBlock.bind fun _ ↦ hsub.conditional.bind fun _ ↦ leaveBlock.bind fun _ ↦ .pure _

theorem conditional (hsub : c.Serves sub₁ sub₂) :
    c.Same (Parse.conditional ctx₁ sub₁) (Parse.conditional ctx₂ sub₂) := by
  refine h.kept.position_bind fun _ _ ↦ (h.kept.expect (by decide) false).paired fun _ ↦ ?_
  refine (hsub.expression false).bind fun _ _ ↦ (h.guarded hsub).paired fun _ ↦ ?_
  refine (h.continuesWith (by decide)).paired fun _ ↦ .ite ?_ (same_node _ _)
  exact (h.kept.advance 1 false).paired fun _ ↦ (h.alternative hsub).paired fun _ ↦ same_node _ _

theorem whileStatement (hsub : c.Serves sub₁ sub₂) :
    c.Same (Parse.whileStatement ctx₁ sub₁) (Parse.whileStatement ctx₂ sub₂) := by
  refine h.kept.position_bind fun _ _ ↦ (h.kept.expect (by decide) false).paired fun _ ↦ ?_
  exact (hsub.expression false).bind fun _ _ ↦ (h.guarded hsub).paired fun _ ↦ same_node _ _

theorem isForEach (parens : Bool) : c.Same (Parse.isForEach parens) (Parse.isForEach parens) := by
  refine (h.kept.peek (by cases parens <;> decide) false).bind fun t u htu ↦ ?_
  rw [(h.kept.lexeme htu).kind_eq]
  refine .ite ?_ (.pure rfl)
  refine (h.kept.peek (by cases parens <;> decide) false).bind fun t u htu ↦ ?_
  rw [(h.kept.lexeme htu).is_eq (by decide)]
  exact .pure rfl

theorem forEachStatement (hsub : c.Serves sub₁ sub₂) (start : Position) (parens : Bool) :
    c.Same (Parse.forEachStatement ctx₁ sub₁ start parens)
      (Parse.forEachStatement ctx₂ sub₂ start parens) := by
  refine pairs_branch (h.kept.advance 1 false) fun _ ↦
    (h.kept.expectName false).paired fun name ↦ ?_
  refine (h.kept.expect (by decide) false).paired fun _ ↦ (hsub.expression false).bind fun _ _ ↦ ?_
  refine pairs_branch (h.kept.expect (by decide) false) fun _ ↦ ?_
  exact (h.blockWith hsub [name]).paired fun _ ↦ same_node _ _

theorem countingLoop (hsub : c.Serves sub₁ sub₂) (start : Position) :
    c.Same (Parse.countingLoop ctx₁ sub₁ start) (Parse.countingLoop ctx₂ sub₂ start) := by
  refine (h.kept.expect (by decide) false).bind fun _ ↦ (same_pushScope _).bind fun scope ↦ ?_
  -- the initial statement is of either kind, and the rest does not depend on it
  refine (h.kept.is (by decide)).bind fun _ ↦
    .ite ((h.varStatement hsub).bind fun initial ↦ ?_)
      ((h.simpleStatement hsub).bind fun initial ↦ ?_)
  all_goals
    refine (h.kept.expect (by decide) true).paired fun _ ↦
      (hsub.expression false).bind fun condition _ ↦ ?_
    refine (h.kept.expect (by decide) true).paired fun _ ↦
      (h.simpleStatement hsub).paired fun increment ↦ ?_
    refine (h.kept.expect (by decide) false).paired fun _ ↦
      (h.blockWith hsub []).paired fun body ↦ ?_
    exact h.kept.popScope.paired fun _ ↦ .pure rfl

theorem forStatement (hsub : c.Serves sub₁ sub₂) :
    c.Same (Parse.forStatement ctx₁ sub₁) (Parse.forStatement ctx₂ sub₂) := by
  refine h.kept.position_bind fun _ _ ↦ (h.kept.expect (by decide) false).paired fun _ ↦
    (h.kept.is (by decide)).paired fun parens ↦ ?_
  refine (h.isForEach parens).paired fun _ ↦ .ite ?_ ?_
  · exact h.forEachStatement hsub _ _
  · exact h.countingLoop hsub _

theorem tryStatement (hsub : c.Serves sub₁ sub₂) :
    c.Same (Parse.tryStatement ctx₁ sub₁) (Parse.tryStatement ctx₂ sub₂) := by
  refine h.kept.position_bind fun _ _ ↦ (h.kept.expect (by decide) false).paired fun _ ↦ ?_
  refine (h.blockWith hsub []).paired fun _ ↦ (h.continuesWith (by decide)).paired fun _ ↦ ?_
  refine pairs_branch (h.kept.failExpected _) fun _ ↦ (h.kept.advance 1 false).paired fun _ ↦ ?_
  refine (h.kept.is (by decide)).paired fun _ ↦ pairs_branch (h.kept.advance 1 false) fun _ ↦ ?_
  refine (h.kept.expectName false).paired fun name ↦
    pairs_branch (h.kept.expect (by decide) false) fun _ ↦ ?_
  exact (h.blockWith hsub [name]).paired fun _ ↦ same_node _ _

/-! ## Named functions -/

theorem functionStatement (hsub : c.Serves sub₁ sub₂) :
    c.Same (Parse.functionStatement ctx₁ sub₁) (Parse.functionStatement ctx₂ sub₂) := by
  refine h.kept.position_bind fun _ _ ↦ (h.kept.expect (by decide) false).paired fun _ ↦ ?_
  refine (h.kept.expectName false).paired fun _ ↦ (h.kept.is (by decide)).paired fun _ ↦ ?_
  refine pairs_branch (h.kept.advance 1 false) fun _ ↦ pairs_rounds fun m n ↦
    Twin.paired ?_ fun aliases ↦ ?_
  · rw [Parse.aliasesWithin_eq_rounded, Parse.aliasesWithin_eq_rounded]
    refine h.kept.rounded (I := Any) (fun done _ ↦ ?_) m n trivial
    refine (h.kept.is (by decide)).paired fun _ ↦
      .ite ((h.kept.advance 1 false).paired fun _ ↦ ?_) (rounds_done rfl)
    refine (h.kept.expectName false).paired fun name ↦ ?_
    exact h.check_bind h.aliases (fun _ ↦ rfl) fun _ ↦ rounds_again trivial
  · refine h.optionalParams_bind fun names ↦ (same_modifySymbols _).paired fun _ ↦ ?_
    refine (h.statementsInScope hsub .function names).paired fun _ ↦ ?_
    exact (same_modifySymbols _).paired fun _ ↦ same_scope.paired fun _ ↦ .pure rfl

/-! ## All statements -/

theorem ended {x y : Parse Expr} (hxy : c.Same x y) : c.Same (Parse.ended x) (Parse.ended y) :=
  hxy.bind fun _ ↦ h.endStatement.bind fun _ ↦ .pure _

theorem plainStatement (hsub : c.Serves sub₁ sub₂) :
    c.Same (Parse.plainStatement ctx₁ sub₁) (Parse.plainStatement ctx₂ sub₂) := by
  refine h.kept.current_shows.bind fun t u htu ↦ ?_
  have hlexeme : Lexeme.Matches c.tokens t.lexeme u.lexeme := h.kept.lexeme htu
  have hexact : (∀ t u, c.tokens t u → u = t) → u.text = t.text :=
    fun hexact ↦ by rw [hexact t u htu]
  have hsimple := h.ended (h.simpleStatement hsub)
  generalize t.lexeme = l at hlexeme ⊢
  generalize u.lexeme = l' at hlexeme ⊢
  cases hlexeme with
  | same =>
    split
    · exact (h.conditional hsub).bind fun _ ↦ .pure _
    · exact (h.whileStatement hsub).bind fun _ ↦ .pure _
    · exact (h.forStatement hsub).bind fun _ ↦ .pure _
    · exact (h.tryStatement hsub).bind fun _ ↦ .pure _
    · refine (h.kept.peek (by decide) false).bind fun t u htu ↦ ?_
      rw [(h.kept.lexeme htu).kind_eq]
      exact .ite ((h.functionStatement hsub).paired fun _ ↦ .pure rfl) hsimple
    · exact (h.blockWith hsub []).bind fun _ ↦ .pure _
    · exact h.ended (h.varStatement hsub)
    · exact h.ended (h.returnStatement hsub)
    · exact h.ended (h.throwStatement hsub)
    · exact h.ended (h.wordStatement _)
    · exact h.ended (h.wordStatement _)
    · exact h.kept.fail fun hall ↦ by rw [hexact hall]
    · exact hsimple
  | gap _ hl hl' =>
    rcases hl.cases with
      ⟨_, rfl⟩ | ⟨_, rfl⟩ <;> rcases hl'.cases with ⟨_, rfl⟩ | ⟨_, rfl⟩ <;> exact hsimple
  | interpolated => exact hsimple

theorem statement (hsub : c.Serves sub₁ sub₂) :
    c.Same (Parse.statement ctx₁ sub₁) (Parse.statement ctx₂ sub₂) := by
  refine h.passSeparators.bind fun _ ↦ h.kept.isEnded.bind fun _ ↦ .ite (.pure _) ?_
  refine h.replaceTokens.bind fun _ ↦ (h.build? hsub .statement).bind fun found found' hfound ↦ ?_
  obtain ⟨rfl, -⟩ := hfound
  cases found' with
  | some e => exact h.ended (.pure _)
  | none => exact h.plainStatement hsub

/-! ## The parser -/

theorem embeddedWith {subs₁ subs₂ : Nat → Subparser} (hsubs : ∀ m n, c.Serves (subs₁ m) (subs₂ n))
    {list list' : List Token} (hlist : List.Forall₂ c.tokens list list') :
    c.Same (Parse.embeddedWith subs₁ list) (Parse.embeddedWith subs₂ list') := by
  refine h.aside hlist (pairs_tokens fun v w _ ↦ ?_)
  refine ((hsubs v.tokensLeft w.tokensLeft).expression false).bind fun _ _ ↦ ?_
  exact h.kept.isEnded.paired fun _ ↦ pairs_branch (h.kept.failExpected _) fun _ ↦ .pure rfl

/-- Without fuel, a parser fails on every goal. -/
theorem serves_zero_first {inner₁ : (fuel : Nat) → List Token → Parse Expr} :
    c.Serves (Parse.runWith ctx₁ inner₁ 0) sub₂ :=
  ⟨h.kept.failFuel_first _, h.kept.failFuel_first _, fun _ ↦ h.kept.failFuel_first _,
    h.kept.failFuel_first _, fun _ ↦ h.kept.failFuel_first _⟩

theorem serves_zero_second {inner₂ : (fuel : Nat) → List Token → Parse Expr} :
    c.Serves sub₁ (Parse.runWith ctx₂ inner₂ 0) :=
  ⟨h.kept.failFuel_second _, h.kept.failFuel_second _, fun _ ↦ h.kept.failFuel_second _,
    h.kept.failFuel_second _, fun _ ↦ h.kept.failFuel_second _⟩

theorem runWith {inner₁ inner₂ : (fuel : Nat) → List Token → Parse Expr}
    (hinner : ∀ m n {list list' : List Token}, List.Forall₂ c.tokens list list' →
      c.Same (inner₁ m list) (inner₂ n list')) (m n : Nat) :
    c.Serves (Parse.runWith ctx₁ inner₁ m) (Parse.runWith ctx₂ inner₂ n) := by
  induction m generalizing n with
  | zero => exact h.serves_zero_first
  | succ m ih =>
    cases n with
    | zero => exact h.serves_zero_second
    | succ n =>
      exact ⟨h.statement (ih n), h.conditional (ih n), fun grouped ↦ h.expression (ih n) grouped,
        h.operand (ih n), fun hlist ↦ hinner m n hlist⟩

theorem run (levels₁ levels₂ m n : Nat) :
    c.Serves (Parse.run ctx₁ levels₁ m) (Parse.run ctx₂ levels₂ n) := by
  induction levels₁ generalizing levels₂ m n with
  | zero =>
    cases levels₂ with
    | zero => exact h.runWith (fun _ _ _ _ _ ↦ h.kept.failFuel_first _) m n
    | succ levels₂ => exact h.runWith (fun _ _ _ _ _ ↦ h.kept.failFuel_first _) m n
  | succ levels₁ ih =>
    cases levels₂ with
    | zero => exact h.runWith (fun _ _ _ _ _ ↦ h.kept.failFuel_second _) m n
    | succ levels₂ =>
      exact h.runWith (fun _ _ _ _ hlist ↦ h.embeddedWith (fun _ _ ↦ ih levels₂ _ _) hlist) m n

theorem programWithin (hsub : c.Serves sub₁ sub₂) (m n : Nat) (done : List Expr) :
    c.Same (Parse.programWithin sub₁ m done) (Parse.programWithin sub₂ n done) := by
  rw [Parse.programWithin_eq_rounded, Parse.programWithin_eq_rounded]
  exact h.kept.rounded (I := Any) (fun done _ ↦ h.statementRound hsub (rounds_done rfl) done) m n
    trivial

/-! ## Whole programs -/

/-- **Two parsers side by side** agree on the statements of a program. -/
theorem program : c.Same (Parse.program ctx₁) (Parse.program ctx₂) :=
  pairs_tokens fun _ _ _ ↦ pairs_rounds fun m n ↦ h.programWithin (h.run _ _ _ _) m n []

/-- They have the same outcome, except where something is allowed for. -/
theorem parseProgram_conform {v w : Window Lexer} (hvw : c.windows v w) (table : SymbolTable) :
    Conform c.lee Eq (Parse.parseProgram ctx₁ v table) (Parse.parseProgram ctx₂ w table) := by
  rw [Parse.parseProgram_eq_outcome, Parse.parseProgram_eq_outcome]
  refine (h.program (.initial v table) (.initial w table) ⟨hvw, rfl⟩).conform ?_
  rintro statements _ s t ⟨rfl, hst⟩
  rw [hst.rest]

end

end Likeness.Kindred

end ScriptFront
