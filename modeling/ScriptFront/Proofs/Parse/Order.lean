import ScriptFront.Proofs.Parse.Stages

/-!
# The productions, stage by stage

Every production of the parser is followed here from the stage it starts at to the stage it ends at.
Expressions, operands and statements pass a token; all productions leave as much open as they found,
and the scope that was current; and no round of a loop goes on without having moved. The statement
about a goal, `Parse.Keeps`, is the invariant of the recursion.
-/

namespace ScriptFront.Parse

variable {α β : Type} {ctx : ParseContext} {sub : Subparser} {m : Trust} {st : Stage}
    {start : Position}

/-- What every goal does to the stage. -/
structure Keeps (m : Trust) (sub : Subparser) : Prop where
  /-- A statement passes a token, if there is one. -/
  statement : ∀ st, Orderly m st (sub .statement) st.afterStatement
  /-- So does a conditional. -/
  conditional : ∀ st, Orderly m st (sub .conditional) fun _ ↦ st.moving
  /-- So does an expression. -/
  expression : ∀ grouped st, Orderly m st (sub (.expression grouped)) fun _ ↦ st.moving
  /-- So does an operand. -/
  operand : ∀ st, Orderly m st (sub .operand) fun _ ↦ st.moving
  /-- An embedded section has tokens of its own. -/
  embedded : ∀ list, (m.ready → m.numbered → InOrder list ∧ TokensEachString SectionsInOrder list) →
    ∀ st, Orderly m st (sub (.embedded list)) fun _ ↦ st

namespace Stage

/-- A line break is not current, and what is spelled `text` is no blank either, so it is passed. -/
theorem isContent_of_is {t : Token} {text : String} (hkind : t.kind ≠ .newLine)
    (his : t.is text = true)
    (htext : text ∈ Lexeme.reserved) (htrivia : t.lexeme.isTrivia = false) : t.isContent = true :=
  Token.isContent_of_kind rfl
    ⟨hkind, fun hend ↦ absurd (isEnd_of_is his htext) (by simp [Token.isEnd, hend])⟩ htrivia

theorem isContent_of_isSymbol {t : Token} {text : String} (h : t.isSymbol text = true)
    (htrivia : t.lexeme.isTrivia = false) : t.isContent = true :=
  Token.isContent_of_kind (eq_of_beq (Bool.and_eq_true _ _ ▸ h).1) (by simp) htrivia

end Stage

namespace Orderly

/-! ## Separators, words and parameters -/

theorem separatorsRound (u : Unit) :
    Orderly m st (separatorsRound u)
      (Round.stage st.moving (st.resting.knowing (·.kind ≠ .newLine))) := by
  refine skipNewLines.bind fun _ ↦ (is ";").bind fun found ↦ .branch (fun hfound ↦ ?_) fun _ ↦ ?_
  · refine (advance_content Nat.one_pos fun t ht htrivia ↦ ?_).bind fun _ ↦ .pure .refl
    exact Stage.isContent_of_is ht.1.2 (ht.2.trans hfound) (by decide) htrivia
  · exact .pure ⟨rfl, id, fun _ h ↦ h.1⟩

/-- No line break follows the separators. -/
theorem passSeparators :
    Orderly m st passSeparators fun _ ↦ st.resting.knowing (·.kind ≠ .newLine) := by
  refine rounds.bind fun n ↦ ?_
  rw [passSeparatorsWithin_eq_rounded]
  refine (rounded (fun _ ↦ st.resting) (fun u ↦ (separatorsRound u).mono fun next ↦ ?_) n
    ()).from_implied
    (Stage.implies_resting rfl id)
  cases next with
  | again _ => exact Stage.implies_resting rfl fun _ ↦ trivial
  | done _ => exact .refl

theorem continuesWith (text : String) : Orderly m st (continuesWith text) fun _ ↦ st.resting := by
  have his : Orderly m st.resting (Parse.is text) fun _ ↦ st.resting :=
    (is text).mono fun _ ↦ Stage.implies_resting rfl id
  refine kind.bind fun k ↦ .branch (fun _ ↦ ?_) fun _ ↦
    his.from_implied (Stage.implies_resting rfl id)
  refine (peek (by decide) true).bind fun _ ↦ .optional (q := fun _ ↦ st.resting)
    (fun _ ↦ skipNewLines.mono fun _ ↦ Stage.implies_resting rfl id)
    (fun _ ↦ Stage.implies_resting rfl id) his

/-- Where no line break is current, none is passed over. -/
theorem continuesWith_here (text : String) (h : ∀ t, st.current t → t.kind ≠ .newLine) :
    Orderly m st (Parse.continuesWith text) fun found ↦ st.knowing fun t ↦ t.is text = found := by
  refine kind.bind fun k ↦ .branch (fun hk ↦ ?_) fun _ ↦ (is text).mono fun _ ↦
    ⟨rfl, id, fun t ht ↦ ⟨ht.1.1, ht.2⟩⟩
  refine of_absurd (fun t ht ↦ h t ht.1 (ht.2.trans hk)) (q := fun _ ↦ st.resting) ?_ fun _ ↦ rfl
  refine (peek (by decide) true).bind fun _ ↦ .optional (q := fun _ ↦ st.resting)
    (fun _ ↦ skipNewLines.mono fun _ ↦ Stage.implies_resting rfl id)
    (fun _ ↦ Stage.implies_resting rfl id) ((is text).mono fun _ ↦ Stage.implies_resting rfl id)

theorem endStatement : Orderly m st endStatement fun _ ↦ st.resting :=
  bind (ask fun _ ↦ rfl) fun _ ↦ .branch (fun _ ↦ advance 1 false) fun _ ↦
    .branch (fun _ ↦ .failExpected) fun _ ↦ .pure (Stage.implies_resting rfl id)

/-- A comma, or the mark that closes the list, in front of what follows. -/
theorem listSeparator {close : String} {x : Parse α} {r : α → Stage}
    (hx : Orderly m st.resting x r) : Orderly m st (do
      if ← Parse.is "," then
        Parse.advance 1 true
        x
      else if !(← Parse.is close) then
        Parse.failExpected close
        x
      else x) r := by
  refine (is ",").bind fun _ ↦ .branch (fun _ ↦ (advance 1 true).bind fun _ ↦ ?_) fun _ ↦
    (is close).bind fun _ ↦ .require fails_failExpected fun _ ↦ ?_
  · exact hx.from_implied .refl
  · exact hx.from_implied (Stage.implies_resting rfl id)

theorem paramsRound (names : List String) :
    Orderly m st (paramsRound ctx names) (Round.stage st.moving st.resting) := by
  refine (is ")").bind fun _ ↦ .branch (fun _ ↦ ?_) fun _ ↦ ?_
  · exact (expect _ _).bind fun _ ↦ .pure (Stage.implies_resting rfl id)
  · refine (expectName _).bind fun name ↦ .require (fails_fail id) fun _ ↦ ?_
    refine listSeparator (.pure ?_)
    exact Stage.implies_moving rfl trivial

theorem params : Orderly m st (params ctx) fun _ ↦ st.resting :=
  (expect _ _).bind fun _ ↦ rounds.bind fun n ↦ by
    rw [paramsWithin_eq_rounded]
    exact loop (fun names _ ↦ paramsRound names) n []

theorem aliasesRound (done : List String) :
    Orderly m st (aliasesRound ctx done) (Round.stage st.moving st.resting) := by
  refine (is ",").bind fun _ ↦ .branch (fun _ ↦ (advance 1 false).bind fun _ ↦ ?_) fun _ ↦
    .pure (Stage.implies_resting rfl id)
  exact (expectName _).bind fun name ↦ .require (fails_fail id) fun _ ↦ .pure .refl

/-- Only a string, a name or a number is a key. -/
theorem mapKey : Orderly m st mapKey fun _ ↦
    st.knowing fun t ↦ t.lexeme.isTrivia = false → t.isContent = true := by
  refine current_bind fun t _ ↦ ?_
  have hknown {kind : TokenKind} (hkind : t.kind = kind)
    (hcontent : kind ≠ .newLine ∧ kind ≠ .endOfInput) :
      (st.knowing (· = t)).Implies (st.knowing fun t ↦ t.lexeme.isTrivia = false →
        t.isContent = true) :=
    ⟨rfl, id, fun u ⟨hu, heq⟩ ↦
      ⟨hu, fun htrivia ↦ Token.isContent_of_kind (heq ▸ hkind) hcontent htrivia⟩⟩
  split
  · next hlexeme => exact .pure (hknown (congrArg Lexeme.kind hlexeme) (by simp [Lexeme.kind]))
  · next hlexeme => exact .pure (hknown (congrArg Lexeme.kind hlexeme) (by simp [Lexeme.kind]))
  · next hlexeme => exact .pure (hknown (congrArg Lexeme.kind hlexeme) (by simp [Lexeme.kind]))
  · exact .failExpected

theorem isForEach (parens : Bool) : Orderly m st (isForEach parens) fun _ ↦ st := by
  have hnear (n : Nat) (hn : n ≤ 1) : (if parens then 1 else 0) + n ≤ Window.minLookahead := by
    cases parens <;> simp [Window.minLookahead] <;> omega
  exact (peek (hnear 0 (by simp)) _).bind fun _ ↦ .branch
    (fun _ ↦ (peek (hnear 1 (by simp)) _).bind fun _ ↦ .pure .refl) fun _ ↦ .pure .refl

end Orderly

section

variable (hsub : Keeps m sub)

include hsub

/-! ## Blocks -/

theorem statementsRound_orderly (done : List Expr) :
    Orderly m st (statementsRound sub done) (Round.stage st.moving st.resting) := by
  refine Orderly.passSeparators.bind fun _ ↦ (Orderly.is _).bind fun _ ↦ .branch
    (fun _ ↦ .pure (Stage.implies_resting rfl id)) fun _ ↦ ?_
  refine Orderly.isEnded.bind fun _ ↦ .require Orderly.fails_failExpected fun _ ↦ ?_
  exact (Orderly.statementRound hsub.statement .failExpected).round_mono rfl id

theorem programRound_orderly (done : List Expr) :
    Orderly m st (programRound sub done) (Round.stage st.moving st.resting) :=
  .statementRound hsub.statement (.pure .refl)

theorem statementsInside_orderly (names : List String) :
    Orderly m st (statementsInside sub names) fun _ ↦ st.resting := by
  refine (Orderly.modifySymbols fun t ↦ (SymbolTable.Grows.defineVars names).steady).bind fun _ ↦
    Orderly.rounds.bind fun n ↦ ?_
  rw [statementsWithin_eq_rounded]
  exact .loop (fun done _ ↦ statementsRound_orderly hsub done) n []

end

theorem openBrace_orderly : Orderly m st (openBrace ctx) fun _ ↦ st.resting.inBlock :=
  (Orderly.continuesWith _).bind fun _ ↦ .require Orderly.fails_failExpected fun _ ↦
    Orderly.enterBlock.bind fun _ ↦ Orderly.advance _ _

/-- Where no line break is current, the brace is passed. -/
theorem openBrace_here (h : ∀ t, st.current t → t.kind ≠ .newLine) :
    Orderly m st (openBrace ctx) fun _ ↦ st.moving.inBlock := by
  refine (Orderly.continuesWith_here _ h).bind fun found ↦
    .require Orderly.fails_failExpected fun hfound ↦ ?_
  refine Orderly.enterBlock.bind fun _ ↦ Orderly.advance_content Nat.one_pos fun t ht htrivia ↦ ?_
  exact Stage.isContent_of_is (h t ht.1) (ht.2.trans (by simpa using hfound)) (by decide) htrivia

section

variable (hsub : Keeps m sub) {st' : Stage} (hopen : Orderly m st (openBrace ctx) fun _ ↦
    st'.inBlock)

include hsub hopen

theorem insideBlock_orderly (kind : ScopeKind) (names : List String) :
    Orderly m st (insideBlock ctx sub kind names) fun _ ↦ st'.resting.inBlock :=
  hopen.bind fun _ ↦ .inScope (statementsInside_orderly hsub names)

theorem statementsInScope_orderly (kind : ScopeKind) (names : List String) :
    Orderly m st (statementsInScope ctx sub kind names) fun _ ↦ st'.resting := by
  rw [statementsInScope_eq]
  refine (insideBlock_orderly hsub hopen kind names).bind fun found ↦
    Orderly.leaveBlock.bind fun _ ↦ ?_
  exact (Orderly.advance _ _).bind fun _ ↦ .pure .refl

theorem blockWith_orderly (names : List String) :
    Orderly m st (blockWith ctx sub names) fun _ ↦ st'.resting := by
  refine Orderly.position.bind fun _ ↦
    (statementsInScope_orderly hsub hopen .block names).bind fun _ ↦ ?_
  exact .pure .refl

end

section

variable (hsub : Keeps m sub)

include hsub

/-! ## Arguments and links -/

theorem callArgsRound_orderly (args : List Expr) :
    Orderly m st (callArgsRound sub args) (Round.stage st.moving st.resting) := by
  refine Orderly.skipNewLines.bind fun _ ↦ (Orderly.is _).bind fun _ ↦ .branch
    (fun _ ↦ .pure (Stage.implies_resting rfl id)) fun _ ↦ ?_
  refine (hsub.expression false _).bind fun arg ↦ Orderly.skipNewLines.bind fun _ ↦ ?_
  exact .listSeparator (.pure (Stage.implies_moving rfl trivial))

theorem insideCall_orderly : Orderly m st (insideCall ctx sub) fun _ ↦ st.resting.inCall := by
  refine (Orderly.expect _ _).bind fun _ ↦ Orderly.enterCall.bind fun _ ↦
    Orderly.rounds.bind fun n ↦ ?_
  rw [callArgsWithin_eq_rounded]
  refine (Orderly.loop (fun args _ ↦ callArgsRound_orderly hsub args) n []).bind fun _ ↦ ?_
  exact (Orderly.advance _ _).bind fun _ ↦ .pure .refl

/-- If an opening parenthesis is current, it is passed. -/
theorem callArgs_orderly (h : ∀ t, st.current t → t.lexeme.isTrivia = false → t.isContent = true) :
    Orderly m st (callArgs ctx sub) fun _ ↦ st.moving := by
  have hinside : Orderly m st (insideCall ctx sub) fun _ ↦ st.moving.inCall := by
    refine (Orderly.expect_content h).bind fun _ ↦ Orderly.enterCall.bind fun _ ↦
      Orderly.rounds.bind fun n ↦ ?_
    rw [callArgsWithin_eq_rounded]
    refine (Orderly.loop (fun args _ ↦ callArgsRound_orderly hsub args) n []).bind fun _ ↦ ?_
    exact (Orderly.advance _ _).bind fun _ ↦ .pure .refl
  rw [callArgs_eq]
  exact hinside.bind fun args ↦ Orderly.leaveCall.bind fun _ ↦ .pure .refl

theorem looseArgsRound_orderly (args : List Expr) :
    Orderly m st (looseArgsRound sub args) (Round.stage st.moving st.resting) :=
  (Orderly.is _).bind fun _ ↦ .branch
    (fun _ ↦ (Orderly.advance _ _).bind fun _ ↦ (hsub.expression false _).bind fun _ ↦ .pure .refl)
    fun _ ↦ .pure (Stage.implies_resting rfl id)

theorem insideLooseCall_orderly : Orderly m st (insideLooseCall ctx sub) fun _ ↦
    st.moving.inCall := by
  refine Orderly.enterCall.bind fun _ ↦ (hsub.expression false _).bind fun first ↦
    Orderly.rounds.bind fun n ↦ ?_
  rw [looseArgsWithin_eq_rounded]
  exact .loop (fun args _ ↦ looseArgsRound_orderly hsub args) n [first]

theorem looseArgs_orderly : Orderly m st (looseArgs ctx sub) fun _ ↦ st.moving := by
  rw [looseArgs_eq]
  exact (insideLooseCall_orderly hsub).bind fun _ ↦ Orderly.leaveCall.bind fun _ ↦ .pure .refl

theorem linksRound_orderly (link : Nat × Expr × List String) :
    Orderly m st (linksRound ctx sub start link) (Round.stage st.moving st.resting) := by
  obtain ⟨links, e, qualified⟩ := link
  refine Orderly.current_bind fun t _ ↦ .branch (fun _ ↦ ?_) fun _ ↦ .branch (fun _ ↦ ?_) fun _ ↦
    .branch (fun hparen ↦ ?_) fun _ ↦ .branch (fun _ ↦ ?_) fun _ ↦ .branch (fun _ ↦ ?_) fun _ ↦
      .pure (Stage.implies_resting rfl id)
  · refine (Orderly.limit _ _ _).bind fun _ ↦ (Orderly.advance _ _).bind fun _ ↦ ?_
    exact (Orderly.expectName _).bind fun _ ↦ Orderly.node.bind fun _ ↦ .pure .refl
  · refine (Orderly.limit _ _ _).bind fun _ ↦ (Orderly.advance _ _).bind fun _ ↦ ?_
    refine (hsub.expression false _).bind fun _ ↦ Orderly.skipNewLines.bind fun _ ↦ ?_
    exact (Orderly.expect _ _).bind fun _ ↦ Orderly.node.bind fun _ ↦ .pure .refl
  · refine (Orderly.limit _ _ _).bind fun _ ↦
      (callArgs_orderly hsub fun u hu htrivia ↦ ?_).bind fun args ↦ ?_
    · exact Stage.isContent_of_isSymbol (hu.2 ▸ hparen) htrivia
    · exact Orderly.scope.bind fun _ ↦ .pure .refl
  · refine (Orderly.advance _ _).bind fun _ ↦ Orderly.node.bind fun _ ↦ .pure .refl
  · refine (Orderly.advance _ _).bind fun _ ↦ Orderly.node.bind fun _ ↦ .pure .refl

theorem links_orderly (e : Expr) (qualified : List String) :
    Orderly m st (links ctx sub e qualified) fun _ ↦ st.resting :=
  Orderly.rounds.bind fun n ↦ by
    rw [linksWithin_eq_rounded]
    exact .loop (fun link _ ↦ linksRound_orderly hsub link) n _

/-! ## Forms of operands -/

theorem named_orderly (name : String) : Orderly m st (named ctx sub name start) fun _ ↦
    st.resting := by
  have hcall (args : List Expr) {st₁ : Stage} (hst : st₁.Implies st.resting) : Orderly m st₁ (do
      return ((Expr.call name args).moveTo start).inScope (← scope)) fun _ ↦ st.resting :=
    Orderly.scope.bind fun _ ↦ .pure hst
  refine .bind (.ask fun _ ↦ rfl) fun _ ↦ (Orderly.is _).bind fun _ ↦ (Orderly.is _).bind fun _ ↦
    .branch (fun _ ↦ Orderly.current_bind fun t _ ↦ .branch (fun _ ↦ ?_) fun _ ↦ ?_) fun _ ↦ ?_
  · exact (looseArgs_orderly hsub).bind fun args ↦
      hcall args (Stage.implies_resting rfl fun _ ↦ trivial)
  · exact .bind (q := fun _ ↦ st.resting) (.pure (Stage.implies_resting rfl id)) fun args ↦
      hcall args .refl
  · refine .bind (.ask fun _ ↦ rfl) fun _ ↦ Orderly.node.bind fun _ ↦ ?_
    exact (links_orderly hsub _ _).mono fun _ ↦ Stage.implies_resting rfl id

theorem itemsRound_orderly (items : List Expr × Bool) :
    Orderly m st (itemsRound sub items) (Round.stage st.moving st.resting) := by
  obtain ⟨items, wanting⟩ := items
  refine Orderly.skipNewLines.bind fun _ ↦ (Orderly.is _).bind fun _ ↦ .branch
    (fun _ ↦ .pure (Stage.implies_resting rfl id)) fun _ ↦ ?_
  refine Orderly.isEnded.bind fun _ ↦ .require Orderly.fails_failExpected fun _ ↦ ?_
  refine (Orderly.is _).bind fun found ↦ .branch (fun hcomma ↦ ?_) fun _ ↦ ?_
  · have hpass (items : List Expr) {st₁ : Stage} (hopened : st₁.opened = st.opened)
      (h : ∀ t, st₁.current t →
        t.kind ≠ .newLine ∧ t.is "," = true) : Orderly m st₁ (do
          advance 1 true
          return .again (items, true) : Parse (Round (List Expr × Bool) (List Expr)))
        (Round.stage st.moving st.resting) := by
      refine (Orderly.advance_content Nat.one_pos fun t ht htrivia ↦ ?_).bind fun _ ↦
        .pure (Stage.implies_moving hopened trivial)
      exact Stage.isContent_of_is (h t ht).1 (h t ht).2 (by decide) htrivia
    refine .branch (fun _ ↦ Orderly.position.bind fun _ ↦ Orderly.node.bind fun _ ↦ ?_) fun _ ↦ ?_
    · exact .pure_bind (hpass _ rfl fun t ht ↦ ⟨ht.1.1.1.2, ht.2.trans hcomma⟩)
    · exact .pure_bind (hpass _ rfl fun t ht ↦ ⟨ht.1.1.1.2, ht.2.trans hcomma⟩)
  · refine .require Orderly.fails_failExpected fun _ ↦ ?_
    exact (hsub.expression false _).bind fun _ ↦ .pure (Stage.implies_moving rfl trivial)

theorem array_orderly (h : ∀ t, st.current t → t.lexeme.isTrivia = false → t.isContent = true) :
    Orderly m st (array sub) fun _ ↦ st.moving := by
  refine Orderly.position.bind fun _ ↦ (Orderly.expect_content h).bind fun _ ↦
    Orderly.rounds.bind fun n ↦ ?_
  rw [itemsWithin_eq_rounded]
  refine (Orderly.loop (fun items _ ↦ itemsRound_orderly hsub items) n ([], true)).bind fun _ ↦ ?_
  exact (Orderly.advance _ _).bind fun _ ↦ Orderly.node

theorem entriesRound_orderly (entries : List MapEntry) :
    Orderly m st (entriesRound sub entries) (Round.stage st.moving st.resting) := by
  refine Orderly.skipNewLines.bind fun _ ↦ (Orderly.is _).bind fun _ ↦ .branch
    (fun _ ↦ .pure (Stage.implies_resting rfl id)) fun _ ↦ ?_
  refine Orderly.mapKey.bind fun key ↦ (Orderly.advance _ _).bind fun _ ↦
    (Orderly.expect _ _).bind fun _ ↦ ?_
  refine (hsub.expression false _).bind fun value ↦ Orderly.skipNewLines.bind fun _ ↦ ?_
  exact .listSeparator (.pure (Stage.implies_moving rfl trivial))

theorem map_orderly (h : ∀ t, st.current t → t.lexeme.isTrivia = false → t.isContent = true) :
    Orderly m st (map sub) fun _ ↦ st.moving := by
  refine Orderly.position.bind fun _ ↦ (Orderly.expect_content h).bind fun _ ↦
    Orderly.rounds.bind fun n ↦ ?_
  rw [entriesWithin_eq_rounded]
  refine (Orderly.loop (fun entries _ ↦ entriesRound_orderly hsub entries) n []).bind fun _ ↦ ?_
  exact (Orderly.advance _ _).bind fun _ ↦ Orderly.node

omit hsub in
/-- A parameter list that may be left out, before what follows. -/
theorem optionalParams_orderly {p : Prop} [Decidable p] {f : List String → Parse α} {r : α → Stage}
    (hf : ∀ names, Orderly m st.resting (f names) r) :
    Orderly m st (if p then params ctx >>= f else pure [] >>= f) r :=
  .branch (fun _ ↦ Orderly.params.bind hf) fun _ ↦
    .bind (q := fun _ ↦ st.resting) (.pure (Stage.implies_resting rfl id)) hf

theorem lambda_orderly (h : ∀ t, st.current t → t.lexeme.isTrivia = false → t.isContent = true) :
    Orderly m st (lambda ctx sub) fun _ ↦ st.moving := by
  refine Orderly.position.bind fun _ ↦ (Orderly.expect_content h).bind fun _ ↦
    (Orderly.is _).bind fun _ ↦ ?_
  refine optionalParams_orderly fun names ↦
    (statementsInScope_orderly hsub openBrace_orderly .function names).bind fun _ ↦ ?_
  exact Orderly.scope.bind fun _ ↦ .pure (Stage.implies_moving rfl trivial)

/-- The sections of a string have tokens of their own. -/
theorem pieces_orderly {parts : List Section} (h : m.ready → m.numbered →
      SectionsInOrder parts ∧ SectionsEachString SectionsInOrder parts) :
    Orderly m st (pieces sub start parts) fun _ ↦ st := by
  induction parts with
  | nil => exact .pure .refl
  | cons part parts ih =>
    have hrest (hready : m.ready) (hn : m.numbered) :
        SectionsInOrder parts ∧ SectionsEachString SectionsInOrder parts := by
      obtain ⟨horder, heach⟩ := h hready hn
      refine ⟨fun tokens htokens ↦ horder tokens (List.mem_cons_of_mem _ htokens),
        sectionsEachString_iff.mpr fun tokens htokens ↦ ?_⟩
      exact sectionsEachString_iff.mp heach tokens (List.mem_cons_of_mem _ htokens)
    cases part with
    | text value => exact Orderly.node.bind fun _ ↦ (ih hrest).bind fun _ ↦ .pure .refl
    | tokens list =>
      refine (hsub.embedded list (fun hready hn ↦ ?_) _).bind fun _ ↦ (ih hrest).bind fun _ ↦
        .pure .refl
      obtain ⟨horder, heach⟩ := h hready hn
      exact ⟨horder list (List.mem_cons_self ..), heach.1⟩

theorem prefixed_orderly (op : UnaryOp) : Orderly m st (prefixed sub op start) fun _ ↦ st.moving :=
  (Orderly.advance _ _).bind fun _ ↦ (hsub.operand _).bind fun _ ↦ Orderly.node

theorem prefixedChange_orderly (op : UnaryOp) :
    Orderly m st (prefixedChange sub op start) fun _ ↦ st.moving :=
  (Orderly.advance _ _).bind fun _ ↦ (hsub.operand _).bind fun _ ↦
    .require (Orderly.fails_throw id) fun _ ↦ Orderly.node

theorem minus_orderly (h : ∀ t, st.current t → t.lexeme.isTrivia = false → t.isContent = true) :
    Orderly m st (minus sub start) fun _ ↦ st.moving := by
  refine (Orderly.peek (by decide) _).bind fun token ↦ ?_
  cases token.lexeme.number? with
  | some n => exact (Orderly.advance_content (by decide) h).bind fun _ ↦ Orderly.node
  | none => exact prefixed_orderly hsub .negate

theorem insideParens_orderly :
    Orderly m st (insideParens ctx sub) fun _ ↦ (st.inParens 1).moving := by
  refine Orderly.enterParen.bind fun _ ↦ (Orderly.advance _ _).bind fun _ ↦ ?_
  exact (hsub.expression true _).bind fun _ ↦ (Orderly.expect _ _).bind fun _ ↦ .pure .refl

theorem parenthesized_orderly : Orderly m st (parenthesized ctx sub) fun _ ↦ st.moving := by
  rw [parenthesized_eq]
  refine (insideParens_orderly hsub).bind fun _ ↦ Orderly.leaveParen.bind fun _ ↦ ?_
  exact (links_orderly hsub _ _).mono fun _ ↦ .refl

/-! ## Operands -/

theorem plainOperand_orderly : Orderly m st (plainOperand ctx sub) fun _ ↦ st.moving := by
  refine Orderly.current_bind fun t ht ↦ ?_
  -- the lexeme tells what the token is
  have hcontent {kind : TokenKind} (hkind : t.lexeme.kind = kind)
      (hproper : kind ≠ .newLine ∧ kind ≠ .endOfInput) (u : Token)
      (hu : (st.knowing (· = t)).current u)
      (htrivia : u.lexeme.isTrivia = false) : u.isContent = true :=
    Token.isContent_of_kind (hu.2 ▸ hkind) hproper htrivia
  dsimp only
  split
  · next raw parts hlexeme =>
    refine (Orderly.advance_content Nat.one_pos
      (hcontent (congrArg Lexeme.kind hlexeme) (by simp [Lexeme.kind]))).bind
      fun _ ↦ (pieces_orderly hsub fun hready hn ↦ ?_).bind fun _ ↦ Orderly.node
    have heach := ht hready hn
    rwa [hlexeme] at heach
  · next name hlexeme =>
    exact (Orderly.advance_content Nat.one_pos
      (hcontent (congrArg Lexeme.kind hlexeme) (by simp [Lexeme.kind]))).bind
      fun _ ↦ named_orderly hsub name
  · next hlexeme =>
      exact lambda_orderly hsub (hcontent (congrArg Lexeme.kind hlexeme) (by simp [Lexeme.kind]))
  · next hlexeme =>
      exact minus_orderly hsub (hcontent (congrArg Lexeme.kind hlexeme) (by simp [Lexeme.kind]))
  · exact prefixed_orderly hsub .not
  · exact prefixedChange_orderly hsub .preIncrement
  · exact prefixedChange_orderly hsub .preDecrement
  · exact parenthesized_orderly hsub
  · next hlexeme =>
    exact (array_orderly hsub
      (hcontent (congrArg Lexeme.kind hlexeme) (by simp [Lexeme.kind]))).bind
      fun _ ↦ links_orderly hsub _ _
  · next hlexeme =>
      exact map_orderly hsub (hcontent (congrArg Lexeme.kind hlexeme) (by simp [Lexeme.kind]))
  · exact .failExpected
  · refine .branch (fun hliteral ↦ ?_) fun _ ↦ .of_fails (Orderly.fails_fail id)
    refine (Orderly.advance_content Nat.one_pos (hcontent rfl ?_)).bind fun _ ↦
      Orderly.node.bind fun _ ↦
      links_orderly hsub _ _
    rw [Lexeme.isLiteral] at hliteral
    constructor <;> intro hkind <;> simp [hkind] at hliteral

omit hsub in
/-- Without extensions, no node is built by one. -/
theorem build?_bind (hctx : ctx.registry.entries = []) {kind : ExtensionKind}
    {f : Option Expr → Parse β}
    {r : β → Stage} (h : Orderly m st (f none) r) : Orderly m st (ctx.build? sub kind >>= f) r :=
  fun s hs ↦ .ask (build?_run hctx sub kind) (h s hs)

omit hsub in
theorem replaceTokens_orderly (hctx : ctx.registry.entries = []) :
    Orderly m st ctx.replaceTokens fun _ ↦ st :=
  .ask (g := fun _ ↦ ()) fun _ ↦ replaceTokens_run hctx

theorem innerOperand_orderly (hctx : ctx.registry.entries = []) :
    Orderly m st (innerOperand ctx sub) fun _ ↦ st.moving :=
  build?_bind hctx (plainOperand_orderly hsub)

theorem operand_orderly (hctx : ctx.registry.entries = []) :
    Orderly m st (operand ctx sub) fun _ ↦ st.moving :=
  operand_eq ▸ .deeper (innerOperand_orderly hsub hctx)

/-! ## Expressions -/

/-- The stage between two rounds of an expression that was begun at the stage `st`. Its groups are
open, and unless an operand is wanted, something was passed. -/
def Stage.between (st : Stage) (a : Nat × Bool × Yard) : Stage :=
  { st.resting.inParens a.1 with moved := st.moved ∨ a.2.1 = false }

/-- The parenthesis of a group is passed and no longer counted. -/
theorem closeGroup_orderly (h : ∀ t, st.current t → t.lexeme.isTrivia = false → t.isContent = true)
    (yard : Yard) : Orderly m st (closeGroup ctx sub yard) fun _ ↦ st.outOfParen.moving := by
  have hpass : Orderly m st.outOfParen (advance 1 false) fun _ ↦ st.outOfParen.moving :=
    .advance_content Nat.one_pos h
  refine Orderly.leaveParen.bind fun _ ↦ hpass.bind fun _ ↦ ?_
  exact Orderly.settled.bind fun _ ↦ (Orderly.deeper (links_orderly hsub _ _)).bind fun _ ↦
    .pure .refl

omit hsub in
theorem nextOfExpression_bind (hctx : ctx.registry.entries = []) {grouped : Bool} {groups : Nat}
    {f : Token → Parse β} {r : β → Stage}
    (hf : ∀ t, Orderly m (st.resting.knowing (· = t)) (f t) r) :
    Orderly m st (nextOfExpression ctx grouped groups >>= f) r := by
  have hrest : Orderly m st.resting (do
      ctx.replaceTokens
      let t ← current
      f t) r := (replaceTokens_orderly hctx).bind fun _ ↦ Orderly.current_bind fun t _ ↦
    (hf t).from_implied ⟨rfl, id, fun _ h ↦ h⟩
  simp only [nextOfExpression, bind_assoc, ite_bind]
  exact .branch (fun _ ↦ Orderly.skipNewLines.bind fun _ ↦
    hrest.from_implied (Stage.implies_resting rfl id))
    fun _ ↦ hrest.from_implied (Stage.implies_resting rfl id)

omit hsub in
theorem nextOfExpression_orderly (hctx : ctx.registry.entries = []) {grouped : Bool}
    {groups : Nat} :
    Orderly m st (nextOfExpression ctx grouped groups) fun t ↦ st.resting.knowing (· = t) := by
  rw [← bind_pure (nextOfExpression ctx grouped groups)]
  exact nextOfExpression_bind hctx fun t ↦ .pure .refl

/-- Every round of an expression passes a token, except the last one, which comes when no operand is
wanted and no group is open. -/
theorem expressionRound_orderly (hctx : ctx.registry.entries = []) (grouped : Bool) (groups : Nat)
    (wanting : Bool) (yard : Yard) :
    Orderly m (st.inParens groups) (expressionRound ctx sub grouped (groups, wanting, yard)) <|
      Round.leads (fun next ↦ (st.inParens next.1).moving) fun _ ↦
        { st.resting with moved := wanting = false → st.moved } := by
  refine nextOfExpression_bind hctx fun t ↦ .branch (fun _ ↦ .branch (fun hopen ↦ ?_) fun _ ↦
    ?_) fun _ ↦
    .branch (fun hclose ↦ ?_) fun _ ↦ ?_
  · refine Orderly.enterParen.bind fun _ ↦
      (Orderly.advance_content Nat.one_pos fun u hu htrivia ↦ ?_).bind
      fun _ ↦ .pure .refl
    exact Stage.isContent_of_isSymbol (hu.2 ▸ hopen) htrivia
  · exact (hsub.operand _).bind fun e ↦ .pure .refl
  · rw [Bool.and_eq_true, decide_eq_true_eq] at hclose
    obtain ⟨n, rfl⟩ := Nat.exists_eq_add_one_of_ne_zero (Nat.ne_of_gt hclose.2)
    refine (closeGroup_orderly hsub (fun u hu htrivia ↦ ?_) yard).bind fun y ↦ .pure .refl
    exact Stage.isContent_of_isSymbol (hu.2 ▸ hclose.1) htrivia
  · split
    · next op hop =>
      have hkind : t.kind = .symbol := by
        by_contra hkind
        rw [if_neg hkind] at hop
        cases hop
      refine Orderly.settled.bind fun y ↦
        (Orderly.advance_content Nat.one_pos fun u hu htrivia ↦ ?_).bind
        fun _ ↦ .pure .refl
      exact Token.isContent_of_kind (hu.2 ▸ hkind) (by simp) htrivia
    · refine .require (Orderly.fails_fail id) fun _ ↦
        .require Orderly.fails_failExpected fun hnone ↦ ?_
      obtain rfl : groups = 0 := Nat.eq_zero_of_not_pos hnone
      exact Orderly.settled.bind fun e ↦
        .pure ⟨rfl, fun hmoved ↦ hmoved (by simp_all), fun _ _ ↦ trivial⟩

theorem expressionRound_between (hctx : ctx.registry.entries = []) (grouped : Bool)
    (a : Nat × Bool × Yard) :
    Orderly m (st.between a) (expressionRound ctx sub grouped a) (Round.leads st.between fun _ ↦
      st.moving) := by
  let start : Stage := { st.resting with moved := st.moved ∨ a.2.1 = false }
  have hround : Orderly m (start.inParens a.1) (expressionRound ctx sub grouped a) _ :=
    expressionRound_orderly hsub hctx grouped a.1 a.2.1 a.2.2
  refine hround.mono fun next ↦ ?_
  cases next with
  | again next => exact ⟨rfl, fun _ ↦ trivial, fun _ ↦ id⟩
  | done e => exact Stage.implies_moving rfl .inr

theorem expression_orderly (hctx : ctx.registry.entries = []) (grouped : Bool) :
    Orderly m st (expression ctx sub grouped) fun _ ↦ st.moving := by
  refine Orderly.rounds.bind fun n ↦ ?_
  rw [expressionWithin_eq_rounded]
  exact (Orderly.rounded st.between (expressionRound_between hsub hctx grouped) n _).from_implied
    ⟨rfl, fun h ↦ h.resolve_right (by simp), fun _ _ ↦ trivial⟩

/-! ## Statements -/

theorem simpleStatement_orderly : Orderly m st (simpleStatement sub) fun _ ↦ st.moving := by
  refine Orderly.position.bind fun _ ↦ (hsub.expression false _).bind fun target ↦ ?_
  refine .bind (.ask (g := fun s ↦
    if s.tokens.current.kind = .symbol then AssignOp.ofSymbol? s.tokens.current.text else none)
      fun _ ↦ rfl) fun op ↦ ?_
  cases op with
  | none => exact .pure .refl
  | some op =>
    refine .require (Orderly.fails_throw id) fun _ ↦ (Orderly.advance _ _).bind fun _ ↦ ?_
    refine (hsub.expression false _).bind fun value ↦ ?_
    have hdefine {st : Stage} : Orderly m st (defineTarget target op) fun _ ↦ st := by
      refine .branch (fun _ ↦ ?_) fun _ ↦ .pure .refl
      cases target.varName? with
      | none => exact .pure .refl
      | some name =>
        refine .modifySymbols fun t ↦ ?_
        split
        · exact .refl
        · exact (SymbolTable.Grows.define name .var).steady
    exact hdefine.bind fun _ ↦ Orderly.scope.bind fun _ ↦ .pure .refl

theorem declaration_orderly : Orderly m st (declaration sub) fun _ ↦ st.moving := by
  refine Orderly.position.bind fun start ↦ (Orderly.expectName _).bind fun name ↦ ?_
  refine (Orderly.modifySymbols fun t ↦ (SymbolTable.Grows.define name .var).steady).bind fun _ ↦
    (Orderly.is _).bind fun _ ↦ ?_
  have hmade (value : Option Expr) {st₁ : Stage} (hst : st₁.Implies st.moving) : Orderly m st₁ (do
      let scope ← scope
      let target := ((Expr.var name).moveTo start).inScope scope
      return ((Expr.assign target .assign value true).moveTo start).inScope scope) fun _ ↦
        st.moving :=
    Orderly.scope.bind fun _ ↦ .pure hst
  refine .branch (fun _ ↦ (Orderly.advance _ _).bind fun _ ↦ (hsub.expression false _).bind fun e ↦
    ?_) fun _ ↦ ?_
  · exact .pure_bind (hmade (some e) (Stage.implies_moving rfl trivial))
  · exact .pure_bind (hmade none (Stage.implies_moving rfl trivial))

theorem declarationsRound_orderly (done : List Expr) :
    Orderly m st (declarationsRound sub done) (Round.stage st.moving st.moving) :=
  (declaration_orderly hsub).bind fun _ ↦ (Orderly.is _).bind fun _ ↦ .branch
    (fun _ ↦ (Orderly.advance _ _).bind fun _ ↦ .pure .refl) fun _ ↦
    .pure (Stage.implies_moving rfl trivial)

theorem varStatement_orderly : Orderly m st (varStatement sub) fun _ ↦ st.moving := by
  refine Orderly.position.bind fun _ ↦ (Orderly.expect _ _).bind fun _ ↦
    Orderly.rounds.bind fun n ↦ ?_
  rw [declarationsWithin_eq_rounded]
  refine (Orderly.rounded (fun _ ↦ st.resting) (r := fun _ ↦ st.moving) (fun done ↦
    (declarationsRound_orderly hsub done).mono fun next ↦ ?_) n []).bind fun entries ↦ ?_
  · cases next with
    | again _ => exact Stage.implies_resting rfl fun _ ↦ trivial
    | done _ => exact .refl
  · split
    · exact .pure .refl
    · exact Orderly.node

theorem returnStatement_orderly (h : ∀ t, st.current t → t.lexeme.isTrivia = false →
    t.isContent = true) :
    Orderly m st (returnStatement sub) fun _ ↦ st.moving := by
  refine Orderly.position.bind fun _ ↦ (Orderly.expect_content h).bind fun _ ↦ ?_
  refine .bind (.ask fun _ ↦ rfl) fun w ↦ .branch (fun _ ↦ Orderly.node) fun _ ↦ ?_
  exact (hsub.expression false _).bind fun _ ↦ Orderly.node

theorem throwStatement_orderly : Orderly m st (throwStatement sub) fun _ ↦ st.moving :=
  Orderly.position.bind fun _ ↦ (Orderly.advance _ _).bind fun _ ↦
    (hsub.expression false _).bind fun _ ↦
    Orderly.node

omit hsub in
theorem wordStatement_orderly (h : ∀ t, st.current t → t.lexeme.isTrivia = false →
    t.isContent = true)
    (form : Form) : Orderly m st (wordStatement form) fun _ ↦ st.moving :=
  Orderly.position.bind fun _ ↦ (Orderly.advance_content Nat.one_pos h).bind fun _ ↦ Orderly.node

/-! ## Branches and loops -/

theorem insideSingle_orderly : Orderly m st (insideSingle ctx sub) fun _ ↦ st.moving.inBlock := by
  refine Orderly.enterBlock.bind fun _ ↦ .inScope (q := fun _ ↦ st.moving.inBlock) ?_
  refine (hsub.statement _).bind fun found ↦ ?_
  cases found with
  | none => exact .failExpected
  | some statement => exact .pure .refl

theorem blockOrStatement_orderly : Orderly m st (blockOrStatement ctx sub) fun _ ↦ st.resting := by
  rw [blockOrStatement_eq]
  refine Orderly.skipNewLines.bind fun _ ↦ (Orderly.is _).bind fun _ ↦
    .branch (fun _ ↦ ?_) fun _ ↦ ?_
  · exact (blockWith_orderly hsub openBrace_orderly []).mono fun _ ↦ .refl
  · refine Orderly.position.bind fun _ ↦ (insideSingle_orderly hsub).bind fun _ ↦
      Orderly.leaveBlock.bind fun _ ↦ ?_
    exact .pure (Stage.implies_resting rfl fun _ ↦ trivial)

theorem guarded_orderly : Orderly m st (guarded ctx sub) fun _ ↦ st.resting := by
  refine (Orderly.is _).bind fun _ ↦ .branch (fun _ ↦ ?_) fun _ ↦ ?_
  · exact (Orderly.advance _ _).bind fun _ ↦ blockOrStatement_orderly hsub
  · refine (Orderly.continuesWith _).bind fun _ ↦ .branch (fun _ ↦ ?_) fun _ ↦ .failExpected
    exact (blockWith_orderly hsub openBrace_orderly []).mono fun _ ↦ .refl

theorem insideChain_orderly : Orderly m st (insideChain ctx sub) fun _ ↦ st.moving.inBlock :=
  Orderly.enterBlock.bind fun _ ↦ hsub.conditional _

theorem alternative_orderly : Orderly m st (alternative ctx sub) fun _ ↦ st.resting := by
  rw [alternative_eq]
  refine (Orderly.is _).bind fun _ ↦ .branch (fun _ ↦ ?_) fun _ ↦ ?_
  · refine (insideChain_orderly hsub).bind fun _ ↦ Orderly.leaveBlock.bind fun _ ↦ ?_
    exact .pure (Stage.implies_resting rfl fun _ ↦ trivial)
  · exact (blockOrStatement_orderly hsub).mono fun _ ↦ .refl

theorem conditional_orderly : Orderly m st (conditional ctx sub) fun _ ↦ st.moving := by
  refine Orderly.position.bind fun start ↦ (Orderly.expect _ _).bind fun _ ↦ ?_
  refine (hsub.expression false _).bind fun test ↦ (guarded_orderly hsub).bind fun body ↦ ?_
  refine (Orderly.continuesWith _).bind fun _ ↦ .branch (fun _ ↦ ?_) fun _ ↦ Orderly.node
  exact (Orderly.advance _ _).bind fun _ ↦ (alternative_orderly hsub).bind fun e ↦ Orderly.node

theorem whileStatement_orderly : Orderly m st (whileStatement ctx sub) fun _ ↦ st.moving := by
  refine Orderly.position.bind fun _ ↦ (Orderly.expect _ _).bind fun _ ↦ ?_
  exact (hsub.expression false _).bind fun test ↦ (guarded_orderly hsub).bind fun body ↦
    Orderly.node

theorem forEachStatement_orderly (parens : Bool) :
    Orderly m st (forEachStatement ctx sub start parens) fun _ ↦ st.moving := by
  rw [forEachStatement]
  refine .optional (fun _ ↦ Orderly.advance _ _) (fun _ ↦ Stage.implies_resting rfl id) ?_
  refine (Orderly.expectName _).bind fun name ↦ (Orderly.expect _ _).bind fun _ ↦
    (hsub.expression false _).bind fun source ↦ ?_
  refine .optional (fun _ ↦ Orderly.expect _ _) (fun _ ↦ .refl) ?_
  exact (blockWith_orderly hsub openBrace_orderly [name]).bind fun body ↦ Orderly.node

theorem insideLoop_orderly : Orderly m st (insideLoop ctx sub) fun _ ↦ st.moving := by
  have hrest (initial : Expr) : Orderly m st.moving (do
      expect ";" true
      let condition ← sub (.expression false)
      expect ";" true
      let increment ← simpleStatement sub
      expect ")" false
      let body ← block ctx sub
      return Form.forLoop initial condition increment body) fun _ ↦ st.moving := by
    refine (Orderly.expect _ _).bind fun _ ↦ (hsub.expression false _).bind fun test ↦ ?_
    refine (Orderly.expect _ _).bind fun _ ↦ (simpleStatement_orderly hsub).bind fun increment ↦ ?_
    refine (Orderly.expect _ _).bind fun _ ↦
      (blockWith_orderly hsub openBrace_orderly []).bind fun body ↦ ?_
    exact .pure .refl
  refine (Orderly.is _).bind fun _ ↦ .branch (fun _ ↦ ?_) fun _ ↦ ?_
  · exact (varStatement_orderly hsub).bind fun initial ↦ hrest initial
  · exact (simpleStatement_orderly hsub).bind fun initial ↦ hrest initial

theorem countingLoop_orderly : Orderly m st (countingLoop ctx sub start) fun _ ↦ st.moving := by
  rw [countingLoop_eq]
  refine (Orderly.expect _ _).bind fun _ ↦
    (Orderly.inScope (insideLoop_orderly hsub)).bind fun _ ↦ ?_
  exact .pure .refl

theorem forStatement_orderly : Orderly m st (forStatement ctx sub) fun _ ↦ st.moving := by
  refine Orderly.position.bind fun _ ↦ (Orderly.expect _ _).bind fun _ ↦
    (Orderly.is _).bind fun _ ↦ ?_
  refine (Orderly.isForEach _).bind fun _ ↦ .branch (fun _ ↦ ?_) fun _ ↦ ?_
  · exact (forEachStatement_orderly hsub _).mono fun _ ↦ .refl
  · exact (countingLoop_orderly hsub).mono fun _ ↦ .refl

theorem tryStatement_orderly (h : ∀ t, st.current t → t.lexeme.isTrivia = false →
    t.isContent = true) :
    Orderly m st (tryStatement ctx sub) fun _ ↦ st.moving := by
  refine Orderly.position.bind fun _ ↦ (Orderly.expect_content h).bind fun _ ↦ ?_
  refine (blockWith_orderly hsub openBrace_orderly []).bind fun body ↦
    (Orderly.continuesWith _).bind fun _ ↦ ?_
  refine .require Orderly.fails_failExpected fun _ ↦ (Orderly.advance _ _).bind fun _ ↦
    (Orderly.is _).bind fun _ ↦ ?_
  refine .optional (fun _ ↦ Orderly.advance _ _) (fun _ ↦ Stage.implies_resting rfl id) ?_
  refine (Orderly.expectName _).bind fun name ↦ ?_
  refine .optional (fun _ ↦ Orderly.expect _ _) (fun _ ↦ .refl) ?_
  exact (blockWith_orderly hsub openBrace_orderly [name]).bind fun handler ↦ Orderly.node

/-! ## All statements -/

theorem functionStatement_orderly : Orderly m st (functionStatement ctx sub) fun _ ↦ st.moving := by
  refine Orderly.position.bind fun _ ↦ (Orderly.expect _ _).bind fun _ ↦
    (Orderly.expectName _).bind fun name ↦ ?_
  refine (Orderly.is _).bind fun _ ↦ .optional (fun _ ↦ Orderly.advance _ _)
    (fun _ ↦ Stage.implies_resting rfl id) ?_
  refine Orderly.rounds.bind fun n ↦ ?_
  rw [aliasesWithin_eq_rounded]
  refine (Orderly.loop (fun done _ ↦ Orderly.aliasesRound done) n []).bind fun aliases ↦
    (Orderly.is _).bind fun _ ↦ ?_
  refine optionalParams_orderly fun names ↦ ?_
  refine (Orderly.modifySymbols fun t ↦ (SymbolTable.Grows.defineFunction _).steady).bind fun _ ↦ ?_
  refine (statementsInScope_orderly hsub openBrace_orderly .function names).bind fun found ↦ ?_
  refine (Orderly.modifySymbols fun t ↦ .attachDecl name _).bind fun _ ↦
    Orderly.scope.bind fun _ ↦ ?_
  exact .pure (Stage.implies_moving rfl trivial)

omit hsub in
theorem ended_orderly {x : Parse Expr} (h : Orderly m st x fun _ ↦ st.moving) :
    Orderly m st (ended x) st.afterStatement :=
  h.bind fun _ ↦ Orderly.endStatement.bind fun _ ↦ .pure .refl

theorem plainStatement_orderly (hst : ∀ t, st.current t → t.kind ≠ .newLine) :
    Orderly m st (plainStatement ctx sub) st.afterStatement := by
  have hsome {st₁ : Stage} {x : Parse Expr} (h : Orderly m st₁ x fun _ ↦ st.moving) :
      Orderly m st₁ (do return some (← x)) st.afterStatement := h.bind fun e ↦ .pure .refl
  refine Orderly.current_bind fun t _ ↦ ?_
  have hopen : Orderly m (st.knowing (· = t)) (openBrace ctx) fun _ ↦ st.moving.inBlock :=
    openBrace_here fun u hu ↦ hst u hu.1
  have hcontent {word : String} (hword : t.lexeme = .keyword word) (u : Token)
      (hu : (st.knowing (· = t)).current u) (htrivia : u.lexeme.isTrivia = false) :
      u.isContent = true :=
    Token.isContent_of_kind (hu.2 ▸ congrArg Lexeme.kind hword) (by simp [Lexeme.kind]) htrivia
  split
  · exact hsome (conditional_orderly hsub)
  · exact hsome (whileStatement_orderly hsub)
  · exact hsome (forStatement_orderly hsub)
  · next hword => exact hsome (tryStatement_orderly hsub (hcontent hword))
  · refine (Orderly.peek (by decide) _).bind fun _ ↦ .branch (fun _ ↦ ?_) fun _ ↦ ?_
    · exact hsome (functionStatement_orderly hsub)
    · exact ended_orderly (simpleStatement_orderly hsub)
  · exact hsome ((blockWith_orderly hsub hopen []).mono fun _ ↦ .refl)
  · exact ended_orderly (varStatement_orderly hsub)
  · next hword => exact ended_orderly (returnStatement_orderly hsub (hcontent hword))
  · exact ended_orderly (throwStatement_orderly hsub)
  · next hword => exact ended_orderly (wordStatement_orderly (hcontent hword) _)
  · next hword => exact ended_orderly (wordStatement_orderly (hcontent hword) _)
  · exact .of_fails (Orderly.fails_fail id)
  · exact ended_orderly (simpleStatement_orderly hsub)

theorem statement_orderly (hctx : ctx.registry.entries = []) :
    Orderly m st (statement ctx sub) st.afterStatement := by
  have hplain {p : Token → Prop} : Orderly m ((st.resting.knowing (·.kind ≠ .newLine)).knowing p)
      (plainStatement ctx sub) st.afterStatement := by
    refine .mono (plainStatement_orderly hsub fun _ ht ↦ ht.1.2) fun found ↦ ?_
    cases found with
    | none => exact .refl
    | some _ => exact .refl
  refine Orderly.passSeparators.bind fun _ ↦ Orderly.isEnded.bind fun _ ↦ .branch
    (fun _ ↦ .pure (Stage.implies_resting rfl id)) fun _ ↦ ?_
  exact (replaceTokens_orderly hctx).bind fun _ ↦ build?_bind hctx hplain

end

/-! ## The parser -/

theorem embeddedWith_orderly {subs : Nat → Subparser} (hsubs : ∀ n, Keeps m (subs n))
    {list : List Token}
    (hlist : m.ready → m.numbered → InOrder list ∧ TokensEachString SectionsInOrder list) :
    Orderly m st (embeddedWith subs list) fun _ ↦ st := by
  refine .aside hlist (.bind (.ask fun _ ↦ rfl) fun w ↦
    ((hsubs _).expression false _).bind fun e ↦ ?_)
  refine Orderly.isEnded.bind fun _ ↦ .require Orderly.fails_failExpected fun _ ↦ .pure ?_
  exact Stage.implies_resting rfl fun _ ↦ trivial

theorem keeps_runWith {inner : (fuel : Nat) → List Token → Parse Expr}
    (hctx : ctx.registry.entries = [])
    (hinner : ∀ fuel list,
      (m.ready → m.numbered → InOrder list ∧ TokensEachString SectionsInOrder list) →
      ∀ st, Orderly m st (inner fuel list) fun _ ↦ st) (fuel : Nat) :
    Keeps m (runWith ctx inner fuel) := by
  induction fuel with
  | zero =>
    have hfuel {goal : Goal} {st : Stage} {r : goal.Yield → Stage} :
        Orderly m st (runWith ctx inner 0 goal) r := .of_fails (Orderly.fails_fail id)
    exact ⟨fun _ ↦ hfuel, fun _ ↦ hfuel, fun _ _ ↦ hfuel, fun _ ↦ hfuel, fun _ _ _ ↦ hfuel⟩
  | succ fuel ih =>
    exact ⟨fun _ ↦ statement_orderly ih hctx, fun _ ↦ conditional_orderly ih,
      fun grouped _ ↦ expression_orderly ih hctx grouped, fun _ ↦ operand_orderly ih hctx,
      hinner fuel⟩

/-- Every goal that the parser reaches leaves things in order. -/
theorem keeps_run (hctx : ctx.registry.entries = []) (levels fuel : Nat) :
    Keeps m (run ctx levels fuel) := by
  induction levels generalizing fuel with
  | zero => exact keeps_runWith hctx (fun _ _ _ _ ↦ .of_fails (Orderly.fails_fail id)) fuel
  | succ levels ih =>
    exact keeps_runWith hctx (fun _ _ hlist _ ↦ embeddedWith_orderly (fun _ ↦ ih _) hlist) fuel

end ScriptFront.Parse
