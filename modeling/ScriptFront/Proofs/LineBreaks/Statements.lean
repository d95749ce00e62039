import ScriptFront.Proofs.LineBreaks.Expressions
import ScriptFront.Proofs.Tandem.Statements

/-!
# Statements of a block

The body of a function may stand inside a group, and there it is followed from similar tokens to
similar tokens, because nothing is free in a block. What a statement is made of does not matter to
this, only its brackets do: inside them, the place is one bracket deeper, and behind them it is what
it was.
-/

namespace ScriptFront.Parse

variable {α β : Type} {R : Pairing} {ctx : ParseContext}
  {sub₁ sub₂ : Subparser} {start start' : Position} {depth : Nat} {outer : List Level}

/-! ## Brackets in a block -/

theorem leads_parens_block : (Place.block depth outer).Leads "(" (.block (depth + 1) outer) ∧
    (Place.block (depth + 1) outer).Leads ")" (.block depth outer) :=
  ⟨Place.leads_symbol (by decide) (by decide), Place.leads_symbol (by decide) (by decide)⟩

/-! ## Statements without a block -/

/-- The operator of an assignment. -/
theorem assignOp?_spaced : Follows (Begun (.block depth outer)) assignOp? assignOp? Eq
    fun op l l' ↦ Begun (.block depth outer) l l' ∧
      (op.isSome → Ahead (.block depth outer) 1 l l') := by
  refine .current_begun fun t t' hmeets ↦ ?_
  by_cases hkind : t.kind = .symbol
  · rw [if_pos hkind, if_pos ((hmeets.kind_iff (by simp) (by simp)).mpr hkind),
      hmeets.text_eq hkind]
    refine .pure rfl fun _ _ hat ↦ ⟨hat.begun, fun hsome ↦ ?_⟩
    have hbrackets : t.text ∉ Lexeme.brackets := by
      obtain ⟨op, hop⟩ := Option.isSome_iff_exists.mp hsome
      have htext : op.symbol = t.text := by
        rw [AssignOp.ofSymbol?] at hop
        simpa using List.find?_some hop
      rw [← htext]
      cases op <;> decide
    have hend : t.isEnd = false := by rw [Token.isEnd, hkind]; rfl
    exact Place.after_block hbrackets ▸ hat.ahead hend
  · rw [if_neg hkind, if_neg (mt (hmeets.kind_iff (by simp) (by simp)).mp hkind)]
    exact .pure rfl fun _ _ hat ↦ ⟨hat.begun, fun h ↦ by cases h⟩

section

variable (hsub : Spaced sub₁ sub₂)

include hsub

theorem simpleStatement_spaced :
    AlongBlock depth outer (simpleStatement sub₁) (simpleStatement sub₂) Expr.Alike := by
  refine Follows.position.bind fun _ _ _ ↦ hsub.inBlock.bind fun e e' he ↦
    assignOp?_spaced.bind fun op _ hop ↦ ?_
  subst hop
  cases op with
  | none => exact .pure he fun _ _ ↦ And.left
  | some op =>
    dsimp only
    rw [he.isAssignable_eq]
    refine .require (Orderly.fails_throw id) id fun _ ↦ ?_
    refine ((Follows.advance_block true).of_implies fun _ _ h ↦ h.2 rfl).bind fun _ _ _ ↦
      hsub.inBlock.bind fun u u' hu ↦ (defineTarget_follows he op).bind fun _ _ _ ↦
        Follows.scope.bind fun scope _ hscope ↦ ?_
    subst hscope
    exact .pure (Form.Alike.assign op false he hu.some).node fun _ _ ↦ id

theorem declaration_spaced :
    AlongBlock depth outer (declaration sub₁) (declaration sub₂) Expr.Alike := by
  refine Follows.position.bind fun start start' _ ↦
    (Follows.expectName_block false).bind fun name _ hname ↦ ?_
  subst hname
  have hvalue {value value' : Option Expr}
    (h : value'.map Expr.unplaced = value.map Expr.unplaced) :
      AlongBlock depth outer (do
        let scope ← scope
        let target := ((Expr.var name).moveTo start).inScope scope
        return ((Expr.assign target .assign value true).moveTo start).inScope scope) (do
        let scope ← scope
        let target := ((Expr.var name).moveTo start').inScope scope
        return ((Expr.assign target .assign value' true).moveTo start').inScope scope)
          Expr.Alike := by
    refine Follows.scope.bind fun scope _ hscope ↦ ?_
    subst hscope
    exact .pure (Form.Alike.assign .assign true (Form.Alike.refl (.var name)).node h).node fun _ _ ↦
      id
  refine (Follows.modifySymbols fun a b h ↦ ?_).bind fun _ _ _ ↦
    .is_block_branch (by decide) (by decide) ?_ ?_
  · rw [SymbolTable.unplaced_defineVar, SymbolTable.unplaced_defineVar, h]
  · exact (Follows.advance_block true).bind fun _ _ _ ↦ hsub.inBlock.bind fun e e' he ↦
      hvalue he.some
  · exact hvalue rfl

theorem declarationsRound_spaced {done done' : List Expr} (hdone : Alikes done done') :
    Follows (Begun (.block depth outer)) (declarationsRound sub₁ done)
      (declarationsRound sub₂ done') (Round.Matches Alikes Alikes)
      (Round.pairing (fun _ ↦ Begun (.block depth outer)) (Begun (.block depth outer))) := by
  refine (declaration_spaced hsub).bind fun e e' he ↦ .is_block_branch (by decide) (by decide) ?_ ?_
  · exact (Follows.advance_block true).bind fun _ _ _ ↦ .pure (.again (.cons he hdone)) fun _ _ ↦ id
  · exact .pure (.done (AgreeUnder.cons he hdone).reverse) fun _ _ ↦ id

theorem varStatement_spaced :
    AlongBlock depth outer (varStatement sub₁) (varStatement sub₂) Expr.Alike := by
  refine Follows.position.bind fun _ _ _ ↦
    (Follows.expect_block (by decide) (by decide) false).bind fun _ _ _ ↦
      Follows.rounds.bind fun m n _ ↦ ?_
  rw [declarationsWithin_eq_rounded, declarationsWithin_eq_rounded]
  refine (Follows.rounded (P := fun _ ↦ Begun (.block depth outer))
    (fun _ _ hdone ↦ declarationsRound_spaced hsub hdone) m n .nil).bind
    fun entries entries' hentries ↦ ?_
  match entries, entries', hentries with
  | [], [], h => exact .node (.multiAssign h) _ _
  | [e], [e'], h => exact .pure (Expr.Alike.moved (List.cons.inj h).1) fun _ _ ↦ id
  | _ :: _ :: _, _ :: _ :: _, h => exact .node (.multiAssign h) _ _
  | [_], _ :: _ :: _, h | _ :: _ :: _, [_], h => exact absurd h.length_eq (by simp)

/-- A result is left out where the statement ends, in both lists at once. -/
theorem returnStatement_spaced :
    AlongBlock depth outer (returnStatement sub₁) (returnStatement sub₂) Expr.Alike := by
  rw [returnStatement_eq, returnStatement_eq]
  refine Follows.position.bind fun _ _ _ ↦
    (Follows.expect_block (by decide) (by decide) false).bind fun _ _ _ ↦ ?_
  refine .current_begun fun t t' hmeets ↦ .of_implies (R := Begun (.block depth outer)) ?_
    fun _ _ ↦ BegunAt.begun
  rw [hmeets.endsStatement_eq]
  refine .ite Iff.rfl (fun _ ↦ .node (.returning rfl) _ _) fun _ ↦ ?_
  exact hsub.inBlock.bind fun e e' he ↦ .node (.returning he.some) _ _

theorem throwStatement_spaced : Follows (Ahead (.block depth outer) 1)
    (throwStatement sub₁) (throwStatement sub₂) Expr.Alike fun _ ↦ Begun (.block depth outer) :=
  Follows.position.bind fun _ _ _ ↦ (Follows.advance_block false).bind fun _ _ _ ↦
    hsub.inBlock.bind fun _ _ he ↦ .node (.throwing he) _ _

omit hsub in
theorem wordStatement_spaced (form : Form) : Follows (Ahead (.block depth outer) 1)
    (wordStatement form) (wordStatement form) Expr.Alike fun _ ↦ Begun (.block depth outer) :=
  Follows.position.bind fun _ _ _ ↦ (Follows.advance_block false).bind fun _ _ _ ↦
    .node (.refl form) _ _

/-! ## Branches -/

theorem singleStatement_spaced : AlongBlock depth outer (singleStatement ctx sub₁ start)
    (singleStatement ctx sub₂ start') Expr.Alike := by
  rw [singleStatement, singleStatement, insideSingle_eq, insideSingle_eq]
  refine (Follows.enterBlock.bind fun _ _ _ ↦ hsub.statement.inScope).bind fun found found' hfound ↦
    Follows.leaveBlock.bind fun _ _ _ ↦ ?_
  obtain ⟨statement, scope⟩ := found
  obtain ⟨statement', scope'⟩ := found'
  obtain ⟨hstatement, rfl⟩ := hfound
  exact .pure (Form.Alike.block (.cons hstatement .nil)).node fun _ _ ↦ id

theorem blockOrStatement_spaced : AlongBlock depth outer (blockOrStatement ctx sub₁)
    (blockOrStatement ctx sub₂) Expr.Alike := by
  rw [blockOrStatement_eq, blockOrStatement_eq]
  refine Follows.skipNewLines_begun.bind fun _ _ _ ↦
    (Follows.is_begun (by decide)).bind fun found _ hfound ↦ ?_
  subst hfound
  refine .ite Iff.rfl (fun _ ↦ blockWith_spaced hsub []) fun _ ↦ ?_
  exact Follows.position.bind fun _ _ _ ↦ singleStatement_spaced hsub

theorem guarded_spaced :
    AlongBlock depth outer (guarded ctx sub₁) (guarded ctx sub₂) Expr.Alike := by
  refine .is_block_branch (by decide) (by decide) ?_ ?_
  · exact (Follows.advance_block true).bind fun _ _ _ ↦ blockOrStatement_spaced hsub
  · refine (Follows.continuesWith_block (by decide)).bind fun found _ hfound ↦ ?_
    subst hfound
    cases found with
    | false => exact .failExpected
    | true => exact (blockWith_spaced hsub []).of_implies fun _ _ h ↦ (h.1 rfl).begun

theorem alternative_spaced :
    AlongBlock depth outer (alternative ctx sub₁) (alternative ctx sub₂) Expr.Alike := by
  refine (Follows.is_begun (by decide)).bind fun found _ hfound ↦ ?_
  subst hfound
  refine .ite Iff.rfl (fun _ ↦ ?_) fun _ ↦ blockOrStatement_spaced hsub
  exact Follows.enterBlock.bind fun _ _ _ ↦ hsub.conditional.bind fun e e' he ↦
    Follows.leaveBlock.bind fun _ _ _ ↦ .pure he fun _ _ ↦ id

theorem conditional_spaced :
    AlongBlock depth outer (conditional ctx sub₁) (conditional ctx sub₂) Expr.Alike := by
  refine Follows.position.bind fun _ _ _ ↦
    (Follows.expect_block (by decide) (by decide) false).bind fun _ _ _ ↦
      hsub.inBlock.bind fun e e' he ↦ (guarded_spaced hsub).bind fun u u' hu ↦
        (Follows.continuesWith_block (by decide)).bind fun found _ hfound ↦ ?_
  subst hfound
  cases found with
  | true =>
    refine ((Follows.advance_block false).of_implies fun _ _ h ↦
      (h.1 rfl).leads (by decide) (Place.leads_block (by decide))).bind fun _ _ _ ↦
        (alternative_spaced hsub).bind fun v v' hv ↦ .node (.conditional he hu hv.some) _ _
  | false => exact .of_implies (.node (.conditional he hu rfl) _ _) fun _ _ h ↦ h.2 rfl

theorem whileStatement_spaced :
    AlongBlock depth outer (whileStatement ctx sub₁) (whileStatement ctx sub₂) Expr.Alike :=
  Follows.position.bind fun _ _ _ ↦
    (Follows.expect_block (by decide) (by decide) false).bind fun _ _ _ ↦
      hsub.inBlock.bind fun _ _ he ↦ (guarded_spaced hsub).bind fun _ _ hu ↦
        .node (.whileLoop he hu) _ _

/-! ## Loops -/

omit hsub in
/-- Nothing is moved, whether a parenthesis is current or not. -/
theorem isForEach_spaced (parens : Bool) :
    Follows (Ahead (.block depth outer) (loopFront parens)) (isForEach parens) (isForEach parens) Eq
      fun _ ↦ Ahead (.block depth outer) (loopFront parens) := by
  have hnear (extra : Nat) (hextra : extra ≤ 1) :
      loopFront parens + extra ≤ Window.minLookahead := by
    cases parens <;> simp only [loopFront, Window.minLookahead] <;> simp <;> omega
  refine (Follows.peek_ahead (hnear 0 (by simp)) (Place.isTight_block _ _) fun _ _ ↦
    id).bind fun u u' hu ↦
    .ite (hu.kind_iff (by simp) (by simp)) (fun hkind ↦ ?_) fun _ ↦ .pure rfl fun _ _ ↦ And.left
  obtain ⟨name, hlexeme⟩ : ∃ name, u.lexeme = .ident name := by
    rw [Token.kind] at hkind
    cases hlexeme : u.lexeme with
    | ident name => exact ⟨name, rfl⟩
    | _ => rw [hlexeme] at hkind; cases hkind
  have hend : u.isEnd = false := by rw [Token.isEnd, hkind]; rfl
  have hafter : (Place.block depth outer).after u = .block depth outer := by
    rw [Place.after, hlexeme]
    rfl
  refine (Follows.peek_ahead (hnear 1 (by simp)) (Place.isTight_block _ _)
    fun l l' h ↦ hafter ▸ h.2 hend).bind fun v v' hv ↦ ?_
  exact .pure (hv.is_eq (by decide)).symm fun _ _ h ↦ h.1.1

omit hsub in
/-- A parenthesis that was found is passed. -/
theorem openParen_spaced {parens : Bool} {x : Parse α} {y : Parse β} {V : α → β → Prop}
    {P : α → Pairing}
    (h : Follows (Begun (.block depth outer)) x y V P) :
    Follows (Ahead (.block depth outer) (loopFront parens))
      (do if parens then advance 1 false; x else x)
      (do if parens then advance 1 false; y else y) V P := by
  cases parens with
  | true => exact (Follows.advance_block false).bind fun _ _ _ ↦ h
  | false =>
    refine h.of_implies fun l l' hahead ↦ ?_
    cases hahead with
    | here hspread => exact hspread.begun (Place.isTight_block depth outer)

omit hsub in
/-- The closing parenthesis is required if there was an opening one. -/
theorem closeParen_spaced {parens : Bool} {x : Parse α} {y : Parse β} {V : α → β → Prop}
    {P : α → Pairing}
    (h : Follows (Begun (.block depth outer)) x y V P) :
    Follows (Begun (.block (depth + loopFront parens) outer))
      (do if parens then expect ")" false; x else x)
      (do if parens then expect ")" false; y else y) V P := by
  cases parens with
  | true =>
    exact ((Follows.expect_begun (by decide) leads_parens_block.2 false).mono fun _ _ _ hmoved ↦
      hmoved.begun (Place.isTight_block depth outer)).bind fun _ _ _ ↦ h
  | false => exact h

theorem forEachStatement_spaced (parens : Bool) :
    Follows (Ahead (.block (depth + loopFront parens) outer) (loopFront parens))
      (forEachStatement ctx sub₁ start parens) (forEachStatement ctx sub₂ start' parens) Expr.Alike
      fun _ ↦ Begun (.block depth outer) := by
  refine openParen_spaced ((Follows.expectName_block false).bind fun name _ hname ↦ ?_)
  subst hname
  refine (Follows.expect_block (by decide) (by decide) false).bind fun _ _ _ ↦
    hsub.inBlock.bind fun e e' he ↦
      closeParen_spaced ((blockWith_spaced hsub [name]).bind fun u u' hu ↦ ?_)
  exact .node (.forEach name he hu) _ _

/-- Inside the parentheses of a loop, up to behind its body. -/
theorem insideLoop_spaced : Follows (Begun (.block (depth + 1) outer))
    (insideLoop ctx sub₁) (insideLoop ctx sub₂) Form.Alike fun _ ↦ Begun (.block depth outer) := by
  have hrest {e e' : Expr} (he : e.Alike e') :
      Follows (Begun (.block (depth + 1) outer)) (do
      expect ";" true
      let condition ← sub₁ (.expression false)
      expect ";" true
      let increment ← simpleStatement sub₁
      expect ")" false
      let body ← block ctx sub₁
      return .forLoop e condition increment body) (do
      expect ";" true
      let condition ← sub₂ (.expression false)
      expect ";" true
      let increment ← simpleStatement sub₂
      expect ")" false
      let body ← block ctx sub₂
      return .forLoop e' condition increment body) Form.Alike fun _ ↦
        Begun (.block depth outer) := by
    refine (Follows.expect_block (by decide) (by decide) true).bind fun _ _ _ ↦
      hsub.inBlock.bind fun u u' hu ↦
        (Follows.expect_block (by decide) (by decide) true).bind fun _ _ _ ↦
          (simpleStatement_spaced hsub).bind fun v v' hv ↦
            ((Follows.expect_begun (by decide) leads_parens_block.2 false).mono fun _ _ _ hmoved ↦
              hmoved.begun (Place.isTight_block depth outer)).bind fun _ _ _ ↦
                (blockWith_spaced hsub []).bind fun w w' hw ↦ ?_
    exact .pure (.forLoop he hu hv hw) fun _ _ ↦ id
  refine (Follows.is_begun (by decide)).bind fun found _ hfound ↦ ?_
  subst hfound
  refine .ite Iff.rfl (fun _ ↦ ?_) fun _ ↦ ?_
  · exact (varStatement_spaced hsub).bind fun e e' ↦ hrest
  · exact (simpleStatement_spaced hsub).bind fun e e' ↦ hrest

theorem countingLoop_spaced (parens : Bool) :
    Follows (Ahead (.block (depth + loopFront parens) outer) (loopFront parens))
      (countingLoop ctx sub₁ start) (countingLoop ctx sub₂ start') Expr.Alike
      fun _ ↦ Begun (.block depth outer) := by
  have hopen : Follows
      (Ahead (.block (depth + loopFront parens) outer) (loopFront parens)) (expect "(" false)
      (expect "(" false) (fun _ _ ↦ True) fun _ ↦ Begun (.block (depth + 1) outer) := by
    refine Follows.mono (P := fun _ ↦ SpreadMoved (.block (depth + 1) outer) false) ?_
      fun _ _ _ hmoved ↦ hmoved.begun (Place.isTight_block (depth + 1) outer)
    cases parens with
    | true => exact .expect_ahead (by decide) false
    | false =>
      refine (Follows.expect_begun (by decide) leads_parens_block.1 false).of_implies
        fun l l' hahead ↦ ?_
      cases hahead with
      | here hspread => exact hspread.begun (Place.isTight_block depth outer)
  rw [countingLoop_eq, countingLoop_eq]
  refine hopen.bind fun _ _ _ ↦ (insideLoop_spaced hsub).inScope.bind fun found found' hfound ↦ ?_
  obtain ⟨form, scope⟩ := found
  obtain ⟨form', scope'⟩ := found'
  obtain ⟨hform, rfl⟩ := hfound
  exact .pure hform.node fun _ _ ↦ id

theorem loop_spaced (parens : Bool) :
    Follows (Ahead (.block (depth + loopFront parens) outer) (loopFront parens)) (do
      if ← isForEach parens then forEachStatement ctx sub₁ start parens
      else countingLoop ctx sub₁ start) (do
      if ← isForEach parens then forEachStatement ctx sub₂ start' parens
      else countingLoop ctx sub₂ start') Expr.Alike fun _ ↦ Begun (.block depth outer) := by
  refine (isForEach_spaced parens).bind fun found _ hfound ↦ ?_
  subst hfound
  exact .ite Iff.rfl (fun _ ↦ forEachStatement_spaced hsub parens) fun _ ↦
    countingLoop_spaced hsub parens

theorem forStatement_spaced :
    AlongBlock depth outer (forStatement ctx sub₁) (forStatement ctx sub₂) Expr.Alike := by
  refine Follows.position.bind fun start start' _ ↦
    (Follows.expect_block (by decide) (by decide) false).bind fun _ _ _ ↦
      .is_begun_cases (by decide) leads_parens_block.1 ?_ ?_
  · exact loop_spaced hsub true
  · exact (loop_spaced hsub false).of_implies fun _ _ hbegun ↦ .here hbegun.spread

theorem tryStatement_spaced :
    AlongBlock depth outer (tryStatement ctx sub₁) (tryStatement ctx sub₂) Expr.Alike := by
  refine Follows.position.bind fun start start' _ ↦
    (Follows.expect_block (by decide) (by decide) false).bind fun _ _ _ ↦
      (blockWith_spaced hsub []).bind fun e e' he ↦ ?_
  have hhandler (parens : Bool) :
      Follows (Ahead (.block (depth + loopFront parens) outer) (loopFront parens)) (do
      if parens then advance 1 false
      let name ← expectName false
      if parens then expect ")" false
      let handler ← blockWith ctx sub₁ [name]
      node (.tryCatch e name handler) start) (do
      if parens then advance 1 false
      let name ← expectName false
      if parens then expect ")" false
      let handler ← blockWith ctx sub₂ [name]
      node (.tryCatch e' name handler) start') Expr.Alike fun _ ↦ Begun (.block depth outer) := by
    refine openParen_spaced ((Follows.expectName_block false).bind fun name _ hname ↦ ?_)
    subst hname
    refine closeParen_spaced ((blockWith_spaced hsub [name]).bind fun u u' hu ↦ ?_)
    exact .node (.tryCatch name he hu) _ _
  refine (Follows.continuesWith_block (by decide)).bind fun found _ hfound ↦ ?_
  subst hfound
  refine .require Orderly.fails_failExpected id fun hnot ↦ ?_
  refine ((Follows.advance_block false).of_implies fun _ _ h ↦ (h.1 (by simpa using hnot)).leads
    (by decide) (Place.leads_block (by decide))).bind fun _ _ _ ↦
      .is_begun_cases (by decide) leads_parens_block.1 ?_ ?_
  · exact hhandler true
  · exact (hhandler false).of_implies fun _ _ hbegun ↦ .here hbegun.spread

/-! ## Functions -/

theorem functionBody_spaced (signature : Signature) :
    AlongBlock depth outer (functionBody ctx sub₁ start signature)
      (functionBody ctx sub₂ start' signature) Expr.Alike := by
  have hbody := (@statementsInScope_spaced (.block depth outer) ctx _ _ hsub .function
    signature.params).of_implies fun _ _ ↦ Begun.spread
  refine (Follows.modifySymbols fun a b h ↦ ?_).bind fun _ _ _ ↦
    hbody.bind fun found found' hfound ↦ ?_
  · rw [SymbolTable.unplaced_defineFunction, SymbolTable.unplaced_defineFunction, h]
  obtain ⟨body, scope⟩ := found
  obtain ⟨body', scope'⟩ := found'
  obtain ⟨hbody, rfl⟩ := hfound
  have hdecl :
      FunctionDecl.Alike (.mk signature body scope' start) (.mk signature body' scope' start') :=
    .intro hbody signature
  refine (Follows.modifySymbols fun a b h ↦ ?_).bind fun _ _ _ ↦
    Follows.scope.bind fun scope _ hscope ↦ ?_
  · rw [SymbolTable.unplaced_attachDecl, SymbolTable.unplaced_attachDecl, h, hdecl]
  · subst hscope
    exact .pure (Form.Alike.functionDecl hdecl).node fun _ _ hspread ↦
      Spread.begun hspread (Place.isTight_block depth outer)

theorem namedFunction_spaced (name : String) (hasWildcard : Bool) :
    AlongBlock depth outer (namedFunction ctx sub₁ start name hasWildcard)
      (namedFunction ctx sub₂ start' name hasWildcard) Expr.Alike := by
  have haliases (m n : Nat) :
      AlongBlock depth outer (aliasesWithin ctx m []) (aliasesWithin ctx n []) Eq := by
    rw [aliasesWithin_eq_rounded, aliasesWithin_eq_rounded]
    refine Follows.rounded (V := Eq) (P := fun _ ↦ Begun (.block depth outer))
      (fun done _ h ↦ ?_) m n rfl
    subst h
    exact aliasesRound_spaced done
  refine Follows.rounds.bind fun m n _ ↦ (haliases m n).bind fun aliases _ h ↦ ?_
  subst h
  refine .of_implies (optionalParams_spaced (p := .block depth outer) fun names ↦ ?_)
    fun _ _ ↦ Begun.spread
  exact (functionBody_spaced hsub ⟨name, names, aliases, hasWildcard⟩).of_implies fun _ _ hspread ↦
    Spread.begun hspread (Place.isTight_block depth outer)

theorem functionStatement_spaced :
    AlongBlock depth outer (functionStatement ctx sub₁) (functionStatement ctx sub₂)
      Expr.Alike := by
  rw [functionStatement_eq, functionStatement_eq]
  refine Follows.position.bind fun start start' _ ↦
    (Follows.expect_block (by decide) (by decide) false).bind fun _ _ _ ↦
      (Follows.expectName_block false).bind fun name _ hname ↦ ?_
  subst hname
  exact .is_begun_cases (by decide) (Place.leads_block (by decide))
    ((Follows.advance_block false).bind fun _ _ _ ↦ namedFunction_spaced hsub name true)
    (namedFunction_spaced hsub name false)

/-! ## All statements -/

omit hsub in
theorem found_spaced {x y : Parse Expr} (h : AlongBlock depth outer x y Expr.Alike) :
    AlongBlock depth outer (do return some (← x)) (do return some (← y)) Found :=
  h.bind fun e e' he ↦ .pure ⟨e, e', rfl, rfl, he⟩ fun _ _ ↦ id

omit hsub in
theorem ended_spaced {x y : Parse Expr}
    (h : Follows R x y Expr.Alike fun _ ↦ Begun (.block depth outer)) :
    Follows R (ended x) (ended y) Found fun _ ↦ Begun (.block depth outer) :=
  h.bind fun e e' he ↦ Follows.endStatement_block.bind fun _ _ _ ↦
    .pure ⟨e, e', rfl, rfl, he⟩ fun _ _ ↦ id

theorem plainStatement_spaced :
    AlongBlock depth outer (plainStatement ctx sub₁) (plainStatement ctx sub₂) Found := by
  have hsimple :
      AlongBlock depth outer (ended (simpleStatement sub₁)) (ended (simpleStatement sub₂)) Found :=
    ended_spaced (simpleStatement_spaced hsub)
  refine .current_begun fun t t' hmeets ↦ ?_
  have hbegun {x y : Parse (Option Expr)} (h : AlongBlock depth outer x y Found) :
      Follows (BegunAt (.block depth outer) t t') x y Found
        fun _ ↦ Begun (.block depth outer) := h.of_implies fun _ _ ↦ BegunAt.begun
  -- the same lexeme on both sides, two strings with embedded sections, or the end of a statement on
  -- both
  rcases hmeets.lexeme_cases with
    ⟨hsame, hkind, hstop⟩ | ⟨raw, parts, parts', hl, hl', hparts⟩ | ⟨ht, ht'⟩
  · have hword {word : String} {l l' : List Token} (hlexeme : t.lexeme = .keyword word)
        (hat : BegunAt (.block depth outer) t t' l l') : Ahead (.block depth outer) 1 l l' := by
      have hafter : (Place.block depth outer).after t = .block depth outer := by
        rw [Place.after, hlexeme]
        rfl
      exact hafter ▸ hat.ahead (Bool.eq_false_iff.mpr fun hend ↦ hstop (.inl hend))
    rw [hsame]
    split
    · exact hbegun (found_spaced (conditional_spaced hsub))
    · exact hbegun (found_spaced (whileStatement_spaced hsub))
    · exact hbegun (found_spaced (forStatement_spaced hsub))
    · exact hbegun (found_spaced (tryStatement_spaced hsub))
    · next hlexeme =>
      refine (Follows.peek_ahead (by decide) (Place.isTight_block depth outer)
        fun _ _ ↦ hword hlexeme).bind fun u u' hu ↦ ?_
      refine .of_implies (R := Begun (.block depth outer)) ?_ fun _ _ h ↦ h.1.begun
      exact .ite (hu.kind_iff (by simp) (by simp))
        (fun _ ↦ found_spaced (functionStatement_spaced hsub)) fun _ ↦ hsimple
    · exact hbegun (found_spaced (blockWith_spaced hsub []))
    · exact hbegun (ended_spaced (varStatement_spaced hsub))
    · exact hbegun (ended_spaced (returnStatement_spaced hsub))
    · next hlexeme =>
      exact (ended_spaced (throwStatement_spaced hsub)).of_implies fun _ _ ↦ hword hlexeme
    · next hlexeme =>
        exact (ended_spaced (wordStatement_spaced _)).of_implies fun _ _ ↦ hword hlexeme
    · next hlexeme =>
        exact (ended_spaced (wordStatement_spaced _)).of_implies fun _ _ ↦ hword hlexeme
    · exact .of_fails (Orderly.fails_fail id)
    · exact hbegun hsimple
  · rw [hl, hl']
    exact hbegun hsimple
  · rcases ht.lexeme_cases with h | ⟨_, -, h⟩ <;> rcases ht'.lexeme_cases with h' | ⟨_, -, h'⟩ <;>
      rw [h, h'] <;> exact hbegun hsimple

theorem statement_spaced (hctx : ctx.registry.entries = []) :
    AlongBlock depth outer (demanded (statement ctx sub₁)) (demanded (statement ctx sub₂))
      Expr.Alike := by
  have hplain : AlongBlock depth outer (demanded (plainStatement ctx sub₁))
      (demanded (plainStatement ctx sub₂)) Expr.Alike := by
    refine (plainStatement_spaced hsub).bind fun found found' hfound ↦ ?_
    obtain ⟨e, e', rfl, rfl, he⟩ := hfound
    exact .pure he fun _ _ ↦ id
  rw [demanded, demanded, statement, statement]
  simp only [bind_assoc]
  refine Follows.passSeparators_block.bind fun _ _ _ ↦
    Follows.isEnded_begun.bind fun ended _ hended ↦ ?_
  subst hended
  cases ended with
  | true => exact .failExpected
  | false =>
    simp only [Bool.false_eq_true, if_false, bind_assoc]
    exact (Follows.replaceTokens hctx).bind fun _ _ _ ↦ .build?_bind hctx hplain

end

end ScriptFront.Parse
