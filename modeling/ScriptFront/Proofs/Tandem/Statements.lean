import ScriptFront.Proofs.Tandem.Expressions

/-!
# Statements in tandem

A statement that is the last one of the first list ends there at the end of the tokens, and in the
second list at the line break that begins the tail. Both end a statement, whichever form it has: an
expression goes no further, a result that is left out of a return statement is left out in both, and
an argument list without parentheses has no first argument.

A conditional, alone, looks at the first word behind the line breaks before it ends. In the second
list this may be the first word of the tail, which is no alternative branch.
-/

namespace ScriptFront.Parse

variable {α β : Type} {R : Pairing} {tail : List Token} {ctx : ParseContext}
    {sub sub₁ sub₂ : Subparser}
  {start start' : Position}

/-! ## Statements without a block -/

theorem defineTarget_follows {e e' : Expr} (he : e.Alike e') (op : AssignOp) :
    Follows R (defineTarget e op) (defineTarget e' op) (fun _ _ ↦ True) fun _ ↦ R := by
  rw [defineTarget, defineTarget, he.varName?_eq]
  refine .ite Iff.rfl (fun _ ↦ ?_) fun _ ↦ .pure trivial fun _ _ ↦ id
  split
  · exact .pure trivial fun _ _ ↦ id
  · next name _ =>
    have hcommutes (table : SymbolTable) :
        (if table.contains name then table else table.defineVar name).unplaced =
          if table.unplaced.contains name then table.unplaced
            else table.unplaced.defineVar name := by
      rw [table.contains_unplaced, ← table.unplaced_defineVar, apply_ite SymbolTable.unplaced]
    exact .modifySymbols fun a b h ↦ by rw [hcommutes, hcommutes, h]

/-- Whether a result is left out depends on the current token. -/
theorem returnStatement_eq : returnStatement sub = (do
    let start ← position
    expect "return" false
    let t ← current
    if t.endsStatement then node (.returning none) start
    else
      let value ← sub (.expression false)
      node (.returning (some value)) start) := by
  have hends (s : ParserState) : (s.tokens.isEndOfStatementOrBlock || s.tokens.is "else") =
      s.tokens.current.endsStatement := by
    rw [Window.isEndOfStatementOrBlock, Window.isEndOfStatement, Window.isExplicitEnd,
      Bool.or_comm (s.tokens.is ";")]
    rfl
  refine bind_congr fun start ↦ bind_congr fun _ ↦ funext fun s ↦ ?_
  rw [bind_eq_of_ok tokens_run, bind_eq_of_ok current_run, hends]

theorem simpleStatement_dies (hsub : Tandem sub₁ sub₂) : Dies (simpleStatement sub₁) :=
  .ask (fun _ ↦ rfl) fun _ ↦ (hsub.expression_dies false).bind

section

variable (htail : IsTailOfTokens tail)

include htail

/-- The operator of an assignment. -/
theorem assignOp?_follows : Follows (Joins tail) assignOp? assignOp? Eq
    fun op l l' ↦ Joins tail l l' ∧ (op.isSome → JoinsSolid tail l l') := by
  refine .current_bind htail fun t t' hmeets ↦ ?_
  by_cases hkind : t.kind = .symbol
  · have hstop : ¬ t.IsStop := fun hstop ↦ hstop.kind_ne (by simp) (by simp) hkind
    rw [if_pos hkind, if_pos ((hmeets.kind_iff (by simp) (by simp)).mpr hkind),
      hmeets.text_eq hkind]
    exact .pure rfl fun _ _ hat ↦ ⟨hat.joins, fun _ ↦ hat.solid hstop⟩
  · rw [if_neg hkind, if_neg (mt (hmeets.kind_iff (by simp) (by simp)).mp hkind)]
    exact .pure rfl fun _ _ hat ↦ ⟨hat.joins, fun h ↦ by cases h⟩

variable (hsub : Tandem sub₁ sub₂)

include hsub

theorem simpleStatement_follows :
    Follows (Joins tail) (simpleStatement sub₁) (simpleStatement sub₂) Expr.Alike fun _ ↦
      Joins tail := by
  refine Follows.position.bind fun _ _ _ ↦ (hsub.expression htail).bind fun e e' he ↦
    (assignOp?_follows htail).bind fun op _ hop ↦ ?_
  subst hop
  cases op with
  | none => exact .pure he fun _ _ ↦ And.left
  | some op =>
    dsimp only
    rw [he.isAssignable_eq]
    refine .require (Orderly.fails_throw id) id fun _ ↦ ?_
    refine ((Follows.advance true).of_implies fun _ _ h ↦ h.2 rfl).bind fun _ _ _ ↦
      (hsub.argument htail).bind fun u u' hu ↦ (defineTarget_follows he op).bind fun _ _ _ ↦
        Follows.scope.bind fun scope _ hscope ↦ ?_
    subst hscope
    exact .pure (Form.Alike.assign op false he hu.some).node fun _ _ ↦ id

theorem declaration_follows :
    Follows (Joins tail) (declaration sub₁) (declaration sub₂) Expr.Alike fun _ ↦ Joins tail := by
  refine Follows.position.bind fun start start' _ ↦
    (Follows.expectName htail false).bind fun name _ hname ↦ ?_
  subst hname
  have hvalue {value value' : Option Expr}
    (h : value'.map Expr.unplaced = value.map Expr.unplaced) :
      Follows (Joins tail) (do
        let scope ← scope
        let target := ((Expr.var name).moveTo start).inScope scope
        return ((Expr.assign target .assign value true).moveTo start).inScope scope) (do
        let scope ← scope
        let target := ((Expr.var name).moveTo start').inScope scope
        return ((Expr.assign target .assign value' true).moveTo start').inScope scope) Expr.Alike
        fun _ ↦ Joins tail := by
    refine Follows.scope.bind fun scope _ hscope ↦ ?_
    subst hscope
    exact .pure (Form.Alike.assign .assign true (Form.Alike.refl (.var name)).node h).node fun _ _ ↦
      id
  refine (Follows.modifySymbols fun a b h ↦ ?_).bind fun _ _ _ ↦ .is_branch htail (by decide) ?_ ?_
  · rw [SymbolTable.unplaced_defineVar, SymbolTable.unplaced_defineVar, h]
  · exact (Follows.advance true).bind fun _ _ _ ↦ (hsub.argument htail).bind fun e e' he ↦
      hvalue he.some
  · exact hvalue rfl

theorem declarationsRound_follows {done done' : List Expr} (hdone : Alikes done done') :
    Follows (JoinsLax tail) (declarationsRound sub₁ done) (declarationsRound sub₂ done')
      (Round.Matches Alikes Alikes) (Round.pairing (fun _ ↦ JoinsLax tail) (Joins tail)) := by
  have hdies : Dies (declaration sub₁) := .ask (fun _ ↦ rfl) fun _ ↦ (Dies.expectName false).bind
  refine .of_lax ((declaration_follows htail hsub).bind fun e e' he ↦
    .is_branch htail (by decide) ?_ ?_) hdies.bind
  · exact (Follows.advance true).bind fun _ _ _ ↦ .pure (.again (.cons he hdone)) fun _ _ ↦ id
  · exact .pure (.done (AgreeUnder.cons he hdone).reverse) fun _ _ ↦ id

theorem varStatement_follows :
    Follows (Joins tail) (varStatement sub₁) (varStatement sub₂) Expr.Alike fun _ ↦ Joins tail := by
  refine Follows.position.bind fun _ _ _ ↦ (Follows.expect htail (by decide) false).bind fun _ _ _ ↦
    Follows.rounds.bind fun m n _ ↦ ?_
  rw [declarationsWithin_eq_rounded, declarationsWithin_eq_rounded]
  refine ((Follows.rounded (P := fun _ ↦ JoinsLax tail) (R := Joins tail)
    (fun _ _ hdone ↦ declarationsRound_follows htail hsub hdone) m n .nil).of_implies fun _ _ ↦
      Joins.lax).bind fun entries entries' hentries ↦ ?_
  match entries, entries', hentries with
  | [], [], h => exact .node (.multiAssign h) _ _
  | [e], [e'], h => exact .pure (Expr.Alike.moved (List.cons.inj h).1) fun _ _ ↦ id
  | _ :: _ :: _, _ :: _ :: _, h => exact .node (.multiAssign h) _ _
  | [_], _ :: _ :: _, h | _ :: _ :: _, [_], h => exact absurd h.length_eq (by simp)

/-- A result is left out where the statement ends, in both lists at once. -/
theorem returnStatement_follows :
    Follows (Joins tail) (returnStatement sub₁) (returnStatement sub₂) Expr.Alike fun _ ↦
      Joins tail := by
  rw [returnStatement_eq, returnStatement_eq]
  refine Follows.position.bind fun _ _ _ ↦
    (Follows.expect htail (by decide) false).bind fun _ _ _ ↦ ?_
  refine .current_bind htail fun t t' hmeets ↦ .of_implies (R := Joins tail) ?_ fun _ _ ↦
    JoinsAt.joins
  rw [hmeets.endsStatement_eq]
  refine .ite Iff.rfl (fun _ ↦ .node (.returning rfl) _ _) fun _ ↦ ?_
  exact (hsub.expression htail).bind fun e e' he ↦ .node (.returning he.some) _ _

theorem throwStatement_follows :
    Follows (JoinsSolid tail) (throwStatement sub₁) (throwStatement sub₂) Expr.Alike fun _ ↦
      Joins tail :=
  Follows.position.bind fun _ _ _ ↦ (Follows.advance false).bind fun _ _ _ ↦
    (hsub.expression htail).bind fun _ _ he ↦ .node (.throwing he) _ _

omit htail hsub in
theorem wordStatement_follows (form : Form) :
    Follows (JoinsSolid tail) (wordStatement form) (wordStatement form) Expr.Alike fun _ ↦
      Joins tail :=
  Follows.position.bind fun _ _ _ ↦ (Follows.advance false).bind fun _ _ _ ↦ .node (.refl form) _ _

end

/-! ## Branches -/

section

variable (hsub : Tandem sub₁ sub₂)

include hsub

omit hsub in
theorem insideSingle_eq : insideSingle ctx sub = (do
    ctx.enterBlock
    inScope .block (demanded (sub .statement))) := by
  rw [insideSingle, demanded]
  refine bind_congr fun _ ↦ congrArg (inScope .block) (bind_congr fun found ↦ ?_)
  cases found <;> rfl

variable (htail : IsTailOfTokens tail)

include htail

theorem singleStatement_follows :
    Follows (JoinsApart tail) (singleStatement ctx sub₁ start)
      (singleStatement ctx sub₂ start') Expr.Alike
      fun _ ↦ JoinsBehind tail := by
  rw [singleStatement, singleStatement, insideSingle_eq, insideSingle_eq]
  refine (Follows.enterBlock.bind fun _ _ _ ↦ (hsub.statement htail).inScope).bind
    fun found found' hfound ↦
    Follows.leaveBlock.bind fun _ _ _ ↦ ?_
  obtain ⟨statement, scope⟩ := found
  obtain ⟨statement', scope'⟩ := found'
  obtain ⟨hstatement, rfl⟩ := hfound
  exact .pure (Form.Alike.block (.cons hstatement .nil)).node fun _ _ ↦ id

theorem blockOrStatement_follows :
    Follows (JoinsLax tail) (blockOrStatement ctx sub₁) (blockOrStatement ctx sub₂) Expr.Alike
      fun _ ↦ JoinsBehind tail := by
  rw [blockOrStatement_eq, blockOrStatement_eq]
  refine Follows.skipNewLines.bind fun _ _ _ ↦ .of_lax (.is_branch htail (by decide) ?_ ?_)
    (.is_branch (by decide) (.ask (fun _ ↦ rfl) fun _ ↦ ?_))
  · refine .mono ?_ fun _ _ _ ↦ Joins.behind
    exact (blockWith_follows htail hsub []).of_implies fun _ _ ↦ JoinsSolid.joins
  · refine Follows.position.bind fun _ _ _ ↦ ?_
    exact (singleStatement_follows hsub htail).of_implies fun _ _ ↦ Joins.apart
  · rw [singleStatement, insideSingle_eq]
    exact .bind (.enterBlock (.inScope hsub.statement_dies))

theorem guarded_follows :
    Follows (Joins tail) (guarded ctx sub₁) (guarded ctx sub₂) Expr.Alike fun _ ↦
      JoinsBehind tail := by
  refine .is_branch htail (by decide) ?_ ?_
  · exact (Follows.advance true).bind fun _ _ _ ↦ blockOrStatement_follows hsub htail
  · refine (Follows.continuesWith htail (by decide)).bind fun found found' hfound ↦ ?_
    cases found with
    | false => exact .failExpected
    | true =>
      rw [hfound rfl]
      refine .mono ?_ fun _ _ _ ↦ Joins.behind
      exact (blockWith_follows htail hsub []).of_implies fun _ _ h ↦ (h rfl).joins

theorem alternative_follows :
    Follows (Joins tail) (alternative ctx sub₁) (alternative ctx sub₂) Expr.Alike
      fun _ ↦ JoinsBehind tail := by
  refine .is_branch htail (by decide) ?_
    ((blockOrStatement_follows hsub htail).of_implies fun _ _ ↦ Joins.lax)
  refine Follows.enterBlock.bind fun _ _ _ ↦ ((hsub.conditional htail).of_implies fun _ _ ↦
    JoinsSolid.joins).bind fun e e' he ↦ Follows.leaveBlock.bind fun _ _ _ ↦ .pure he fun _ _ ↦ id

/-- A conditional may be the last statement of the first list. The line break and the first word of
the tail are then seen by the second parser, but they begin no alternative branch. -/
theorem conditional_follows :
    Follows (Joins tail) (conditional ctx sub₁) (conditional ctx sub₂) Expr.Alike
      fun _ ↦ JoinsBehind tail := by
  refine Follows.position.bind fun _ _ _ ↦ (Follows.expect htail (by decide) false).bind fun _ _ _ ↦
    (hsub.expression htail).bind fun e e' he ↦ (guarded_follows hsub htail).bind fun u u' hu ↦
      (Follows.continuesWith_else htail).bind fun found _ hfound ↦ ?_
  subst hfound
  cases found with
  | true =>
    refine ((Follows.advance false).of_implies fun _ _ h ↦ h.2 rfl).bind fun _ _ _ ↦
      (alternative_follows hsub htail).bind fun v v' hv ↦ .node (.conditional he hu hv.some) _ _
  | false => exact .of_implies (.node (.conditional he hu rfl) _ _) fun _ _ ↦ And.left

theorem whileStatement_follows :
    Follows (Joins tail) (whileStatement ctx sub₁) (whileStatement ctx sub₂) Expr.Alike
      fun _ ↦ JoinsBehind tail :=
  Follows.position.bind fun _ _ _ ↦ (Follows.expect htail (by decide) false).bind fun _ _ _ ↦
    (hsub.expression htail).bind fun _ _ he ↦ (guarded_follows hsub htail).bind fun _ _ hu ↦
      .node (.whileLoop he hu) _ _

/-! ## Loops -/

/-- How many tokens are known in front of a loop. -/
def loopFront (parens : Bool) : Nat := if parens then 1 else 0

omit hsub in
theorem isForEach_follows (parens : Bool) :
    Follows (JoinsFar tail (loopFront parens)) (isForEach parens) (isForEach parens) Eq
      fun _ ↦ JoinsFar tail (loopFront parens) := by
  have hnear (extra : Nat) (hextra : extra ≤ 1) :
      loopFront parens + extra ≤ Window.minLookahead := by
    cases parens <;> simp only [loopFront, Window.minLookahead] <;> simp <;> omega
  refine (Follows.peek htail (hnear 0 (by simp))).bind fun u u' hu ↦
    .ite (hu.kind_iff (by simp) (by simp)) (fun hkind ↦ ?_) fun _ ↦ .pure rfl fun _ _ ↦ And.left
  have hstop : ¬ u.IsStop := fun hstop ↦ hstop.kind_ne (by simp) (by simp) hkind
  refine ((Follows.peek htail (hnear 1 (by simp))).of_implies fun _ _ h ↦ h.2 hstop).bind
    fun v v' hv ↦ ?_
  exact .pure (hv.is_eq (by decide)).symm fun _ _ h ↦ h.1.nearer

omit htail hsub in
/-- A parenthesis that was found is passed. -/
theorem openParen_follows {parens : Bool} {x : Parse α} {y : Parse β} {V : α → β → Prop}
    {P : α → Pairing}
    (h : Follows (Joins tail) x y V P) :
    Follows (JoinsFar tail (loopFront parens)) (do if parens then advance 1 false; x else x)
      (do if parens then advance 1 false; y else y) V P := by
  cases parens with
  | true => exact ((Follows.advance false).of_implies fun _ _ hfar ↦ hfar.solid).bind fun _ _ _ ↦ h
  | false => exact h.of_implies fun _ _ ↦ JoinsFar.joins

omit hsub in
/-- The closing parenthesis is required if there was an opening one. -/
theorem closeParen_follows {parens : Bool} {x : Parse α} {y : Parse β} {V : α → β → Prop}
    {P : α → Pairing}
    (h : Follows (Joins tail) x y V P) :
    Follows (Joins tail) (do if parens then expect ")" false; x else x)
      (do if parens then expect ")" false; y else y) V P := by
  cases parens with
  | true => exact (Follows.expect htail (by decide) false).bind fun _ _ _ ↦ h
  | false => exact h

theorem forEachStatement_follows (parens : Bool) :
    Follows (JoinsFar tail (loopFront parens)) (forEachStatement ctx sub₁ start parens)
      (forEachStatement ctx sub₂ start' parens) Expr.Alike fun _ ↦ Joins tail := by
  refine openParen_follows ((Follows.expectName htail false).bind fun name _ hname ↦ ?_)
  subst hname
  refine (Follows.expect htail (by decide) false).bind fun _ _ _ ↦
    (hsub.expression htail).bind fun e e' he ↦
    closeParen_follows htail ((blockWith_follows htail hsub [name]).bind fun u u' hu ↦ ?_)
  exact .node (.forEach name he hu) _ _

theorem insideLoop_follows :
    Follows (Joins tail) (insideLoop ctx sub₁) (insideLoop ctx sub₂) Form.Alike fun _ ↦
      Joins tail := by
  have hrest {e e' : Expr} (he : e.Alike e') : Follows (Joins tail) (do
      expect ";" true
      let condition ← sub₁ (.expression false)
      expect ";" true
      let increment ← simpleStatement sub₁
      expect ")" false
      let body ← block ctx sub₁
      return .forLoop e condition increment body) (do
      expect ";" true
      let condition ← sub₂ (.expression false)
      expect ";" true
      let increment ← simpleStatement sub₂
      expect ")" false
      let body ← block ctx sub₂
      return .forLoop e' condition increment body) Form.Alike fun _ ↦ Joins tail := by
    refine (Follows.expect htail (by decide) true).bind fun _ _ _ ↦
      (hsub.argument htail).bind fun u u' hu ↦
      (Follows.expect htail (by decide) true).bind fun _ _ _ ↦
        (Follows.of_lax (simpleStatement_follows htail hsub) (simpleStatement_dies hsub)).bind
        fun v v' hv ↦
          (Follows.expect htail (by decide) false).bind fun _ _ _ ↦
            (blockWith_follows htail hsub []).bind fun w w' hw ↦ ?_
    exact .pure (.forLoop he hu hv hw) fun _ _ ↦ id
  refine .is_branch htail (by decide) ?_
    ((simpleStatement_follows htail hsub).bind fun e e' ↦ hrest)
  exact ((varStatement_follows htail hsub).of_implies fun _ _ ↦ JoinsSolid.joins).bind
    fun e e' ↦ hrest

theorem countingLoop_follows :
    Follows (Joins tail) (countingLoop ctx sub₁ start) (countingLoop ctx sub₂ start') Expr.Alike
      fun _ ↦ Joins tail := by
  rw [countingLoop_eq, countingLoop_eq]
  refine (Follows.expect htail (by decide) false).bind fun _ _ _ ↦
    (insideLoop_follows hsub htail).inScope.bind fun found found' hfound ↦ ?_
  obtain ⟨form, scope⟩ := found
  obtain ⟨form', scope'⟩ := found'
  obtain ⟨hform, rfl⟩ := hfound
  exact .pure hform.node fun _ _ ↦ id

theorem loop_follows (parens : Bool) :
    Follows (JoinsFar tail (loopFront parens)) (do
      if ← isForEach parens then forEachStatement ctx sub₁ start parens
      else countingLoop ctx sub₁ start) (do
      if ← isForEach parens then forEachStatement ctx sub₂ start' parens
      else countingLoop ctx sub₂ start') Expr.Alike fun _ ↦ Joins tail := by
  refine (isForEach_follows htail parens).bind fun found _ hfound ↦ ?_
  subst hfound
  exact .ite Iff.rfl (fun _ ↦ forEachStatement_follows hsub htail parens) fun _ ↦
    (countingLoop_follows hsub htail).of_implies fun _ _ ↦ JoinsFar.joins

theorem forStatement_follows :
    Follows (Joins tail) (forStatement ctx sub₁) (forStatement ctx sub₂) Expr.Alike fun _ ↦
      Joins tail := by
  refine Follows.position.bind fun start start' _ ↦
    (Follows.expect htail (by decide) false).bind fun _ _ _ ↦ .is_cases htail (by decide) ?_ ?_
  · exact (loop_follows hsub htail true).of_implies fun _ _ ↦ JoinsSolid.far
  · exact (loop_follows hsub htail false).of_implies fun _ _ ↦ JoinsFar.here

theorem tryStatement_follows :
    Follows (Joins tail) (tryStatement ctx sub₁) (tryStatement ctx sub₂) Expr.Alike fun _ ↦
      Joins tail := by
  refine Follows.position.bind fun start start' _ ↦
    (Follows.expect htail (by decide) false).bind fun _ _ _ ↦
    (blockWith_follows htail hsub []).bind fun e e' he ↦ ?_
  have hhandler (parens : Bool) : Follows (JoinsFar tail (loopFront parens)) (do
      if parens then advance 1 false
      let name ← expectName false
      if parens then expect ")" false
      let handler ← blockWith ctx sub₁ [name]
      node (.tryCatch e name handler) start) (do
      if parens then advance 1 false
      let name ← expectName false
      if parens then expect ")" false
      let handler ← blockWith ctx sub₂ [name]
      node (.tryCatch e' name handler) start') Expr.Alike fun _ ↦ Joins tail := by
    refine openParen_follows ((Follows.expectName htail false).bind fun name _ hname ↦ ?_)
    subst hname
    refine closeParen_follows htail ((blockWith_follows htail hsub [name]).bind fun u u' hu ↦ ?_)
    exact .node (.tryCatch name he hu) _ _
  refine (Follows.continuesWith htail (by decide)).bind fun found found' hfound ↦ ?_
  refine .require Orderly.fails_failExpected (fun hnot ↦ ?_) fun hnot ↦ ?_
  · cases found with
    | true => simp [hfound rfl] at hnot
    | false => rfl
  refine ((Follows.advance false).of_implies fun _ _ h ↦ h (by simpa using hnot)).bind fun _ _ _ ↦
    .is_cases htail (by decide) ?_ ?_
  · exact (hhandler true).of_implies fun _ _ ↦ JoinsSolid.far
  · exact (hhandler false).of_implies fun _ _ ↦ JoinsFar.here

end

/-! ## Functions -/

/-- A function whose signature is known: it is defined, and its body follows. -/
def functionBody (ctx : ParseContext) (sub : Subparser) (start : Position) (signature : Signature) :
    Parse Expr := do
  modifySymbols fun t ↦ t.defineFunction signature
  let (body, bodyScope) ← statementsInScope ctx sub .function signature.params
  let decl : FunctionDecl := .mk signature body bodyScope start
  modifySymbols fun t ↦ t.attachDecl signature.name decl
  return (Expr.function decl).inScope (← scope)

/-- A function whose name is known. -/
def namedFunction (ctx : ParseContext) (sub : Subparser) (start : Position) (name : String)
    (hasWildcard : Bool) : Parse Expr := do
  let aliases ← aliasesWithin ctx (← rounds) []
  let names ← if ← is "(" then params ctx else pure []
  functionBody ctx sub start ⟨name, names, aliases, hasWildcard⟩

theorem functionStatement_eq : functionStatement ctx sub = (do
    let start ← position
    expect "function" false
    let name ← expectName false
    let hasWildcard ← is "*"
    if hasWildcard then advance 1 false
    namedFunction ctx sub start name hasWildcard) := rfl

section

variable (hsub : Tandem sub₁ sub₂) (htail : IsTailOfTokens tail)

include hsub htail

theorem functionBody_follows (signature : Signature) :
    Follows (Joins tail) (functionBody ctx sub₁ start signature)
      (functionBody ctx sub₂ start' signature)
      Expr.Alike fun _ ↦ Joins tail := by
  refine (Follows.modifySymbols fun a b h ↦ ?_).bind fun _ _ _ ↦
    (statementsInScope_follows htail hsub .function signature.params).bind
    fun found found' hfound ↦ ?_
  · rw [SymbolTable.unplaced_defineFunction, SymbolTable.unplaced_defineFunction, h]
  obtain ⟨body, scope⟩ := found
  obtain ⟨body', scope'⟩ := found'
  obtain ⟨hbody, rfl⟩ := hfound
  have hdecl :
      FunctionDecl.Alike (.mk signature body scope' start) (.mk signature body' scope' start') :=
    .intro hbody signature
  refine (Follows.modifySymbols fun a b h ↦ ?_).bind fun _ _ _ ↦
    Follows.scope.bind fun scope _ hscope ↦ ?_
  · rw [SymbolTable.unplaced_attachDecl, SymbolTable.unplaced_attachDecl, h, hdecl]
  · subst hscope
    exact .pure (Form.Alike.functionDecl hdecl).node fun _ _ ↦ id

theorem namedFunction_follows (name : String) (hasWildcard : Bool) :
    Follows (Joins tail) (namedFunction ctx sub₁ start name hasWildcard)
      (namedFunction ctx sub₂ start' name hasWildcard) Expr.Alike fun _ ↦ Joins tail := by
  have haliases (m n : Nat) :
      Follows (Joins tail) (aliasesWithin ctx m []) (aliasesWithin ctx n []) Eq
      fun _ ↦ Joins tail := by
    rw [aliasesWithin_eq_rounded, aliasesWithin_eq_rounded]
    refine Follows.rounded (V := Eq) (P := fun _ ↦ Joins tail) (fun done _ h ↦ ?_) m n rfl
    subst h
    exact aliasesRound_follows htail done
  refine Follows.rounds.bind fun m n _ ↦ (haliases m n).bind fun aliases _ h ↦
    (Follows.is htail (by decide)).bind fun opens _ hopens ↦ ?_
  subst h hopens
  exact optionalParams_follows htail fun names ↦
    functionBody_follows hsub htail ⟨name, names, aliases, hasWildcard⟩

theorem functionStatement_follows :
    Follows (Joins tail) (functionStatement ctx sub₁) (functionStatement ctx sub₂) Expr.Alike
      fun _ ↦ Joins tail := by
  rw [functionStatement_eq, functionStatement_eq]
  refine Follows.position.bind fun start start' _ ↦
    (Follows.expect htail (by decide) false).bind fun _ _ _ ↦
    (Follows.expectName htail false).bind fun name _ hname ↦ ?_
  subst hname
  exact .is_cases htail (by decide)
    ((Follows.advance false).bind fun _ _ _ ↦ namedFunction_follows hsub htail name true)
    (namedFunction_follows hsub htail name false)

/-! ## All statements -/

/-- Both parsers have found a statement, the same up to positions. -/
def Found (found found' : Option Expr) : Prop :=
  ∃ e e', found = some e ∧ found' = some e' ∧ e.Alike e'

omit hsub htail in
theorem Follows.found {x y : Parse Expr} {R P : Pairing} (h : Follows R x y Expr.Alike fun _ ↦ P) :
    Follows R (do return some (← x)) (do return some (← y)) Found fun _ ↦ P :=
  h.bind fun e e' he ↦ .pure ⟨e, e', rfl, rfl, he⟩ fun _ _ ↦ id

omit hsub in
theorem ended_follows {x y : Parse Expr} (h : Follows R x y Expr.Alike fun _ ↦ Joins tail) :
    Follows R (ended x) (ended y) Found fun _ ↦ JoinsBehind tail :=
  h.bind fun e e' he ↦ (Follows.endStatement htail).bind fun _ _ _ ↦
    .pure ⟨e, e', rfl, rfl, he⟩ fun _ _ ↦ id

theorem plainStatement_follows :
    Follows (Joins tail) (plainStatement ctx sub₁) (plainStatement ctx sub₂) Found
      fun _ ↦ JoinsBehind tail := by
  have hbehind {x y : Parse Expr} (h : Follows (Joins tail) x y Expr.Alike fun _ ↦ Joins tail) :
      Follows (Joins tail) (do return some (← x)) (do return some (← y)) Found fun _ ↦
        JoinsBehind tail :=
    .found (h.mono fun _ _ _ ↦ Joins.behind)
  have hsimple :
      Follows (Joins tail) (ended (simpleStatement sub₁)) (ended (simpleStatement sub₂)) Found
      fun _ ↦ JoinsBehind tail := ended_follows htail (simpleStatement_follows htail hsub)
  refine .current_bind htail fun t t' hmeets ↦ ?_
  -- the same lexeme on both sides, two strings with embedded sections, or the end of a statement on
  -- both
  rcases hmeets.lexeme_cases with
    ⟨hsame, hkind, hstop⟩ | ⟨raw, parts, parts', hl, hl', hparts⟩ | ⟨ht, ht'⟩
  · have hsolid {x y : Parse (Option Expr)}
        (h : Follows (JoinsSolid tail) x y Found fun _ ↦ JoinsBehind tail) :
        Follows (JoinsAt tail t t') x y Found fun _ ↦ JoinsBehind tail :=
      h.of_implies fun _ _ hat ↦ hat.solid hstop
    have hjoins {x y : Parse (Option Expr)}
        (h : Follows (Joins tail) x y Found fun _ ↦ JoinsBehind tail) :
        Follows (JoinsAt tail t t') x y Found fun _ ↦ JoinsBehind tail :=
      h.of_implies fun _ _ ↦ JoinsAt.joins
    rw [hsame]
    split
    · exact hjoins (.found (conditional_follows hsub htail))
    · exact hjoins (.found (whileStatement_follows hsub htail))
    · exact hjoins (hbehind (forStatement_follows hsub htail))
    · exact hjoins (hbehind (tryStatement_follows hsub htail))
    · refine hsolid (((Follows.peek htail (by decide)).of_implies fun _ _ ↦ JoinsSolid.far).bind
        fun u u' hu ↦ .of_implies (R := Joins tail) ?_ fun _ _ h ↦ h.1.joins)
      exact .ite (hu.kind_iff (by simp) (by simp))
        (fun _ ↦ hbehind (functionStatement_follows hsub htail))
        fun _ ↦ hsimple
    · exact hjoins (hbehind (blockWith_follows htail hsub []))
    · exact hjoins (ended_follows htail (varStatement_follows htail hsub))
    · exact hjoins (ended_follows htail (returnStatement_follows htail hsub))
    · exact hsolid (ended_follows htail (throwStatement_follows htail hsub))
    · exact hsolid (ended_follows htail (wordStatement_follows _))
    · exact hsolid (ended_follows htail (wordStatement_follows _))
    · exact .of_fails (Orderly.fails_fail id)
    · exact hjoins hsimple
  · rw [hl, hl']
    exact hsimple.of_implies fun _ _ ↦ JoinsAt.joins
  · have hjoins := hsimple.of_implies fun _ _ ↦ (JoinsAt.joins : JoinsAt tail t t' _ _ → _)
    rcases ht.lexeme_cases with h | ⟨_, -, h⟩ <;> rcases ht'.lexeme_cases with h' | ⟨_, -, h'⟩ <;>
      rw [h, h'] <;> exact hjoins

end

/-! ### Statements that are demanded -/

theorem statement_dies : Dies (demanded (statement ctx sub)) := by
  rw [demanded, statement]
  simp only [bind_assoc]
  exact .passSeparators (.isEnded .failExpected)

theorem statement_follows (hsub : Tandem sub₁ sub₂) (htail : IsTailOfTokens tail)
    (hctx : ctx.registry.entries = []) :
    Follows (JoinsApart tail) (demanded (statement ctx sub₁))
      (demanded (statement ctx sub₂)) Expr.Alike
      fun _ ↦ JoinsBehind tail := by
  have hplain : Follows (JoinsSolid tail) (demanded (plainStatement ctx sub₁))
      (demanded (plainStatement ctx sub₂)) Expr.Alike fun _ ↦ JoinsBehind tail := by
    refine ((plainStatement_follows hsub htail).of_implies fun _ _ ↦ JoinsSolid.joins).bind
      fun found found' hfound ↦ ?_
    obtain ⟨e, e', rfl, rfl, he⟩ := hfound
    exact .pure he fun _ _ ↦ id
  rw [demanded, demanded, statement, statement]
  simp only [bind_assoc]
  refine Follows.passSeparators.bind fun _ _ _ ↦ .of_fresh (.isEnded_solid ?_)
    (.isEnded .failExpected)
  simp only [Bool.false_eq_true, if_false, bind_assoc]
  exact (Follows.replaceTokens hctx).bind fun _ _ _ ↦ .build?_bind hctx hplain

end ScriptFront.Parse
