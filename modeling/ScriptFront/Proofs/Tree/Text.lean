import ScriptFront.Proofs.Tree.Places
import ScriptFront.Tree.Format

/-!
# Texts do not show places

The canonical text of a tree is the same after every node was moved.
-/

namespace ScriptFront

variable (f : Position → Position) (g : ScopeId → ScopeId)

mutual

theorem Expr.textAt_relocate (depth : Nat) :
    ∀ e : Expr, (e.relocate f g).textAt depth = e.textAt depth
  | .mk form _ _ => form.textAt_relocate depth

theorem Form.textAt_relocate (depth : Nat) :
    ∀ form : Form, (form.relocate f g).textAt depth = form.textAt depth
  | .constant _ | .var _ | .breakLoop | .continueLoop => rfl
  | .unary _ operand => by
    simp only [Form.relocate, Form.textAt, operand.textAt_relocate depth]
  | .binary _ left right | .compare _ left right | .condition _ left right => by
    simp only [Form.relocate, Form.textAt, left.textAt_relocate depth,
      right.textAt_relocate depth]
  | .assign target _ value _ => by
    simp only [Form.relocate, Form.textAt, target.textAt_relocate depth,
      optionText_relocate depth _ value]
  | .multiAssign entries => by
    simp only [Form.relocate, Form.textAt, entryTexts_relocate depth entries]
  | .index target key => by
    simp only [Form.relocate, Form.textAt, targetText_relocate depth target,
      key.textAt_relocate depth]
  | .member target _ => by
    simp only [Form.relocate, Form.textAt, targetText_relocate depth target]
  | .call callee args => by
    simp only [Form.relocate, Form.textAt, callee.textAt_relocate depth,
      exprTexts_relocate depth args]
  | .bindingCall _ args | .array args => by
    simp only [Form.relocate, Form.textAt, exprTexts_relocate depth args]
  | .map entries => by
    simp only [Form.relocate, Form.textAt, mapEntryTexts_relocate depth entries]
  | .block statements => by
    simp only [Form.relocate, Form.textAt, statementTexts_relocate (depth + 1) statements]
  | .conditional condition thenBranch elseBranch => by
    simp only [Form.relocate, Form.textAt, condition.textAt_relocate depth,
      thenBranch.textAt_relocate depth, optionText_relocate depth _ elseBranch]
  | .whileLoop condition body => by
    simp only [Form.relocate, Form.textAt, condition.textAt_relocate depth,
      body.textAt_relocate depth]
  | .forLoop initial condition increment body => by
    simp only [Form.relocate, Form.textAt, initial.textAt_relocate depth,
      condition.textAt_relocate depth, increment.textAt_relocate depth,
      body.textAt_relocate depth]
  | .forEach _ source body => by
    simp only [Form.relocate, Form.textAt, source.textAt_relocate depth,
      body.textAt_relocate depth]
  | .tryCatch body _ handler => by
    simp only [Form.relocate, Form.textAt, body.textAt_relocate depth,
      handler.textAt_relocate depth]
  | .functionDecl decl | .lambda decl => by
    simp only [Form.relocate, Form.textAt, decl.textAt_relocate depth]
  | .returning value => by
    simp only [Form.relocate, Form.textAt, optionText_relocate depth _ value]
  | .throwing value => by
    simp only [Form.relocate, Form.textAt, value.textAt_relocate depth]
  | .interpolated pieces => by
    simp only [Form.relocate, Form.textAt, pieceTexts_relocate depth pieces]

theorem Callee.textAt_relocate (depth : Nat) :
    ∀ callee : Callee, (callee.relocate f g).textAt depth = callee.textAt depth
  | .named _ => rfl
  | .computed target => targetText_relocate depth target

theorem FunctionDecl.textAt_relocate (depth : Nat) {named : Bool} :
    ∀ decl : FunctionDecl, (decl.relocate f g).textAt depth named = decl.textAt depth named
  | .mk _ body _ _ => by
    simp only [FunctionDecl.relocate, FunctionDecl.textAt,
      statementTexts_relocate (depth + 1) body]

theorem targetText_relocate (depth : Nat) :
    ∀ e : Expr, targetText depth (e.relocate f g) = targetText depth e
  | .mk form _ _ => by
    have hparens : Format.needsParens (form.relocate f g) = Format.needsParens form := by
      cases form <;> rfl
    simp only [Expr.relocate, targetText, hparens, form.textAt_relocate depth]

theorem optionText_relocate (depth : Nat)
    (leadIn : String) :
    ∀ e : Option Expr, optionText depth leadIn (relocateOption f g e) = optionText depth leadIn e
  | none => rfl
  | some e => by simp only [relocateOption, optionText, e.textAt_relocate depth]

theorem exprTexts_relocate (depth : Nat) :
    ∀ items : List Expr, exprTexts depth (relocateList f g items) = exprTexts depth items
  | [] => rfl
  | e :: rest => by
    simp only [relocateList, exprTexts, e.textAt_relocate depth,
      exprTexts_relocate depth rest]

theorem entryTexts_relocate (depth : Nat) :
    ∀ items : List Expr, entryTexts depth (relocateList f g items) = entryTexts depth items
  | [] => rfl
  | .mk form position scope :: rest => by
    have hform := form.textAt_relocate depth
    have hrest := entryTexts_relocate depth rest
    have hentry : (form.relocate f g).textAt depth :: entryTexts depth (relocateList f g rest) =
        form.textAt depth :: entryTexts depth rest := by rw [hform, hrest]
    cases form with
    | assign target op value declares =>
      simp only [relocateList, Expr.relocate, Form.relocate, entryTexts,
        target.textAt_relocate depth, optionText_relocate depth _ value, hrest]
    | _ => exact hentry

theorem mapEntryTexts_relocate (depth : Nat) :
    ∀ entries : List MapEntry,
      mapEntryTexts depth (relocateEntries f g entries) = mapEntryTexts depth entries
  | [] => rfl
  | .mk _ value :: rest => by
    simp only [relocateEntries, mapEntryTexts, value.textAt_relocate depth,
      mapEntryTexts_relocate depth rest]

theorem pieceTexts_relocate (depth : Nat) :
    ∀ pieces : List Expr, pieceTexts depth (relocateList f g pieces) = pieceTexts depth pieces
  | [] => rfl
  | .mk form position scope :: rest => by
    have hform := form.textAt_relocate depth
    have hrest := pieceTexts_relocate depth rest
    have hsection : "#\x7b" ++ (form.relocate f g).textAt depth ++ "\x7d" ++
        pieceTexts depth (relocateList f g rest) =
        "#\x7b" ++ form.textAt depth ++ "\x7d" ++ pieceTexts depth rest := by rw [hform, hrest]
    cases form with
    | constant value =>
      cases value with
      | str s => exact congrArg (Text.escape s ++ ·) hrest
      | _ => exact hsection
    | _ => exact hsection

theorem statementTexts_relocate (depth : Nat) :
    ∀ statements : List Expr,
      statementTexts depth (relocateList f g statements) = statementTexts depth statements
  | [] => rfl
  | e :: rest => by
    simp only [relocateList, statementTexts, e.textAt_relocate depth,
      statementTexts_relocate depth rest]

end

/-- Statements that agree up to places have the same text. -/
theorem scriptText_eq_of_bare {statements statements' : List Expr}
    (h : statements.map Expr.bare = statements'.map Expr.bare) :
    scriptText statements = scriptText statements' := by
  have htext : ∀ statements : List Expr,
      scriptText (statements.map Expr.bare) = scriptText statements := by
    intro statements
    have hlist : statements.map Expr.bare =
        relocateList (fun _ ↦ .start) (fun _ ↦ globalScope) statements :=
      (relocateList_eq_map statements).symm
    rw [hlist]
    exact statementTexts_relocate _ _ 0 statements
  rw [← htext statements, h, htext]

end ScriptFront
