import ScriptFront.Tree.Basic

/-!
# Trees up to their places

Every node of a tree records where it was found and the scope it belongs to. Two trees are the same
*up to positions* if they agree once all positions are replaced by one, and the same *up to places*
if they agree once the scopes are replaced too. Both are instances of one function that moves every
node of a tree.
-/

namespace ScriptFront

mutual

/-- The tree with every position moved by `f` and every scope by `g`. -/
def Expr.relocate (f : Position → Position) (g : ScopeId → ScopeId) : Expr → Expr
  | .mk form position scope => .mk (form.relocate f g) (f position) (g scope)

/-- The form with every node below it moved. -/
def Form.relocate (f : Position → Position) (g : ScopeId → ScopeId) : Form → Form
  | .constant value => .constant value
  | .var name => .var name
  | .unary op operand => .unary op (operand.relocate f g)
  | .binary op left right => .binary op (left.relocate f g) (right.relocate f g)
  | .compare op left right => .compare op (left.relocate f g) (right.relocate f g)
  | .condition op left right => .condition op (left.relocate f g) (right.relocate f g)
  | .assign target op value declares =>
    .assign (target.relocate f g) op (relocateOption f g value) declares
  | .multiAssign entries => .multiAssign (relocateList f g entries)
  | .index target key => .index (target.relocate f g) (key.relocate f g)
  | .member target name => .member (target.relocate f g) name
  | .call callee args => .call (callee.relocate f g) (relocateList f g args)
  | .array items => .array (relocateList f g items)
  | .map entries => .map (relocateEntries f g entries)
  | .block statements => .block (relocateList f g statements)
  | .conditional condition thenBranch elseBranch =>
    .conditional (condition.relocate f g) (thenBranch.relocate f g)
      (relocateOption f g elseBranch)
  | .whileLoop condition body => .whileLoop (condition.relocate f g) (body.relocate f g)
  | .forLoop initial condition increment body =>
    .forLoop (initial.relocate f g) (condition.relocate f g) (increment.relocate f g)
      (body.relocate f g)
  | .forEach name source body => .forEach name (source.relocate f g) (body.relocate f g)
  | .tryCatch body errorName handler =>
    .tryCatch (body.relocate f g) errorName (handler.relocate f g)
  | .functionDecl decl => .functionDecl (decl.relocate f g)
  | .lambda decl => .lambda (decl.relocate f g)
  | .returning value => .returning (relocateOption f g value)
  | .breakLoop => .breakLoop
  | .continueLoop => .continueLoop
  | .throwing value => .throwing (value.relocate f g)
  | .interpolated pieces => .interpolated (relocateList f g pieces)
  | .bindingCall binding args => .bindingCall binding (relocateList f g args)

/-- What a call invokes, moved. -/
def Callee.relocate (f : Position → Position) (g : ScopeId → ScopeId) : Callee → Callee
  | .named name => .named name
  | .computed target => .computed (target.relocate f g)

/-- A function with its body moved. -/
def FunctionDecl.relocate (f : Position → Position) (g : ScopeId → ScopeId) :
    FunctionDecl → FunctionDecl
  | .mk signature body scope position =>
    .mk signature (relocateList f g body) (g scope) (f position)

/-- A node that may be missing, moved. -/
def relocateOption (f : Position → Position) (g : ScopeId → ScopeId) : Option Expr → Option Expr
  | none => none
  | some e => some (e.relocate f g)

/-- Several nodes, moved. -/
def relocateList (f : Position → Position) (g : ScopeId → ScopeId) : List Expr → List Expr
  | [] => []
  | e :: rest => e.relocate f g :: relocateList f g rest

/-- The entries of a map, moved. -/
def relocateEntries (f : Position → Position) (g : ScopeId → ScopeId) :
    List MapEntry → List MapEntry
  | [] => []
  | .mk key value :: rest => .mk key (value.relocate f g) :: relocateEntries f g rest

end

variable {f : Position → Position} {g : ScopeId → ScopeId}

theorem relocateList_eq_map (items : List Expr) :
    relocateList f g items = items.map (Expr.relocate f g) := by
  induction items with
  | nil => rfl
  | cons e rest ih => rw [relocateList, ih, List.map_cons]

namespace Expr

/-- An operation is placed with its left operand, before and after a move. -/
theorem relocate_operation (op : Operator) (left right : Expr) :
    (operation op left right).relocate f g =
      operation op (left.relocate f g) (right.relocate f g) := by
  obtain ⟨form, position, scope⟩ := left
  rcases op with op | op | op <;> rfl

/-- The tree with all positions forgotten. -/
def unplaced (e : Expr) : Expr := e.relocate (fun _ ↦ .start) id

/-- The tree with all positions and scopes forgotten. -/
def bare (e : Expr) : Expr := e.relocate (fun _ ↦ .start) fun _ ↦ globalScope

section Bare

variable {position : Position} {scope : ScopeId}

theorem bare_unary (op : UnaryOp) (operand : Expr) :
    (mk (.unary op operand) position scope).bare = ofForm (.unary op operand.bare) := rfl

theorem bare_member (target : Expr) (name : String) :
    (mk (.member target name) position scope).bare = ofForm (.member target.bare name) := rfl

theorem bare_index (target key : Expr) :
    (mk (.index target key) position scope).bare = ofForm (.index target.bare key.bare) := rfl

theorem bare_callComputed (target : Expr) (args : List Expr) :
    (mk (.call (.computed target) args) position scope).bare =
      ofForm (.call (.computed target.bare) (args.map bare)) :=
  congrArg (fun args ↦ ofForm (.call (.computed target.bare) args)) (relocateList_eq_map args)

theorem bare_array (items : List Expr) :
    (mk (.array items) position scope).bare = ofForm (.array (items.map bare)) :=
  congrArg (fun items ↦ ofForm (.array items)) (relocateList_eq_map items)

theorem bare_assign (target : Expr) (op : AssignOp) (value : Expr) (declares : Bool) :
    (mk (.assign target op (some value) declares) position scope).bare =
      ofForm (.assign target.bare op (some value.bare) declares) := rfl

/-- Up to places, only an assignment is one. -/
theorem exists_assign_of_bare_eq {e target value : Expr} {op : AssignOp} {declares : Bool}
    (h : e.bare = (mk (.assign target op (some value) declares) position scope).bare) :
    ∃ target' value' position' scope',
      e = mk (.assign target' op (some value') declares) position' scope' ∧
        target'.bare = target.bare ∧ value'.bare = value.bare := by
  obtain ⟨form, position', scope'⟩ := e
  rw [bare_assign] at h
  cases form with
  | assign target' op' value' declares' =>
    cases value' with
    | none => simp [bare, relocate, Form.relocate, relocateOption, ofForm] at h
    | some value' =>
      rw [bare_assign, ofForm, ofForm] at h
      injection h with hform
      injection hform with htarget hop hvalue hdeclares
      obtain ⟨rfl, rfl⟩ := And.intro hop hdeclares
      exact ⟨target', value', position', scope', rfl, htarget, Option.some.inj hvalue⟩
  | _ => simp [bare, relocate, Form.relocate, ofForm] at h

theorem bare_operation (op : Operator) (left right : Expr) :
    (operation op left right).bare = operation op left.bare right.bare :=
  relocate_operation op left right

theorem isAssignable_bare (e : Expr) : e.bare.isAssignable = e.isAssignable := by
  obtain ⟨form, position, scope⟩ := e
  cases form <;> rfl

theorem varName?_bare (e : Expr) : e.bare.varName? = e.varName? := by
  obtain ⟨form, position, scope⟩ := e
  cases form <;> rfl

end Bare

end Expr

end ScriptFront
