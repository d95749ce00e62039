import ScriptFront.Proofs.Tree.Plain

/-!
# The nodes of a tree

Most of what is said of all nodes of a tree does not depend on what the nodes are, only on which
nodes stand below which. `Form.children` lists the nodes right below a form in the order of the
text, and recursion along it reaches every node, since the children of a form have exactly its size.

Some nodes open a scope for what is below them. `Expr.nodes` lists all nodes of a tree, a node
before those below it, each with the scope around it: the one that the nearest node above it has
opened.
-/

namespace ScriptFront

/-! ## Children -/

/-- The node that a call invokes, if it is one. -/
def Callee.target? : Callee → Option Expr
  | .named _ => none
  | .computed target => some target

/-- The nodes right below a form, in the order of the text. -/
def Form.children : Form → List Expr
  | .constant _ | .var _ | .breakLoop | .continueLoop => []
  | .unary _ operand => [operand]
  | .binary _ left right | .compare _ left right | .condition _ left right => [left, right]
  | .assign target _ value _ => target :: value.toList
  | .multiAssign entries => entries
  | .index target key => [target, key]
  | .member target _ => [target]
  | .call callee args => callee.target?.toList ++ args
  | .array items => items
  | .map entries => entries.map MapEntry.value
  | .block statements => statements
  | .conditional test thenBranch elseBranch => test :: thenBranch :: elseBranch.toList
  | .whileLoop test body => [test, body]
  | .forLoop initial test increment body => [initial, test, increment, body]
  | .forEach _ source body => [source, body]
  | .tryCatch body _ handler => [body, handler]
  | .functionDecl decl | .lambda decl => decl.body
  | .returning value => value.toList
  | .throwing value => [value]
  | .interpolated pieces => pieces
  | .bindingCall _ args => args

theorem listSize_toList (value : Option Expr) : listSize value.toList = optionSize value := by
  cases value <;> rfl

theorem listSize_append (items more : List Expr) :
    listSize (items ++ more) = listSize items + listSize more := by
  induction items with
  | nil => simp [listSize]
  | cons e rest ih => simp [listSize, ih, Nat.add_assoc]

theorem listSize_map_value (entries : List MapEntry) :
    listSize (entries.map MapEntry.value) = entriesSize entries := by
  induction entries with
  | nil => rfl
  | cons entry rest ih =>
    obtain ⟨key, value⟩ := entry
    simp [listSize, entriesSize, MapEntry.value, ih]

theorem FunctionDecl.listSize_body (decl : FunctionDecl) : listSize decl.body = decl.size := by
  obtain ⟨signature, body, scope, position⟩ := decl
  rfl

theorem Callee.optionSize_target? (callee : Callee) : optionSize callee.target? = callee.size := by
  cases callee <;> rfl

/-- The size of a form is that of its children. -/
theorem Form.listSize_children (form : Form) : listSize form.children = form.size := by
  cases form <;>
    simp [children, size, listSize, listSize_toList, listSize_append, listSize_map_value,
      FunctionDecl.listSize_body, Callee.optionSize_target?, Nat.add_assoc]

/-- The nodes right below a node, in the order of the text. -/
def Expr.children (e : Expr) : List Expr := e.form.children

/-- There is less below a node than from it on. -/
theorem Expr.listSize_children_lt (e : Expr) : listSize e.children < e.size := by
  obtain ⟨form, position, scope⟩ := e
  rw [children, Expr.form, Form.listSize_children, size]
  exact Nat.lt_succ_self _

/-! ### Recursion

Functions on nodes go from a node to the list of its children, and from a list to its first node and
to the rest. They end because sizes decrease, and in a list of one node the step from the list to
the node counts as well. -/

theorem lex_children (e : Expr) : Prod.Lex (· < ·) (· < ·) (listSize e.children, 1) (e.size, 0) :=
  .left _ _ e.listSize_children_lt

theorem lex_first (e : Expr) (rest : List Expr) :
    Prod.Lex (· < ·) (· < ·) (e.size, 0) (listSize (e :: rest), 1) := by
  rw [listSize]
  rcases Nat.eq_or_lt_of_le (Nat.le_add_right e.size (listSize rest)) with heq | hlt
  · rw [← heq]
    exact .right _ Nat.one_pos
  · exact .left _ _ hlt

theorem lex_rest (e : Expr) (rest : List Expr) :
    Prod.Lex (· < ·) (· < ·) (listSize rest, 1) (listSize (e :: rest), 1) :=
  .left _ _ (Nat.lt_add_of_pos_left e.size_pos)

/-! ## Scopes around nodes -/

/-- The scope that a node opens for what is below it. A block and a counting loop record it as their
own, and a function records the scope of its parameters. -/
def Expr.opens? : Expr → Option ScopeId
  | .mk (.block _) _ scope | .mk (.forLoop ..) _ scope => some scope
  | .mk (.functionDecl decl) _ _ | .mk (.lambda decl) _ _ => some decl.scope
  | _ => none

/-- Whether the scope that a node records is the one that it opens. -/
def Expr.recordsOwn : Expr → Bool
  | .mk (.block _) _ _ | .mk (.forLoop ..) _ _ => true
  | _ => false

mutual

/-- All nodes of a tree in the order of the text, a node before those below it, and each with the
scope around it; `outer` is the scope around the tree. -/
def Expr.nodes (outer : ScopeId) (e : Expr) : List (Expr × ScopeId) :=
  (e, outer) :: nodesList (e.opens?.getD outer) e.children
termination_by (e.size, 0)
decreasing_by exact lex_children e

/-- All nodes of several trees. -/
def nodesList (outer : ScopeId) : List Expr → List (Expr × ScopeId)
  | [] => []
  | e :: rest => e.nodes outer ++ nodesList outer rest
termination_by es => (listSize es, 1)
decreasing_by
  · exact lex_first e rest
  · exact lex_rest e rest

end

theorem nodesList_append (outer : ScopeId) (items more : List Expr) :
    nodesList outer (items ++ more) = nodesList outer items ++ nodesList outer more := by
  induction items with
  | nil => simp [nodesList]
  | cons e rest ih => simp [nodesList, ih]

theorem nodesList_singleton (outer : ScopeId) (e : Expr) : nodesList outer [e] = e.nodes outer := by
  simp [nodesList]

end ScriptFront
