import ScriptFront.Proofs.Tree.Depth

/-!
# Which nodes stand where

A node may hold any other nodes, so a tree that was built by a program need not make sense. In the
trees of scripts some nodes are statements and stand only where statements do; a body is a block;
and what is changed is something that can be changed. `Form.IsShaped` says this of a form and the
nodes right below it, and `Expr.Every` carries it to all nodes of a tree.
-/

namespace ScriptFront

/-- The forms that are statements. -/
def Form.isStatement : Form → Bool
  | .assign .. | .multiAssign _ | .block _ | .conditional .. | .whileLoop .. | .forLoop ..
  | .forEach .. | .tryCatch .. | .functionDecl _ | .returning _ | .breakLoop | .continueLoop
  | .throwing _ => true
  | _ => false

/-- The operators that change their operand. -/
def UnaryOp.changes : UnaryOp → Bool
  | .preIncrement | .preDecrement | .postIncrement | .postDecrement => true
  | .negate | .not => false

namespace Expr

/-- Whether the node is a statement. -/
def isStatement (e : Expr) : Bool := e.form.isStatement

/-- Whether the node is a block. -/
def isBlock (e : Expr) : Bool :=
  match e.form with
  | .block _ => true
  | _ => false

/-- Whether the node is a conditional. -/
def isConditional (e : Expr) : Bool :=
  match e.form with
  | .conditional .. => true
  | _ => false

/-- Whether the node is a declaration. -/
def isDeclaration (e : Expr) : Bool :=
  match e.form with
  | .assign _ _ _ declares => declares
  | _ => false

/-- Whether the node is a reference by name. -/
def isVar (e : Expr) : Bool := e.varName?.isSome

end Expr

namespace Form

/-- The nodes below a form that stand for values. -/
def operands : Form → List Expr
  | .unary _ operand => [operand]
  | .binary _ left right | .compare _ left right | .condition _ left right => [left, right]
  | .assign _ _ value _ => value.toList
  | .index target key => [target, key]
  | .member target _ => [target]
  | .call callee args => callee.target?.toList ++ args
  | .bindingCall _ args => args
  | .array items => items
  | .map entries => entries.map MapEntry.value
  | .conditional test _ _ | .whileLoop test _ | .forLoop _ test _ _ => [test]
  | .forEach _ source _ => [source]
  | .returning value => value.toList
  | .throwing value => [value]
  | .interpolated pieces => pieces
  | _ => []

/-- The bodies right below a form. -/
def bodies : Form → List Expr
  | .conditional _ body _ | .whileLoop _ body | .forLoop _ _ _ body | .forEach _ _ body => [body]
  | .tryCatch body _ handler => [body, handler]
  | _ => []

/-- A form with nodes right below it that make sense there. That strings with embedded sections have
pieces is said only if `strict` holds. -/
structure IsShaped (strict : Prop) (form : Form) : Prop where
  /-- Only expressions stand for values. -/
  operands : ∀ e ∈ form.operands, e.isStatement = false
  /-- Bodies are blocks. -/
  bodies : ∀ e ∈ form.bodies, e.isBlock = true
  /-- What is changed by an operator can be changed. -/
  changed : ∀ op e, form = .unary op e → op.changes = true → e.isAssignable = true
  /-- What is assigned to can be changed; a declaration is a plain assignment to a name, and nothing
  but a declaration does without a value. -/
  assigned : ∀ target op value declares, form = .assign target op value declares →
    target.isAssignable = true ∧ (value = none → declares = true) ∧
      (declares = true → op = .assign ∧ target.isVar = true)
  /-- Several declarations are at least two. -/
  declared : ∀ entries, form = .multiAssign entries →
    2 ≤ entries.length ∧ ∀ e ∈ entries, e.isDeclaration = true
  /-- The alternative of a conditional is a block or another conditional. -/
  alternative : ∀ test body e, form = .conditional test body (some e) →
    e.isBlock = true ∨ e.isConditional = true
  /-- A string with embedded sections has pieces. -/
  pieces : strict → ∀ pieces, form = .interpolated pieces → pieces ≠ []

/-- Forms to which no more applies than to operands and bodies. -/
def isOrdinary : Form → Bool
  | .unary op _ => !op.changes
  | .assign .. | .multiAssign _ | .interpolated _ | .conditional _ _ (some _) => false
  | _ => true

variable {strict : Prop} {form : Form}

theorem IsShaped.of_isOrdinary (h : form.isOrdinary = true)
    (hoperands : ∀ e ∈ form.operands, e.isStatement = false)
    (hbodies : ∀ e ∈ form.bodies, e.isBlock = true) : form.IsShaped strict := by
  refine ⟨hoperands, hbodies, ?_, ?_, ?_, ?_, ?_⟩
  · rintro op e rfl hop
    simp [isOrdinary, hop] at h
  · rintro target op value declares rfl
    cases h
  · rintro entries rfl
    cases h
  · rintro test body e rfl
    cases h
  · rintro - pieces rfl
    cases h

/-- An operator that changes what can be changed. -/
theorem isShaped_unary_of_isAssignable {op : UnaryOp} {e : Expr} (he : e.isAssignable = true)
    (hexpr : e.isStatement = false) : (unary op e).IsShaped strict := by
  refine ⟨by simpa [operands] using hexpr, by simp [bodies], ?_, by simp, by simp, by simp, by simp⟩
  rintro op' e' h -
  cases h
  exact he

theorem isShaped_assign {target value : Expr} {op : AssignOp} (htarget : target.isAssignable = true)
    (hvalue : value.isStatement = false) :
    (assign target op (some value) false).IsShaped strict := by
  refine ⟨by simpa [operands] using hvalue, by simp [bodies], by simp,
    ?_, by simp, by simp, by simp⟩
  intro target' op' value' declares' h
  cases h
  exact ⟨htarget, by simp, by simp⟩

theorem isShaped_declaration {target : Expr} {value : Option Expr} (htarget : target.isVar = true)
    (hvalue : ∀ e ∈ value, e.isStatement = false) :
    (assign target .assign value true).IsShaped strict := by
  refine ⟨by simpa [operands] using hvalue, by simp [bodies], by simp,
    ?_, by simp, by simp, by simp⟩
  intro target' op' value' declares' h
  cases h
  refine ⟨?_, fun _ ↦ rfl, fun _ ↦ ⟨rfl, htarget⟩⟩
  rw [Expr.isVar, Expr.varName?] at htarget
  rw [Expr.isAssignable]
  split at htarget
  · next name hname => rw [hname]
  · cases htarget

theorem isShaped_multiAssign {entries : List Expr} (hlength : 2 ≤ entries.length)
    (hentries : ∀ e ∈ entries, e.isDeclaration = true) : (multiAssign entries).IsShaped strict := by
  refine ⟨by simp [operands], by simp [bodies], by simp, by simp, ?_, by simp, by simp⟩
  intro entries' h
  cases h
  exact ⟨hlength, hentries⟩

theorem isShaped_conditional {test body : Expr} {alternative : Option Expr}
    (htest : test.isStatement = false) (hbody : body.isBlock = true)
    (halternative : ∀ e ∈ alternative, e.isBlock = true ∨ e.isConditional = true) :
    (conditional test body alternative).IsShaped strict := by
  refine ⟨by simpa [operands] using htest, by simpa [bodies] using hbody, by simp, by simp, by simp,
    ?_,
    by simp⟩
  intro test' body' e h
  cases h
  exact halternative e rfl

theorem isShaped_interpolated {pieces : List Expr} (hpieces : ∀ e ∈ pieces, e.isStatement = false)
    (hne : strict → pieces ≠ []) : (interpolated pieces).IsShaped strict := by
  refine ⟨hpieces, by simp [bodies], by simp, by simp, by simp, by simp, ?_⟩
  intro hstrict pieces' h
  cases h
  exact hne hstrict

end Form

/-! ## All nodes -/

/-- The forms of all nodes of a tree satisfy `p`. -/
inductive Expr.Every (p : Form → Prop) : Expr → Prop
  /-- The form at the top, and those below it. -/
  | node {e : Expr} (form : p e.form) (children : ∀ child ∈ e.children, child.Every p) : e.Every p

namespace Expr

variable {p : Form → Prop} {e : Expr} {es : List Expr} {outer : ScopeId} {found : Expr × ScopeId}

theorem Every.form (h : e.Every p) : p e.form := by
  cases h with
  | node form _ => exact form

theorem Every.child {child : Expr} (h : e.Every p) (hchild : child ∈ e.children) :
    child.Every p := by
  cases h with
  | node _ children => exact children child hchild

/-- Where a node stands is of no importance. -/
theorem Every.of_form_eq {e' : Expr} (h : e.Every p) (heq : e'.form = e.form) : e'.Every p :=
  .node (heq ▸ h.form) fun child hchild ↦ h.child (by rwa [Expr.children, heq] at hchild)

end Expr

theorem mem_nodesList {es : List Expr} {outer : ScopeId} {found : Expr × ScopeId} :
    found ∈ nodesList outer es ↔ ∃ e ∈ es, found ∈ e.nodes outer := by
  induction es with
  | nil => simp [nodesList]
  | cons e rest ih => simp [nodesList, ih]

theorem Expr.Every.nodes {p : Form → Prop} {e : Expr} (h : e.Every p) (outer : ScopeId)
    {found : Expr × ScopeId} (hfound : found ∈ e.nodes outer) : p found.1.form := by
  induction h generalizing outer with
  | @node e form _ ih =>
    rw [Expr.nodes] at hfound
    rcases List.mem_cons.mp hfound with rfl | hfound
    · exact form
    · obtain ⟨child, hchild, hfound⟩ := mem_nodesList.mp hfound
      exact ih child hchild _ hfound

end ScriptFront
