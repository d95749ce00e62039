import ScriptFront.Parse.Yard
import ScriptFront.Proofs.Symbols.Scopes
import ScriptFront.Proofs.Tree.Nodes
import ScriptFront.Settings.Basic

/-!
# Derivations of trees

A parser reads tokens, moves counters and defines names while it builds a tree. What it makes can be
described without tokens: `Derives` lists how a tree is composed, which part it plays, how much is
open around it, and how it changes the table of symbols. Every tree of an accepted script has a
derivation, and what holds of all derivations, by induction on them, holds of all accepted scripts.

A derivation is of a list of trees that are read one after the other in the same part, so that lists
of items, arguments and statements need no rules of their own.

The rules record what a property of trees could depend on: which scope a node is put into and when,
in which order names are defined and scopes opened, which bounds were respected, and which operators
may stand below which. That assignments have targets and calls have names is left out where nothing
depends on it.
-/

namespace ScriptFront

/-- How much is open around a tree. -/
structure Openings where
  /-- Open blocks. -/
  blocks : Nat
  /-- Open parentheses. -/
  parens : Nat
  /-- Open operands. -/
  operands : Nat

namespace Openings

/-- Nothing is open. -/
def none : Openings := ⟨0, 0, 0⟩

/-- One more block is open. -/
def inBlock (d : Openings) : Openings := { d with blocks := d.blocks + 1 }

/-- One more parenthesis is open. -/
def inParen (d : Openings) : Openings := { d with parens := d.parens + 1 }

/-- One more operand is open. -/
def inOperand (d : Openings) : Openings := { d with operands := d.operands + 1 }

/-- So many parentheses are closed. -/
def closing (d : Openings) (n : Nat) : Openings := { d with parens := d.parens - n }

theorem closing_inParen (d : Openings) (n : Nat) : d.inParen.closing (n + 1) = d.closing n := by
  rw [closing, closing, inParen]
  dsimp only
  rw [Nat.add_sub_add_right]

end Openings

/-- The part that a tree plays in the tree around it. -/
inductive Role where
  /-- An operand with so many links. -/
  | chain (links : Nat)
  /-- An operand that was counted already. -/
  | operand
  /-- An operand. -/
  | atom
  /-- An expression whose operators bind at least so tight. -/
  | expression (least : Nat)
  /-- An item of a list, or a piece of a string. -/
  | part
  /-- One name of a declaration. -/
  | declaration
  /-- An expression, an assignment or a declaration. -/
  | simple
  /-- A block in whose scope some names are defined. -/
  | block (names : List String)
  /-- The alternative of a conditional. -/
  | alternative
  /-- A conditional. -/
  | conditional
  /-- A statement. -/
  | statement

/-- Whether a tree in this part is an expression. -/
def Role.isExpression : Role → Bool
  | .chain _ | .operand | .atom | .expression _ => true
  | _ => false

/-- The table after an assignment: a plain one defines its target, if that is a name that is not in
sight. -/
def SymbolTable.assigned (t : SymbolTable) (target : Expr) (op : AssignOp) : SymbolTable :=
  if op = .assign then
    match target.varName? with
    | some name => if t.contains name then t else t.defineVar name
    | none => t
  else t

/-- Trees that are read one after the other in a part, with so much open around them: `t` is the
table of symbols before them, and the last argument the table behind them. -/
inductive Derives (limits : Limits) :
    Role → Openings → SymbolTable → List Expr → SymbolTable → Prop
  | nil {r : Role} {d : Openings} {t : SymbolTable} : Derives limits r d t [] t
  | append {r : Role} {d : Openings} {t t₁ t₂ : SymbolTable} {items more : List Expr}
    (hitems : Derives limits r d t items t₁) (hmore : Derives limits r d t₁ more t₂) :
    Derives limits r d t (items ++ more) t₂
  -- operands with links
  | constant {d : Openings} {t : SymbolTable} {value : Value} {position : Position} :
    Derives limits (.chain 0) d t [.mk (.constant value) position t.current] t
  | var {d : Openings} {t : SymbolTable} {name : String} {position : Position} :
    Derives limits (.chain 0) d t [.mk (.var name) position t.current] t
  | array {d : Openings} {t t₁ : SymbolTable} {items : List Expr} {position : Position}
    (hitems : Derives limits .part d t items t₁) :
    Derives limits (.chain 0) d t [.mk (.array items) position t₁.current] t₁
  | parens {d : Openings} {t t₁ : SymbolTable} {e : Expr}
    (he : Derives limits (.expression 0) d.inParen t [e] t₁)
    (hbound : d.parens + 1 ≤ limits.maxParenDepth) : Derives limits (.chain 0) d t [e] t₁
  | group {d : Openings} {t t₁ : SymbolTable} {e : Expr}
    (he : Derives limits (.expression 0) d.inParen t [e] t₁)
    (hbound : d.parens + 1 ≤ limits.maxParenDepth) : Derives limits (.chain 0) d.inOperand t [e] t₁
  | member {d : Openings} {t t₁ : SymbolTable} {links : Nat} {target : Expr} {name : String}
    {position : Position} (htarget : Derives limits (.chain links) d t [target] t₁)
    (hbound : links + 1 ≤ limits.maxMemberDepth) :
    Derives limits (.chain (links + 1)) d t [.mk (.member target name) position t₁.current] t₁
  | index {d : Openings} {t t₁ t₂ : SymbolTable} {links : Nat} {target key : Expr}
    {position : Position} (htarget : Derives limits (.chain links) d t [target] t₁)
    (hkey : Derives limits (.expression 0) d t₁ [key] t₂)
    (hbound : links + 1 ≤ limits.maxMemberDepth) :
    Derives limits (.chain (links + 1)) d t [.mk (.index target key) position t₂.current] t₂
  | callComputed {d : Openings} {t t₁ t₂ : SymbolTable} {links : Nat} {target : Expr}
    {args : List Expr} {position : Position}
    (htarget : Derives limits (.chain links) d t [target] t₁)
    (hargs : Derives limits (.expression 0) d t₁ args t₂)
    (hbound : links + 1 ≤ limits.maxMemberDepth) :
    Derives limits (.chain (links + 1)) d t
      [.mk (.call (.computed target) args) position t₂.current] t₂
  | callQualified {d : Openings} {t t₁ : SymbolTable} {links : Nat} {name : String}
    {args : List Expr} {position : Position} (hargs : Derives limits (.expression 0) d t args t₁)
    (hbound : links + 1 ≤ limits.maxMemberDepth) :
    Derives limits (.chain (links + 1)) d t
      [.mk (.call (.named name) args) position t₁.current] t₁
  -- operands
  | links {d : Openings} {t t₁ : SymbolTable} {links : Nat} {e : Expr}
    (he : Derives limits (.chain links) d t [e] t₁) : Derives limits .operand d t [e] t₁
  | postChange {d : Openings} {t t₁ : SymbolTable} {links : Nat} {e : Expr} {op : UnaryOp}
    {position : Position} (he : Derives limits (.chain links) d t [e] t₁) :
    Derives limits .operand d t [.mk (.unary op e) position t₁.current] t₁
  | callLoose {d : Openings} {t t₁ : SymbolTable} {name : String} {args : List Expr}
    {position : Position} (hargs : Derives limits (.expression 0) d t args t₁) :
    Derives limits .operand d t [.mk (.call (.named name) args) position t₁.current] t₁
  | prefixed {d : Openings} {t t₁ : SymbolTable} {e : Expr} {op : UnaryOp} {position : Position}
    (he : Derives limits .atom d t [e] t₁) :
    Derives limits .operand d t [.mk (.unary op e) position t₁.current] t₁
  | map {d : Openings} {t t₁ : SymbolTable} {entries : List MapEntry} {position : Position}
    (hentries : Derives limits (.expression 0) d t (entries.map MapEntry.value) t₁) :
    Derives limits .operand d t [.mk (.map entries) position t₁.current] t₁
  | interpolated {d : Openings} {t t₁ : SymbolTable} {pieces : List Expr} {position : Position}
    (hpieces : Derives limits .part d t pieces t₁) :
    Derives limits .operand d t [.mk (.interpolated pieces) position t₁.current] t₁
  | lambda {d : Openings} {t t₁ t₂ : SymbolTable} {outer : ScopeId} {signature : Signature}
    {body : List Expr} {position : Position}
    (hbody : Derives limits .statement d.inBlock (t.opened .function signature.params) body t₁)
    (hpop : t₁.pop = .ok (outer, t₂)) (hbound : d.blocks + 1 ≤ limits.maxStatementDepth) :
    Derives limits .operand d t
      [.mk (.lambda (.mk signature body t.scopes.size position)) position t₂.current] t₂
  | atom {d : Openings} {t t₁ : SymbolTable} {e : Expr}
    (he : Derives limits .operand d.inOperand t [e] t₁)
    (hbound : d.operands + 1 ≤ limits.maxExpressionDepth) : Derives limits .atom d t [e] t₁
  -- expressions
  | single {d : Openings} {t t₁ : SymbolTable} {e : Expr} {least : Nat}
    (he : Derives limits .atom d t [e] t₁) : Derives limits (.expression least) d t [e] t₁
  | operation {d : Openings} {t t₁ t₂ : SymbolTable} {left right : Expr}
      {op : Operator} {least : Nat}
    (hleft : Derives limits (.expression op.precedence) d t [left] t₁)
    (hright : Derives limits (.expression (op.precedence + 1)) d t₁ [right] t₂)
    (hleast : least ≤ op.precedence) :
    Derives limits (.expression least) d t [.operation op left right] t₂
  | partConstant {d : Openings} {t : SymbolTable} {value : Value} {position : Position} :
    Derives limits .part d t [.mk (.constant value) position t.current] t
  | partExpression {d : Openings} {t t₁ : SymbolTable} {e : Expr}
    (he : Derives limits (.expression 0) d t [e] t₁) : Derives limits .part d t [e] t₁
  -- simple statements
  | declaration {d : Openings} {t t₁ : SymbolTable} {name : String} {value : Option Expr}
    {position : Position}
    (hvalue : Derives limits (.expression 0) d (t.defineVar name) value.toList t₁) :
    Derives limits .declaration d t
      [.mk (.assign (.mk (.var name) position t₁.current) .assign value true) position t₁.current]
      t₁
  | simpleExpression {d : Openings} {t t₁ : SymbolTable} {e : Expr}
    (he : Derives limits (.expression 0) d t [e] t₁) : Derives limits .simple d t [e] t₁
  | assignment {d : Openings} {t t₁ t₂ : SymbolTable} {target value : Expr} {op : AssignOp}
    {position : Position} (htarget : Derives limits (.expression 0) d t [target] t₁)
    (hvalue : Derives limits (.expression 0) d t₁ [value] t₂) :
    Derives limits .simple d t [.mk (.assign target op (some value) false) position t₂.current]
      (t₂.assigned target op)
  | declared {d : Openings} {t t₁ : SymbolTable} {e : Expr} {position : Position}
    (he : Derives limits .declaration d t [e] t₁) :
    Derives limits .simple d t [e.moveTo position] t₁
  | declarations {d : Openings} {t t₁ : SymbolTable} {entries : List Expr} {position : Position}
    (hentries : Derives limits .declaration d t entries t₁) :
    Derives limits .simple d t [.mk (.multiAssign entries) position t₁.current] t₁
  -- branches
  | block {d : Openings} {t t₁ t₂ : SymbolTable} {outer : ScopeId} {names : List String}
    {statements : List Expr} {position : Position}
    (hbody : Derives limits .statement d.inBlock (t.opened .block names) statements t₁)
    (hpop : t₁.pop = .ok (outer, t₂)) (hbound : d.blocks + 1 ≤ limits.maxStatementDepth) :
    Derives limits (.block names) d t [.mk (.block statements) position t.scopes.size] t₂
  | chained {d : Openings} {t t₁ : SymbolTable} {e : Expr}
    (he : Derives limits .conditional d.inBlock t [e] t₁)
    (hbound : d.blocks + 1 ≤ limits.maxStatementDepth) : Derives limits .alternative d t [e] t₁
  | alternativeBlock {d : Openings} {t t₁ : SymbolTable} {e : Expr}
    (he : Derives limits (.block []) d t [e] t₁) : Derives limits .alternative d t [e] t₁
  | conditional {d : Openings} {t t₁ t₂ t₃ : SymbolTable} {test thenBranch : Expr}
    {elseBranch : Option Expr} {position : Position}
    (htest : Derives limits (.expression 0) d t [test] t₁)
    (hthen : Derives limits (.block []) d t₁ [thenBranch] t₂)
    (helse : Derives limits .alternative d t₂ elseBranch.toList t₃) :
    Derives limits .conditional d t
      [.mk (.conditional test thenBranch elseBranch) position t₃.current] t₃
  -- statements
  | simple {d : Openings} {t t₁ : SymbolTable} {e : Expr} (he : Derives limits .simple d t [e] t₁) :
    Derives limits .statement d t [e] t₁
  | branching {d : Openings} {t t₁ : SymbolTable} {e : Expr}
    (he : Derives limits .conditional d t [e] t₁) : Derives limits .statement d t [e] t₁
  | nested {d : Openings} {t t₁ : SymbolTable} {e : Expr}
      (he : Derives limits (.block []) d t [e] t₁) :
    Derives limits .statement d t [e] t₁
  | whileLoop {d : Openings} {t t₁ t₂ : SymbolTable} {test body : Expr} {position : Position}
    (htest : Derives limits (.expression 0) d t [test] t₁)
    (hbody : Derives limits (.block []) d t₁ [body] t₂) :
    Derives limits .statement d t [.mk (.whileLoop test body) position t₂.current] t₂
  | forEach {d : Openings} {t t₁ t₂ : SymbolTable} {name : String} {source body : Expr}
    {position : Position} (hsource : Derives limits (.expression 0) d t [source] t₁)
    (hbody : Derives limits (.block [name]) d t₁ [body] t₂) :
    Derives limits .statement d t [.mk (.forEach name source body) position t₂.current] t₂
  | forLoop {d : Openings} {t t₁ t₂ t₃ t₄ t₅ : SymbolTable} {outer : ScopeId}
    {initial test increment body : Expr} {position : Position}
    (hinitial : Derives limits .simple d (t.opened .block []) [initial] t₁)
    (htest : Derives limits (.expression 0) d t₁ [test] t₂)
    (hincrement : Derives limits .simple d t₂ [increment] t₃)
    (hbody : Derives limits (.block []) d t₃ [body] t₄) (hpop : t₄.pop = .ok (outer, t₅)) :
    Derives limits .statement d t
      [.mk (.forLoop initial test increment body) position t.scopes.size] t₅
  | tryCatch {d : Openings} {t t₁ t₂ : SymbolTable} {name : String} {body handler : Expr}
    {position : Position} (hbody : Derives limits (.block []) d t [body] t₁)
    (hhandler : Derives limits (.block [name]) d t₁ [handler] t₂) :
    Derives limits .statement d t [.mk (.tryCatch body name handler) position t₂.current] t₂
  | function {d : Openings} {t t₁ t₂ : SymbolTable} {outer : ScopeId} {signature : Signature}
    {body : List Expr} {decl : FunctionDecl} {position : Position}
    (hbody : Derives limits .statement d.inBlock
      ((t.defineFunction signature).opened .function signature.params) body t₁)
    (hpop : t₁.pop = .ok (outer, t₂)) (hbound : d.blocks + 1 ≤ limits.maxStatementDepth)
    (hdecl : decl = .mk signature body (t.defineFunction signature).scopes.size position) :
    Derives limits .statement d t [.mk (.functionDecl decl) position t₂.current]
      (t₂.attachDecl signature.name decl)
  | returning {d : Openings} {t t₁ : SymbolTable} {value : Option Expr} {position : Position}
    (hvalue : Derives limits (.expression 0) d t value.toList t₁) :
    Derives limits .statement d t [.mk (.returning value) position t₁.current] t₁
  | throwing {d : Openings} {t t₁ : SymbolTable} {value : Expr} {position : Position}
    (hvalue : Derives limits (.expression 0) d t [value] t₁) :
    Derives limits .statement d t [.mk (.throwing value) position t₁.current] t₁
  | breakLoop {d : Openings} {t : SymbolTable} {position : Position} :
    Derives limits .statement d t [.mk .breakLoop position t.current] t
  | continueLoop {d : Openings} {t : SymbolTable} {position : Position} :
    Derives limits .statement d t [.mk .continueLoop position t.current] t

namespace Derives

open SymbolTable (Grows)

variable {limits : Limits} {r : Role} {d : Openings} {t t₁ t' : SymbolTable} {es : List Expr}

/-- Operators that bind tight enough for a bound do so for a lower one. -/
theorem weaken {least least' : Nat} (h : Derives limits (.expression least) d t es t')
    (hle : least' ≤ least) : Derives limits (.expression least') d t es t' := by
  generalize hr : Role.expression least = r at h
  induction h with
  | nil => exact .nil
  | append _ _ ih ih' => exact .append (ih hr) (ih' hr)
  | single he _ => exact .single he
  | operation hleft hright hleast _ _ =>
    cases hr
    exact .operation hleft hright (Nat.le_trans hle hleast)
  | _ => cases hr

end Derives

/-! ## Derivations and tables -/

namespace SymbolTable

variable {t t₁ t₂ : SymbolTable} {kind : ScopeKind} {names : List String} {outer : ScopeId}

theorem grows_assigned (t : SymbolTable) (target : Expr) (op : AssignOp) :
    t.Grows (t.assigned target op) := by
  rw [assigned]
  split
  · split
    · split
      · exact .refl
      · exact .define _ _
    · exact .refl
  · exact .refl

theorem size_assigned (t : SymbolTable) (target : Expr) (op : AssignOp) :
    (t.assigned target op).scopes.size = t.scopes.size := by
  rw [assigned]
  split
  · split
    · split
      · rfl
      · exact size_define _ _ _
    · rfl
  · rfl

/-- A table whose current scope is there grows. -/
def Extends (t t' : SymbolTable) : Prop := t.current < t.scopes.size → t.Grows t'

namespace Extends

theorem refl : t.Extends t := fun _ ↦ .refl

theorem trans (h : t.Extends t₁) (h' : t₁.Extends t₂) : t.Extends t₂ := by
  intro hcurrent
  have hgrows := h hcurrent
  refine hgrows.trans (h' ?_)
  rw [hgrows.current]
  exact Nat.lt_of_lt_of_le hcurrent hgrows.size

/-- Inside an opened scope, that scope is there. -/
theorem inside (h : (t.opened kind names).Extends t₁) : (t.opened kind names).Grows t₁ := by
  refine h ?_
  rw [current_opened, size_opened]
  exact Nat.lt_succ_self _

theorem leave (h : (t.opened kind names).Extends t₁) (hpop : t₁.pop = .ok (outer, t₂)) :
    t.Extends t₂ := by
  intro _
  rw [h.inside.pop_inside] at hpop
  cases hpop
  exact h.inside.inside

end Extends

/-- Behind the body of a function, its declaration is attached in the scope that it was defined
in. -/
theorem attachDecl_eq_modify {signature : Signature} (decl : FunctionDecl)
    (h : ((t.defineFunction signature).opened kind names).Extends t₁)
    (hpop : t₁.pop = .ok (outer, t₂)) (hcurrent : t.current < t.scopes.size) :
    t₂.attachDecl signature.name decl =
      { t₂ with scopes := t₂.scopes.modify t₂.current (attachIn signature.name decl) } := by
  have hdefine := Grows.defineFunction (t := t) signature
  rw [h.inside.pop_inside, hdefine.current] at hpop
  cases hpop
  obtain ⟨s, hs, hget⟩ := exists_scope_defineFunction signature hcurrent
  have hlt : t.current < (t.defineFunction signature).scopes.size :=
    Nat.lt_of_lt_of_le hcurrent hdefine.size
  exact attachDecl_eq ((h.inside.getElem?_inside hlt).trans hs) (Scope.contains_of_get? hget)

theorem grows_attachDecl {signature : Signature} (decl : FunctionDecl)
    (h : ((t.defineFunction signature).opened kind names).Extends t₁)
    (hpop : t₁.pop = .ok (outer, t₂)) (hcurrent : t.current < t.scopes.size) :
    t₂.Grows (t₂.attachDecl signature.name decl) := by
  rw [attachDecl_eq_modify decl h hpop hcurrent]
  exact .modify fun _ ↦ ⟨_, rfl⟩

/-- The declaration of a function leaves the table grown. -/
theorem Extends.leaveFunction {signature : Signature} {decl : FunctionDecl}
    (h : ((t.defineFunction signature).opened kind names).Extends t₁)
    (hpop : t₁.pop = .ok (outer, t₂)) : t.Extends (t₂.attachDecl signature.name decl) := by
  intro hcurrent
  have hfunction : t.Extends t₂ := .trans (fun _ ↦ .defineFunction signature) (h.leave hpop)
  exact (hfunction hcurrent).trans (grows_attachDecl decl h hpop hcurrent)

end SymbolTable

namespace Derives

open SymbolTable (Extends Grows)

variable {limits : Limits} {r : Role} {d : Openings} {t t' : SymbolTable} {es : List Expr}

/-- A table grows along a derivation. -/
theorem grows (h : Derives limits r d t es t') : t.Extends t' := by
  induction h with
  | nil | constant | var | partConstant | breakLoop | continueLoop => exact .refl
  | array _ ih | parens _ _ ih | group _ _ ih | member _ _ ih | callQualified _ _ ih | links _ ih
  | postChange _ ih | callLoose _ ih | prefixed _ ih | map _ ih | interpolated _ ih | atom _ _ ih
  | single _ ih | partExpression _ ih | simpleExpression _ ih | declared _ ih | declarations _ ih
  | chained _ _ ih | alternativeBlock _ ih | simple _ ih | branching _ ih | nested _ ih
  | returning _ ih | throwing _ ih => exact ih
  | append _ _ ih ih' | index _ _ _ ih ih' | callComputed _ _ _ ih ih' | operation _ _ _ ih ih'
  | whileLoop _ _ ih ih' | forEach _ _ ih ih' | tryCatch _ _ ih ih' => exact ih.trans ih'
  | conditional _ _ _ ih₁ ih₂ ih₃ => exact (ih₁.trans ih₂).trans ih₃
  | declaration _ ih => exact .trans (fun _ ↦ .define _ _) ih
  | assignment _ _ ih ih' => exact (ih.trans ih').trans fun _ ↦ SymbolTable.grows_assigned _ _ _
  | lambda _ hpop _ ih | block _ hpop _ ih => exact ih.leave hpop
  | forLoop _ _ _ _ hpop ih₁ ih₂ ih₃ ih₄ => exact (((ih₁.trans ih₂).trans ih₃).trans ih₄).leave hpop
  | function _ hpop _ _ ih => exact ih.leaveFunction hpop

end Derives

/-! ## The stacks of an expression hold derivations

While an expression is read, its operands and operators lie on two stacks. `Stacked` says what they
hold when an operand must come next: below each waiting operator its left operand, which binds tight
enough for it, and below each open parenthesis whatever was read before it. Every operand starts
with the table of symbols that the one below it has left, so the stacks as a whole lead from the
table before the expression to the present one.

The invariant that makes grouping right is on the waiting operators: from one to the next on top of
it, they bind tighter. So an operator that is applied finds on its right an operand that binds
tighter than itself, whatever was combined before.
-/

/-- How tight the operators of the next operand must bind at least, so that it stands on the right
of the topmost waiting operator. -/
def demand : List Waiting → Nat
  | .operator op :: _ => op.precedence + 1
  | _ => 0

/-- The stacks hold derivations that lead from the table before the expression to the present
one. -/
inductive Stacked (limits : Limits) (t : SymbolTable) :
    Openings → List Waiting → List Expr → SymbolTable → Prop
  /-- Nothing was read. -/
  | empty {d : Openings} : Stacked limits t d [] [] t
  /-- An operator waits behind its left operand. -/
  | operator {d : Openings} {waiting : List Waiting} {operands : List Expr} {t₁ t₂ : SymbolTable}
    {op : Operator} {left : Expr} (hstack : Stacked limits t d waiting operands t₁)
    (hleft : Derives limits (.expression op.precedence) d t₁ [left] t₂)
    (hdemand : demand waiting ≤ op.precedence) :
    Stacked limits t d (.operator op :: waiting) (left :: operands) t₂
  /-- A parenthesis was opened. -/
  | paren {d : Openings} {waiting : List Waiting} {operands : List Expr} {t₁ : SymbolTable}
    (hstack : Stacked limits t d waiting operands t₁)
    (hbound : d.parens + 1 ≤ limits.maxParenDepth) :
    Stacked limits t d.inParen (.paren operands.length :: waiting) operands t₁

namespace Stacked

variable {limits : Limits} {t t₁ t₂ : SymbolTable} {d : Openings} {waiting : List Waiting}
  {operands : List Expr} {right : Expr} {y : Yard}

/-- Applying operators leaves one operand on top, which binds as tight as every operator that was
applied.
-/
theorem settle {waits : Operator → Bool} {bound n : Nat}
    (h : Stacked limits t d waiting operands t₁)
    (hright : Derives limits (.expression n) d t₁ [right] t₂)
    (hdemand : demand waiting ≤ n) (hbound : bound ≤ n)
    (hwaits : ∀ op, waits op = false → bound ≤ op.precedence)
    (hsettle : Yard.settle waits waiting (right :: operands) = some y) :
    ∃ e rest t', y.operands = e :: rest ∧ Stacked limits t d y.waiting rest t' ∧
      Derives limits (.expression bound) d t' [e] t₂ ∧
      ∀ op more, y.waiting = .operator op :: more → waits op = true := by
  induction h generalizing right n with
  | empty =>
    cases hsettle
    exact ⟨right, [], t, rfl, .empty, hright.weaken hbound, by simp⟩
  | @operator d waiting operands t₁ t₂ op left hstack hleft hless ih =>
    rw [Yard.settle] at hsettle
    by_cases hwaiting : waits op = true
    · rw [if_pos hwaiting] at hsettle
      cases hsettle
      refine ⟨right, _, _, rfl, .operator hstack hleft hless, hright.weaken hbound, ?_⟩
      intro op' more heq
      cases heq
      exact hwaiting
    · -- the operator is applied, and what it makes binds as tight as it does
      rw [if_neg hwaiting] at hsettle
      have hoperation := Derives.operation hleft (hright.weaken hdemand) (Nat.le_refl op.precedence)
      exact ih hoperation hless (hwaits op (by simpa using hwaiting)) hsettle
  | paren hstack hparen =>
    cases hsettle
    exact ⟨right, _, _, rfl, .paren hstack hparen, hright.weaken hbound, by simp⟩

/-- An operator that is put on its stack finds its left operand below it. -/
theorem pushOperator {op : Operator} (h : Stacked limits t d waiting operands t₁)
    (hright : ∀ n, Derives limits (.expression n) d t₁ [right] t₂)
    (hpush : Yard.pushOperator ⟨right :: operands, waiting⟩ op = some y) :
    Stacked limits t d y.waiting y.operands t₂ := by
  rw [Yard.pushOperator, Option.map_eq_some_iff] at hpush
  obtain ⟨settled, hsettle, rfl⟩ := hpush
  obtain ⟨e, rest, t', hoperands, hstack, he, htop⟩ :=
    h.settle (hright (max (demand waiting) op.precedence)) (Nat.le_max_left _ _)
      (Nat.le_max_right _ _) (fun top htop ↦ by simpa using htop) hsettle
  dsimp only
  rw [hoperands]
  refine .operator hstack he ?_
  -- the operator on top binds less tight than the one that is put on it
  rcases hwaiting : settled.waiting with _ | ⟨_ | below, more⟩
  · exact Nat.zero_le _
  · exact of_decide_eq_true (htop _ more hwaiting)
  · exact Nat.zero_le _

/-- A group that is closed is an expression of its own, and the stacks are as they were before
it. -/
theorem closeParen {group : Expr} {rest : Yard} (h : Stacked limits t d waiting operands t₁)
    (hright : ∀ n, Derives limits (.expression n) d t₁ [right] t₂)
    (hclose : Yard.closeParen ⟨right :: operands, waiting⟩ = some (group, rest)) :
    ∃ d' t', d = d'.inParen ∧ d'.parens + 1 ≤ limits.maxParenDepth ∧
      Stacked limits t d' rest.waiting rest.operands t' ∧
      Derives limits (.expression 0) d t' [group] t₂ := by
  rw [Yard.closeParen] at hclose
  split at hclose
  · next hsettle =>
    split_ifs at hclose
    cases hclose
    obtain ⟨e, rest', t', hoperands, hstack, he, -⟩ :=
      h.settle (hright (demand waiting)) (Nat.le_refl _) (Nat.zero_le _) (fun _ _ ↦ Nat.zero_le _)
        hsettle
    cases hoperands
    cases hstack with
    | paren hstack hbound => exact ⟨_, _, rfl, hbound, hstack, he⟩
  · cases hclose

/-- When nothing waits any more, the operand left is the expression. -/
theorem finish {e : Expr} (h : Stacked limits t d waiting operands t₁)
    (hright : ∀ n, Derives limits (.expression n) d t₁ [right] t₂)
    (hfinish : Yard.finish ⟨right :: operands, waiting⟩ = some e) :
    Derives limits (.expression 0) d t [e] t₂ := by
  rw [Yard.finish] at hfinish
  split at hfinish
  · next hsettle =>
    cases hfinish
    obtain ⟨e, rest', t', hoperands, hstack, he, -⟩ :=
      h.settle (hright (demand waiting)) (Nat.le_refl _) (Nat.zero_le _) (fun _ _ ↦ Nat.zero_le _)
        hsettle
    cases hoperands
    cases hstack
    exact he
  · cases hfinish

end Stacked

end ScriptFront
