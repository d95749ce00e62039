import ScriptFront.Number.Reading
import ScriptFront.Proofs.Tree.Places
import ScriptFront.Token.Vocabulary
import ScriptFront.Tree.Format

/-!
# Plain expressions

The part of the language that consists of operators and chains of links: names, constants, prefix,
postfix and infix operations, lists, elements, members and calls. The canonical text of such an
expression is described by its words: `Expr.words` lists the lexemes that the text consists of,
blanks left out.

`Expr.IsPlain` says that an expression is made of these, and that its words can be told apart in the
text. Names have to be names, strings must not embed a section, numbers must read back, and a minus
sign must not stand directly before another one, with which it would be read as one mark, nor before
a digit, with which it would be read as one number.

A plain statement is a plain expression or an assignment between two of them.
-/

namespace ScriptFront

/-! ## Size and height -/

mutual

/-- The number of nodes of a tree. -/
def Expr.size : Expr → Nat
  | .mk form _ _ => form.size + 1

/-- The number of nodes below a form. -/
def Form.size : Form → Nat
  | .constant _ | .var _ | .breakLoop | .continueLoop => 0
  | .unary _ operand => operand.size
  | .binary _ left right | .compare _ left right | .condition _ left right =>
    left.size + right.size
  | .assign target _ value _ => target.size + optionSize value
  | .multiAssign entries => listSize entries
  | .index target key => target.size + key.size
  | .member target _ => target.size
  | .call callee args => callee.size + listSize args
  | .array items => listSize items
  | .map entries => entriesSize entries
  | .block statements => listSize statements
  | .conditional condition thenBranch elseBranch =>
    condition.size + thenBranch.size + optionSize elseBranch
  | .whileLoop condition body => condition.size + body.size
  | .forLoop initial condition increment body =>
    initial.size + condition.size + increment.size + body.size
  | .forEach _ source body => source.size + body.size
  | .tryCatch body _ handler => body.size + handler.size
  | .functionDecl decl | .lambda decl => decl.size
  | .returning value => optionSize value
  | .throwing value => value.size
  | .interpolated pieces => listSize pieces
  | .bindingCall _ args => listSize args

/-- The number of nodes in what a call invokes. -/
def Callee.size : Callee → Nat
  | .named _ => 0
  | .computed target => target.size

/-- The number of nodes in the body of a function. -/
def FunctionDecl.size : FunctionDecl → Nat
  | .mk _ body _ _ => listSize body

/-- The number of nodes of a tree that may be missing. -/
def optionSize : Option Expr → Nat
  | none => 0
  | some e => e.size

/-- The number of nodes of several trees. -/
def listSize : List Expr → Nat
  | [] => 0
  | e :: rest => e.size + listSize rest

/-- The number of nodes in the entries of a map. -/
def entriesSize : List MapEntry → Nat
  | [] => 0
  | .mk _ value :: rest => value.size + entriesSize rest

end

theorem Expr.size_pos (e : Expr) : 0 < e.size := by
  obtain ⟨form, position, scope⟩ := e
  exact Nat.succ_pos _

mutual

/-- The greatest number of nodes on the way from the root of a plain expression to a leaf; an
argument list counts as a node. -/
def Expr.height : Expr → Nat
  | .mk form _ _ => form.height + 1

/-- The height of what is below a form. -/
def Form.height : Form → Nat
  | .unary _ operand => operand.height
  | .binary _ left right | .compare _ left right | .condition _ left right =>
    max left.height right.height
  | .index target key => max target.height key.height
  | .member target _ => target.height
  | .call (.computed target) args => max target.height (listHeight args + 1)
  | .array items => listHeight items
  | _ => 0

/-- The greatest height of several trees. -/
def listHeight : List Expr → Nat
  | [] => 0
  | e :: rest => max e.height (listHeight rest)

end

theorem Expr.height_pos (e : Expr) : 0 < e.height := by
  obtain ⟨form, position, scope⟩ := e
  exact Nat.succ_pos _

theorem listHeight_le_listSize {items : List Expr} (h : ∀ e ∈ items, e.height ≤ e.size) :
    listHeight items ≤ listSize items := by
  induction items with
  | nil => exact Nat.le_refl _
  | cons e rest ih =>
    rw [listHeight, listSize]
    have he := h e List.mem_cons_self
    have hrest := ih fun e he ↦ h e (List.mem_cons_of_mem _ he)
    omega

/-! ## Words -/

/-- The words of a constant. A minus sign is a word of its own. -/
def Value.words : Value → List Lexeme
  | .bool b => [.bool b]
  | .str s => [.str (Text.quote s) s]
  | .number n =>
    if n.isNegative then [.symbol "-", .number n.negate.text n.negate] else [.number n.text n]
  | _ => [.null]

/-- A mark as a word, if there is one. -/
def markWords (mark : String) : List Lexeme := if mark.isEmpty then [] else [.symbol mark]

/-- Words in parentheses. -/
def parenthesizedWords (words : List Lexeme) : List Lexeme :=
  .symbol "(" :: (words ++ [.symbol ")"])

/-- The words of an infix operation, without its parentheses. -/
def operationWords (op : Operator) (left right : List Lexeme) : List Lexeme :=
  left ++ .symbol op.symbol :: right

mutual

/-- The words of a plain expression. -/
def Expr.words : Expr → List Lexeme
  | .mk form _ _ => form.words

/-- The words of a form; forms that are not plain have none. -/
def Form.words : Form → List Lexeme
  | .constant value => value.words
  | .var name => [.ident name]
  | .unary op operand => markWords op.marks.1 ++ operand.words ++ markWords op.marks.2
  | .binary op left right =>
    parenthesizedWords (operationWords (.math op) left.words right.words)
  | .compare op left right =>
    parenthesizedWords (operationWords (.compare op) left.words right.words)
  | .condition op left right =>
    parenthesizedWords (operationWords (.logical op) left.words right.words)
  | .index target key => targetWords target ++ .symbol "[" :: (key.words ++ [.symbol "]"])
  | .member target name => targetWords target ++ [.symbol ".", .ident name]
  | .call (.computed target) args =>
    targetWords target ++ .symbol "(" :: (listWords args ++ [.symbol ")"])
  | .array items => .symbol "[" :: (listWords items ++ [.symbol "]"])
  | _ => []

/-- The words of the target of a link. -/
def targetWords : Expr → List Lexeme
  | .mk form _ _ => if Format.needsParens form then parenthesizedWords form.words else form.words

/-- The words of several expressions, with commas between them. -/
def listWords : List Expr → List Lexeme
  | [] => []
  | e :: rest => e.words ++ moreWords rest

/-- The words of further expressions, each after a comma. -/
def moreWords : List Expr → List Lexeme
  | [] => []
  | e :: rest => .symbol "," :: (e.words ++ moreWords rest)

end

/-! ## Plain expressions -/

/-- Words that stand for a literal. -/
def literalWords : List String := ["true", "false", "null"]

/-- A word that can be read back as a name. -/
structure IsName (name : String) : Prop where
  /-- It is made of the right characters. -/
  isWord : ∃ c rest, name.toList = c :: rest ∧ Text.isNameStart c = true ∧
    ∀ d ∈ rest, Text.isNameChar d = true
  /-- It is not reserved. -/
  notKeyword : name ∉ Lexeme.keywords
  /-- It is no literal. -/
  notLiteral : name ∉ literalWords

/-- A number without a sign that its text is read back as. -/
structure Number.IsWritten (n : Number) : Prop where
  /-- It is finite and not negative. -/
  finite : ∃ mantissa exponent, n = .finite false mantissa exponent
  /-- Its text is read as the number. -/
  reads : Number.ofText? n.text = some n

/-- Constants whose text is read back; no section begins in a string. -/
inductive Value.IsPlain : Value → Prop
  | null : IsPlain .null
  | bool (b : Bool) : IsPlain (.bool b)
  | str {s : String} (h : ¬ ['#', '\x7b'] <:+: s.toList) : IsPlain (.str s)
  | number {n : Number} (h : n.IsWritten) : IsPlain (.number n)
  | negative {n : Number} (h : n.IsWritten) : IsPlain (.number n.negate)

/-- A word that may stand directly behind a minus sign: with it, neither another sign nor a number
would be read as a word of its own. -/
def Lexeme.followsMinus : Lexeme → Bool
  | .number _ _ => false
  | .symbol mark => mark != "-" && mark != "--"
  | _ => true

/-- Expressions made of operators and links. -/
inductive Expr.IsPlain : Expr → Prop
  | var {name : String} {position : Position} {scope : ScopeId} (hname : IsName name) :
    IsPlain (.mk (.var name) position scope)
  | constant {value : Value} {position : Position} {scope : ScopeId} (hvalue : value.IsPlain) :
    IsPlain (.mk (.constant value) position scope)
  | not {operand : Expr} {position : Position} {scope : ScopeId} (h : IsPlain operand) :
    IsPlain (.mk (.unary .not operand) position scope)
  | negate {operand : Expr} {position : Position} {scope : ScopeId} (h : IsPlain operand)
    (hfirst : ∀ l ∈ operand.words.head?, l.followsMinus = true) :
    IsPlain (.mk (.unary .negate operand) position scope)
  | preChange {op : UnaryOp} {operand : Expr} {position : Position} {scope : ScopeId}
    (hop : op = .preIncrement ∨ op = .preDecrement) (h : IsPlain operand)
    (hassignable : operand.isAssignable = true) : IsPlain (.mk (.unary op operand) position scope)
  | postChange {op : UnaryOp} {operand : Expr} {position : Position} {scope : ScopeId}
    (hop : op = .postIncrement ∨ op = .postDecrement) (h : IsPlain operand)
    (hassignable : operand.isAssignable = true) : IsPlain (.mk (.unary op operand) position scope)
  | binary {op : MathOp} {left right : Expr} {position : Position} {scope : ScopeId}
    (hleft : IsPlain left) (hright : IsPlain right) :
    IsPlain (.mk (.binary op left right) position scope)
  | compare {op : CompareOp} {left right : Expr} {position : Position} {scope : ScopeId}
    (hleft : IsPlain left) (hright : IsPlain right) :
    IsPlain (.mk (.compare op left right) position scope)
  | condition {op : LogicalOp} {left right : Expr} {position : Position} {scope : ScopeId}
    (hleft : IsPlain left) (hright : IsPlain right) :
    IsPlain (.mk (.condition op left right) position scope)
  | array {items : List Expr} {position : Position} {scope : ScopeId}
    (hitems : ∀ e ∈ items, IsPlain e) : IsPlain (.mk (.array items) position scope)
  | index {target key : Expr} {position : Position} {scope : ScopeId} (htarget : IsPlain target)
    (hkey : IsPlain key) : IsPlain (.mk (.index target key) position scope)
  | member {target : Expr} {name : String} {position : Position} {scope : ScopeId}
    (htarget : IsPlain target) (hname : IsName name) :
    IsPlain (.mk (.member target name) position scope)
  | call {target : Expr} {args : List Expr} {position : Position} {scope : ScopeId}
    (htarget : IsPlain target) (hargs : ∀ e ∈ args, IsPlain e) :
    IsPlain (.mk (.call (.computed target) args) position scope)

theorem Expr.IsPlain.height_le_size {e : Expr} (h : e.IsPlain) : e.height ≤ e.size := by
  induction h with
  | var _
  | constant _ => exact Nat.le_refl _
  | not _ ih
  | negate _ _ ih
  | preChange _ _ _ ih
  | postChange _ _ _ ih
  | member _ _ ih =>
    simp only [Expr.height, Form.height, Expr.size, Form.size]
    omega
  | binary _ _ ihleft ihright
  | compare _ _ ihleft ihright
  | condition _ _ ihleft ihright
  | index _ _ ihleft ihright =>
    simp only [Expr.height, Form.height, Expr.size, Form.size]
    omega
  | array _ ih =>
    have hitems := listHeight_le_listSize ih
    simp only [Expr.height, Form.height, Expr.size, Form.size]
    omega
  | @call target args position scope _ _ ihtarget ihargs =>
    have hargs := listHeight_le_listSize ihargs
    have hpos := target.size_pos
    simp only [Expr.height, Form.height, Expr.size, Form.size, Callee.size]
    omega

/-! ## Plain statements -/

/-- A statement that is a plain expression or assigns one to another. -/
inductive Expr.IsPlainStatement : Expr → Prop
  | expression {e : Expr} (h : e.IsPlain) : IsPlainStatement e
  | assign {target value : Expr} {op : AssignOp} {position : Position} {scope : ScopeId}
    (htarget : target.IsPlain) (hassignable : target.isAssignable = true) (hvalue : value.IsPlain) :
    IsPlainStatement (.mk (.assign target op (some value) false) position scope)

/-- The words of a plain statement. -/
def Expr.statementWords : Expr → List Lexeme
  | .mk (.assign target op (some value) _) _ _ =>
    target.words ++ .symbol op.symbol :: value.words
  | e => e.words

/-- The greatest height of the expressions of a plain statement. -/
def Expr.statementHeight : Expr → Nat
  | .mk (.assign target _ (some value) _) _ _ => max target.height value.height
  | e => e.height

theorem Expr.statementHeight_of_isPlain {e : Expr} (h : e.IsPlain) :
    e.statementHeight = e.height := by
  cases h <;> rfl

theorem Expr.statementWords_of_isPlain {e : Expr} (h : e.IsPlain) : e.statementWords = e.words := by
  cases h <;> rfl

/-- The words of statements, one a line. -/
def lineWords : List Expr → List Lexeme
  | [] => []
  | e :: rest => e.statementWords ++ .newLine "\n" :: lineWords rest

end ScriptFront
