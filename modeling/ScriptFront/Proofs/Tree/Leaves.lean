import Mathlib.Data.List.Forall2
import ScriptFront.Proofs.Tree.Places
import ScriptFront.Token.Basic

/-!
# The leaves of a tree and of a text

Operators, brackets and reserved words shape a tree, and what is left of the text are its operands:
names and literals. `Expr.leaves` lists those of a tree in the order of the text, and `tokenLeaves`
those of a list of tokens, a string with embedded sections standing for its parts. `TokenLeaf.Meets`
says which leaf of a tree may come of which leaf of a text.

The full name of a call keeps its segments in one string, so these are cut apart at the dots again.
-/

namespace ScriptFront

/-! ## Leaves of trees -/

/-- An operand of a tree. -/
inductive TreeLeaf where
  /-- A name: of a variable, a member, a parameter, a function or one of its aliases, or a segment
  of the full name of a call. -/
  | name (text : String)
  /-- The key of a map entry. -/
  | key (text : String)
  /-- A constant other than the absent value. -/
  | value (value : Value)

/-- The segments of a full name. -/
def segments (name : String) : List String := (name.toList.splitOn '.').map String.ofList

/-- The leaf of a constant. The absent value is none: it also stands for what was left out. -/
def Value.leaves : Value → List TreeLeaf
  | .null => []
  | v => [.value v]

/-- The names in a signature, in the order of a declaration. -/
def Signature.leaves (signature : Signature) : List TreeLeaf :=
  .name signature.name :: (signature.aliases ++ signature.params).map .name

mutual

/-- The leaves of a tree, in the order of the text. -/
def Expr.leaves : Expr → List TreeLeaf
  | .mk form _ _ => form.leaves

/-- The leaves of a form. -/
def Form.leaves : Form → List TreeLeaf
  | .constant value => value.leaves
  | .var name => [.name name]
  | .unary _ operand => operand.leaves
  | .binary _ left right => left.leaves ++ right.leaves
  | .compare _ left right => left.leaves ++ right.leaves
  | .condition _ left right => left.leaves ++ right.leaves
  | .assign target _ value _ => target.leaves ++ leavesOption value
  | .multiAssign entries => leavesList entries
  | .index target key => target.leaves ++ key.leaves
  | .member target name => target.leaves ++ [.name name]
  | .call callee args => callee.leaves ++ leavesList args
  | .array items => leavesList items
  | .map entries => leavesEntries entries
  | .block statements => leavesList statements
  | .conditional condition thenBranch elseBranch =>
    condition.leaves ++ thenBranch.leaves ++ leavesOption elseBranch
  | .whileLoop condition body => condition.leaves ++ body.leaves
  | .forLoop initial condition increment body =>
    initial.leaves ++ condition.leaves ++ increment.leaves ++ body.leaves
  | .forEach name source body => .name name :: source.leaves ++ body.leaves
  | .tryCatch body errorName handler => body.leaves ++ .name errorName :: handler.leaves
  | .functionDecl decl => decl.signature.leaves ++ decl.bodyLeaves
  | .lambda decl => decl.signature.params.map .name ++ decl.bodyLeaves
  | .returning value => leavesOption value
  | .breakLoop => []
  | .continueLoop => []
  | .throwing value => value.leaves
  | .interpolated pieces => leavesList pieces
  | .bindingCall _ args => leavesList args

/-- The leaves of what a call invokes. -/
def Callee.leaves : Callee → List TreeLeaf
  | .named name => (segments name).map .name
  | .computed target => target.leaves

/-- The leaves of the body of a function. -/
def FunctionDecl.bodyLeaves : FunctionDecl → List TreeLeaf
  | .mk _ body _ _ => leavesList body

/-- The leaves of a node that may be missing. -/
def leavesOption : Option Expr → List TreeLeaf
  | none => []
  | some e => e.leaves

/-- The leaves of several nodes. -/
def leavesList : List Expr → List TreeLeaf
  | [] => []
  | e :: rest => e.leaves ++ leavesList rest

/-- The leaves of the entries of a map. -/
def leavesEntries : List MapEntry → List TreeLeaf
  | [] => []
  | .mk key value :: rest => .key key :: value.leaves ++ leavesEntries rest

end

theorem leavesList_eq_flatMap (items : List Expr) :
    leavesList items = items.flatMap Expr.leaves := by
  induction items with
  | nil => rfl
  | cons e rest ih => rw [leavesList, ih, List.flatMap_cons]

theorem leavesList_append (items more : List Expr) :
    leavesList (items ++ more) = leavesList items ++ leavesList more := by
  simp [leavesList_eq_flatMap]

theorem leavesEntries_append (entries more : List MapEntry) :
    leavesEntries (entries ++ more) = leavesEntries entries ++ leavesEntries more := by
  induction entries with
  | nil => rfl
  | cons entry rest ih =>
    obtain ⟨key, value⟩ := entry
    simp [leavesEntries, ih]

@[simp] theorem Expr.leaves_moveTo (e : Expr) (position : Position) :
    (e.moveTo position).leaves = e.leaves := by
  cases e
  rfl

@[simp] theorem Expr.leaves_inScope (e : Expr) (scope : ScopeId) :
    (e.inScope scope).leaves = e.leaves := by
  cases e
  rfl

theorem Expr.leaves_operation (op : Operator) (left right : Expr) :
    (Expr.operation op left right).leaves = left.leaves ++ right.leaves := by
  cases op <;> rfl

/-- A full name is made of the segments it was made from. -/
theorem segments_intercalate {names : List String} (hne : names ≠ [])
    (hdots : ∀ name ∈ names, '.' ∉ name.toList) : segments (".".intercalate names) = names := by
  have hlists : (names.map String.toList) ≠ [] := by simpa using hne
  have hnodot : ∀ l ∈ names.map String.toList, '.' ∉ l := by simpa using hdots
  have hsplit := List.splitOn_intercalate '.' hnodot hlists
  rw [segments, String.toList_intercalate, show ".".toList = ['.'] from rfl, hsplit, List.map_map]
  simp

theorem segments_of_no_dot {name : String} (h : '.' ∉ name.toList) : segments name = [name] := by
  have hsingle : segments (".".intercalate [name]) = [name] :=
    segments_intercalate (by simp) (by simpa using h)
  rwa [String.intercalate_singleton] at hsingle

/-! ## Leaves of texts -/

/-- An operand of a text. -/
inductive TokenLeaf where
  /-- A name. -/
  | ident (text : String)
  /-- A number as written, and its value. -/
  | number (text : String) (value : Number)
  /-- A string literal or literal text between sections, decoded. -/
  | str (value : String)
  /-- A truth value. -/
  | bool (value : Bool)

mutual

/-- The leaves of a lexeme. -/
def Lexeme.leaves : Lexeme → List TokenLeaf
  | .ident text => [.ident text]
  | .number text value => [.number text value]
  | .str _ value => [.str value]
  | .bool value => [.bool value]
  | .interpolated _ parts => sectionLeaves parts
  | _ => []

/-- The leaves of the parts of a string literal. -/
def sectionLeaves : List Section → List TokenLeaf
  | [] => []
  | .text value :: rest => .str value :: sectionLeaves rest
  | .tokens tokens :: rest => tokenLeaves tokens ++ sectionLeaves rest

/-- The leaves of tokens. -/
def tokenLeaves : List Token → List TokenLeaf
  | [] => []
  | .mk lexeme _ _ _ :: rest => lexeme.leaves ++ tokenLeaves rest

end

theorem tokenLeaves_cons (t : Token) (rest : List Token) :
    tokenLeaves (t :: rest) = t.lexeme.leaves ++ tokenLeaves rest := by
  cases t
  rfl

theorem tokenLeaves_eq_flatMap (tokens : List Token) :
    tokenLeaves tokens = tokens.flatMap (·.lexeme.leaves) := by
  induction tokens with
  | nil => rfl
  | cons t rest ih => rw [tokenLeaves_cons, ih, List.flatMap_cons]

theorem tokenLeaves_append (tokens more : List Token) :
    tokenLeaves (tokens ++ more) = tokenLeaves tokens ++ tokenLeaves more := by
  simp [tokenLeaves_eq_flatMap]

/-! ## Which leaf becomes of which -/

/-- The number without its sign. -/
def Number.magnitude : Number → Number
  | .finite _ mantissa exponent => .finite false mantissa exponent
  | .infinite _ => .infinite false
  | .nan _ => .nan false

@[simp] theorem Number.magnitude_negate (n : Number) : n.negate.magnitude = n.magnitude := by
  cases n <;> rfl

/-- A leaf of a text becomes a leaf of a tree. -/
inductive TokenLeaf.Meets : TokenLeaf → TreeLeaf → Prop
  /-- A name stays a name. -/
  | name (text : String) : Meets (.ident text) (.name text)
  /-- A name is the key of an entry. -/
  | nameKey (text : String) : Meets (.ident text) (.key text)
  /-- A text is a constant. -/
  | text (value : String) : Meets (.str value) (.value (.str value))
  /-- A text is the key of an entry. -/
  | textKey (value : String) : Meets (.str value) (.key value)
  /-- A truth value is a constant. -/
  | bool (value : Bool) : Meets (.bool value) (.value (.bool value))
  /-- A number is a constant, perhaps with a minus sign. -/
  | number (text : String) {written n : Number} (h : n.magnitude = written.magnitude) :
    Meets (.number text written) (.value (.number n))
  /-- A number is the key of an entry, as written. -/
  | numberKey (text : String) (value : Number) : Meets (.number text value) (.key text)

/-- The leaves of the tokens become these leaves, one by one and in this order. -/
def Accounts (tokens : List Token) (leaves : List TreeLeaf) : Prop :=
  List.Forall₂ TokenLeaf.Meets (tokenLeaves tokens) leaves

theorem accounts_nil : Accounts [] [] := .nil

theorem Accounts.append {tokens more : List Token} {leaves leaves' : List TreeLeaf}
    (h : Accounts tokens leaves) (h' : Accounts more leaves') :
    Accounts (tokens ++ more) (leaves ++ leaves') := by
  rw [Accounts, tokenLeaves_append]
  exact List.rel_append h h'

/-- A token without leaves adds nothing. -/
theorem Accounts.cons_of_leaves_eq_nil {t : Token} {tokens : List Token} {leaves : List TreeLeaf}
    (ht : t.lexeme.leaves = []) (h : Accounts tokens leaves) : Accounts (t :: tokens) leaves := by
  rw [Accounts, tokenLeaves_cons, ht]
  exact h

end ScriptFront
