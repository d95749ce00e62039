import ScriptFront.Error
import ScriptFront.Tree.Basic

/-!
# Symbols and scopes

While a script is parsed, its names are kept in nested scopes. All scopes of a script live in one
table and are known by their numbers, which the nodes of the syntax tree record; leaving a scope
only moves the current number back to the parent, and the scope itself stays where it is.

A name is looked up in the current scope and then outward along the parents. The entries of a scope
are sorted by name, so that a table is determined by what was defined in it, whatever the order.

## Functions and their other names

An alias is a symbol of its own that holds the name of its target, so what it stands for is looked
up again by that name. A function may also answer to names that no symbol has: one with a wildcard
answers to every longer name that starts with its own. `SymbolTable.function?` asks for these only
after all symbols in sight, so a wildcard never hides a definition.

The declaration of a function is not known yet when its name is defined, since its body may call
it. It is attached to the entry of the name when the body has been parsed.
-/

namespace ScriptFront

/-- What a scope belongs to. -/
inductive ScopeKind where
  /-- The script as a whole. -/
  | global
  /-- The body of a function. -/
  | function
  | block
deriving DecidableEq, Repr

/-- What a name stands for. -/
inductive SymbolKind where
  | var
  /-- A function; its declaration is known once its body was parsed. -/
  | function (signature : Signature) (decl : Option FunctionDecl)
  /-- A module of the host. -/
  | hostModule
  /-- Another name for `target`. -/
  | alias (target : String)

/-- A defined name. -/
structure Symbol where
  name : String
  kind : SymbolKind
  /-- The scope it was defined in. -/
  scope : ScopeId

/-- The function that a symbol stands for. -/
def Symbol.function? (s : Symbol) : Option Signature :=
  match s.kind with
  | .function signature _ => some signature
  | _ => none

structure Scope where
  /-- What the scope belongs to. -/
  kind : ScopeKind
  /-- The enclosing scope; only the global scope has none. -/
  parent : Option ScopeId
  /-- The symbols by name, in order of the names. -/
  symbols : List (String × Symbol)

namespace Scope

def empty (kind : ScopeKind) (parent : Option ScopeId) : Scope := ⟨kind, parent, []⟩

/-- The list of entries with one more, in its place; an entry of that name is replaced. -/
def insertSorted (name : String) (symbol : Symbol) :
    List (String × Symbol) → List (String × Symbol)
  | [] => [(name, symbol)]
  | (other, s) :: rest =>
    if name < other then (name, symbol) :: (other, s) :: rest
    else if name = other then (name, symbol) :: rest
    else (other, s) :: insertSorted name symbol rest

def get? (s : Scope) (name : String) : Option Symbol := s.symbols.lookup name

def contains (s : Scope) (name : String) : Bool := (s.get? name).isSome

def insert (s : Scope) (symbol : Symbol) : Scope :=
  { s with symbols := insertSorted symbol.name symbol s.symbols }

end Scope

/-- The scopes of a script, and the one being parsed. -/
structure SymbolTable where
  /-- The scopes by number. -/
  scopes : Array Scope
  current : ScopeId

namespace SymbolTable

def empty : SymbolTable := ⟨#[.empty .global none], globalScope⟩

instance : Inhabited SymbolTable := ⟨empty⟩

/-- The scope with a number. -/
def scope? (t : SymbolTable) (id : ScopeId) : Option Scope := t.scopes[id]?

def scopeCount (t : SymbolTable) : Nat := t.scopes.size

/-- The scopes from `id` outward, with their numbers; `fuel` bounds their number. -/
def outward (t : SymbolTable) : (fuel : Nat) → ScopeId → List (ScopeId × Scope)
  | 0, _ => []
  | fuel + 1, id =>
    match t.scopes[id]? with
    | none => []
    | some s =>
      (id, s) :: match s.parent with
        | none => []
        | some parent => outward t fuel parent

/-- The scopes from the current one outward. A parent has a smaller number than its child, so there
are no more than the current number admits. -/
def visible (t : SymbolTable) : List (ScopeId × Scope) := t.outward (t.current + 1) t.current

/-- How many scopes enclose the current one. -/
def depth (t : SymbolTable) : Nat := t.visible.length - 1

/-! ## Entering and leaving scopes -/

/-- Open a scope inside the current one and make it current. -/
def push (t : SymbolTable) (kind : ScopeKind) : ScopeId × SymbolTable :=
  (t.scopes.size, ⟨t.scopes.push (.empty kind (some t.current)), t.scopes.size⟩)

/-- Make the parent of the current scope current. -/
def pop (t : SymbolTable) : Except Cause (ScopeId × SymbolTable) :=
  match (t.scopes[t.current]?).bind Scope.parent with
  | none => .error .scopeUnderflow
  | some parent => .ok (parent, { t with current := parent })

/-! ## Defining names -/

/-- Define a name in the current scope. -/
def define (t : SymbolTable) (name : String) (kind : SymbolKind) : SymbolTable :=
  { t with scopes := t.scopes.modify t.current fun s ↦ s.insert ⟨name, kind, t.current⟩ }

def defineVar (t : SymbolTable) (name : String) : SymbolTable := t.define name .var

def defineModule (t : SymbolTable) (name : String) : SymbolTable := t.define name .hostModule

/-- Define another name for `target`. -/
def defineAlias (t : SymbolTable) (name target : String) : SymbolTable :=
  t.define name (.alias target)

/-- Define a function, after its aliases. -/
def defineFunction (t : SymbolTable) (signature : Signature) : SymbolTable :=
  let named := signature.aliases.foldl (fun t name ↦ t.defineAlias name signature.name) t
  named.define signature.name (.function signature none)

/-! ## Looking names up -/

/-- The number of the nearest scope that defines a name. -/
def scopeOf? (t : SymbolTable) (name : String) : Option ScopeId :=
  (t.visible.find? fun (_, s) ↦ s.contains name).map (·.1)

/-- The nearest symbol under a name. -/
def symbol? (t : SymbolTable) (name : String) : Option Symbol :=
  t.visible.findSome? fun (_, s) ↦ s.get? name

def definesLocally (t : SymbolTable) (name : String) : Bool :=
  ((t.scopes[t.current]?).map (·.contains name)).getD false

def contains (t : SymbolTable) (name : String) : Bool := (t.symbol? name).isSome

/-- Whether a name stands for a variable. -/
def isVar (t : SymbolTable) (name : String) : Bool :=
  match t.symbol? name with
  | some ⟨_, .var, _⟩ => true
  | _ => false

def isModule (t : SymbolTable) (name : String) : Bool :=
  match t.symbol? name with
  | some ⟨_, .hostModule, _⟩ => true
  | _ => false

/-- The function that is reached by a name of no symbol: the first in sight that answers to it. -/
def wildcard? (t : SymbolTable) (name : String) : Option Signature :=
  (t.visible.flatMap fun (_, s) ↦ s.symbols).findSome? fun (_, symbol) ↦
    symbol.function?.filter (·.covers name)

/-- The function reached by a name: a function of that name, the function an alias of that name
stands for, or, if nothing has that name, a function whose name it extends. -/
def function? (t : SymbolTable) (name : String) : Option Signature :=
  match t.symbol? name with
  | some symbol =>
    match symbol.kind with
    | .function signature _ => some signature
    | .alias target => (t.symbol? target).bind Symbol.function?
    | _ => none
  | none => t.wildcard? name

def isFunction (t : SymbolTable) (name : String) : Bool := (t.function? name).isSome

/-- The declaration of the function reached by a name. -/
def functionDecl? (t : SymbolTable) (name : String) : Option FunctionDecl :=
  match (t.function? name).bind fun signature ↦ t.symbol? signature.name with
  | some ⟨_, .function _ decl, _⟩ => decl
  | _ => none

/-- The symbol with a declaration attached, if it is a function. -/
def attach (decl : FunctionDecl) (s : Symbol) : Symbol :=
  match s.kind with
  | .function signature _ => { s with kind := .function signature (some decl) }
  | _ => s

/-- Attach a declaration to the nearest symbol under a name, if it is a function. -/
def attachDecl (t : SymbolTable) (name : String) (decl : FunctionDecl) : SymbolTable :=
  match t.scopeOf? name with
  | none => t
  | some id =>
    { t with
      scopes := t.scopes.modify id fun s ↦
        { s with
          symbols := s.symbols.map fun (other, symbol) ↦
            (other, if other = name then attach decl symbol else symbol) } }

end SymbolTable

end ScriptFront
