import ScriptFront.Document.Outline
import ScriptFront.Extension.Matching
import ScriptFront.Pattern.Compile

/-!
# The registry of extensions

Extensions are kept in the order in which they were registered, with their patterns compiled. The
first one of the wanted kind that claims the tokens ahead wins; looking for it does not move the
cursor.

A registered extension keeps its pattern in compiled form, so a pattern that does not compile is
reported when the host sets itself up and not when a script is parsed. An extension without a
pattern claims every token it may start at, and leaves it to its builder to move over the tokens; a
match of a pattern covers one token at least.
-/

namespace ScriptFront

/-- A registered extension. -/
structure Registered where
  extension : Extension
  /-- Its pattern, compiled. -/
  elements : Option (List Element)
  /-- After how many required elements the pattern may end early. -/
  minRequired : Nat

namespace Registered

/-- Compile the pattern of an extension. -/
def ofExtension (extension : Extension) : Except ScriptError Registered :=
  match extension.pattern with
  | none => .ok ⟨extension, none, 0⟩
  | some pattern =>
    match Pattern.compile pattern with
    | .error e => .error e
    | .ok elements =>
      .ok ⟨extension, some elements,
        extension.minRequired.getD (Element.requiredCount elements)⟩

/-- Whether the extension may start at a token. -/
def mayStart (e : Registered) (t : Token) (symbols : SymbolTable) : Bool :=
  e.extension.starts.any (·.accepts t) && e.extension.canStart t symbols

/-- Whether the extension claims the tokens ahead: how many, and what it recorded. A match of a
pattern covers at least one token and stays within the reach of the window. -/
def claim (e : Registered) (symbols : SymbolTable) :
    WindowM Lexer (Option (Nat × Captures)) := fun w ↦
  if !e.mayStart w.current symbols then .ok none w
  else match e.elements with
    | none => .ok (some (0, .empty)) w
    | some elements =>
      match Matching.sequence ⟨e.extension, symbols⟩ e.minRequired 0 elements
          ⟨w, 0, .empty, false⟩ with
      | .error error s => .error error s.window
      | .ok matched s =>
        if matched && !s.overflowed && 0 < s.offset then
          .ok (some (s.offset, s.captures)) s.window
        else .ok none s.window

end Registered

/-- The extensions of a host. -/
structure Registry where
  entries : List Registered
  lexical : List LexExtension

namespace Registry

def empty : Registry := ⟨[], []⟩

instance : Inhabited Registry := ⟨empty⟩

/-- Add an extension, whose pattern must compile. -/
def register (r : Registry) (extension : Extension) : Except ScriptError Registry :=
  match Registered.ofExtension extension with
  | .error e => .error e
  | .ok entry => .ok { r with entries := r.entries ++ [entry] }

def registerLexical (r : Registry) (extension : LexExtension) : Registry :=
  { r with lexical := r.lexical ++ [extension] }

def get? (r : Registry) (index : Nat) : Option Extension :=
  (r.entries[index]?).map Registered.extension

def size (r : Registry) : Nat := r.entries.length

/-- Whether there is an extension of a kind. -/
def offers (r : Registry) (kind : ExtensionKind) : Bool :=
  r.entries.any (·.extension.kind == kind)

def names (r : Registry) : List String := r.entries.map (·.extension.name)

def lexicalNames (r : Registry) : List String := r.lexical.map (·.name)

/-- A line that lists the extensions. -/
def summary (r : Registry) : String :=
  let list (names : List String) : String :=
    "[" ++ ", ".intercalate (names.map Document.outlineText) ++ "]"
  "Registry \x7b plugins: " ++ list r.names ++ ", lex_plugins: " ++ list r.lexicalNames ++ " \x7d"

/-- The first of the entries of a kind, numbered from `index`, that claims the tokens ahead. -/
def findFrom (kind : ExtensionKind) (symbols : SymbolTable) :
    (index : Nat) → List Registered → WindowM Lexer (Option (Match × Extension))
  | _, [] => return none
  | index, e :: rest => do
    if e.extension.kind = kind then
      match ← e.claim symbols with
      | some (count, captures) => return some (⟨count, captures, index⟩, e.extension)
      | none => findFrom kind symbols (index + 1) rest
    else findFrom kind symbols (index + 1) rest

/-- The first extension of a kind that claims the tokens ahead. -/
def find (r : Registry) (kind : ExtensionKind) (symbols : SymbolTable) :
    WindowM Lexer (Option (Match × Extension)) := findFrom kind symbols 0 r.entries

end Registry

end ScriptFront
