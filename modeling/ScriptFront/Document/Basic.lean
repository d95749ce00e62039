import ScriptFront.Number.Basic

/-!
# Structured documents

Syntax trees, tokens and settings are shown to users in two forms, as an outline and as structured
data. Both are renderings of one description: a document names every type, constructor and field
it was made from, and each rendering takes what it needs of them.
-/

namespace ScriptFront

mutual

/-- A value described by its types, constructors and fields. -/
inductive Document where
  | natural (n : Nat)
  | integer (i : Int)
  /-- A number of a script. -/
  | number (n : Number)
  | text (s : String)
  | bool (b : Bool)
  /-- An optional value that is missing. -/
  | absent
  /-- An optional value that is there. -/
  | present (value : Document)
  | list (items : List Document)
  /-- Values side by side. -/
  | tuple (items : List Document)
  /-- Values under names that are data. -/
  | table (entries : List DocumentField)
  /-- The fields of a type. -/
  | record (type : String) (fields : List DocumentField)
  /-- A constructor without arguments. -/
  | unit (constructor : String)
  /-- A constructor with one unnamed argument. -/
  | wrap (constructor : String) (value : Document)
  /-- A constructor with named arguments. -/
  | variant (constructor : String) (fields : List DocumentField)

/-- A value under a name. -/
inductive DocumentField where
  /-- A field of every rendering. -/
  | shown (name : String) (value : Document)
  /-- A field that structured data leaves out. -/
  | outlined (name : String) (value : Document)

end

namespace Document

def ofOption {α : Type} (f : α → Document) : Option α → Document
  | none => .absent
  | some a => .present (f a)

def ofList {α : Type} (f : α → Document) (items : List α) : Document := .list (items.map f)

end Document

end ScriptFront
