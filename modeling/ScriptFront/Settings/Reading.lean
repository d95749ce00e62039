import ScriptFront.Settings.Basic
import ScriptFront.Settings.Scan

/-!
# Settings from structured text

A record is read from named values, or from a sequence with the values in the order of the fields.
What is not given keeps its standard value. Names that are no field are passed over with their
values; a field given twice is a mismatch.

A record is described by its fields in order, each with the function that reads its value into the
record. The two ways of writing a record, and the treatment of missing, repeated and unknown names,
are defined once for all records.
-/

namespace ScriptFront.Settings

/-- A field of a record: its name, and how its value is read into the record. -/
structure Field (σ : Type) where
  name : String
  /-- Read the value into a record. -/
  read : σ → List Char → Except ReadError (σ × List Char)

/-! ## Values of fields -/

def readNatural (cs : List Char) : Except ReadError (Nat × List Char) :=
  match dropSpace cs with
  | [] => .error .truncated
  | c :: rest =>
    if c.isDigit then do
      let (numeral, rest) ← scanNumeral (c :: rest)
      match ← numeral.natural? with
      | some n => .ok (n, rest)
      | none => .error .mismatch
    else mismatchAt (c :: rest)

def readText (cs : List Char) : Except ReadError (String × List Char) :=
  match dropSpace cs with
  | '"' :: rest => scanWanted rest
  | cs => mismatchAt cs

def readChar (cs : List Char) : Except ReadError (Char × List Char) := do
  let (s, rest) ← readText cs
  match s.toList with
  | [c] => .ok (c, rest)
  | _ => .error .mismatch

/-- A text, or null for none. -/
def readOptionalText (cs : List Char) : Except ReadError (Option String × List Char) :=
  match dropSpace cs with
  | 'n' :: rest => (scanWord "ull".toList rest).map fun rest ↦ (none, rest)
  | cs => (readText cs).map fun (s, rest) ↦ (some s, rest)

/-! ## Records -/

variable {σ : Type}

/-- The fields of a record in sequence, the first of them being `first`. Fields that are not given
are left alone. -/
def readInOrder :
    (first : Bool) → List (Field σ) → σ → List Char → Except ReadError (σ × List Char)
  | _, [], record, cs =>
    match dropSpace cs with
    | [] => .error .truncated
    | ']' :: rest => .ok (record, rest)
    | _ => .error .malformed
  | first, field :: fields, record, cs =>
    match dropSpace cs with
    | [] => .error .truncated
    | ']' :: rest => .ok (record, rest)
    | c :: rest =>
      let element : Except ReadError (List Char) :=
        if first then .ok (c :: rest)
        else if c = ',' then
          match dropSpace rest with
          | [] => .error .truncated
          | ']' :: _ => .error .malformed
          | cs => .ok cs
        else .error .malformed
      match element with
      | .error e => .error e
      | .ok cs =>
        match field.read record cs with
        | .error e => .error e
        | .ok (record, cs) => readInOrder false fields record cs

/-- The colon behind a name, up to the value. -/
def readColon (cs : List Char) : Except ReadError (List Char) :=
  match dropSpace cs with
  | [] => .error .truncated
  | ':' :: rest => .ok rest
  | _ => .error .malformed

/-- One name behind its opening quote, and its value. `seen` are the fields given before. -/
def readNamed (fields : List (Field σ)) (seen : List String) (record : σ) (cs : List Char) :
    Except ReadError ((σ × List String) × List Char) := do
  let (name, cs) ← scanWanted cs
  match fields.find? fun f ↦ f.name == name with
  | none =>
    let rest ← skipValue (← readColon cs)
    .ok ((record, seen), rest)
  | some field =>
    if seen.contains name then .error .mismatch
    else
      let (record, rest) ← field.read record (← readColon cs)
      .ok ((record, name :: seen), rest)

/-- Named values up to the closing brace, the next one being the first if `first` holds; `fuel`
bounds their number. -/
def readByName (fields : List (Field σ)) :
    (fuel : Nat) → (first : Bool) → List String → σ → List Char →
      Except ReadError (σ × List Char)
  | 0, _, _, _, _ => .error .truncated
  | fuel + 1, first, seen, record, cs =>
    match dropSpace cs with
    | [] => .error .truncated
    | '\x7d' :: rest => .ok (record, rest)
    | c :: rest =>
      let named : Except ReadError (List Char) :=
        if first then .ok (c :: rest)
        else if c = ',' then
          match dropSpace rest with
          | [] => .error .truncated
          | cs => .ok cs
        else .error .malformed
      match named with
      | .error e => .error e
      | .ok ('"' :: rest) =>
        match readNamed fields seen record rest with
        | .error e => .error e
        | .ok ((record, seen), rest) => readByName fields fuel false seen record rest
      | .ok _ => .error .malformed

/-- A record, given its fields and the values of those that are not given. -/
def readRecord (fields : List (Field σ)) (standard : σ) (cs : List Char) :
    Except ReadError (σ × List Char) :=
  match dropSpace cs with
  | '[' :: rest => readInOrder true fields standard rest
  | '\x7b' :: rest => readByName fields (rest.length + 1) true [] standard rest
  | cs => mismatchAt cs

/-- A field from the reader of its value and the change it makes to a record. -/
def field {α : Type} (name : String) (read : List Char → Except ReadError (α × List Char))
    (set : σ → α → σ) : Field σ :=
  ⟨name, fun record cs ↦ (read cs).map fun (a, rest) ↦ (set record a, rest)⟩

/-! ## The records of settings -/

/-- The fields of the bounds. -/
def limitFields : List (Field Limits) :=
  [field "max_script_length" readNatural fun l n ↦ { l with maxScriptLength := n },
    field "max_statement_depth" readNatural fun l n ↦ { l with maxStatementDepth := n },
    field "max_call_depth" readNatural fun l n ↦ { l with maxCallDepth := n },
    field "max_member_depth" readNatural fun l n ↦ { l with maxMemberDepth := n },
    field "max_paren_depth" readNatural fun l n ↦ { l with maxParenDepth := n },
    field "max_expression_depth" readNatural fun l n ↦ { l with maxExpressionDepth := n },
    field "max_interpolation_depth" readNatural fun l n ↦ { l with maxInterpolationDepth := n },
    field "max_params" readNatural fun l n ↦ { l with maxParams := n },
    field "max_aliases" readNatural fun l n ↦ { l with maxAliases := n }]

/-- The fields of the settings. -/
def settingFields : List (Field Settings) :=
  [field "interpolation_marker" readChar fun s c ↦ { s with marker := c },
    field "lookahead" readNatural fun s n ↦ { s with lookahead := n },
    field "limits" (readRecord limitFields .standard) fun s l ↦ { s with limits := l },
    field "file" readOptionalText fun s f ↦ { s with file := f }]

/-- The settings written in a structured text, behind which nothing may follow. -/
def ofText (text : String) : Except ReadError Settings := do
  let (settings, rest) ← readRecord settingFields standard text.toList
  if (dropSpace rest).isEmpty then .ok settings else .error .malformed

end ScriptFront.Settings
