import ScriptFront.Frontend

/-!
# Extensions from recipes

An extension can be written down as data: what it matches, and a list of actions that run on the
live parser and collect arguments. Its node is a call into the host under the name of the
extension. Extensions of the lexer have recipes too, which say what to read behind a claimed token
and what to make of it.
-/

namespace ScriptFront

/-- A step of a builder. -/
inductive Action where
  | advance (count : Nat) (passNewLine : Bool)
  | expression
  | operand
  /-- Collect a statement, or the absent value at the end of the tokens. -/
  | statement
  /-- Collect the block of all statements up to a token, which is left. -/
  | statementsUntil (text : String)
  | expect (text : String) (passNewLine : Bool)
  | expectName (passNewLine : Bool)
  | skipNewLines
  | pushScope (kind : ScopeKind)
  | popScope
  | defineVar (name : String)
  /-- Define a variable named by the text of a capture. -/
  | defineCapture (name : String)
  | defineFunction (signature : Signature)
  /-- Collect all captures as a map. -/
  | captures
  /-- Collect the spelling of the current token. -/
  | current
  | fail (message : String)

namespace Action

/-- All statements up to a token, after those in `done`, which come last one first; `fuel` bounds
their number. -/
def statementsWithin (sub : Subparser) (text : String) :
    (fuel : Nat) → List Expr → Parse (List Expr)
  | 0, _ => Parse.failFuel
  | fuel + 1, done => do
    Parse.skipNewLines
    if (← Parse.is text) || (← Parse.isEnded) then return done.reverse
    match ← sub .statement with
    | some e => statementsWithin sub text fuel (e :: done)
    | none => statementsWithin sub text fuel done

def run (sub : Subparser) (found : Match) : Action → Parse (List Expr)
  | .advance count passNewLine => do
    Parse.advance count passNewLine
    return []
  | .expression => return [← sub (.expression false)]
  | .operand => return [← sub .operand]
  | .statement => return [(← sub .statement).getD .null]
  | .statementsUntil text => do
    let statements ← statementsWithin sub text (← Parse.rounds) []
    return [(Expr.ofForm (.block statements)).inScope (← Parse.scope)]
  | .expect text passNewLine => do
    Parse.expect text passNewLine
    return []
  | .expectName passNewLine => do
    let start ← Parse.position
    let name ← Parse.expectName passNewLine
    return [← Parse.node (.var name) start]
  | .skipNewLines => do
    Parse.skipNewLines
    return []
  | .pushScope kind => do
    discard (Parse.pushScope kind)
    return []
  | .popScope => do
    Parse.popScope
    return []
  | .defineVar name => do
    Parse.modifySymbols fun t ↦ t.defineVar name
    return []
  | .defineCapture name => do
    let text := (found.captures.text? name).getD "<none>"
    Parse.modifySymbols fun t ↦ t.defineVar text
    return []
  | .defineFunction signature => do
    Parse.modifySymbols fun t ↦ t.defineFunction signature
    return []
  | .captures =>
    return [.ofForm (.map (found.captures.sorted.map fun (k, v) ↦ .mk k (.constant v)))]
  | .current => return [.string (← Parse.current).text]
  | .fail message => Parse.fail (.invalidStatement message)

/-- Run steps one after the other, after those that collected `args`. -/
def runAll (sub : Subparser) (found : Match) : List Action → List Expr → Parse (List Expr)
  | [], args => return args
  | action :: rest, args => do
    let more ← run sub found action
    runAll sub found rest (args ++ more)

end Action

/-- An extension as data. -/
structure Recipe where
  /-- The name it is listed under, and the name its nodes call. -/
  name : String
  kind : ExtensionKind
  /-- The tokens it may start at. -/
  starts : List Trigger
  pattern : Option String
  /-- After how many required elements the pattern may end early. -/
  minRequired : Option Nat
  /-- Whether it leaves alone names that are defined. -/
  skipDefined : Bool
  firstMap : List (String × Value)
  secondMap : List (String × Value)
  /-- The steps of its builder, if it builds. -/
  steps : Option (List Action)
  /-- The lexeme that takes the place of what it matched, if it replaces. -/
  replacement : Option Lexeme

/-- The extension that a recipe describes. -/
def Recipe.extension (r : Recipe) : Extension where
  name := r.name
  kind := r.kind
  starts := r.starts
  pattern := r.pattern
  minRequired := r.minRequired
  canStart t symbols := !r.skipDefined || Extension.undefinedName t symbols
  firstMap text := r.firstMap.lookup text
  secondMap text := r.secondMap.lookup text
  build :=
    match r.steps with
    | none => Extension.buildsNothing r.name
    | some steps => fun sub found ↦ do
      let args ← Action.runAll sub found steps []
      return .bindingCall r.name args
  replace _ _ := r.replacement

/-! ## Lexical recipes -/

/-- What is read behind a claimed token. -/
inductive Taking where
  | name
  /-- A number, after one character. -/
  | number
  /-- The rest of the line. -/
  | line
  /-- Spaces and tabs. -/
  | whitespace
  /-- Text between grave accents, with the circumflex as its mark. -/
  | quoted
  /-- Text up to two closing angles. -/
  | untilAngles
  | nothing
deriving DecidableEq, Repr

/-- Read what a recipe takes. -/
def Taking.scan (k : Taking) (c : Cursor) : Except ScriptError Run × Cursor :=
  let ok : Run × Cursor → Except ScriptError Run × Cursor := fun (run, c) ↦ (.ok run, c)
  match k with
  | .name => ok (c.scanName ⟨true, false⟩)
  | .number => ok (c.scanNumber ⟨true, false⟩)
  | .line => ok (c.scanLine .plain)
  | .whitespace => ok (c.scanBlanks .plain)
  | .quoted => c.scanQuoted '\x60' '^' ⟨true, false⟩
  | .untilAngles => ok (c.scanUpTo '>' '>' .plain)
  | .nothing => (.ok ⟨"", true, 0⟩, c)

/-- What is made of a claimed token and the text behind it. -/
inductive Making where
  /-- A string literal made up from the text. -/
  | string
  | ident
  /-- A number; a text that denotes none is zero. -/
  | number
  /-- A comment that consists of the token and the text. -/
  | comment
  /-- A string literal that is written as the token and the text, and means the text. -/
  | quoted
deriving DecidableEq, Repr

def Making.lexeme (m : Making) (token taken : String) : Lexeme :=
  match m with
  | .string => .string taken
  | .ident => .ident taken
  | .number => .number taken ((Number.ofText? taken).getD (.zero false))
  | .comment => .comment (token ++ taken)
  | .quoted => .str (token ++ taken) taken

/-- An extension of the lexer as data. -/
structure LexRecipe where
  /-- The name it is listed under. -/
  name : String
  /-- The spelling of the tokens it claims. -/
  text : String
  /-- What must follow a claimed token. -/
  next : Option String
  /-- What is read behind the token. -/
  taking : Taking
  /-- What is made of it. -/
  making : Making

def LexRecipe.extension (r : LexRecipe) : LexExtension where
  name := r.name
  claims t cursor := t.is r.text && r.next.all fun s ↦ s.toList.isPrefixOf cursor.rest
  lex t cursor :=
    match r.taking.scan cursor with
    | (.ok run, cursor) => (.ok (r.making.lexeme t.text run.text), cursor)
    | (.error e, cursor) => (.error e, cursor)

end ScriptFront
