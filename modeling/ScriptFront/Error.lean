import ScriptFront.Position

/-!
# What can go wrong with a script

A failure is a *cause* at a position, and possibly the name of the script it was found in. Causes
are data: every reader of this library decides on constructors, and the wording lives in
`Cause.message` alone.

Two causes say that the front end itself gave up rather than that the script is wrong.
`Cause.noProgress` is raised when a statement was read without moving the cursor, and
`Cause.outOfFuel` when a recursion or a loop was given too small a bound. Both are kept apart from
the causes a script can deserve, so that a statement can say they do not arise.
-/

namespace ScriptFront

/-- The broad class of a failure. -/
inductive Category where
  /-- The characters do not form tokens. -/
  | lexical
  /-- The tokens do not form statements. -/
  | syntactic
  /-- A resource bound was reached. -/
  | limit
deriving DecidableEq, Repr

/-- The name a message opens with. -/
def Category.name : Category → String
  | .lexical => "Lexical"
  | .syntactic => "Syntax"
  | .limit => "Limit"

/-- The kinds of nesting that have a bound. -/
inductive Nesting where
  /-- Sections inside strings of other sections. -/
  | interpolation
  /-- Blocks inside blocks. -/
  | statement
  /-- Calls inside call arguments. -/
  | call
  /-- Links of one chain. -/
  | memberAccess
  /-- Open parentheses. -/
  | parenthesis
  /-- Operands inside operands. -/
  | expression
deriving DecidableEq, Repr

/-- How a message names the nesting. -/
def Nesting.name : Nesting → String
  | .interpolation => "interpolation"
  | .statement => "statement"
  | .call => "call"
  | .memberAccess => "member access"
  | .parenthesis => "parenthesis"
  | .expression => "expression"

/-- The lists in a declaration that have a bound. -/
inductive Listing where
  | parameters
  | aliases
deriving DecidableEq, Repr

/-- How a message names the list. -/
def Listing.name : Listing → String
  | .parameters => "parameters"
  | .aliases => "aliases"

/-- Why a script was refused. -/
inductive Cause where
  /-- The text ended before the closing quote. -/
  | unterminatedString
  /-- The text ended before the brace that closes an embedded section. -/
  | unterminatedInterpolation
  /-- The text ended inside a block comment. -/
  | unterminatedComment
  /-- No token starts with this character. -/
  | unexpectedCharacter (char : Char)
  /-- A look further ahead than the window reaches. -/
  | lookaheadExceeded (requested window : Nat)
  /-- The global scope was asked for its parent. -/
  | scopeUnderflow
  /-- One particular thing was required; an empty `found` is the end of the script. -/
  | expected (wanted found : String)
  /-- A token that cannot stand here; the empty text is the end of the script. -/
  | unexpectedToken (text : String)
  /-- Two operands with no operator between them. -/
  | missingOperator (text : String)
  /-- A statement was read without moving past a token. -/
  | noProgress (text : String)
  /-- A recognised statement is malformed, in the words of the one who recognised it. -/
  | invalidStatement (message : String)
  /-- What stands left of an assignment cannot be assigned to. -/
  | invalidAssignmentTarget
  /-- The pattern of an extension does not compile. -/
  | invalidPattern (pattern message : String)
  /-- The script has more characters than allowed. -/
  | scriptTooLong (length max : Nat)
  /-- A nesting passed its bound. -/
  | nestingTooDeep (what : Nesting) (max : Nat)
  /-- A list of a declaration passed its bound. -/
  | tooMany (what : Listing) (max : Nat)
  /-- A recursion or loop ran to the end of the bound it was given. -/
  | outOfFuel
deriving DecidableEq, Repr

/-- The class a cause belongs to. -/
def Cause.category : Cause → Category
  | .unterminatedString | .unterminatedInterpolation | .unterminatedComment
  | .unexpectedCharacter _ | .lookaheadExceeded _ _ | .scopeUnderflow => .lexical
  | .expected _ _ | .unexpectedToken _ | .missingOperator _ | .noProgress _
  | .invalidStatement _ | .invalidAssignmentTarget | .invalidPattern _ _ => .syntactic
  | .scriptTooLong _ _ | .nestingTooDeep _ _ | .tooMany _ _ | .outOfFuel => .limit

/-- The wording of a cause, without its class and place. -/
def Cause.message : Cause → String
  | .unterminatedString => "unterminated string"
  | .unterminatedInterpolation => "unterminated interpolation, expected '\x7d'"
  | .unterminatedComment => "unterminated block comment"
  | .unexpectedCharacter char => "unexpected character: " ++ char.toString
  | .lookaheadExceeded requested window =>
    s!"cannot peek {requested} tokens ahead, lookahead window is {window}"
  | .scopeUnderflow => "cannot pop the global scope"
  | .expected wanted found =>
    if found = "" then s!"expected '{wanted}', reached end of script"
    else s!"expected '{wanted}', got '{found}'"
  | .unexpectedToken text =>
    if text = "" then "unexpected end of script" else s!"unexpected token '{text}'"
  | .missingOperator text => s!"expected an operator or end of expression before '{text}'"
  | .noProgress text => s!"parser did not advance at '{text}'"
  | .invalidStatement message => message
  | .invalidAssignmentTarget => "invalid assignment target"
  | .invalidPattern pattern message => s!"invalid grammar '{pattern}': {message}"
  | .scriptTooLong length max => s!"script length {length} exceeds the limit of {max}"
  | .nestingTooDeep what max => s!"{what.name} nesting exceeds the limit of {max}"
  | .tooMany what max => s!"more than {max} {what.name}"
  | .outOfFuel => "parsing exceeds its own bound"

/-- A cause with its place. -/
structure ScriptError where
  cause : Cause
  /-- Where it was noticed. -/
  position : Position
  /-- The script it was noticed in, when one was named. -/
  file : Option String
deriving DecidableEq, Repr

namespace ScriptError

/-- A failure in a script without a name. -/
def ofCause (position : Position) (cause : Cause) : ScriptError := ⟨cause, position, none⟩

def category (e : ScriptError) : Category := e.cause.category

/-- Name the script, unless a name is already attached. -/
def inFile (e : ScriptError) (file : Option String) : ScriptError :=
  { e with file := e.file <|> file }

/-- The whole line shown to a user. -/
def message (e : ScriptError) : String :=
  let place := match e.file with
    | none => ""
    | some file => " in " ++ file
  s!"{e.category.name} error: {e.cause.message} at line {e.position.line}, " ++
    s!"column {e.position.column}{place}"

end ScriptError

end ScriptFront
