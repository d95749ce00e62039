import ScriptFront.Cursor.Scan
import ScriptFront.Lexer.Rules
import ScriptFront.Number.Reading
import ScriptFront.Token.Vocabulary

/-!
# From characters to tokens

A lexer cuts a text into tokens on demand. Its state is a cursor and a short queue of tokens that
were produced but not asked for yet, since one raw token can become several.

There are two ways to read on. `Lexer.readToken` yields the next *raw* token, blanks included, and
ignores rules. `Lexer.next?` yields the next *significant* token: blanks are dropped, extensions
and rules are applied, and the tokens are numbered. Batches, and the list of all tokens, are
repetitions of `next?`.

## Embedded sections

A double-quoted string may embed expressions. The text of a section ends at the brace that matches
its opening one, quoted text inside it being passed over, and is cut into tokens by a lexer of its
own that stands at the right place of the enclosing text. That lexer may in turn meet strings with
sections. The number of levels still allowed is a natural in the state of each lexer, and the
recursion is over it.
-/

namespace ScriptFront

/-- How a text is to be cut into tokens. -/
structure Dialect where
  /-- The character that opens an embedded section, in front of a brace. -/
  marker : Char
  rules : SpellingRules
  /-- Extensions, in order of precedence. -/
  extensions : List LexExtension
  /-- How deep embedded sections may be nested. -/
  maxNesting : Nat

/-- The marker of embedded sections unless another is chosen. -/
def Dialect.defaultMarker : Char := '#'

/-- The bound on the nesting of embedded sections unless another is chosen. -/
def Dialect.defaultNesting : Nat := 8

/-- A dialect without rules and extensions. -/
def Dialect.plain (marker : Char) : Dialect :=
  { marker, rules := .empty, extensions := [], maxNesting := defaultNesting }

/-- A text being cut into tokens. -/
structure Lexer where
  dialect : Dialect
  cursor : Cursor
  /-- The offset of the first character of the text. -/
  base : Nat
  /-- How many levels of embedded sections are still allowed. -/
  levels : Nat
  /-- How many tokens were numbered. -/
  index : Nat
  /-- Tokens produced but not asked for yet. -/
  queued : List Token
  /-- Whether the end of the text was produced. -/
  ended : Bool

/-- A computation that reads from a lexer. A failure leaves the lexer where it was noticed. -/
abbrev LexM := EStateM ScriptError Lexer

namespace Lexer

/-- A lexer in front of a text. -/
def ofText (dialect : Dialect) (text : String) : Lexer :=
  { dialect, cursor := .ofText text, base := 0, levels := dialect.maxNesting, index := 0,
    queued := [], ended := false }

/-- A lexer for an embedded section whose first character stands at `start` and `offset`. -/
def forSection (lx : Lexer) (start : Position) (offset : Nat) (text : String) : Lexer :=
  { dialect := lx.dialect, cursor := .startingAt start text, base := offset,
    levels := lx.levels - 1, index := 0, queued := [], ended := false }

/-- Whether the end of the text was asked for. -/
def isEnded (lx : Lexer) : Bool := lx.ended && lx.queued.isEmpty

/-- A bound on the number of significant tokens still to come. -/
def tokensLeft (lx : Lexer) : Nat :=
  lx.queued.length +
    if lx.ended then 0 else (lx.cursor.left + 1) * lx.dialect.rules.fanOut

/-- Read from the cursor. -/
def scan {α : Type} (f : Cursor → α × Cursor) : LexM α :=
  modifyGet fun lx ↦ let (a, cursor) := f lx.cursor; (a, { lx with cursor })

/-- Pass `n` characters. -/
def pass (n : Nat) : LexM Unit := scan fun c ↦ ((), c.advance n)

/-- Read from the cursor what can fail. -/
def scanExcept {α : Type} (f : Cursor → Except ScriptError α × Cursor) : LexM α := do
  match ← scan f with
  | .ok a => pure a
  | .error e => throw e

/-- Fail at a position. -/
def fail {α : Type} (position : Position) (cause : Cause) : LexM α :=
  throw (.ofCause position cause)

/-! ## Strings with embedded sections -/

/-- How many characters stand before the brace that closes a section, given `depth` open braces.
`quote` is the kind of quote being inside of, if any; a backslash inside quotes protects the next
character. -/
def sectionLength? (quote : Option Char) (depth count : Nat) : List Char → Option Nat
  | [] => none
  | c :: rest =>
    match quote with
    | some q =>
      if c = '\\' then
        match rest with
        | [] => none
        | _ :: rest => sectionLength? quote depth (count + 2) rest
      else sectionLength? (if c = q then none else quote) depth (count + 1) rest
    | none =>
      if c = '\x7b' then sectionLength? none (depth + 1) (count + 1) rest
      else if c = '\x7d' then
        if depth ≤ 1 then some count else sectionLength? none (depth - 1) (count + 1) rest
      else sectionLength? (if c = '"' ∨ c = '\'' then some c else none) depth (count + 1) rest

/-- Read a section up to its closing brace, which is passed too. `opening` is the place of the
string that holds the section. -/
def readSection (opening : Position) : LexM String := do
  let cursor := (← get).cursor
  match sectionLength? none 1 0 cursor.rest with
  | none =>
    pass cursor.left
    fail opening .unterminatedInterpolation
  | some n =>
    pass (n + 1)
    return String.ofList (cursor.rest.take n)

/-- Close the literal text collected so far, last character first, in front of the parts, last one
first. -/
def closeText (text : List Char) (parts : List Section) : List Section :=
  if text.isEmpty then parts else .text (String.ofList text.reverse) :: parts

/-- Read the content of a double-quoted string and its closing quote, yielding the literal text at
its end and the parts before it, both last one first. `inner` cuts a section into tokens, and
`fuel` bounds the number of characters. -/
def readParts (inner : Lexer → Except ScriptError (List Token)) (opening : Position) :
    (fuel : Nat) → List Char → List Section → LexM (List Char × List Section)
  | 0, _, _ => fail opening .unterminatedString
  | fuel + 1, text, parts => do
    let lx ← get
    match lx.cursor.rest with
    | [] => fail opening .unterminatedString
    | c :: rest =>
      if c = '\\' then
        match rest with
        | [] =>
          pass 1
          fail opening .unterminatedString
        | d :: _ =>
          pass 2
          readParts inner opening fuel (Text.unescape d :: text) parts
      else if c = '"' then
        pass 1
        return (text, parts)
      else if c = lx.dialect.marker ∧ rest.head? = some '\x7b' then
        if lx.levels = 0 then
          fail lx.cursor.position (.nestingTooDeep .interpolation lx.dialect.maxNesting)
        else
          pass 2
          let start := (← get).cursor
          let body ← readSection opening
          match inner (lx.forSection start.position (lx.base + start.pos) body) with
          | .error e => throw e
          | .ok tokens => readParts inner opening fuel [] (.tokens tokens :: closeText text parts)
      else
        pass 1
        readParts inner opening fuel (c :: text) parts

/-- Read a double-quoted string. -/
def readString (inner : Lexer → Except ScriptError (List Token)) : LexM Lexeme := do
  let start := (← get).cursor
  pass 1
  let (text, parts) ← readParts inner start.position start.left [] []
  let raw := (← get).cursor.since start.pos
  if parts.isEmpty then return .str raw (String.ofList text.reverse)
  else return .interpolated raw (closeText text parts).reverse

/-! ## Raw tokens -/

def readBlockComment : LexM Lexeme := do
  let start := (← get).cursor.position
  pass 1
  let run ← scan (Cursor.scanUpTo '*' '/' ⟨true, false⟩)
  if run.success then return .comment ("/*" ++ run.text ++ "*/")
  else fail start .unterminatedComment

/-- Read a single-quoted string, which embeds nothing. -/
def readPlainString : LexM Lexeme := do
  let start := (← get).cursor.pos
  let run ← scanExcept (Cursor.scanQuoted '\'' '\\' ⟨true, false⟩)
  return .str ((← get).cursor.since start) run.text

/-- Read one lexeme, `c` being the next character and `rest` what follows it. -/
def readLexeme (inner : Lexer → Except ScriptError (List Token)) (c : Char) (rest : List Char) :
    LexM Lexeme := do
  if Cursor.isSpacing c then
    return .whitespace (← scan (Cursor.scanBlanks .plain)).text
  else if c = '\n' then
    pass 1
    return .newLine "\n"
  else if c = '\r' then
    if rest.head? = some '\n' then
      pass 2
      return .newLine "\r\n"
    else
      pass 1
      return .newLine "\r"
  else if c = '/' ∧ rest.head? = some '/' then
    return .comment (← scan (Cursor.scanLine .plain)).text
  else if c = '/' ∧ rest.head? = some '*' then readBlockComment
  else if c = '"' then readString inner
  else if c = '\'' then readPlainString
  else if c.isDigit then
    let text := (← scan (Cursor.scanNumber .plain)).text
    return .number text ((Number.ofText? text).getD (.zero false))
  else if Text.isNameStart c then
    return .ofWord (← scan (Cursor.scanName .plain)).text
  else
    match Lexeme.longestSymbol? (c :: rest.take 1) with
    | some lexeme =>
      pass lexeme.text.length
      return lexeme
    | none => fail (← get).cursor.position (.unexpectedCharacter c)

/-- Read one raw token; behind the last character it is the end of the text, again and again. -/
def readTokenWith (inner : Lexer → Except ScriptError (List Token)) : LexM Token := do
  let lx ← get
  let lexeme ← match lx.cursor.rest with
    | [] => pure .endOfInput
    | c :: rest => readLexeme inner c rest
  return .mk lexeme lx.cursor.position (lx.base + lx.cursor.pos) 0

/-! ## Significant tokens -/

/-- Put tokens at the end of the queue, numbering them. -/
def enqueue (tokens : List Token) : LexM Unit :=
  modify fun lx ↦
    { lx with
      queued := lx.queued ++ tokens.mapIdx fun i t ↦ t.withIndex (lx.index + i)
      index := lx.index + tokens.length }

/-- Let the first extension that claims a token take it over, or else apply the rules. The end of
the text is left alone. -/
def produce (t : Token) : LexM Unit := do
  let lx ← get
  if t.isEnd then
    modify fun lx ↦ { lx with ended := true }
    enqueue [t]
  else
    match lx.dialect.extensions.find? fun e ↦ e.claims t lx.cursor with
    | some extension =>
      let lexeme ← scanExcept (extension.lex t)
      enqueue [t.withLexeme lexeme]
    | none => enqueue (lx.dialect.rules.apply t)

/-- The next significant token, or none behind the end of the text. `fuel` bounds the number of raw
tokens read. -/
def nextWith (inner : Lexer → Except ScriptError (List Token)) : (fuel : Nat) → LexM (Option Token)
  | 0 => return none
  | fuel + 1 => do
    let lx ← get
    match lx.queued with
    | t :: queued =>
      set { lx with queued }
      return some t
    | [] =>
      if lx.ended then return none
      let t ← readTokenWith inner
      if t.kind != .whitespace then produce t
      nextWith inner fuel

/-- Up to `count` significant tokens, after those in `done`, which are last one first. Fewer are
yielded only at the end of the text. -/
def batchWith (inner : Lexer → Except ScriptError (List Token)) :
    (count : Nat) → List Token → LexM (List Token)
  | 0, done => return done.reverse
  | count + 1, done => do
    match ← nextWith inner ((← get).cursor.left + 2) with
    | none => return done.reverse
    | some t => batchWith inner count (t :: done)

/-- All tokens of an embedded section, with `levels` further levels allowed. -/
def sectionTokens : (levels : Nat) → Lexer → Except ScriptError (List Token)
  | 0, lx =>
    .error (.ofCause lx.cursor.position (.nestingTooDeep .interpolation lx.dialect.maxNesting))
  | levels + 1, lx =>
    match batchWith (sectionTokens levels) lx.tokensLeft [] lx with
    | .ok tokens _ => .ok tokens
    | .error e _ => .error e

/-- How this lexer cuts embedded sections into tokens. -/
def inner (lx : Lexer) : Lexer → Except ScriptError (List Token) := sectionTokens lx.levels

def readToken : LexM Token := fun lx ↦ readTokenWith lx.inner lx

/-- The next significant token, or none behind the end of the text. -/
def next? : LexM (Option Token) := fun lx ↦ nextWith lx.inner (lx.cursor.left + 2) lx

/-- Up to `count` significant tokens; fewer only at the end of the text. -/
def batch (count : Nat) : LexM (List Token) := fun lx ↦ batchWith lx.inner count [] lx

/-- All significant tokens that are left, the last one being the end of the text. -/
def tokenize (lx : Lexer) : Except ScriptError (List Token) :=
  match batch lx.tokensLeft lx with
  | .ok tokens _ => .ok tokens
  | .error e _ => .error e

/-- All raw tokens, numbered; `fuel` bounds their number. -/
def rawTokensWith : (fuel : Nat) → List Token → LexM (List Token)
  | 0, done => return done.reverse
  | fuel + 1, done => do
    let t ← readToken
    let lx ← get
    set { lx with index := lx.index + 1 }
    let done := t.withIndex lx.index :: done
    if t.isEnd then return done.reverse else rawTokensWith fuel done

/-- All raw tokens that are left, blanks included and rules left aside. Their spellings, joined,
are the text. -/
def rawTokens (lx : Lexer) : Except ScriptError (List Token) :=
  match rawTokensWith (lx.cursor.left + 1) [] lx with
  | .ok tokens _ => .ok tokens
  | .error e _ => .error e

end Lexer

end ScriptFront
