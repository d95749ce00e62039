import ScriptFront.Error
import ScriptFront.Token.Basic

/-!
# A window on a stream of tokens

A parser looks a bounded number of tokens ahead. The window holds the tokens between the cursor and
the furthest one that was needed, pulls more from a source when it must, and refuses to look
further than its bound.

The tokens behind the cursor are never looked at again, so only their number is kept: when it
reaches the bound, that many are forgotten and as many new ones are asked for. This makes
`Window.size` the number of tokens a window with its consumed half still in place would hold.

Blanks and comments are never current: moving and looking ahead pass over them, and over line
breaks if asked to.

## The end of the stream

A stream ends in a token that says so, and moving stops there: whoever is at the end stays there,
and looking ahead finds the same token at every distance. A loop that moves over tokens must
therefore look for the end itself, or else require that it has moved.
-/

namespace ScriptFront

/-- A supplier of tokens. -/
class TokenSupply (σ : Type) where
  /-- Up to so many more tokens, and the supplier afterwards. The batch that reaches the end of
  the stream ends in the end token; an empty batch is the end too. -/
  nextBatch : Nat → σ → Except ScriptError (List Token) × σ
  /-- A bound on the number of tokens still to come. -/
  tokensLeft : σ → Nat

/-- A cursor in a stream of tokens, with bounded sight. -/
structure Window (σ : Type) where
  /-- How many tokens behind the cursor count as held. -/
  passed : Nat
  /-- The tokens held from the cursor on. -/
  ahead : List Token
  /-- How far ahead one may look. -/
  lookahead : Nat
  /-- Where further tokens come from. -/
  source : Option σ
  /-- Whether no further tokens come. -/
  exhausted : Bool

/-- A computation that moves a window. A failure leaves the window where it was noticed. -/
abbrev WindowM (σ : Type) := EStateM ScriptError (Window σ)

namespace Window

variable {σ : Type}

/-- The least sight a window is made with. -/
def minLookahead : Nat := 4

/-! ## What is current -/

/-- The token under the cursor. -/
def current (w : Window σ) : Token := w.ahead.headD default

def size (w : Window σ) : Nat := w.passed + w.ahead.length

/-- Whether the cursor stands on a token that is held. -/
def onToken (w : Window σ) : Bool := !w.ahead.isEmpty

/-- Where the current token stands. -/
def position (w : Window σ) : Position := w.current.position

def kind (w : Window σ) : TokenKind := w.current.kind

def is (w : Window σ) (text : String) : Bool := w.current.is text

def isSymbol (w : Window σ) (text : String) : Bool := w.current.isSymbol text

def isEnded (w : Window σ) : Bool := w.kind == .endOfInput

/-- A semicolon or a line break. -/
def isExplicitEnd (w : Window σ) : Bool := w.is ";" || w.kind == .newLine

/-- A semicolon, a line break or the end of the stream. -/
def isEndOfStatement (w : Window σ) : Bool := w.isExplicitEnd || w.isEnded

/-- The end of a statement, or the brace that closes a block. -/
def isEndOfStatementOrBlock (w : Window σ) : Bool := w.isEndOfStatement || w.is "\x7d"

/-- A failure at the current token. -/
def error (w : Window σ) (cause : Cause) : ScriptError := .ofCause w.position cause

/-- What moving passes over. -/
def isPassedOver (passNewLine : Bool) (t : Token) : Bool :=
  t.lexeme.isTrivia || (passNewLine && t.kind == .newLine)

/-- The end token that closes a stream whose last token is `last`. -/
def endAfter : Option Token → Token
  | none => .mk .endOfInput .start 0 0
  | some t => .mk .endOfInput t.position t.offset (t.index + 1)

/-- A stream closed by an end token. -/
def terminated (tokens : List Token) : List Token :=
  match tokens.getLast? with
  | some t => if t.isEnd then tokens else tokens ++ [endAfter (some t)]
  | none => [endAfter none]

/-! ## Pulling tokens -/

variable [TokenSupply σ]

/-- A bound on the number of tokens from the cursor on. -/
def tokensLeft (w : Window σ) : Nat :=
  w.ahead.length + 1 + if w.exhausted then 0 else (w.source.map TokenSupply.tokensLeft).getD 0

/-- Pull up to `count` tokens. The stream is exhausted by an empty batch, and by one with an end
token. -/
def pull (count : Nat) : WindowM σ Unit := fun w ↦
  if w.exhausted then .ok () w
  else match w.source with
    | none => .ok () { w with exhausted := true }
    | some source =>
      match TokenSupply.nextBatch count source with
      | (.error e, source) => .error e { w with source := some source }
      | (.ok batch, source) =>
        let exhausted := batch.isEmpty || batch.any Token.isEnd
        let ahead := w.ahead ++ batch
        let ahead := if exhausted then terminated ahead else ahead
        .ok () { w with ahead, source := some source, exhausted }

/-- Hold the token `n` places after the current one, if the stream has it. -/
def hold (n : Nat) : WindowM σ Unit := fun w ↦
  if (w.ahead.drop n).isEmpty then pull w.lookahead w else .ok () w

/-- Move to the next token. At the last token of an exhausted stream nothing happens. If no token
can be pulled, the cursor is left behind all tokens held. -/
def step : WindowM σ Unit := fun w ↦
  match hold 1 w with
  | .error e w => .error e { w with passed := w.passed + 1, ahead := w.ahead.drop 1 }
  | .ok _ w =>
    match w.ahead with
    | _ :: next :: rest => .ok () { w with passed := w.passed + 1, ahead := next :: rest }
    | _ => .ok () w

/-- Move while the current token is to be passed over; `fuel` bounds the number of moves. -/
def skipWithin (passNewLine : Bool) : (fuel : Nat) → WindowM σ Unit
  | 0 => pure ()
  | fuel + 1 => do
    if isPassedOver passNewLine (← get).current then
      step
      skipWithin passNewLine fuel

/-- Move to the first token that is not to be passed over. -/
def skip (passNewLine : Bool) : WindowM σ Unit := fun w ↦
  if isPassedOver passNewLine w.current then skipWithin passNewLine w.tokensLeft w else .ok () w

/-- Forget a bound's worth of passed tokens and ask for as many new ones, `rounds` times. -/
def forget : (rounds : Nat) → WindowM σ Unit
  | 0 => pure ()
  | rounds + 1 => do
    modify fun w ↦ { w with passed := w.passed - w.lookahead }
    pull (← get).lookahead
    forget rounds

/-- Forget passed tokens as long as there are as many as one may look ahead. -/
def forgetPassed : WindowM σ Unit := fun w ↦ forget (w.passed / w.lookahead) w

/-! ## Making a window -/

/-- A window on a source, on its first token that is not blank. -/
def ofSource (source : σ) (lookahead : Nat) : Except ScriptError (Window σ) :=
  let lookahead := max lookahead minLookahead
  let w : Window σ := ⟨0, [], lookahead, some source, false⟩
  match (do pull (2 * lookahead); skip false : WindowM σ Unit) w with
  | .ok _ w => .ok w
  | .error e _ => .error e

omit [TokenSupply σ] in
/-- A window on a list of tokens, all of which are held. -/
def ofTokens (tokens : List Token) (lookahead : Nat) : Window σ :=
  let tokens := terminated tokens
  let trivia := tokens.takeWhile (isPassedOver false)
  ⟨trivia.length, tokens.drop trivia.length, max lookahead minLookahead, none, true⟩

/-! ## Moving -/

/-- Move over `count` tokens, one after the other, stopping at the end of the stream. -/
def advanceBy (passNewLine : Bool) : (count : Nat) → WindowM σ Unit
  | 0 => pure ()
  | count + 1 => do
    if !(← get).isEnded then
      step
      skip passNewLine
      advanceBy passNewLine count

/-- Move over `count` tokens; line breaks after each are passed too if `passNewLine` holds. -/
def advance (count : Nat) (passNewLine : Bool) : WindowM σ Unit := do
  advanceBy passNewLine count
  forgetPassed

/-- Move over line breaks. -/
def skipNewLines : WindowM σ Unit := do
  skip true
  forgetPassed

/-! ## Looking ahead -/

/-- The token `n` places after the current one, as held. -/
def held (w : Window σ) (n : Nat) : Token := w.ahead.getD n default

/-- The distance in held tokens from place `n` to the token `count` significant ones further on;
`fuel` bounds the walk. -/
def reach (passNewLine : Bool) : (fuel count n : Nat) → WindowM σ Nat
  | 0, _, n => return n
  | _, 0, n => return n
  | fuel + 1, count + 1, n => do
    if ((← get).held n).isEnd then return n
    hold (n + 1)
    let passed := isPassedOver passNewLine ((← get).held (n + 1))
    reach passNewLine fuel (if passed then count + 1 else count) (n + 1)

/-- The place of the token `count` significant ones ahead, or of the end of the stream. -/
def locate (count : Nat) (passNewLine : Bool) : WindowM σ Nat := fun w ↦
  if w.lookahead < count then .error (w.error (.lookaheadExceeded count w.lookahead)) w
  else if count = 0 then .ok 0 w
  else reach passNewLine w.tokensLeft count 0 w

/-- The token `count` significant ones ahead, or the end of the stream. -/
def peek (count : Nat) (passNewLine : Bool) : WindowM σ Token := do
  let n ← locate count passNewLine
  return (← get).held n

/-- Whether the token `count` significant ones ahead is spelled `text`. -/
def peekIs (count : Nat) (text : String) : WindowM σ Bool := do
  return (← peek count false).is text

/-! ## Requiring -/

/-- Fail because `wanted` was required at the current token. -/
def failExpected {α : Type} (wanted : String) : WindowM σ α := do
  let w ← get
  throw (w.error (.expected wanted w.current.text))

/-- Require the spelling `text` and move on. -/
def expect (text : String) (passNewLine : Bool) : WindowM σ Unit := do
  if (← get).is text then advance 1 passNewLine else failExpected text

/-- Require a token of a kind, called `what` in failures, and move on. -/
def expectKind (kind : TokenKind) (what : String) (passNewLine : Bool) : WindowM σ Token := do
  let w ← get
  if w.kind = kind then
    advance 1 passNewLine
    return w.current
  else failExpected what

/-- Require a name and move on. -/
def expectName (passNewLine : Bool) : WindowM σ String := do
  return (← expectKind .ident "identifier" passNewLine).text

/-! ## Replacing -/

/-- Put `lexeme` in place of `count` significant tokens from the current one on, at the place of the
first; zero counts as one. -/
def replace (count : Nat) (lexeme : Lexeme) : WindowM σ Unit := do
  let last ← locate (max count 1 - 1) false
  modify fun w ↦
    { w with ahead := w.current.withLexeme lexeme :: w.ahead.drop (last + 1) }

end Window

end ScriptFront
