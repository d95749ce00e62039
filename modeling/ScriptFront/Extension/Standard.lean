import ScriptFront.Frontend

/-!
# The standard extensions

English words for operators, calendar dates, times of day, a print statement, and addresses that
stand bare in a script. Words that a script defines itself keep their own meaning.

## How they are made

None of these is built into the parser: each is an extension as a host could write it, and a host
may register any part of them. The words for operators are replacements, which put one token in
place of a phrase before the parser looks at it, so `not`, `is` and the others need no productions
of their own. Of two phrases of which one begins like the other, the longer one is registered
first, because the first claim wins.
-/

namespace ScriptFront.Standard

/-! ## Synonyms -/

/-- Phrases and what they stand for. A phrase that begins like another stands before it. -/
def synonyms : List (String × String) :=
  [("is not", "!="), ("is less than", "<"), ("is greater than", ">"), ("is at most", "<="),
    ("is at least", ">="), ("is", "=="), ("equals", "=="), ("and", "&&"), ("or", "||"),
    ("not", "!"), ("plus", "+"), ("minus", "-"), ("times", "*")]

/-- The symbol, the reserved word or the name with a spelling. -/
def lexemeOf (text : String) : Lexeme :=
  ((Lexeme.symbol? text) <|> (Lexeme.keyword? text)).getD (.ident text)

/-- An extension that puts one token in place of a phrase. -/
def synonym (phrase replacement : String) : Extension :=
  { Extension.inert phrase .replacement
      ((Text.firstWord? phrase.toList).toList.map fun word ↦ .text (String.ofList word))
      (some phrase) with
    canStart := Extension.undefinedName
    replace := fun _ _ ↦ some (lexemeOf replacement) }

/-! ## Dates -/

/-- The months in order. -/
def months : List String :=
  ["january", "february", "march", "april", "may", "june", "july", "august", "september",
    "october", "november", "december"]

/-- The names of the months: in full, and the first three letters of the longer ones. -/
def monthNames : List String :=
  months ++ (months.filter (3 < ·.length)).map fun m ↦ String.ofList (m.toList.take 3)

/-- A word with a capital first letter. -/
def capitalized (word : String) : String :=
  match word.toList with
  | [] => ""
  | c :: rest => String.ofList (c.toUpper :: rest)

/-- The number of the first month whose name begins with `text`, or zero. -/
def monthNumber (text : String) : Nat :=
  match months.findIdx? fun m ↦ text.toList.isPrefixOf m.toList with
  | some i => i + 1
  | none => 0

/-- Leap years have a 29th of February; an open year may be one. -/
def isLeap (year : Int) : Bool := year % 4 == 0 && (year % 100 != 0 || year % 400 == 0)

def daysInMonth (month : Nat) (year : Option Int) : Nat :=
  match month with
  | 2 => if year.all isLeap then 29 else 28
  | 4 | 6 | 9 | 11 => 30
  | _ => 31

/-- The greatest year a date can hold. -/
def maxYear : Nat := 2147483647

/-- The date that a month, a day and possibly a year mean. A year too great for a date is left
open. What is wrong with the day is told by its text. -/
def dateOf (month : Nat) (day : Number) (year : Option Number) : Except String Value :=
  match day.whole? Matching.maxWord with
  | none => .error day.text
  | some d =>
    match year.map (Number.whole? Matching.maxWord) with
    | some none => .error (toString d)
    | year =>
      let year : Option Int :=
        year.join.bind fun y ↦ if y ≤ maxYear then some (y : Int) else none
      if d = 0 ∨ daysInMonth month year < d then .error (toString d)
      else .ok (.date year month d)

/-- Build a date from what its pattern has recorded. -/
def buildDate (found : Match) : Parse Expr := do
  let month := Matching.lowerText ((found.captures.text? "month").getD "")
  let day := ((found.captures.value? "day").bind Value.number?).getD (.zero false)
  let year := (found.captures.value? "year").bind Value.number?
  match dateOf (monthNumber month) day year with
  | .ok value => return .constant value
  | .error text => Parse.fail (.invalidStatement s!"invalid date: {month} {text}")

/-- Dates such as `june 5` and `Jun 5, 2024`. -/
def date : Extension :=
  { Extension.inert "date" .expression
      (monthNames.flatMap fun name ↦ [.text name, .text (capitalized name)])
      (some ("$month:(" ++ "|".intercalate monthNames ++ ") $day:@number (, $year:@number)?")) with
    canStart := fun t symbols ↦ t.kind == .ident && Extension.undefinedName t symbols
    build := fun _ found ↦ buildDate found }

/-! ## Times of day -/

/-- Build a time of day from what its pattern has recorded. -/
def buildTime (found : Match) : Parse Expr :=
  match found.captures.value? "time" with
  | some (.time seconds) => return .constant (.time seconds)
  | _ => Parse.fail (.invalidStatement "time of day expected after 'at'")

/-- Times of day such as `at 9:30pm`. -/
def time : Extension :=
  { Extension.inert "time" .expression [.text "at"] (some "at $time:@time") with
    canStart := Extension.undefinedName
    build := fun _ found ↦ buildTime found }

/-! ## Printing -/

/-- Build a print statement, from its first word on. -/
def buildPrint (sub : Subparser) : Parse Expr := do
  Parse.advance 1 false
  if (← Parse.tokens).isEndOfStatementOrBlock then return .bindingCall "print" []
  let first ← sub (.expression false)
  let args ← Parse.looseArgsWithin sub (← Parse.rounds) [first]
  return .bindingCall "print" args

/-- Print statements such as `print a, b`. -/
def print : Extension :=
  { Extension.inert "print" .statement [.text "print"] none with
    canStart := Extension.undefinedName
    build := fun sub _ ↦ buildPrint sub }

/-! ## Addresses -/

/-- Whether a character is part of a bare address. -/
def isAddressChar (c : Char) : Bool :=
  !(Text.isBlank c || [',', ';', ')', ']', '\x7d', '"', '\''].contains c)

/-- Bare addresses: a name, a colon and two slashes, and all up to a blank or a closing mark. -/
def address : LexExtension where
  name := "uri"
  claims t cursor := t.kind == .ident && "://".toList.isPrefixOf cursor.rest
  lex t cursor :=
    let (run, cursor) := cursor.takeWhile isAddressChar
    let uri := t.text ++ String.ofList run
    (.ok (.str uri uri), cursor)

/-! ## All of them -/

/-- Register all standard extensions. -/
def registerAll (f : Frontend) : Except ScriptError Frontend := do
  let f ← synonyms.foldlM (fun f (phrase, replacement) ↦ f.register (synonym phrase replacement)) f
  let f ← f.register date
  let f ← f.register time
  let f ← f.register print
  return f.registerLexical address

end ScriptFront.Standard
