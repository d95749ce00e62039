import ScriptFront.Proofs.Extension.Operands
import ScriptFront.Proofs.Extension.Reach
import ScriptFront.Proofs.Extension.Synonyms
import ScriptFront.Proofs.Number.Whole

/-!
# Dates are days of the calendar

A date is the name of a month and a day, and possibly a comma and a year. The words and literals
pass through the records of a match, where whole numbers stand as numbers, before the builder makes
naturals of them again and looks the day up. What comes out is the month that was named and the day
that was written, if the month has this day. The calendar is written down here once more, from its
own rules, so that the builder is held against it rather than against itself.

The year takes one more step than the day, from naturals to the range that a date has for its year.
A year beyond this range is not refused: the date is as if no year had been written, and February
has 29 days in it.
-/

namespace ScriptFront

open Window (Firm Refilled)

/-! ## The calendar -/

namespace Calendar

/-- Every fourth year is a leap year, but of those that end a century only every fourth. -/
def IsLeapYear (year : Nat) : Prop := 4 ∣ year ∧ (100 ∣ year → 400 ∣ year)

instance : DecidablePred IsLeapYear := fun _ ↦ inferInstanceAs (Decidable (_ ∧ _))

/-- A month. -/
structure Month where
  /-- Its place in the year. -/
  number : Nat
  /-- Its name. -/
  name : String
  /-- How many days it has in a common year. -/
  days : Nat
deriving DecidableEq

/-- The months of a year. -/
def months : List Month :=
  [⟨1, "january", 31⟩, ⟨2, "february", 28⟩, ⟨3, "march", 31⟩, ⟨4, "april", 30⟩, ⟨5, "may", 31⟩,
    ⟨6, "june", 30⟩, ⟨7, "july", 31⟩, ⟨8, "august", 31⟩, ⟨9, "september", 30⟩, ⟨10, "october", 31⟩,
    ⟨11, "november", 30⟩, ⟨12, "december", 31⟩]

namespace Month

/-- What the month is called: its name, and the first three letters of it. -/
def names (m : Month) : List String := [m.name, String.ofList (m.name.toList.take 3)]

/-- The word is what the month is called, in any case. -/
def IsNamedBy (m : Month) (word : String) : Prop := Matching.lowerText word ∈ m.names

instance (m : Month) : DecidablePred m.IsNamedBy := fun _ ↦ inferInstanceAs (Decidable (_ ∈ _))

/-- The last day of the month. In leap years February has one more, and a year that is left open may
be one. -/
def lastDay (m : Month) (year : Option Nat) : Nat :=
  if m.number = 2 ∧ ∀ y ∈ year, IsLeapYear y then m.days + 1 else m.days

/-- The month has such a day. -/
def HasDay (m : Month) (year : Option Nat) (day : Nat) : Prop := 1 ≤ day ∧ day ≤ m.lastDay year

instance (m : Month) (year : Option Nat) : DecidablePred (m.HasDay year) :=
  fun _ ↦ inferInstanceAs (Decidable (_ ∧ _))

end Month

end Calendar

namespace Standard

open Calendar (Month IsLeapYear)

variable {m : Month} {word : String} {day : Nat} {year : Option Nat}

theorem isLeap_natCast (y : Nat) : isLeap (y : Int) = true ↔ IsLeapYear y := by
  simp only [isLeap, IsLeapYear, Bool.and_eq_true, Bool.or_eq_true, beq_iff_eq, bne_iff_ne]
  omega

/-- The months are as long as the calendar says. -/
theorem daysInMonth_eq (hm : m ∈ Calendar.months) (year : Option Nat) :
    daysInMonth m.number (year.map (↑)) = m.lastDay year := by
  have hleap : ((year.map fun y : Nat ↦ (y : Int)).all isLeap = true) ↔ ∀ y ∈ year,
    IsLeapYear y := by
    cases year <;> simp [isLeap_natCast]
  simp only [Calendar.months, List.mem_cons, List.not_mem_nil, or_false] at hm
  rcases hm with rfl | rfl | rfl | rfl | rfl | rfl | rfl | rfl | rfl | rfl | rfl | rfl <;>
    simp [daysInMonth, Month.lastDay, hleap]

/-- The names of the months are written small. -/
theorem lowerText_eq {name : String} (h : name ∈ monthNames) :
    Matching.lowerText name = name ∧ Matching.lowerText (capitalized name) = name := by
  have hall : ∀ name ∈ monthNames, Matching.lowerText name = name ∧
      Matching.lowerText (capitalized name) = name := by decide +kernel
  exact hall name h

/-- A date starts with the name of a month, and case does not count. -/
theorem lowerText_of_mem_starts (h : .text word ∈ date.starts) :
    Matching.lowerText word ∈ monthNames := by
  obtain ⟨name, hname, hword⟩ := List.mem_flatMap.mp h
  obtain ⟨hsame, hcapital⟩ := lowerText_eq hname
  simp only [List.mem_cons, List.not_mem_nil, or_false, Trigger.text.injEq] at hword
  rcases hword with rfl | rfl
  · rwa [hsame]
  · rwa [hcapital]

/-- Every word that a date may start with names exactly one month, which is the one that the builder
finds. -/
theorem exists_month_of_mem_starts (h : .text word ∈ date.starts) :
    ∃ m ∈ Calendar.months, (∀ n ∈ Calendar.months, n.IsNamedBy word ↔ n = m) ∧
      monthNumber (Matching.lowerText word) = m.number := by
  have hall :
      ∀ name ∈ monthNames, ∃ m ∈ Calendar.months, (∀ n ∈ Calendar.months, name ∈ n.names ↔ n = m) ∧
      monthNumber name = m.number := by decide +kernel
  exact hall _ (lowerText_of_mem_starts h)

/-! ## From numbers to days -/

/-- The year that a date keeps. -/
def keptYear (year : Option Nat) : Option Nat := year.filter (· ≤ 2147483647)

theorem map_keptYear_some (y : Nat) :
    (keptYear (some y)).map (↑) = if y ≤ maxYear then some (y : Int) else none := by
  simp only [keptYear, maxYear, Option.filter_some, decide_eq_true_eq, apply_ite]
  rfl

/-- There is such a day, and the year is a word of 32 bits. -/
def IsDate (m : Month) (day : Nat) (year : Option Nat) : Prop :=
  m.HasDay (keptYear year) day ∧ ∀ y ∈ year, y ≤ 4294967295

instance (m : Month) (day : Nat) (year : Option Nat) : Decidable (IsDate m day year) :=
  inferInstanceAs (Decidable (_ ∧ _))

/-- The number stands for a natural, as far as naturals are exact. -/
def Stands (x : Number) (n : Nat) : Prop :=
  ∀ max < Number.mantissaBound, x.whole? max = if n ≤ max then some n else none

theorem Stands.whole?_maxWord {x : Number} {n : Nat} (h : Stands x n) :
    x.whole? Matching.maxWord = if n ≤ 4294967295 then some n else none := h _ (by decide)

/-- No month has that many days. -/
theorem lastDay_lt (hm : m ∈ Calendar.months) (year : Option Nat) :
    m.lastDay year < 4294967295 := by
  have hdays : ∀ m ∈ Calendar.months, m.days ≤ 31 := by decide
  have hle := hdays m hm
  rw [Month.lastDay]
  split <;> omega

/-- The day is looked up in the year that is kept. -/
theorem not_isDate_iff (hm : m ∈ Calendar.months) (hyear : ∀ y ∈ year, y ≤ 4294967295) :
    ¬ IsDate m day year ↔ day = 0 ∨ daysInMonth m.number ((keptYear year).map (↑)) < day := by
  rw [daysInMonth_eq hm, IsDate, and_iff_left hyear, Month.HasDay]
  omega

/-- The builder takes a month, a day and possibly a year for a date if they are one. -/
theorem exists_dateOf_eq (hm : m ∈ Calendar.months) {x : Number} {z : Option Number}
    (hday : Stands x day)
    (hyear : Option.Rel Stands z year) :
    ∃ text, dateOf m.number x z = if IsDate m day year
    then .ok (.date ((keptYear year).map (↑)) m.number day)
      else .error text := by
  rw [dateOf, hday.whole?_maxWord]
  by_cases hbig : day ≤ 4294967295
  case neg =>
    have hno : ¬ IsDate m day year :=
      fun h ↦ hbig (Nat.le_of_lt (Nat.lt_of_le_of_lt h.1.2 (lastDay_lt hm _)))
    rw [if_neg hbig]
    exact ⟨_, (if_neg hno).symm⟩
  rw [if_pos hbig]
  refine ⟨toString day, ?_⟩
  cases hyear with
  | none =>
    have hlookup := @not_isDate_iff m day none hm (by simp)
    simp only [← ite_not (IsDate m day none), hlookup]
    rfl
  | @some z y hy =>
    rw [Option.map_some, hy.whole?_maxWord]
    by_cases hword : y ≤ 4294967295
    · have hlookup := @not_isDate_iff m day (some y) hm (by simpa using hword)
      rw [map_keptYear_some] at hlookup ⊢
      simp only [if_pos hword, ← ite_not (IsDate m day (some y)), hlookup]
      rfl
    · have hno : ¬ IsDate m day (some y) := fun h ↦ hword (h.2 y rfl)
      rw [if_neg hword]
      exact (if_neg hno).symm

/-! ## The pattern -/

/-- The end of the pattern of dates: possibly a comma and a year. -/
def yearElement : Element :=
  .group [.leaf (.literal ",") true, .leaf (.typed "year" .number) true] false

/-- The pattern of dates: a month, a day, and possibly a year. -/
def dateElements : List Element :=
  [.leaf (.oneOf "month" monthNames) true, .leaf (.typed "day" .number) true, yearElement]

/-- The elements are the pattern of dates. -/
def isDatePattern : List Element → Bool
  | [.leaf (.oneOf month names) true, .leaf (.typed day .number) true,
      .group [.leaf (.literal comma) true, .leaf (.typed year .number) true] false] =>
    month == "month" && names == monthNames && day == "day" && comma == "," && year == "year"
  | _ => false

theorem eq_dateElements {elements : List Element} (h : isDatePattern elements = true) :
    elements = dateElements := by
  unfold isDatePattern at h
  split at h
  · simp only [Bool.and_eq_true, beq_iff_eq] at h
    obtain ⟨⟨⟨⟨rfl, rfl⟩, rfl⟩, rfl⟩, rfl⟩ := h
    rfl
  · cases h

theorem ofExtension_of_isDatePattern {extension : Extension} {pattern : String}
    (hpattern : extension.pattern = some pattern) (hmin : extension.minRequired = none)
    (h : (Pattern.compile pattern).toOption.any isDatePattern = true) :
    Registered.ofExtension extension = .ok ⟨extension, some dateElements, 2⟩ := by
  cases hcompile : Pattern.compile pattern with
  | error e =>
    rw [hcompile] at h
    cases h
  | ok elements =>
    rw [hcompile, Except.toOption, Option.any_some] at h
    obtain rfl := eq_dateElements h
    rw [Registered.ofExtension, hpattern]
    simp only [hcompile, hmin]
    rfl

/-- Dates are registered with their pattern, of which the month and the day must match. -/
theorem ofExtension_date : Registered.ofExtension date = .ok ⟨date, some dateElements, 2⟩ :=
  ofExtension_of_isDatePattern rfl rfl (by decide +kernel)

/-! ## Dates in a text -/

/-- The token is a natural, written in digits. -/
def IsWhole (t : Token) (n : Nat) : Prop :=
  ∃ digits : List Char, digits ≠ [] ∧ digits.all Char.isDigit = true ∧ Number.ofDigits digits = n ∧
    t.lexeme = .number (String.ofList digits)
      ((Number.ofText? (String.ofList digits)).getD (.zero false))

/-- What follows the day of a date: a comma and a year, or something else. -/
inductive YearAhead : List Token → Option Nat → Prop
  /-- A year is written. -/
  | written {comma t : Token} {rest : List Token} {y : Nat} (hcomma : comma.lexeme = .symbol ",")
      (ht : IsWhole t y) : YearAhead (comma :: t :: rest) (some y)
  /-- The comma belongs to something else. -/
  | listed {comma t : Token} {rest : List Token} (hcomma : comma.lexeme = .symbol ",")
      (ht : t.lexeme.number? = none) : YearAhead (comma :: t :: rest) none
  /-- There is no comma. -/
  | open {t : Token} {rest : List Token} (ht : t.is "," = false) : YearAhead (t :: rest) none

/-- What is recorded of a date. -/
structure RecordsDate (captures : Captures) (word : String) (day : Nat) (year : Option Nat) :
    Prop where
  /-- The month, as it was spelled. -/
  month : captures.text? "month" = some word
  /-- The day. -/
  day : ∃ x, (captures.value? "day").bind Value.number? = some x ∧ Stands x day
  /-- The year, if there is one. -/
  year : Option.Rel Stands ((captures.value? "year").bind Value.number?) year

section

open Matching

variable {c : Consult} {captures : Captures} {t first second : Token} {rest more : List Token}
  {name text : String} {x : Number} {n : Nat}

theorem IsWhole.exists_lexeme (h : IsWhole t n) :
    ∃ text x, t.lexeme = .number text x ∧ Stands x n := by
  obtain ⟨digits, hne, hdigits, rfl, ht⟩ := h
  exact ⟨_, _, ht, fun _ hmax ↦ Number.whole?_ofText? hmax hne (List.all_eq_true.mp hdigits)⟩

/-- What a leaf for numbers takes. -/
def numberTile (t : Token) (name text : String) (x : Number) : Tile :=
  ⟨[t], [(Captures.valueName name, .number x), (name, .str text)]⟩

theorem tile?_number (ht : t.lexeme = .number text x) :
    tile? c captures (t :: rest) (.typed name .number) = some (numberTile t name text x) := by
  have hopen : isBarred t = false := by rw [isBarred, Token.kind, ht]; rfl
  have hspelled : t.text = text := by rw [Token.text, ht]; rfl
  rw [tile?, if_neg (by decide), hopen, if_neg Bool.false_ne_true, stretchAt?, ht, Lexeme.number?,
    Option.map_some, Option.map_some, Stretch.one, hspelled]
  rfl

theorem tile?_number_eq_none (ht : t.lexeme.number? = none) :
    tile? c captures (t :: rest) (.typed name .number) = none := by
  rw [tile?, if_neg (by decide), stretchAt?, ht]
  exact ite_self _

theorem tile?_month (ht : t.lexeme = .ident text) (htext : lowerText text ∈ monthNames) :
    tile? c captures (t :: rest) (.oneOf "month" monthNames) = some
      ⟨[t], [("month", .str text)]⟩ := by
  have hopen : isBarred t = false := by rw [isBarred, Token.kind, ht]; rfl
  have hspelled : t.text = text := by rw [Token.text, ht]; rfl
  have hany : (monthNames.any fun name ↦ lowerText name == lowerText t.text) = true :=
    List.any_eq_true.mpr ⟨_, htext, by rw [(lowerText_eq htext).1, hspelled, beq_self_eq_true]⟩
  rw [tile?, hopen, hany, hspelled]
  rfl

theorem tile?_comma (ht : t.lexeme = .symbol ",") :
    tile? c captures (t :: rest) (.literal ",") = some ⟨[t], []⟩ := by
  have hopen : isBarred t = false := by rw [isBarred, Token.kind, ht]; rfl
  have hmark : t.is "," = true := by rw [Token.is, ht]; rfl
  rw [tile?, hopen, hmark]
  rfl

theorem tile?_comma_eq_none (ht : t.is "," = false) :
    tile? c captures (t :: rest) (.literal ",") = none := by
  rw [tile?, ht, Bool.and_false, if_neg Bool.false_ne_true]

/-- What the pattern takes of a year. -/
inductive YearTiles : Option (List Tile) → Option Nat → Prop
  /-- A comma and a year. -/
  | written (comma t : Token) (text : String) {x : Number} {y : Nat} (hx : Stands x y) :
    YearTiles (some [⟨[comma], []⟩, numberTile t "year" text x]) (some y)
  /-- Nothing. -/
  | none : YearTiles none none

/-- A comma and a year are taken together or not at all. -/
theorem exists_yearTiles (c : Consult) (h : YearAhead more year) :
    ∃ found, YearTiles found year ∧ ∀ captures rest,
    path? c captures (more ++ rest) yearElement = found := by
  have hcount :
      Element.requiredCount [.leaf (.literal ",") true, .leaf (.typed "year" .number) true] = 2 :=
    rfl
  cases h with
  | @written comma t rest y hcomma ht =>
    obtain ⟨text, x, ht, hx⟩ := ht.exists_lexeme
    refine ⟨_, .written comma t text hx, fun captures rest ↦ ?_⟩
    simp [yearElement, path?, pathAlong?, tile?_comma hcomma, tile?_number ht]
  | @listed comma t rest hcomma ht =>
    refine ⟨none, .none, fun captures rest ↦ ?_⟩
    simp [yearElement, path?, pathAlong?, hcount, tile?_comma hcomma, tile?_number_eq_none ht,
      Element.required]
  | @«open» t rest ht =>
    refine ⟨none, .none, fun captures rest ↦ ?_⟩
    simp [yearElement, path?, pathAlong?, hcount, tile?_comma_eq_none ht, Element.required]

/-- The pattern finds a month, a day, and the year if there is one. -/
theorem exists_date_path (symbols : SymbolTable) (hfirst : first.lexeme = .ident word)
    (hword : .text word ∈ date.starts) (hday : IsWhole second day) (hyear : YearAhead more year) :
    ∃ tiles, (∀ rest, pathAlong? ⟨date, symbols⟩ 2 0 .empty (first :: second :: more ++ rest)
      dateElements =
        some tiles) ∧
      tokensOf tiles ≠ [] ∧ RecordsDate (Captures.empty.insertAll (recordsOf tiles)) word
        day year := by
  obtain ⟨text, x, hsecond, hx⟩ := hday.exists_lexeme
  obtain ⟨found, htiles, hfound⟩ := exists_yearTiles ⟨date, symbols⟩ hyear
  refine ⟨⟨[first], [("month", .str word)]⟩ :: numberTile second "day" text x :: found.getD [],
    fun rest ↦ ?_, by simp [tokensOf], ?_⟩
  · simp only [dateElements, pathAlong?, path?, List.cons_append, Option.map_some,
      tokensOf_singleton, tile?_month hfirst (lowerText_of_mem_starts hword), List.length_singleton,
      List.drop_succ_cons, List.drop_zero, tile?_number hsecond, numberTile, hfound]
    cases found with
    | none => rfl
    | some tiles => simp
  · cases htiles with
    | none => exact ⟨rfl, ⟨x, rfl, hx⟩, .none⟩
    | written _ _ _ hz => exact ⟨rfl, ⟨x, rfl, hx⟩, .some hz⟩

end

/-! ## Dates as operands -/

section

variable {ctx : ParseContext} {s : ParserState} {found : Match}

/-- An operand is due where a date is written. -/
structure IsDateDue (ctx : ParseContext) (s : ParserState) (word : String) (day : Nat)
    (year : Option Nat) :
    Prop where
  /-- Dates are registered, and no operand that was registered before them may start here. -/
  exists_entry : ∃ e earlier later, Registered.ofExtension date = .ok e ∧
    ctx.registry.entries = earlier ++ e :: later ∧
    ∀ e' ∈ earlier, e'.extension.kind = .expression → e'.mayStart s.tokens.current s.symbols = false
  /-- Only the lexer can fail the window. -/
  firm : Firm ScriptError.IsOfLexer s.tokens
  /-- A date may start with the word. -/
  starts : .text word ∈ date.starts
  /-- The script does not define the word. -/
  isUndefined : s.symbols.contains word = false
  /-- The word, the day and the year are the tokens to come. -/
  exists_tokens : ∃ tokens first second more, s.tokens.Awaits tokens ∧
    Window.seen tokens = first :: second :: more ∧ first.lexeme = .ident word ∧ IsWhole second day ∧
    YearAhead more year

/-- The cause is a date that is none. -/
def IsInvalidDate (word : String) (cause : Cause) : Prop :=
  ∃ text, cause = .invalidStatement ("invalid date: " ++ Matching.lowerText word ++ " " ++ text)

theorem buildDate_ensures (hm : m ∈ Calendar.months)
    (hmonth : monthNumber (Matching.lowerText word) = m.number)
    (h : RecordsDate found.captures word day year) (s : ParserState) :
    Ensures (fun error ↦ ¬ IsDate m day year ∧ IsInvalidDate word error.cause)
      (buildDate found) s fun expr _ ↦
      IsDate m day year ∧ expr.form = .constant (.date ((keptYear year).map (↑)) m.number day) := by
  obtain ⟨x, hx, hday⟩ := h.day
  obtain ⟨text, hdate⟩ := exists_dateOf_eq hm hday h.year
  unfold buildDate
  simp only [h.month, Option.getD_some, hmonth, hx, hdate]
  by_cases hisDate : IsDate m day year
  · rw [if_pos hisDate]
    exact .pure ⟨hisDate, rfl⟩
  · rw [if_neg hisDate]
    exact .ask rfl (.throw ⟨hisDate, text, rfl⟩)

/-- A date may start with the name of a month that the script does not define. -/
theorem mayStart_date {t : Token} {symbols : SymbolTable} (ht : t.lexeme = .ident word)
    (hword : .text word ∈ date.starts) (hundefined : symbols.contains word = false) :
    Registered.mayStart ⟨date, some dateElements, 2⟩ t symbols = true := by
  have hspelled : t.text = word := by rw [Token.text, ht]; rfl
  have hkind : t.kind = .ident := by rw [Token.kind, ht]; rfl
  have hstarts : (date.starts.any fun trigger ↦ trigger.accepts t) = true :=
    List.any_eq_true.mpr ⟨_, hword, beq_iff_eq.mpr hspelled⟩
  have hcan : date.canStart t symbols = true := by
    show (t.kind == .ident && !symbols.contains t.text) = true
    rw [hkind, hspelled, hundefined]
    rfl
  rw [Registered.mayStart, hstarts, hcan]
  rfl

/-- Dates are found where they are due. -/
theorem IsDateDue.find_ensures (h : IsDateDue ctx s word day year) :
    Ensures ScriptError.IsOfLexer (ctx.find .expression) s fun result s' ↦
      ∃ found w, result = some (found, date) ∧ s' = { s with tokens := w } ∧ Refilled s.tokens w ∧
        RecordsDate found.captures word day year := by
  obtain ⟨e, earlier, later, he, hentries, hearlier⟩ := h.exists_entry
  obtain rfl : ⟨date, some dateElements, 2⟩ = e := Except.ok.inj (ofExtension_date.symm.trans he)
  obtain ⟨tokens, first, second, more, hawaits, hseen, hfirst, hsecond, hmore⟩ := h.exists_tokens
  obtain ⟨tiles, hpath, hne, hrecords⟩ := exists_date_path s.symbols hfirst h.starts hsecond hmore
  have hmay :
      Registered.mayStart ⟨date, some dateElements, 2⟩ s.tokens.current s.symbols = true := by
    rw [hawaits.current_eq h.firm hseen]
    exact mayStart_date hfirst h.starts h.isUndefined
  have hspan : Element.spans dateElements ≤ s.tokens.lookahead + 1 := Nat.succ_le_succ h.firm.sight
  have hclaim : Ensures ScriptError.IsOfLexer
      (Registered.claim ⟨date, some dateElements, 2⟩ s.symbols) s.tokens fun claimed w ↦
        Refilled s.tokens w ∧ claimed = (some tiles).bind Matching.claimOf? := by
    refine Registered.claim_ensures_path h.firm rfl hmay rfl hspan hawaits fun next hnext ↦ ?_
    obtain ⟨rest, rfl⟩ := hnext
    rw [hseen]
    exact hpath rest
  exact .mapState (Parse.onTokens_run _)
    (Registry.find_ensures_path hentries hearlier rfl hclaim hne) fun result w hfound ↦
      ⟨_, w, hfound.2, rfl, hfound.1, hrecords⟩

/-- Why there is no operand where a date is due: the lexer fails, operands are nested too deep, or
the date is none. -/
def FailsDate (ctx : ParseContext) (m : Month) (word : String) (day : Nat) (year : Option Nat)
    (e : ScriptError) : Prop :=
  e.IsOfLexer ∨ e.cause = .nestingTooDeep .expression ctx.limits.maxExpressionDepth ∨
    ¬ IsDate m day year ∧ IsInvalidDate word e.cause

/-- The extension builds the date that is due. -/
theorem IsDateDue.build?_ensures (h : IsDateDue ctx s word day year) (sub : Subparser)
    (hm : m ∈ Calendar.months) (hmonth : monthNumber (Matching.lowerText word) = m.number) :
    Ensures (FailsDate ctx m word day year) (ctx.build? sub .expression) s fun expr _ ↦
      IsDate m day year ∧
      expr = some (.mk (.constant (.date ((keptYear year).map (↑)) m.number day)) s.tokens.position
        s.symbols.current) := by
  refine (h.find_ensures.loosen fun _ ↦ .inl).bind ?_
  rintro _ _ ⟨found, w, rfl, rfl, hrefilled, hrecords⟩
  refine .ask rfl (.ask rfl ?_)
  have hadvance : Ensures (FailsDate ctx m word day year) (Parse.advance found.count false)
      { s with tokens := w } fun _ _ ↦ True :=
    .mapState (Parse.onTokens_run _)
      (((h.firm.refilled hrefilled).advance_ensures false found.count).loosen fun _ ↦ .inl)
      fun _ _ _ ↦ trivial
  refine hadvance.bind fun _ s₁ _ ↦ ?_
  refine ((buildDate_ensures hm hmonth hrecords s₁).loosen fun _ hnone ↦ .inr (.inr hnone)).bind ?_
  rintro expr s₂ ⟨hisDate, hform⟩
  refine .pure ⟨hisDate, ?_⟩
  have hposition : w.position = s.tokens.position :=
    congrArg Token.position (hrefilled.current_eq h.firm)
  rw [← hposition, ← hform]
  rfl

/-- **Dates are days of the calendar.** Where the name of a month, a day and possibly a year are to
come, the operand is the date of that month, that day and that year, and the month has this day; but
a year beyond `2 ^ 31 - 1` is left open. If there is no operand, the lexer fails, operands are
nested too deep, the month has no such day, or the year is beyond `2 ^ 32 - 1`. -/
theorem operand_ensures_date (sub : Subparser) (h : IsDateDue ctx s word day year) :
    ∃ m ∈ Calendar.months, (∀ n ∈ Calendar.months, n.IsNamedBy word ↔ n = m) ∧
      Ensures (FailsDate ctx m word day year) (Parse.operand ctx sub) s fun expr _ ↦
        IsDate m day year ∧ expr = .mk (.constant (.date ((keptYear year).map (↑)) m.number day))
          s.tokens.position s.symbols.current := by
  obtain ⟨m, hm, hnamed, hmonth⟩ := exists_month_of_mem_starts h.starts
  refine ⟨m, hm, hnamed, .mapState (Parse.deeper_run ctx _) ?_ fun _ _ h ↦ h⟩
  have hlimit (s : ParserState) : Ensures (FailsDate ctx m word day year)
      (ParseContext.limit s.expressionDepth ctx.limits.maxExpressionDepth .expression) s
      fun _ s' ↦ s' = s :=
    .branch (fun _ ↦ .ask rfl (.throw (.inr (.inl rfl)))) fun _ ↦ .pure rfl
  refine .get_bind ((hlimit _).bind ?_)
  rintro _ _ rfl
  have hdue : IsDateDue ctx { s with expressionDepth := s.expressionDepth + 1 } word day year :=
    ⟨h.exists_entry, h.firm, h.starts, h.isUndefined, h.exists_tokens⟩
  refine (hdue.build?_ensures sub hm hmonth).bind ?_
  rintro _ _ ⟨hisDate, rfl⟩
  exact .pure ⟨hisDate, rfl⟩

end

/-! ### Runs -/

/-- A number as the lexer makes it. -/
def sampleNumber (digits : List Char) : Lexeme :=
  .number (String.ofList digits) ((Number.ofText? (String.ofList digits)).getD (.zero false))

/-- A state before the fifth of June of some year, where nothing is defined. -/
def sampleState (year : List Char) : ParserState :=
  .initial
    (.ofTokens ([.ident "june", .whitespace " ", sampleNumber ['5'], .symbol ",", .whitespace " ",
    sampleNumber year, .endOfInput].map fun l ↦ .mk l .start 0 0) 4) .empty

/-- A context in which only dates are registered. -/
def sampleContext : ParseContext := ⟨.standard, ⟨[⟨date, some dateElements, 2⟩], []⟩⟩

theorem isDateDue_sampleState {digits : List Char} (hne : digits ≠ [])
    (hdigits : digits.all Char.isDigit = true) :
    IsDateDue sampleContext (sampleState digits) "june" 5 (some (Number.ofDigits digits)) where
  exists_entry := ⟨_, [], [], ofExtension_date, rfl, by simp⟩
  firm := (@Window.sound_ofTokens False _ 4 False.elim).firm
  starts := by decide +kernel
  isUndefined := rfl
  exists_tokens := ⟨_, _, _, _, ⟨_, .refl, List.prefix_refl _⟩, rfl, rfl,
    ⟨['5'], by decide, rfl, rfl, rfl⟩, .written rfl ⟨digits, hne, hdigits, rfl, rfl⟩⟩

/-- The year, the month and the day of a date. -/
def partsOfDate? (e : Expr) : Option (Option Int × Nat × Nat) :=
  match e.form with
  | .constant (.date year month day) => some (year, month, day)
  | _ => none

theorem operand_ensures_date_sampleState :
    ∃ expr s', Parse.operand sampleContext (Parse.run sampleContext 0 0)
      (sampleState ['2', '0', '2', '4']) =
      .ok expr s' ∧ partsOfDate? expr = some (some 2024, 6, 5) := by
  have hdue : IsDateDue sampleContext (sampleState ['2', '0', '2', '4']) "june" 5 (some 2024) :=
    isDateDue_sampleState (by decide) rfl
  have hsucceeds : Parse.succeeds (Parse.operand sampleContext (Parse.run sampleContext 0 0)
      (sampleState ['2', '0', '2', '4'])) = true := by decide +kernel
  generalize sampleState ['2', '0', '2', '4'] = s at hdue hsucceeds ⊢
  obtain ⟨expr, s', hrun⟩ := Parse.exists_ok_of_succeeds hsucceeds
  obtain ⟨m, -, hnamed, hensures⟩ := operand_ensures_date (Parse.run sampleContext 0 0) hdue
  obtain ⟨-, rfl⟩ := hensures.of_ok hrun
  obtain rfl : (⟨6, "june", 30⟩ : Month) = m := (hnamed _ (by decide)).mp (by decide +kernel)
  exact ⟨_, s', hrun, rfl⟩

/-- **Not every year is kept.** The date of `june 5, 3000000000` has no year. -/
theorem not_operand_keeps_year :
    ¬ ∀ (ctx : ParseContext) (sub : Subparser) (s s' : ParserState) (word : String) (day : Nat)
      (year : Option Nat) (m : Month) (expr : Expr), IsDateDue ctx s word day year →
      m ∈ Calendar.months →
      m.IsNamedBy word → Parse.operand ctx sub s = .ok expr s' →
      expr.form = .constant (.date (year.map (↑)) m.number day) := by
  intro hall
  have hopen : (Parse.resultOf (Parse.operand sampleContext (Parse.run sampleContext 0 0)
      (sampleState ['3', '0', '0', '0', '0', '0', '0', '0', '0', '0']))).map partsOfDate? =
      some (some (none, 6, 5)) := by decide +kernel
  obtain ⟨expr, s', hrun, hdate⟩ := Parse.exists_ok_of_resultOf hopen
  have hform := hall _ _ _ _ _ _ _ ⟨6, "june", 30⟩ expr (isDateDue_sampleState (by decide) rfl)
    (by decide) (by decide +kernel) hrun
  rw [partsOfDate?, hform] at hdate
  cases hdate

end Standard

end ScriptFront
