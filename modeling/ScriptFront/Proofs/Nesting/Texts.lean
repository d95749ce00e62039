import ScriptFront.Proofs.Lexer.PlainText

/-!
# Texts with so many levels of nesting

For each way to nest parts of a script there is a text with so many levels of it, made of repeated
pieces, and the lexemes that it consists of.

A piece is read back only in front of what may follow it: behind a name there may be no further
letter, and behind an exclamation mark no equals sign. `Lexer.Lays` says what a piece asks of the
text behind it and what it promises to the one before it, so that the pieces can be put together
level by level.
-/

namespace ScriptFront

/-! ## Layers -/

/-- A core with so many layers around it. -/
def wrapped {α : Type} (opening core closing : List α) : Nat → List α
  | 0 => core
  | n + 1 => opening ++ wrapped opening core closing n ++ closing

theorem wrapped_eq {α : Type} (opening core closing : List α) (n : Nat) :
    wrapped opening core closing n =
      (List.replicate n opening).flatten ++ core ++ (List.replicate n closing).flatten := by
  induction n with
  | zero => simp [wrapped]
  | succ n ih =>
    rw [wrapped, ih, List.replicate_succ, List.flatten_cons, List.replicate_succ',
      List.flatten_concat]
    simp only [List.append_assoc]

/-- There is nothing in several layers that is not in one. -/
theorem mem_wrapped_one {α : Type} {opening core closing : List α} {n : Nat} {a : α}
    (h : a ∈ wrapped opening core closing n) : a ∈ wrapped opening core closing 1 := by
  induction n with
  | zero => exact List.mem_append_left _ (List.mem_append_right _ h)
  | succ n ih =>
    rcases List.mem_append.mp h with h | h
    · rcases List.mem_append.mp h with h | h
      · exact List.mem_append_left _ (List.mem_append_left _ h)
      · exact ih h
    · exact List.mem_append_right _ h

/-- A piece of text, so many times. -/
def repeated (piece : String) (n : Nat) : String := String.join (List.replicate n piece)

/-- The ways to nest parts of a script. -/
inductive Deepening
  /-- Groups in parentheses. -/
  | group
  /-- Negations of negations. -/
  | negation
  /-- Lists in lists. -/
  | list
  /-- Blocks in blocks. -/
  | block
  /-- Calls with calls as arguments. -/
  | call
  /-- Conditionals as alternatives of conditionals. -/
  | branch
  /-- Members of members. -/
  | member

namespace Deepening

/-- A script that is nested so many times. -/
def text : Deepening → (n : Nat) → String
  | group, n => "x = " ++ repeated "(" n ++ "a" ++ repeated ")" n
  | negation, n => "x = " ++ repeated "!" n ++ "a"
  | list, n => "x = " ++ repeated "[" n ++ "a" ++ repeated "]" n
  | block, n => repeated "\x7b" n ++ repeated "\x7d" n
  | call, n => repeated "f(" n ++ repeated ")" n
  | branch, n => "if a \x7b \x7d" ++ repeated " else if a \x7b \x7d" n
  | member, n => "x = a" ++ repeated ".b" n

example : branch.text 1 = "if a \x7b \x7d else if a \x7b \x7d" := by decide

/-- The kind of nesting that is counted. -/
def what : Deepening → Nesting
  | group => .parenthesis
  | negation => .expression
  | list => .expression
  | block => .statement
  | call => .call
  | branch => .statement
  | member => .memberAccess

/-- How many levels are counted. The operand inside of negations and lists is one more, and so is
the block behind the last condition. -/
def levels : Deepening → (n : Nat) → Nat
  | group, n => n
  | negation, n => n + 1
  | list, n => n + 1
  | block, n => n
  | call, n => n
  | branch, n => n + 1
  | member, n => n

/-- What stands before a value that is assigned. -/
def assignWords : List Lexeme := [.ident "x", .symbol "="]

/-- One more alternative with a condition. -/
def alternativeWords (name : String) : List Lexeme :=
  [.keyword "else", .keyword "if", .ident name, .symbol "\x7b", .symbol "\x7d"]

/-- The lexemes of the text. -/
def words : Deepening → (n : Nat) → List Lexeme
  | group, n => assignWords ++ wrapped [.symbol "("] [.ident "a"] [.symbol ")"] n
  | negation, n => assignWords ++ wrapped [.symbol "!"] [.ident "a"] [] n
  | list, n => assignWords ++ wrapped [.symbol "["] [.ident "a"] [.symbol "]"] n
  | block, n => wrapped [.symbol "\x7b"] [] [.symbol "\x7d"] n
  | call, n => wrapped [.ident "f", .symbol "("] [] [.symbol ")"] n
  | branch, n => [.keyword "if", .ident "a", .symbol "\x7b", .symbol "\x7d"] ++
      wrapped (alternativeWords "a") [] [] n
  | member, n => assignWords ++ [.ident "a"] ++ wrapped [.symbol ".", .ident "b"] [] [] n

end Deepening

/-! ## Pieces of text -/

/-- No reserved word is one letter long. -/
theorem isName_letter {c : Char} (hc : Text.isNameStart c = true) : IsName (String.ofList [c]) := by
  have hone : (String.ofList [c]).length = 1 := by simp
  have hkeywords : ∀ word ∈ Lexeme.keywords, word.length ≠ 1 := by decide
  have hliterals : ∀ word ∈ literalWords, word.length ≠ 1 := by decide
  exact ⟨⟨c, [], by simp, hc, by simp⟩, fun h ↦ hkeywords _ h hone, fun h ↦ hliterals _ h hone⟩

namespace Lexer

namespace Lexes

variable {rest : List Char} {ls : List Lexeme}

/-- A brace, which no longer symbol begins with. -/
theorem brace {c : Char} (hc : c = '\x7b' ∨ c = '\x7d') (h : Lexes rest ls) :
    Lexes (c :: rest) (.symbol (String.singleton c) :: ls) := by
  rcases hc with rfl | rfl
  · exact h.symbol (show "\x7b".toList ++ rest = '\x7b' :: rest from rfl) (by simp) (by decide)
      (fun hslash ↦ absurd hslash (by decide)) rfl
  · exact h.symbol (show "\x7d".toList ++ rest = '\x7d' :: rest from rfl) (by simp) (by decide)
      (fun hslash ↦ absurd hslash (by decide)) rfl

theorem letter {c : Char} (hc : Text.isNameStart c = true) (hrest : EndsWord rest)
    (h : Lexes rest ls) :
    Lexes (c :: rest) (.ident (String.ofList [c]) :: ls) := by
  have hname := h.name (isName_letter hc) hrest
  rwa [String.toList_ofList] at hname

end Lexes

/-- In front of what satisfies `E`, the characters are read as the words, and then satisfy `O`. -/
def Lays (E O : List Char → Prop) (cs : List Char) (words : List Lexeme) : Prop :=
  ∀ (rest : List Char) (ls : List Lexeme), E rest → Lexes rest ls →
    O (cs ++ rest) ∧ Lexes (cs ++ rest) (words ++ ls)

namespace Lays

variable {D E O : List Char → Prop} {as bs cs : List Char} {u v w : List Lexeme}

theorem nil (h : ∀ rest, E rest → O rest) : Lays E O [] [] :=
  fun rest _ hrest hls ↦ ⟨h rest hrest, hls⟩

theorem append (h : Lays D O as v) (h' : Lays E D bs w) : Lays E O (as ++ bs) (v ++ w) := by
  intro rest ls hrest hls
  obtain ⟨hmiddle, hlater⟩ := h' rest ls hrest hls
  rw [List.append_assoc, List.append_assoc]
  exact h _ _ hmiddle hlater

/-- Layers are put around layers. -/
theorem wrapped (hopening : Lays O O as v) (hcore : Lays E O cs w)
    (hclosing : Lays E E bs u) (n : Nat) :
    Lays E O (wrapped as cs bs n) (wrapped v w u n) := by
  induction n with
  | zero => exact hcore
  | succ n ih => exact (hopening.append ih).append hclosing

/-- The text by itself. -/
theorem lexes (h : Lays EndsWord O cs w) : Lexes cs w := by
  have hall := (h [] [] endsWord_nil .nil).2
  rwa [List.append_nil, List.append_nil] at hall

end Lays

/-- Neither a blank nor an equals sign comes first. -/
def StartsPlainly (cs : List Char) : Prop :=
  (∀ c ∈ cs.head?, Cursor.isSpacing c = false) ∧ cs.head? ≠ some '='

theorem startsPlainly_cons {c : Char} (hc : Cursor.isSpacing c = false) (heq : c ≠ '=')
    (rest : List Char) :
    StartsPlainly (c :: rest) := ⟨by simpa using hc, by simpa using heq⟩

theorem lays_mark {E O : List Char → Prop} {c : Char} (hc : c ∈ Lexes.loneMarks)
    (hO : ∀ rest, O (c :: rest)) :
    Lays E O [c] [.symbol (String.singleton c)] := fun rest _ _ hls ↦ ⟨hO rest, hls.mark hc⟩

theorem lays_brace {E O : List Char → Prop} {c : Char} (hc : c = '\x7b' ∨ c = '\x7d')
    (hO : ∀ rest, O (c :: rest)) :
    Lays E O [c] [.symbol (String.singleton c)] := fun rest _ _ hls ↦ ⟨hO rest, hls.brace hc⟩

theorem lays_not : Lays StartsPlainly StartsPlainly ['!'] [.symbol "!"] := fun rest _ hrest hls ↦
  ⟨startsPlainly_cons (by decide) (by decide) rest, hls.not hrest.2⟩

theorem lays_letter {c : Char} (hc : Text.isNameStart c = true) :
    Lays EndsWord StartsPlainly [c] [.ident (String.ofList [c])] := fun rest _ hrest hls ↦
  ⟨startsPlainly_cons (not_isSpacing_of_isNameStart hc) (ne_of_isNameStart hc (by decide)) rest,
    hls.letter hc hrest⟩

/-- What is assigned stands behind a blank. -/
theorem lays_assign : Lays StartsPlainly (fun _ ↦ True) "x = ".toList Deepening.assignWords := by
  intro rest ls hrest hls
  have hmark := (Lexes.blank hrest.1 hls).blankedMark (Lexes.isBlankedMark_assignOp .assign)
  have hblank :=
    hmark.blank (show ∀ c ∈ ('=' :: ' ' :: rest).head?, Cursor.isSpacing c = false by simp; decide)
  exact ⟨trivial, hblank.letter (c := 'x') (by decide) (endsWord_cons (by decide) (by decide))⟩

/-- A conditional with nothing in its block. -/
theorem lays_condition {E : List Char → Prop} : Lays E (fun _ ↦ True) "if a \x7b \x7d".toList
    [.keyword "if", .ident "a", .symbol "\x7b", .symbol "\x7d"] := by
  intro rest ls _ hls
  have hclosing := (hls.brace (.inr rfl)).blank (by simp; decide)
  have hopening := (hclosing.brace (.inl rfl)).blank (by simp; decide)
  have hletter :=
    (hopening.letter (c := 'a') (by decide) (endsWord_cons (by decide) (by decide))).blank
    (by simp; decide)
  have hif := hletter.word (show "if".toList = 'i' :: ['f'] from rfl) (by decide)
    (List.all_eq_true.mp (by decide)) (endsWord_cons (by decide) (by decide))
  exact ⟨trivial, hif⟩

/-- One more alternative. -/
theorem lays_alternative {E : List Char → Prop} :
    Lays E EndsWord " else if a \x7b \x7d".toList (Deepening.alternativeWords "a") := by
  intro rest ls hrest hls
  have hcondition := (lays_condition rest ls hrest hls).2.blank (by simp; decide)
  have helse := (hcondition.word (show "else".toList = 'e' :: ['l', 's', 'e'] from rfl) (by decide)
    (List.all_eq_true.mp (by decide)) (endsWord_cons (by decide) (by decide))).blank
    (by simp; decide)
  exact ⟨endsWord_cons (by decide) (by decide), helse⟩

theorem lays_call {E : List Char → Prop} :
    Lays E (fun _ ↦ True) "f(".toList [.ident "f", .symbol "("] := by
  intro rest ls _ hls
  have hmark := hls.mark (c := '(') (by decide)
  exact ⟨trivial, hmark.letter (c := 'f') (by decide) (endsWord_cons (by decide) (by decide))⟩

/-- Behind a point there is a letter, so that no number goes on with it. -/
theorem lays_member : Lays EndsWord EndsWord ".b".toList [.symbol ".", .ident "b"] := by
  intro rest ls hrest hls
  have hletter := hls.letter (c := 'b') (by decide) hrest
  refine ⟨⟨by simp; decide, fun d more hsplit ↦ ?_⟩, hletter.mark (c := '.') (by decide)⟩
  obtain rfl : 'b' = d := (List.cons.inj (List.cons.inj hsplit).2).1
  decide

end Lexer

/-! ## Whole texts -/

namespace Deepening

open Lexer

theorem toList_repeated (piece : String) (n : Nat) :
    (repeated piece n).toList = (List.replicate n piece.toList).flatten := by
  simp [repeated, String.toList_join, List.flatMap_def]

theorem toList_text (d : Deepening) (n : Nat) : (d.text n).toList = match d with
    | group => "x = ".toList ++ wrapped ['('] ['a'] [')'] n
    | negation => "x = ".toList ++ wrapped ['!'] ['a'] [] n
    | list => "x = ".toList ++ wrapped ['['] ['a'] [']'] n
    | block => wrapped ['\x7b'] [] ['\x7d'] n
    | call => wrapped "f(".toList [] [')'] n
    | branch => "if a \x7b \x7d".toList ++ wrapped " else if a \x7b \x7d".toList [] [] n
    | member => "x = ".toList ++ ['a'] ++ wrapped ".b".toList [] [] n := by
  cases d <;> simp [text, toList_repeated, wrapped_eq]

/-- **The text consists of its words.** -/
theorem lexes_text (d : Deepening) (n : Nat) : Lexes (d.text n).toList (d.words n) := by
  rw [toList_text]
  have hnil : Lays EndsWord EndsWord [] [] := .nil fun _ ↦ id
  have ha : Lays EndsWord StartsPlainly ['a'] [.ident "a"] := lays_letter (by decide)
  have hparen : Lays EndsWord EndsWord [')'] [.symbol ")"] :=
    lays_mark (c := ')') (by decide) fun _ ↦ endsWord_cons (by decide) (by decide)
  cases d with
  | group =>
    have hopening : Lays StartsPlainly StartsPlainly ['('] [.symbol "("] :=
      lays_mark (c := '(') (by decide) (startsPlainly_cons (by decide) (by decide))
    exact (lays_assign.append (.wrapped hopening ha hparen n)).lexes
  | negation => exact (lays_assign.append (.wrapped lays_not ha hnil n)).lexes
  | list =>
    have hopening : Lays StartsPlainly StartsPlainly ['['] [.symbol "["] :=
      lays_mark (c := '[') (by decide) (startsPlainly_cons (by decide) (by decide))
    have hclosing : Lays EndsWord EndsWord [']'] [.symbol "]"] :=
      lays_mark (c := ']') (by decide) fun _ ↦ endsWord_cons (by decide) (by decide)
    exact (lays_assign.append (.wrapped hopening ha hclosing n)).lexes
  | block =>
    have hopening : Lays (fun _ ↦ True) (fun _ ↦ True) ['\x7b'] [.symbol "\x7b"] :=
      lays_brace (c := '\x7b') (by decide) fun _ ↦ trivial
    have hclosing : Lays EndsWord EndsWord ['\x7d'] [.symbol "\x7d"] :=
      lays_brace (c := '\x7d') (by decide) fun _ ↦ endsWord_cons (by decide) (by decide)
    exact (Lays.wrapped hopening (.nil fun _ _ ↦ trivial) hclosing n).lexes
  | call => exact (Lays.wrapped lays_call (.nil fun _ _ ↦ trivial) hparen n).lexes
  | branch => exact (lays_condition.append (.wrapped lays_alternative hnil hnil n)).lexes
  | member => exact ((lays_assign.append ha).append (.wrapped lays_member hnil hnil n)).lexes

/-- No lexeme of the text is a string. -/
theorem head?_ne_quote {d : Deepening} {n : Nat} {l : Lexeme} (hl : l ∈ d.words n) :
    l.text.toList.head? ≠ some '"' := by
  have hone : l ∈ d.words 1 := by
    cases d with
    | group | negation | list | branch | member =>
      exact List.mem_append.mpr ((List.mem_append.mp hl).imp_right mem_wrapped_one)
    | block | call => exact mem_wrapped_one hl
  have hnone : ∀ l ∈ d.words 1, l.text.toList.head? ≠ some '"' := by cases d <;> decide
  exact hnone l hone

theorem head?_ne_byteOrderMark (d : Deepening) (n : Nat) :
    (d.text n).toList.head? ≠ some '\uFEFF' := by
  rw [toList_text]
  cases d <;> cases n <;> simp [wrapped]

end Deepening

end ScriptFront
