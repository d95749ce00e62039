import Mathlib.Data.List.Basic
import ScriptFront.Cursor.Scan

/-!
# Where a cursor stands

The line and the column of a place in a text are functions of the place: the lines completed before
it are counted, and the characters since the last completed one. A cursor does not compute them this
way but carries them along, one character at a time. The statements here say that the two agree
wherever a cursor has come by moving forward, and what moving forward does to the characters on both
sides of it.
-/

namespace ScriptFront

/-! ## Lines and columns of a text -/

/-- Whether the character at place `i` of a text completes a line: a line feed, or a carriage return
that no line feed follows. -/
def breaksAt (s : List Char) (i : Nat) : Bool :=
  s[i]? == some '\n' || (s[i]? == some '\r' && s[i + 1]? != some '\n')

/-- The line of place `n`: one more than the lines completed before it. -/
def lineAt (s : List Char) (n : Nat) : Nat := 1 + (List.range n).countP (breaksAt s)

/-- The column of place `n`: one more than the characters since the last completed line. -/
def columnAt (s : List Char) (n : Nat) : Nat :=
  1 + ((List.range n).reverse.takeWhile fun i ↦ !breaksAt s i).length

/-- The position of place `n` of a text that starts at the first line and column. -/
def positionAt (s : List Char) (n : Nat) : Position := ⟨lineAt s n, columnAt s n⟩

@[simp] theorem positionAt_zero (s : List Char) : positionAt s 0 = .start := rfl

theorem positionAt_succ (s : List Char) (n : Nat) :
    positionAt s (n + 1) =
      if breaksAt s n then ⟨(positionAt s n).line + 1, 1⟩
      else ⟨(positionAt s n).line, (positionAt s n).column + 1⟩ := by
  by_cases hb : breaksAt s n = true
  · simp [positionAt, lineAt, columnAt, List.range_succ, hb, Nat.add_assoc]
  · simp [positionAt, lineAt, columnAt, List.range_succ, hb, Nat.add_assoc]

/-- The position of place `n` of a text whose first character stands at `start`: the start, moved
over the first `n` characters. -/
def positionFrom (start : Position) (s : List Char) (n : Nat) : Position :=
  (List.range n).foldl
    (fun p i ↦ if breaksAt s i then ⟨p.line + 1, 1⟩ else ⟨p.line, p.column + 1⟩) start

theorem positionFrom_succ (start : Position) (s : List Char) (n : Nat) :
    positionFrom start s (n + 1) =
      if breaksAt s n then ⟨(positionFrom start s n).line + 1, 1⟩
      else ⟨(positionFrom start s n).line, (positionFrom start s n).column + 1⟩ := by
  rw [positionFrom, List.range_succ, List.foldl_concat]
  rfl

theorem positionFrom_start (s : List Char) (n : Nat) :
    positionFrom .start s n = positionAt s n := by
  induction n with
  | zero => rfl
  | succ n ih => rw [positionFrom_succ, positionAt_succ, ih]

/-- The character behind a part of a text completes a line of the whole as the cursor sees it. -/
theorem breaksAt_append_length (before rest : List Char) (c : Char) :
    breaksAt (before ++ c :: rest) before.length = endsLine c rest := by
  have hnext : (before ++ c :: rest)[before.length + 1]? = rest.head? := by
    rw [List.getElem?_append_right (by omega), List.head?_eq_getElem?]
    simp
  simp only [breaksAt, hnext, endsLine, List.getElem?_append_right,
    Nat.le_refl, Nat.sub_self, List.getElem?_cons_zero]
  rfl

namespace Cursor

/-! ## Moving forward -/

theorem atEnd_iff {c : Cursor} : c.atEnd = true ↔ c.rest = [] := List.isEmpty_iff

@[simp] theorem advance_zero (c : Cursor) : c.advance 0 = c := rfl

theorem advance_succ (c : Cursor) (n : Nat) : c.advance (n + 1) = c.step.advance n := by
  rw [advance]
  split
  · -- at the end neither a step nor a longer move does anything
    next h =>
    have hstep : c.step = c := by
      obtain ⟨before, rest, pos, left, line, column, hb, hr⟩ := c
      obtain rfl : rest = [] := atEnd_iff.mp h
      rfl
    rw [hstep]
    cases n with
    | zero => rfl
    | succ n => rw [advance, if_pos h]
  · rfl

theorem advance_one (c : Cursor) : c.advance 1 = c.step := by rw [advance_succ, advance_zero]

theorem advance_add (c : Cursor) (m n : Nat) : c.advance (m + n) = (c.advance m).advance n := by
  induction m generalizing c with
  | zero => rw [Nat.zero_add, advance_zero]
  | succ m ih => rw [Nat.succ_add, advance_succ, advance_succ, ih]

@[simp] theorem rest_step (c : Cursor) : c.step.rest = c.rest.drop 1 := by
  obtain ⟨before, rest, pos, left, line, column, hb, hr⟩ := c
  cases rest <;> rfl

@[simp] theorem rest_advance (c : Cursor) (n : Nat) : (c.advance n).rest = c.rest.drop n := by
  induction n generalizing c with
  | zero => rfl
  | succ n ih => rw [advance_succ, ih, rest_step, List.drop_drop, Nat.add_comm]

theorem before_step (c : Cursor) : c.step.before = (c.rest.take 1).reverse ++ c.before := by
  obtain ⟨before, rest, pos, left, line, column, hb, hr⟩ := c
  cases rest <;> rfl

theorem before_advance (c : Cursor) (n : Nat) :
    (c.advance n).before = (c.rest.take n).reverse ++ c.before := by
  induction n generalizing c with
  | zero => rfl
  | succ n ih =>
    rw [advance_succ, ih, rest_step, before_step]
    cases c.rest <;> simp

theorem whole_advance (c : Cursor) (n : Nat) : (c.advance n).whole = c.whole := by
  rw [whole, before_advance, rest_advance, whole, List.reverse_append, List.reverse_reverse,
    List.append_assoc, List.take_append_drop]

theorem left_eq_length (c : Cursor) : c.left = c.rest.length := c.length_rest.symm

theorem pos_advance {c : Cursor} {n : Nat} (h : n ≤ c.rest.length) :
    (c.advance n).pos = c.pos + n := by
  rw [← length_before, before_advance, ← length_before]
  simp only [List.length_append, List.length_reverse, List.length_take]
  omega

/-- What was passed by moving over `n` characters is those characters. -/
theorem since_advance {c : Cursor} {n : Nat} (h : n ≤ c.rest.length) :
    (c.advance n).since c.pos = String.ofList (c.rest.take n) := by
  have hlen : (c.rest.take n).reverse.length = n := by simp [h]
  rw [since, pos_advance h, Nat.add_sub_cancel_left, before_advance,
    List.take_append_of_le_length (by omega), List.take_of_length_le (by omega),
    List.reverse_reverse]

/-! ## Carrying the position along -/

variable {c : Cursor} {ch : Char} {rest s : List Char} {start : Position}

theorem contents_eq_toList {text : String} (h : text.toList.head? ≠ some '\uFEFF') :
    contents text = text.toList := by
  rw [contents]
  split
  · next heq => exact absurd (congrArg List.head? heq) h
  · rfl

theorem position_step (h : c.rest = ch :: rest) :
    c.step.position =
      if endsLine ch rest then ⟨c.position.line + 1, 1⟩
        else ⟨c.position.line, c.position.column + 1⟩ := by
  obtain ⟨before, rest, pos, left, line, column, hb, hr⟩ := c
  obtain rfl : rest = _ := h
  by_cases hends : endsLine ch rest = true <;> simp [position, step, hends]

/-- The cursor stands somewhere in `s`, which starts at `start`, and at the position of that
place. -/
structure TracksFrom (start : Position) (s : List Char) (c : Cursor) : Prop where
  /-- The text on both sides is the whole text. -/
  whole_eq : c.whole = s
  /-- The position is that of the place reached. -/
  position_eq : c.position = positionFrom start s c.pos

theorem tracksFrom_startingAt (start : Position) (text : String) :
    TracksFrom start (contents text) (startingAt start text) :=
  ⟨by simp [startingAt, whole], rfl⟩

theorem TracksFrom.pos_le (h : TracksFrom start s c) : c.pos ≤ s.length := by
  rw [← h.whole_eq, whole, List.length_append, List.length_reverse, c.length_before]
  exact Nat.le_add_right _ _

theorem TracksFrom.step (h : TracksFrom start s c) : TracksFrom start s c.step := by
  cases hrest : c.rest with
  | nil =>
    rwa [← advance_one, advance, if_pos (atEnd_iff.mpr hrest)]
  | cons ch rest =>
    have hwhole : c.before.reverse ++ ch :: rest = s := hrest ▸ h.whole_eq
    have hbreak : breaksAt s c.pos = endsLine ch rest := by
      rw [← hwhole, ← c.length_before, ← List.length_reverse, breaksAt_append_length]
    have hpos : c.step.pos = c.pos + 1 := by
      rw [← advance_one, pos_advance (by simp [hrest])]
    refine ⟨?_, ?_⟩
    · rw [← advance_one, whole_advance, h.whole_eq]
    · rw [position_step hrest, hpos, positionFrom_succ, hbreak, ← h.position_eq]

theorem TracksFrom.advance (h : TracksFrom start s c) (n : Nat) :
    TracksFrom start s (c.advance n) := by
  induction n generalizing c with
  | zero => exact h
  | succ n ih =>
    rw [advance_succ]
    exact ih h.step

/-- The cursor stands somewhere in `s`, and at the position of that place. -/
structure Tracks (s : List Char) (c : Cursor) : Prop where
  /-- The text on both sides is the whole text. -/
  whole_eq : c.whole = s
  /-- The position is that of the place reached. -/
  position_eq : c.position = positionAt s c.pos

/-- What holds from any start holds from the first line and column. -/
theorem tracks_iff : Tracks s c ↔ TracksFrom .start s c := by
  constructor
  · exact fun h ↦ ⟨h.whole_eq, h.position_eq.trans (positionFrom_start s c.pos).symm⟩
  · exact fun h ↦ ⟨h.whole_eq, h.position_eq.trans (positionFrom_start s c.pos)⟩

/-- All texts begin at the same position. -/
theorem position_ofText_eq (text text' : String) :
    (ofText text').position = (ofText text).position := by
  rw [ofText, startingAt, position, ofText, startingAt, position]

theorem tracks_ofText (text : String) : Tracks (contents text) (ofText text) :=
  tracks_iff.mpr (tracksFrom_startingAt .start text)

theorem Tracks.rest_eq (h : Tracks s c) : c.rest = s.drop c.pos := by
  rw [← h.whole_eq, whole, ← c.length_before, ← List.length_reverse, List.drop_left]

theorem Tracks.pos_le (h : Tracks s c) : c.pos ≤ s.length := (tracks_iff.mp h).pos_le

theorem Tracks.step (h : Tracks s c) : Tracks s c.step := tracks_iff.mpr (tracks_iff.mp h).step

theorem Tracks.advance (h : Tracks s c) (n : Nat) : Tracks s (c.advance n) :=
  tracks_iff.mpr ((tracks_iff.mp h).advance n)

end Cursor

end ScriptFront
