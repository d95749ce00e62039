import Mathlib.Data.List.TakeWhile
import ScriptFront.Proofs.Lexer.RawTokens

/-!
# Scans keep the position

A cursor carries its line and column along, and a scan may end by returning onto the last character
that it has read. Returning counts the column back without a look at the text, so it is right only
if that character completes no line. `Cursor.back_step` is this fact, and no scan ends with a
character that does: blanks, names and numbers hold no line end, the rest of a line stops in front
of it, and quotes and closing pairs are none as long as their characters are not.

So every scan is a move forward, over some number of characters, and the position is a function of
the place alone, whatever scans have led there. The scans that may span lines also count the lines
they complete.
-/

namespace ScriptFront

/-- The character may complete a line: a line feed or a carriage return. -/
def breaksLine (c : Char) : Bool := c == '\n' || c == '\r'

theorem endsLine_of_breaksLine_eq_false {c : Char} (h : breaksLine c = false) (rest : List Char) :
    endsLine c rest = false := by
  rw [breaksLine, Bool.or_eq_false_iff] at h
  rw [endsLine, h.1, h.2]
  rfl

namespace Cursor

variable {c : Cursor} {ch : Char} {rest run : List Char} {start : Position}
    {s : List Char} {n : Nat}

/-! ## One character -/

theorem line_step (h : c.rest = ch :: rest) :
    c.step.line = c.line + if endsLine ch rest then 1 else 0 := by
  have hline : c.step.line = c.step.position.line := rfl
  rw [hline, position_step h]
  split <;> rfl

theorem column_pos_step (h : 1 ≤ c.column) : 1 ≤ c.step.column := by
  cases hrest : c.rest with
  | nil =>
    rw [← advance_one, advance, if_pos (atEnd_iff.mpr hrest)]
    exact h
  | cons ch rest =>
    have hcolumn : c.step.column = c.step.position.column := rfl
    rw [hcolumn, position_step hrest]
    split
    · exact Nat.le_refl 1
    · exact Nat.le_add_left 1 c.column

theorem column_pos_advance (h : 1 ≤ c.column) (n : Nat) : 1 ≤ (c.advance n).column := by
  induction n generalizing c with
  | zero => exact h
  | succ n ih =>
    rw [advance_succ]
    exact ih (column_pos_step h)

/-- Returning onto a character undoes passing it, if it completes no line. -/
theorem back_step (hrest : c.rest = ch :: rest) (hends : endsLine ch rest = false)
    (hcolumn : 1 ≤ c.column) : c.step.back = c := by
  obtain ⟨before, rest, pos, left, line, column, hb, hr⟩ := c
  obtain rfl : rest = _ := hrest
  simp only [List.length_cons] at hr
  simp only at hcolumn
  simp only [step, back, hends, Bool.false_eq_true, if_false, Nat.add_sub_cancel,
    Nat.max_eq_left hcolumn, ← hr]

@[simp] theorem line_back (c : Cursor) : c.back.line = c.line := by
  obtain ⟨before, rest, pos, left, line, column, hb, hr⟩ := c
  cases before <;> rfl

theorem pos_le_pos_advance (c : Cursor) (n : Nat) : c.pos ≤ (c.advance n).pos := by
  rw [← length_before, ← length_before, before_advance, List.length_append]
  exact Nat.le_add_left _ _

/-! ## How a scan begins and ends -/

theorem exists_opened_eq (p : Placing) (c : Cursor) : ∃ n, c.opened p = c.advance n := by
  rw [opened]
  split
  · exact ⟨1, (advance_one c).symm⟩
  · exact ⟨0, rfl⟩

@[simp] theorem line_closed (p : Placing) (nonempty : Bool) (c : Cursor) :
    (c.closed p nonempty).line = c.line := by
  rw [closed]
  split
  · exact line_back c
  · rfl

/-- A scan may return onto a character that completes no line. -/
theorem exists_closed_eq (hrest : (c.advance n).rest = ch :: rest) (hends : breaksLine ch = false)
    (hcolumn : 1 ≤ c.column) (p : Placing) (nonempty : Bool) :
    ∃ m, (c.advance (n + 1)).closed p nonempty = c.advance m := by
  rw [closed]
  split
  · refine ⟨n, ?_⟩
    rw [advance_add, advance_one]
    exact back_step hrest (endsLine_of_breaksLine_eq_false hends rest)
      (column_pos_advance hcolumn n)
  · exact ⟨n + 1, rfl⟩

/-- Behind a run without line ends, a scan may return onto its last character, if it has one. -/
theorem exists_closed_run (hrun : run <+: c.rest) (hfree : ∀ ch ∈ run, breaksLine ch = false)
    (hcolumn : 1 ≤ c.column) (p : Placing) :
    ∃ m, (c.advance run.length).closed p (!run.isEmpty) = c.advance m := by
  rcases List.eq_nil_or_concat run with rfl | ⟨init, last, rfl⟩
  · refine ⟨0, ?_⟩
    simp [closed]
  · rw [List.concat_eq_append] at *
    obtain ⟨more, hmore⟩ := hrun
    have hrest : (c.advance init.length).rest = last :: more := by
      rw [rest_advance, ← hmore, List.append_assoc, List.drop_left]
      rfl
    rw [List.length_append, List.length_singleton]
    exact exists_closed_eq hrest (hfree last (by simp)) hcolumn p _

/-! ## Shapes within a line -/

theorem breaksLine_of_isSpacing {ch : Char} (h : isSpacing ch = true) : breaksLine ch = false := by
  rw [isSpacing, Bool.or_eq_true, beq_iff_eq, beq_iff_eq] at h
  rcases h with rfl | rfl <;> rfl

theorem breaksLine_of_isNameChar {ch : Char} (h : Text.isNameChar ch = true) :
    breaksLine ch = false := by
  rw [breaksLine, Bool.or_eq_false_iff, beq_eq_false_iff_ne, beq_eq_false_iff_ne]
  constructor <;> rintro rfl <;> exact absurd h (by decide)

theorem exists_scanWhile_eq {property : Char → Bool}
    (hfree : ∀ ch, property ch = true → breaksLine ch = false)
    (emptyFails : Bool) (p : Placing) (hcolumn : 1 ≤ c.column) :
    ∃ m, (c.scanWhile property emptyFails p).2 = c.advance m := by
  obtain ⟨k, hopened⟩ := exists_opened_eq p c
  have hcolumn' : 1 ≤ (c.opened p).column := hopened ▸ column_pos_advance hcolumn k
  obtain ⟨m, hclosed⟩ := exists_closed_run (List.takeWhile_prefix property)
    (fun ch hch ↦ hfree ch (List.mem_takeWhile_imp hch)) hcolumn' p
  refine ⟨k + m, ?_⟩
  rw [advance_add, ← hopened, ← hclosed]
  rfl

theorem breaksLine_of_mem_numberRun {cs : List Char} (h : ch ∈ numberRun cs) :
    breaksLine ch = false := by
  have hdigit {ds : List Char} (h : ch ∈ ds.takeWhile Char.isDigit) : breaksLine ch = false := by
    have hch : ch.isDigit = true := List.mem_takeWhile_imp h
    rw [breaksLine, Bool.or_eq_false_iff, beq_eq_false_iff_ne, beq_eq_false_iff_ne]
    constructor <;> rintro rfl <;> exact absurd hch (by decide)
  rw [numberRun] at h
  split at h
  · dsimp only at h
    split at h
    · exact hdigit h
    · rcases List.mem_append.mp h with h | h
      · exact hdigit h
      · rcases List.mem_cons.mp h with rfl | h
        · rfl
        · exact hdigit h
  · exact hdigit h

theorem exists_scanNumber_eq (p : Placing) (hcolumn : 1 ≤ c.column) :
    ∃ m, (c.scanNumber p).2 = c.advance m := by
  obtain ⟨k, hopened⟩ := exists_opened_eq p c
  have hcolumn' : 1 ≤ (c.opened p).column := hopened ▸ column_pos_advance hcolumn k
  obtain ⟨more, hmore⟩ := Lexer.numberRun_append (c.opened p).rest
  obtain ⟨m, hclosed⟩ := exists_closed_run ⟨more, hmore.symm⟩
    (fun ch hch ↦ breaksLine_of_mem_numberRun hch) hcolumn' p
  refine ⟨k + m, ?_⟩
  rw [advance_add, ← hopened, ← hclosed]
  rfl

/-! ## Shapes that may span lines -/

/-- A reading that goes on from the cursor, where `e` was read, comes to `e'`: the lines it counts
are those that the cursor completes over the characters taken, and `last` is the last of them if the
run is complete. -/
def Takes (last : Char) (c : Cursor) (e e' : Extent) : Prop :=
  ∃ n, e'.taken = e.taken + n ∧ (c.advance n).line + e.lines = c.line + e'.lines ∧
    (e'.complete = true → ∃ m rest, n = m + 1 ∧ (c.advance m).rest = last :: rest)

/-- One more character is read, written in `width` places. -/
theorem Takes.push {last meaning : Char} {e e' : Extent} {width : Nat}
    (hline : (c.advance width).line = c.line + if endsLine ch rest then 1 else 0)
    (h : Takes last (c.advance width) (e.push meaning ch rest width) e') : Takes last c e e' := by
  obtain ⟨n, htaken, hlines, hcomplete⟩ := h
  simp only [Extent.push] at htaken hlines
  refine ⟨width + n, by omega, ?_, fun h ↦ ?_⟩
  · rw [advance_add]
    omega
  · obtain ⟨m, more, rfl, hmore⟩ := hcomplete h
    exact ⟨width + m, more, rfl, by rw [advance_add, hmore]⟩

/-- Quoted text ends with the closing quote. -/
theorem takes_quotedExtent {quote mark : Char} (hquote : breaksLine quote = false)
    (hmark : breaksLine mark = false) {e : Extent} (he : e.complete = false) (c : Cursor) :
    Takes quote c e (quotedExtent quote mark c.rest e) := by
  generalize hrest : c.rest = cs
  fun_induction quotedExtent quote mark cs e generalizing c with
  | case1 e => exact ⟨0, rfl, rfl, fun h ↦ absurd h (by simp [he])⟩
  | case2 e =>
    refine ⟨1, rfl, ?_, fun h ↦ absurd h (by simp [Extent.skip, he])⟩
    rw [advance_one, line_step hrest, endsLine_of_breaksLine_eq_false hmark]
    rfl
  | case3 e d rest ih =>
    have hstep : c.step.rest = d :: rest := by rw [rest_step, hrest]; rfl
    have hline : (c.advance 2).line = c.line + if endsLine d rest then 1 else 0 := by
      rw [advance_succ, advance_one, line_step hstep, line_step hrest,
        endsLine_of_breaksLine_eq_false hmark]
      rfl
    exact .push hline (ih rfl (c.advance 2) (by rw [rest_advance, hrest]; rfl))
  | case4 rest e hne =>
    refine ⟨1, rfl, ?_, fun _ ↦ ⟨0, rest, rfl, hrest⟩⟩
    rw [advance_one, line_step hrest, endsLine_of_breaksLine_eq_false hquote]
    rfl
  | case5 d rest e hne hne' ih =>
    have hline : (c.advance 1).line = c.line + if endsLine d rest then 1 else 0 := by
      rw [advance_one, line_step hrest]
    exact .push hline (ih rfl (c.advance 1) (by rw [rest_advance, hrest]; rfl))

/-- Text up to a closing pair ends with the second character of the pair. -/
theorem takes_upToExtent {first second : Char} (hfirst : breaksLine first = false)
    (hsecond : breaksLine second = false) {e : Extent} (he : e.complete = false) (c : Cursor) :
    Takes second c e (upToExtent first second c.rest e) := by
  generalize hrest : c.rest = cs
  fun_induction upToExtent first second cs e generalizing c with
  | case1 e => exact ⟨0, rfl, rfl, fun h ↦ absurd h (by simp [he])⟩
  | case2 d rest e hpair =>
    obtain ⟨rfl, hhead⟩ := hpair
    obtain ⟨more, rfl⟩ := List.head?_eq_some_iff.mp hhead
    have hstep : c.step.rest = second :: more := by rw [rest_step, hrest]; rfl
    refine ⟨2, rfl, ?_, fun _ ↦ ⟨1, more, rfl, by rw [advance_one, hstep]⟩⟩
    rw [advance_succ, advance_one, line_step hstep, line_step hrest,
      endsLine_of_breaksLine_eq_false hfirst, endsLine_of_breaksLine_eq_false hsecond]
    rfl
  | case3 d rest e hne ih =>
    have hline : (c.advance 1).line = c.line + if endsLine d rest then 1 else 0 := by
      rw [advance_one, line_step hrest]
    exact .push hline (ih rfl (c.advance 1) (by rw [rest_advance, hrest]; rfl))

/-- The scan that takes an extent is a move forward, and counts the lines it completes. -/
theorem exists_closed_takes {last : Char} (hlast : breaksLine last = false) {e : Extent}
    (h : Takes last c .empty e) (hcolumn : 1 ≤ c.column) (p : Placing) :
    (∃ m, (c.advance e.taken).closed p e.complete = c.advance m) ∧
    (c.advance e.taken).line = c.line + e.lines := by
  obtain ⟨n, htaken, hlines, hcomplete⟩ := h
  obtain rfl : e.taken = n := htaken.trans (Nat.zero_add n)
  refine ⟨?_, hlines⟩
  cases hdone : e.complete with
  | false => exact ⟨e.taken, by rw [closed, Bool.and_false, if_neg Bool.false_ne_true]⟩
  | true =>
    obtain ⟨m, rest, hm, hrest⟩ := hcomplete hdone
    rw [hm]
    exact exists_closed_eq hrest hlast hcolumn p true

theorem cursor_scanQuoted (quote mark : Char) (p : Placing) (c : Cursor) :
    (c.scanQuoted quote mark p).2 =
      ((c.opened p).advance (quotedExtent quote mark (c.opened p).rest .empty).taken).closed p
        (quotedExtent quote mark (c.opened p).rest .empty).complete := by
  rw [scanQuoted]
  cases hcomplete : (quotedExtent quote mark (c.opened p).rest .empty).complete with
  | true => simp only [if_true]
  | false =>
    simp only [Bool.false_eq_true, if_false]
    rw [closed, Bool.and_false, if_neg Bool.false_ne_true]

/-- Quoted text that is complete is all that was taken. -/
theorem eq_run_of_scanQuoted {quote mark : Char} {p : Placing} {read : Run}
    (h : (c.scanQuoted quote mark p).1.toOption = some read) :
    read = (quotedExtent quote mark (c.opened p).rest .empty).run := by
  rw [scanQuoted] at h
  split at h
  · exact (Option.some.inj h).symm
  · cases h

/-! ## Motions -/

/-- An operation that moves a cursor. -/
inductive Motion where
  /-- One character is passed. -/
  | step
  /-- A line end is passed, if there is one. -/
  | lineEnd
  /-- Spaces and tabs are read. -/
  | blanks (placing : Placing)
  /-- The characters of a name are read. -/
  | name (placing : Placing)
  /-- The digits of a number are read. -/
  | number (placing : Placing)
  /-- The rest of the line is read. -/
  | line (placing : Placing)
  /-- Quoted text is read. -/
  | quoted (quote mark : Char) (placing : Placing)
  /-- Text up to a pair of characters is read. -/
  | upTo (first second : Char) (placing : Placing)

namespace Motion

/-- What an operation reads, if it is a scan and does not fail, and the cursor behind it. -/
def perform : Motion → Cursor → Option Run × Cursor
  | .step, c => (none, c.step)
  | .lineEnd, c => (none, c.passLineEnd.2)
  | .blanks p, c => (some (c.scanBlanks p).1, (c.scanBlanks p).2)
  | .name p, c => (some (c.scanName p).1, (c.scanName p).2)
  | .number p, c => (some (c.scanNumber p).1, (c.scanNumber p).2)
  | .line p, c => (some (c.scanLine p).1, (c.scanLine p).2)
  | .quoted quote mark p, c =>
    ((c.scanQuoted quote mark p).1.toOption, (c.scanQuoted quote mark p).2)
  | .upTo first second p, c => (some (c.scanUpTo first second p).1, (c.scanUpTo first second p).2)

/-- The characters given to the operation complete no line. -/
def AvoidsBreaks : Motion → Prop
  | .quoted quote mark _ => breaksLine quote = false ∧ breaksLine mark = false
  | .upTo first second _ => breaksLine first = false ∧ breaksLine second = false
  | _ => True

/-- The operation may span lines, and reads from the current character on. -/
def SpansLines : Motion → Prop
  | .quoted _ _ p | .upTo _ _ p => p.skipFirst = false
  | _ => False

/-- The cursor behind some operations. -/
def performAll (motions : List Motion) (c : Cursor) : Cursor :=
  motions.foldl (fun c motion ↦ (motion.perform c).2) c

variable {motion : Motion}

/-- Every operation is a move forward. -/
theorem exists_perform_eq (hbreaks : motion.AvoidsBreaks) (hcolumn : 1 ≤ c.column) :
    ∃ n, (motion.perform c).2 = c.advance n := by
  have hopened (p : Placing) (f : Cursor → Cursor)
      (hf : ∀ c : Cursor, 1 ≤ c.column → ∃ n, f c = c.advance n) :
      ∃ n, f (c.opened p) = c.advance n := by
    obtain ⟨k, hk⟩ := exists_opened_eq p c
    obtain ⟨n, hn⟩ := hf _ (hk ▸ column_pos_advance hcolumn k)
    exact ⟨k + n, by rw [hn, hk, advance_add]⟩
  cases motion with
  | step => exact ⟨1, (advance_one c).symm⟩
  | lineEnd =>
    rw [perform, passLineEnd]
    split
    · exact ⟨2, rfl⟩
    · exact ⟨1, (advance_one c).symm⟩
    · exact ⟨1, (advance_one c).symm⟩
    · exact ⟨0, rfl⟩
  | blanks p => exact exists_scanWhile_eq (fun ch ↦ breaksLine_of_isSpacing) false p hcolumn
  | name p => exact exists_scanWhile_eq (fun ch ↦ breaksLine_of_isNameChar) true p hcolumn
  | number p => exact exists_scanNumber_eq p hcolumn
  | line p =>
    refine exists_scanWhile_eq (fun ch hch ↦ ?_) false p hcolumn
    rwa [breaksLine, ← Bool.not_eq_true', Bool.not_or]
  | quoted quote mark p =>
    rw [perform, cursor_scanQuoted]
    exact hopened p _ fun c hc ↦
      (exists_closed_takes hbreaks.1 (takes_quotedExtent hbreaks.1 hbreaks.2 rfl c) hc p).1
  | upTo first second p =>
    exact hopened p _ fun c hc ↦
      (exists_closed_takes hbreaks.2 (takes_upToExtent hbreaks.1 hbreaks.2 rfl c) hc p).1

/-- The lines that an operation counts are those it completes. -/
theorem line_perform (hbreaks : motion.AvoidsBreaks) (hspans : motion.SpansLines)
    (hcolumn : 1 ≤ c.column)
    {read : Run} (hread : (motion.perform c).1 = some read) :
    (motion.perform c).2.line = c.line + read.lines := by
  have hopened {p : Placing} (hp : p.skipFirst = false) : c.opened p = c := by
    rw [opened, hp, if_neg Bool.false_ne_true]
  cases motion with
  | quoted quote mark p =>
    have hlines :=
      (exists_closed_takes hbreaks.1 (takes_quotedExtent hbreaks.1 hbreaks.2 rfl c) hcolumn p).2
    obtain rfl := eq_run_of_scanQuoted hread
    rw [perform, cursor_scanQuoted, line_closed, hopened hspans, hlines]
    rfl
  | upTo first second p =>
    have hlines :=
      (exists_closed_takes hbreaks.2 (takes_upToExtent hbreaks.1 hbreaks.2 rfl c) hcolumn p).2
    cases hread
    simp only [perform, scanUpTo, line_closed, hopened hspans, hlines]
    rfl
  | _ => exact hspans.elim

/-- Operations keep a cursor on track. -/
theorem tracksFrom_performAll {motions : List Motion}
    (hbreaks : ∀ motion ∈ motions, motion.AvoidsBreaks)
    (hcolumn : 1 ≤ c.column) (h : TracksFrom start s c) :
    TracksFrom start s (performAll motions c) ∧ 1 ≤ (performAll motions c).column := by
  induction motions generalizing c with
  | nil => exact ⟨h, hcolumn⟩
  | cons motion motions ih =>
    rw [List.forall_mem_cons] at hbreaks
    obtain ⟨n, hn⟩ := exists_perform_eq hbreaks.1 hcolumn
    rw [performAll, List.foldl_cons, hn]
    exact ih hbreaks.2 (column_pos_advance hcolumn n) (h.advance n)

end Motion

/-- **The position is a function of the place.** Whatever operations a cursor has come by, with
quotes, marks and pairs that are no line ends, the next one does not move it back or past the end of
the text, and the position is the start of the text moved over the characters passed. The scans that
may span lines count as many lines as the cursor completes. -/
theorem performAll_position_eq (text : String) {start : Position} (hstart : 1 ≤ start.column)
    {motions : List Motion} (hmotions : ∀ motion ∈ motions, motion.AvoidsBreaks) {motion : Motion}
    (hmotion : motion.AvoidsBreaks) :
    let before := Motion.performAll motions (startingAt start text)
    let after := (motion.perform before).2
    after.whole = contents text ∧ before.pos ≤ after.pos ∧ after.pos ≤ (contents text).length ∧
      after.position = positionFrom start (contents text) after.pos ∧
      (motion.SpansLines → ∀ read ∈ (motion.perform before).1,
        after.line = before.line + read.lines) := by
  intro before after
  obtain ⟨htracks, hcolumn⟩ :=
    Motion.tracksFrom_performAll hmotions hstart (tracksFrom_startingAt start text)
  obtain ⟨n, hn⟩ := Motion.exists_perform_eq hmotion hcolumn
  replace hn : after = before.advance n := hn
  have hafter : TracksFrom start (contents text) after := hn ▸ htracks.advance n
  refine ⟨hafter.whole_eq, ?_, hafter.pos_le, hafter.position_eq, fun hspans read hread ↦ ?_⟩
  · rw [hn]
    exact pos_le_pos_advance before n
  · exact Motion.line_perform hmotion hspans hcolumn hread

/-- Quoted text over two lines is read up to its closing quote, behind a pair of carriage return and
line feed. -/
theorem performAll_position_eq_sampleLines :
    let text := "x\r\n'a\nb' y"
    let before := Motion.performAll [.name .plain, .lineEnd, .step] (startingAt ⟨3, 5⟩ text)
    let after := ((Motion.quoted '\'' '\\' ⟨false, true⟩).perform before).2
    (∀ motion ∈ [Motion.name .plain, .lineEnd, .step], motion.AvoidsBreaks) ∧
      before.position = ⟨4, 2⟩ ∧ after.position = ⟨5, 2⟩ ∧
      after.position = positionFrom ⟨3, 5⟩ (contents text) after.pos ∧
      after.line = before.line + 1 := by
  have hmotions : ∀ motion ∈ [Motion.name .plain, .lineEnd, .step], motion.AvoidsBreaks := by
    simp [Motion.AvoidsBreaks]
  have hmotion : (Motion.quoted '\'' '\\' ⟨false, true⟩).AvoidsBreaks := ⟨rfl, rfl⟩
  obtain ⟨-, -, -, hposition, hlines⟩ :=
    performAll_position_eq "x\r\n'a\nb' y" (show 1 ≤ (⟨3, 5⟩ : Position).column by decide)
      hmotions hmotion
  exact ⟨hmotions, by decide +kernel, by decide +kernel, hposition,
    hlines rfl ⟨"a\nb", true, 1⟩ (by decide +kernel)⟩

end Cursor

end ScriptFront
