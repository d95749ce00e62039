import ScriptFront.Proofs.Lexer.Genuine
import ScriptFront.Proofs.Lexer.Matches

/-!
# The places of tokens and of failures

A lexer puts a position on every token, and on every failure. All of them are positions that the
cursor of the lexer, or that of an enclosing one, has stood at.

A section embedded in a string is cut by a lexer with a cursor of its own, which starts where the
section starts. It sees neither the brace behind the section nor, if the section begins with one, a
byte order mark. So its columns can lag behind those of the enclosing text by one; but the columns
that they name are those of earlier characters on the same line, and the lines are the same, because
a carriage return at the end of the section is not followed by a line feed in the enclosing text
either. Hence the places that are allowed must be closed under going back on a line, and the places
of a text are.
-/

namespace ScriptFront

/-! ## The places of a text -/

/-- Some place of the text, its end included, stands at this position. -/
def IsPlaceOf (s : List Char) (p : Position) : Prop := ∃ n ≤ s.length, p = positionAt s n

/-- With every position, those before it on its line are allowed. -/
structure ReachesBack (P : Position → Prop) : Prop where
  /-- Columns are counted from one. -/
  one_le : ∀ {p : Position}, P p → 1 ≤ p.column
  /-- Smaller columns are allowed. -/
  back : ∀ {p : Position} {column : Nat}, P p → 1 ≤ column → column ≤ p.column → P ⟨p.line, column⟩

/-- Every column up to that of a place is the column of a place that is not behind it. -/
theorem exists_positionAt_column {s : List Char} {n column : Nat} (hone : 1 ≤ column)
    (hle : column ≤ (positionAt s n).column) :
    ∃ m ≤ n, positionAt s m = ⟨(positionAt s n).line, column⟩ := by
  induction n with
  | zero =>
    obtain rfl : column = 1 := Nat.le_antisymm hle hone
    exact ⟨0, Nat.le_refl _, rfl⟩
  | succ n ih =>
    by_cases hsame : column = (positionAt s (n + 1)).column
    · exact ⟨n + 1, Nat.le_refl _, by rw [hsame]⟩
    · rw [positionAt_succ] at hle hsame ⊢
      by_cases hbreak : breaksAt s n = true
      · -- a line that was just begun has one column
        rw [if_pos hbreak] at hle hsame
        exact absurd (Nat.le_antisymm hle hone) hsame
      · rw [if_neg hbreak] at hle hsame ⊢
        dsimp only at hle hsame ⊢
        obtain ⟨m, hm, hposition⟩ := ih (by omega)
        exact ⟨m, Nat.le_succ_of_le hm, hposition⟩

theorem reachesBack_isPlaceOf (s : List Char) : ReachesBack (IsPlaceOf s) where
  one_le := by
    rintro _ ⟨n, -, rfl⟩
    exact Nat.le_add_right 1 _
  back := by
    rintro _ column ⟨n, hn, rfl⟩ hone hle
    obtain ⟨m, hm, hposition⟩ := exists_positionAt_column hone hle
    exact ⟨m, Nat.le_trans hm hn, hposition.symm⟩

namespace Cursor

/-! ## Where a cursor can go -/

/-- Wherever the cursor moves, it stands at a place of `P`. -/
def StaysIn (P : Position → Prop) (c : Cursor) : Prop := ∀ n, P (c.advance n).position

section

variable {P : Position → Prop} {c c' : Cursor}

theorem StaysIn.position (h : c.StaysIn P) : P c.position := h 0

theorem StaysIn.advance (h : c.StaysIn P) (n : Nat) : (c.advance n).StaysIn P := by
  intro m
  rw [← advance_add]
  exact h (n + m)

theorem StaysIn.step (h : c.StaysIn P) : c.step.StaysIn P := advance_one c ▸ h.advance 1

theorem step_of_rest_nil (h : c.rest = []) : c.step = c := by
  obtain ⟨before, rest, pos, left, line, column, hb, hr⟩ := c
  obtain rfl : rest = [] := h
  rfl

theorem staysIn_ofText (text : String) : (ofText text).StaysIn (IsPlaceOf (contents text)) := by
  intro n
  have htracks := (tracks_ofText text).advance n
  refine ⟨_, ?_, htracks.position_eq⟩
  rw [← htracks.whole_eq, whole, List.length_append, List.length_reverse, length_before]
  exact Nat.le_add_right _ _

/-- The second cursor is at the same character, which is not in an earlier column. It sees a brace
and perhaps more behind the text of the first one. -/
structure Lags (c c' : Cursor) : Prop where
  /-- The characters to come begin alike. -/
  rest : ∃ more, c'.rest = c.rest ++ '\x7d' :: more
  /-- The lines are the same. -/
  line : c.line = c'.line
  /-- The first column is not greater. -/
  column : 1 ≤ c.column ∧ c.column ≤ c'.column

/-- A brace is no part of a line end. -/
theorem endsLine_append_brace (ch : Char) (rest more : List Char) :
    endsLine ch (rest ++ '\x7d' :: more) = endsLine ch rest := by
  cases rest with
  | nil => rfl
  | cons d rest => rfl

theorem Lags.step (h : Lags c c') (hrest : c.rest ≠ []) : Lags c.step c'.step := by
  obtain ⟨before, rest, pos, left, line, column, hb, hr⟩ := c
  obtain ⟨before', rest', pos', left', line', column', hb', hr'⟩ := c'
  obtain ⟨⟨more, hmore⟩, hline, hone, hle⟩ := h
  obtain ⟨ch, rest, rfl⟩ := List.exists_cons_of_ne_nil hrest
  obtain rfl : rest' = ch :: (rest ++ '\x7d' :: more) := hmore
  obtain rfl : line = line' := hline
  dsimp only at hone hle
  simp only [Cursor.step, endsLine_append_brace]
  refine ⟨⟨more, rfl⟩, ?_, ?_⟩
  · cases endsLine ch rest <;> rfl
  · cases endsLine ch rest with
    | true => exact ⟨Nat.le_refl 1, Nat.le_refl 1⟩
    | false => exact ⟨Nat.le_succ_of_le hone, Nat.succ_le_succ hle⟩

theorem Lags.staysIn (hP : ReachesBack P) (h : Lags c c') (hstays : c'.StaysIn P) :
    c.StaysIn P := by
  intro n
  induction n generalizing c c' with
  | zero =>
    have hplace := hP.back hstays.position h.column.1 h.column.2
    rwa [show c'.position.line = c.line from h.line.symm] at hplace
  | succ n ih =>
    rw [advance_succ]
    by_cases hrest : c.rest = []
    · rw [step_of_rest_nil hrest]
      exact ih h hstays
    · exact ih (h.step hrest) hstays.step

/-- A cursor in front of a section stands in the enclosing text. -/
theorem StaysIn.embedded (hP : ReachesBack P) (h : c.StaysIn P) {body : String} {more : List Char}
    (hrest : c.rest = body.toList ++ '\x7d' :: more) : (startingAt c.position body).StaysIn P := by
  have hone : 1 ≤ c.column := hP.one_le h.position
  by_cases hmark : body.toList.head? = some '\uFEFF'
  · -- the mark that is left out does not end a line
    obtain ⟨cs, hcs⟩ := List.head?_eq_some_iff.mp hmark
    have hcontents : contents body = cs := by
      rw [contents, hcs]
      rfl
    have hlags : Lags (startingAt c.position body) c.step := by
      obtain ⟨before, rest, pos, left, line, column, hb, hr⟩ := c
      obtain rfl : rest = '\uFEFF' :: (cs ++ '\x7d' :: more) := by
        rw [hcs] at hrest
        exact hrest
      refine ⟨⟨more, ?_⟩, rfl, hone, Nat.le_succ _⟩
      change cs ++ '\x7d' :: more = contents body ++ '\x7d' :: more
      rw [hcontents]
    exact hlags.staysIn hP h.step
  · have hlags : Lags (startingAt c.position body) c := by
      refine ⟨⟨more, ?_⟩, rfl, hone, Nat.le_refl _⟩
      change c.rest = contents body ++ '\x7d' :: more
      rw [hrest, contents_eq_toList hmark]
    exact hlags.staysIn hP h

end

end Cursor

namespace Lexer

/-! ## Where a lexer can go -/

/-- The lexer stays at places of `P`, and so do the tokens that it has queued. -/
structure StaysIn (P : Position → Prop) (lx : Lexer) : Prop where
  /-- The text is cut as it stands. -/
  bare : lx.dialect.IsBare
  /-- The cursor. -/
  cursor : lx.cursor.StaysIn P
  /-- The tokens. -/
  queued : ∀ t ∈ lx.queued, Token.Placed P t t

/-- The failure is at a place of `P`. -/
def FailsIn (P : Position → Prop) (e : ScriptError) : Prop := P e.position

section

variable {P : Position → Prop} {α β : Type} {Q : α → Prop} {R : β → Prop}
    {x y : LexM α} {lx : Lexer}

/-- Staying at places of `P`, the computation yields what `Q` says, or it fails at such a place. -/
def Stays (P : Position → Prop) (Q : α → Prop) (x : LexM α) : Prop :=
  ∀ lx, lx.StaysIn P → Ensures (FailsIn P) x lx fun a lx' ↦ Q a ∧ lx'.StaysIn P

namespace Stays

theorem pure {a : α} (h : Q a) : Stays P Q (pure a) := fun _ hlx ↦ .pure ⟨h, hlx⟩

theorem bind {f : α → LexM β} (h : Stays P Q x) (hf : ∀ a, Q a → Stays P R (f a)) :
    Stays P R (x >>= f) :=
  fun lx hlx ↦ (h lx hlx).bind fun a lx' ha ↦ hf a ha.1 lx' ha.2

theorem ite {p : Prop} [Decidable p] (hx : Stays P Q x) (hy : Stays P Q y) :
    Stays P Q (if p then x else y) :=
  fun lx hlx ↦ .branch (fun _ ↦ hx lx hlx) fun _ ↦ hy lx hlx

/-- The state that is asked for is the one that stays. -/
theorem get_bind {f : Lexer → LexM α} (hf : ∀ lx, lx.StaysIn P → Ensures (FailsIn P) (f lx) lx
    fun a lx' ↦ Q a ∧ lx'.StaysIn P) : Stays P Q (get >>= f) :=
  fun lx hlx ↦ .get_bind (hf lx hlx)

theorem scan {f : Cursor → α × Cursor} (hQ : ∀ c, Q (f c).1)
    (hf : ∀ c, ∃ n, (f c).2 = c.advance n) :
    Stays P Q (scan f) := by
  intro lx hlx
  obtain ⟨n, hn⟩ := hf lx.cursor
  refine .known rfl ⟨hQ _, hlx.bare, ?_, hlx.queued⟩
  dsimp only
  rw [hn]
  exact hlx.cursor.advance n

theorem pass (n : Nat) : Stays P (fun _ ↦ True) (pass n) := scan (fun _ ↦ trivial) fun _ ↦ ⟨n, rfl⟩

theorem fail {position : Position} (h : P position) (cause : Cause) :
    Stays P Q (fail position cause : LexM α) := fun _ _ ↦ .throw h

theorem scanExcept {f : Cursor → Except ScriptError α × Cursor} (hQ : ∀ c a, (f c).1 = .ok a → Q a)
    (hf : ∀ c a, (f c).1 = .ok a → ∃ n, (f c).2 = c.advance n)
    (herror : ∀ c e, (f c).1 = .error e → e.position = c.position) : Stays P Q (scanExcept f) := by
  intro lx hlx
  rw [Lexer.scanExcept, Ensures, scan_bind_run]
  cases hresult : (f lx.cursor).1 with
  | ok a =>
    obtain ⟨n, hn⟩ := hf _ _ hresult
    refine ⟨hQ _ _ hresult, hlx.bare, ?_, hlx.queued⟩
    dsimp only
    rw [hn]
    exact hlx.cursor.advance n
  | error e =>
    change P e.position
    rw [herror _ _ hresult]
    exact hlx.cursor.position

end Stays

/-- Of a section that stays at places of `P`, tokens at such places are cut. -/
def CutsIn (P : Position → Prop) (inner : Lexer → Except ScriptError (List Token)) : Prop :=
  ∀ lx, lx.StaysIn P → (∀ tokens, inner lx = .ok tokens → ∀ t ∈ tokens, Token.Placed P t t) ∧
    ∀ e, inner lx = .error e → FailsIn P e

/-! ## Strings with embedded sections -/

/-- A section that was read stands in front of a brace. -/
theorem ensures_readSection {opening : Position} (hopening : P opening) (hlx : lx.StaysIn P) :
    Ensures (FailsIn P) (readSection opening) lx fun body lx' ↦
      (∃ more, lx.cursor.rest = body.toList ++ '\x7d' :: more) ∧ lx'.StaysIn P := by
  rw [readSection]
  refine .get_bind ?_
  dsimp only
  cases hlength : sectionLength? none 1 0 lx.cursor.rest with
  | none =>
    refine (Stays.pass lx.cursor.left lx hlx).bind fun _ lx' _ ↦ ?_
    exact .throw hopening
  | some n =>
    obtain ⟨body, more, hrest, hn, -⟩ := exists_eq_append_of_sectionLength? hlength
    obtain rfl : n = body.length := by rw [hn, Nat.zero_add]
    refine (Stays.pass _ lx hlx).bind fun _ lx' hlx' ↦ .pure ⟨⟨more, ?_⟩, hlx'.2⟩
    rw [String.toList_ofList, hrest, List.take_left]

/-- The parts of a string hold tokens at places of `P`. -/
def PartsIn (P : Position → Prop) (parts : List Section) : Prop :=
  ∀ part ∈ parts, Section.Matches (Token.Placed P) part part

theorem PartsIn.closeText {parts : List Section} (h : PartsIn P parts) (text : List Char) :
    PartsIn P (closeText text parts) := by
  rw [Lexer.closeText]
  by_cases hempty : text.isEmpty = true
  · rw [if_pos hempty]
    exact h
  · rw [if_neg hempty]
    exact List.forall_mem_cons.mpr ⟨.text _, h⟩

theorem PartsIn.cons_tokens {parts : List Section} {tokens : List Token} (h : PartsIn P parts)
    (htokens : ∀ t ∈ tokens, Token.Placed P t t) : PartsIn P (.tokens tokens :: parts) :=
  List.forall_mem_cons.mpr ⟨.tokens (List.forall₂_same.mpr htokens), h⟩

section

variable {inner : Lexer → Except ScriptError (List Token)} (hP : ReachesBack P)
  (hinner : CutsIn P inner)

include hP hinner

theorem stays_readParts {opening : Position} (hopening : P opening) (fuel : Nat) (text : List Char)
    {parts : List Section} (hparts : PartsIn P parts) :
    Stays P (fun found ↦ PartsIn P found.2) (readParts inner opening fuel text parts) := by
  induction fuel generalizing text parts with
  | zero => exact .fail hopening _
  | succ fuel ih =>
    rw [readParts]
    refine .get_bind fun lx hlx ↦ ?_
    split
    · exact .throw hopening
    · next c rest hrest =>
      refine .branch (fun _ ↦ ?_) fun _ ↦ .branch (fun _ ↦ ?_) fun _ ↦
        .branch (fun _ ↦ ?_) fun _ ↦ ?_
      · split
        · exact (Stays.pass 1).bind (fun _ _ ↦ .fail hopening _) lx hlx
        · exact (Stays.pass 2).bind (fun _ _ ↦ ih _ hparts) lx hlx
      · exact (Stays.pass 1).bind (fun _ _ ↦ .pure hparts) lx hlx
      · refine .branch (fun _ ↦ .throw hlx.cursor.position) fun _ ↦ ?_
        refine (Stays.pass 2 lx hlx).bind fun _ lx₁ hlx₁ ↦ .get_bind ?_
        refine (ensures_readSection hopening hlx₁.2).bind fun body lx₂ hbody ↦ ?_
        obtain ⟨⟨more, hmore⟩, hlx₂⟩ := hbody
        have hsection :
            (lx.forSection lx₁.cursor.position (lx.base + lx₁.cursor.pos) body).StaysIn P :=
          ⟨hlx.bare, hlx₁.2.cursor.embedded hP hmore, by simp [forSection]⟩
        obtain ⟨htokens, herror⟩ := hinner _ hsection
        split
        · next e he => exact .throw (herror e he)
        · next tokens hcut =>
          exact ih _ ((hparts.closeText text).cons_tokens (htokens tokens hcut)) lx₂ hlx₂
      · exact (Stays.pass 1).bind (fun _ _ ↦ ih _ hparts) lx hlx

/-- The lexeme holds tokens at places of `P`. -/
abbrev LexemeIn (P : Position → Prop) (l : Lexeme) : Prop := Lexeme.Matches (Token.Placed P) l l

theorem stays_readString : Stays P (LexemeIn P) (readString inner) := by
  refine .get_bind fun lx hlx ↦ ?_
  have hnone : PartsIn P [] := by simp [PartsIn]
  refine (Stays.pass 1 lx hlx).bind fun _ lx₁ hlx₁ ↦ ?_
  refine (stays_readParts hP hinner hlx.cursor.position lx.cursor.left [] hnone lx₁ hlx₁.2).bind
    fun found lx₂ hfound ↦ .get_bind (.branch (fun _ ↦ ?_) fun _ ↦ ?_)
  · exact .pure ⟨.same (by simp [Lexeme.kind]), hfound.2⟩
  · refine .pure ⟨.interpolated _ (List.forall₂_same.mpr fun part hpart ↦ ?_), hfound.2⟩
    exact (hfound.1.closeText found.1) part (List.mem_reverse.mp hpart)

omit hP hinner

/-! ## Raw tokens -/

theorem stays_readBlockComment : Stays P (LexemeIn P) readBlockComment := by
  refine .get_bind fun lx hlx ↦ ?_
  refine (Stays.pass 1 lx hlx).bind fun _ lx₁ hlx₁ ↦ ?_
  have hscan : Stays P (fun _ ↦ True) (Lexer.scan (Cursor.scanUpTo '*' '/' ⟨true, false⟩)) :=
    .scan (fun _ ↦ trivial) fun c ↦ ⟨_, (Cursor.advance_succ c _).symm⟩
  refine (hscan lx₁ hlx₁.2).bind fun run lx₂ hlx₂ ↦ .branch (fun _ ↦ ?_) fun _ ↦ ?_
  · exact .pure ⟨.same (by simp [Lexeme.kind]), hlx₂.2⟩
  · exact .throw hlx.cursor.position

/-- Quoted text is scanned forward, and what is wrong with it is said of its beginning. -/
theorem stays_scanQuoted (quote mark : Char) :
    Stays P (fun _ ↦ True) (Lexer.scanExcept (Cursor.scanQuoted quote mark ⟨true, false⟩)) := by
  refine .scanExcept (fun _ _ _ ↦ trivial) (fun c run hrun ↦ ?_) fun c e he ↦ ?_
  · simp only [Cursor.scanQuoted] at hrun ⊢
    split at hrun
    · next hcomplete =>
      rw [if_pos hcomplete]
      exact ⟨_, (Cursor.advance_succ c _).symm⟩
    · cases hrun
  · simp only [Cursor.scanQuoted] at he
    split at he
    · cases he
    · cases he
      rfl

theorem stays_readPlainString : Stays P (LexemeIn P) readPlainString := by
  refine .get_bind fun lx hlx ↦ ?_
  refine (stays_scanQuoted '\'' '\\' lx hlx).bind fun run lx₁ hlx₁ ↦ .get_bind ?_
  exact .pure ⟨.same (by simp [Lexeme.kind]), hlx₁.2⟩

include hP hinner

theorem stays_readLexeme (c : Char) (rest : List Char) :
    Stays P (LexemeIn P) (readLexeme inner c rest) := by
  have hplain {l : Lexeme} (hl : l.kind ≠ .interpolated) : Stays P (LexemeIn P) (Pure.pure l) :=
    .pure (.same hl)
  have hscan {α : Type} {f : Cursor → α × Cursor} (hf : ∀ c, ∃ n, (f c).2 = c.advance n) :
      Stays P (fun _ ↦ True) (Lexer.scan f) := .scan (fun _ ↦ trivial) hf
  rw [readLexeme]
  refine .ite ((hscan fun c ↦ ⟨_, rfl⟩).bind fun _ _ ↦ hplain (by simp [Lexeme.kind])) ?_
  refine .ite ((Stays.pass 1).bind fun _ _ ↦ hplain (by simp [Lexeme.kind])) ?_
  refine .ite (.ite ?_ ?_) ?_
  · exact (Stays.pass 2).bind fun _ _ ↦ hplain (by simp [Lexeme.kind])
  · exact (Stays.pass 1).bind fun _ _ ↦ hplain (by simp [Lexeme.kind])
  refine .ite ((hscan fun c ↦ ⟨_, rfl⟩).bind fun _ _ ↦ hplain (by simp [Lexeme.kind])) ?_
  refine .ite stays_readBlockComment (.ite (stays_readString hP hinner) ?_)
  refine .ite stays_readPlainString ?_
  refine .ite ((hscan fun c ↦ ⟨_, rfl⟩).bind fun _ _ ↦ hplain (by simp [Lexeme.kind])) ?_
  refine .ite ((hscan fun c ↦ ⟨_, rfl⟩).bind fun _ _ ↦ hplain (kind_ofWord_ne _).2) ?_
  split
  · next l hl =>
    obtain ⟨s, -, rfl, -⟩ := longestSymbol?_eq_some hl
    exact (Stays.pass _).bind fun _ _ ↦ hplain (by simp [Lexeme.kind])
  · exact .get_bind fun lx hlx ↦ .throw hlx.cursor.position

theorem stays_readTokenWith : Stays P (fun t ↦ Token.Placed P t t) (readTokenWith inner) := by
  refine .get_bind fun lx hlx ↦ ?_
  have htoken {l : Lexeme} (hl : LexemeIn P l) : Stays P (fun t ↦ Token.Placed P t t)
      (Pure.pure (.mk l lx.cursor.position (lx.base + lx.cursor.pos) 0)) :=
    .pure (.mk hlx.cursor.position hl)
  split
  · exact htoken (.same (by simp [Lexeme.kind])) lx hlx
  · exact (stays_readLexeme hP hinner _ _).bind (fun l hl ↦ htoken hl) lx hlx

/-! ## Significant tokens -/

omit hP hinner in
theorem StaysIn.queue {t : Token} (hlx : lx.StaysIn P) (ht : Token.Placed P t t) (index : Nat)
    (ended : Bool) :
    StaysIn P { lx with queued := lx.queued ++ [t.withIndex lx.index], index, ended } := by
  refine ⟨hlx.bare, hlx.cursor, fun u hu ↦ ?_⟩
  rcases List.mem_append.mp hu with hu | hu
  · exact hlx.queued u hu
  · rw [List.mem_singleton.mp hu]
    obtain ⟨hplace, hl⟩ := ht
    exact .mk hplace hl

omit hP hinner in
theorem stays_produce {t : Token} (ht : Token.Placed P t t) :
    Stays P (fun _ ↦ True) (produce t) := by
  intro lx hlx
  cases hend : t.isEnd with
  | true => exact .known (produce_end_run hend) ⟨trivial, hlx.queue ht _ _⟩
  | false =>
    exact .known (produce_run hlx.bare.rules hlx.bare.extensions hend) ⟨trivial, hlx.queue ht _ _⟩

theorem stays_nextWith (fuel : Nat) :
    Stays P (fun found ↦ ∀ t ∈ found, Token.Placed P t t) (nextWith inner fuel) := by
  induction fuel with
  | zero => exact .pure (by simp)
  | succ fuel ih =>
    rw [nextWith]
    refine .get_bind fun lx hlx ↦ ?_
    split
    · next t queued hqueued =>
      have hall := hlx.queued
      rw [hqueued] at hall
      obtain ⟨ht, hrest⟩ := List.forall_mem_cons.mp hall
      exact .known rfl ⟨by simpa using ht, hlx.bare, hlx.cursor, hrest⟩
    · refine .branch (fun _ ↦ .pure ⟨by simp, hlx⟩) fun _ ↦ ?_
      refine (stays_readTokenWith hP hinner).bind (fun t ht ↦ ?_) lx hlx
      exact .ite ((stays_produce ht).bind fun _ _ ↦ ih) ih

theorem stays_batchWith (count : Nat) (done : List Token) (hdone : ∀ t ∈ done, Token.Placed P t t) :
    Stays P (fun tokens ↦ ∀ t ∈ tokens, Token.Placed P t t) (batchWith inner count done) := by
  induction count generalizing done with
  | zero => exact .pure fun t ht ↦ hdone t (List.mem_reverse.mp ht)
  | succ count ih =>
    rw [batchWith]
    refine .get_bind fun lx hlx ↦ (stays_nextWith hP hinner _).bind (fun found hfound ↦ ?_) lx hlx
    cases found with
    | none => exact .pure fun t ht ↦ hdone t (List.mem_reverse.mp ht)
    | some t => exact ih _ (List.forall_mem_cons.mpr ⟨hfound t rfl, hdone⟩)

end

/-- Sections are cut into tokens at places of the enclosing text, however deep they are nested. -/
theorem cutsIn_sectionTokens (hP : ReachesBack P) (levels : Nat) :
    CutsIn P (sectionTokens levels) := by
  induction levels with
  | zero =>
    refine fun lx hlx ↦ ⟨fun tokens h ↦ ?_, fun e h ↦ ?_⟩
    · cases h
    · cases h
      exact hlx.cursor.position
  | succ levels ih =>
    intro lx hlx
    have hbatch := stays_batchWith hP ih lx.tokensLeft [] (by simp) lx hlx
    rw [sectionTokens_succ]
    refine ⟨fun tokens h ↦ ?_, fun e h ↦ hbatch.of_outcome_error h⟩
    obtain ⟨found, lx', hfound, rfl⟩ := hbatch.of_outcome_ok h
    exact hfound.1

/-- **Places.** Asked for tokens, a lexer yields tokens at places of `P`, or it fails at such a
place. -/
theorem stays_batch (hP : ReachesBack P) (count : Nat) :
    Stays P (fun tokens ↦ ∀ t ∈ tokens, Token.Placed P t t) (batch count) := by
  intro lx hlx
  have hbatch := stays_batchWith hP (cutsIn_sectionTokens hP lx.levels) count [] (by simp) lx hlx
  rw [Ensures] at hbatch ⊢
  rw [batch, inner]
  exact hbatch

/-- In front of a text, a lexer stays at the places of the text. -/
theorem staysIn_ofText {d : Dialect} (hbare : d.IsBare) (text : String) :
    (ofText d text).StaysIn (IsPlaceOf (Cursor.contents text)) :=
  ⟨hbare, Cursor.staysIn_ofText text, by simp [ofText]⟩

end

end Lexer

end ScriptFront
