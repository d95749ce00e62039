import ScriptFront.Proofs.Agreement
import ScriptFront.Proofs.Lexer.RawTokens

/-!
# Lexers with different bounds on embedded sections

The only bound a lexer knows is the number of levels of embedded sections. A lexer that allows more
of them than another reads the same tokens, unless the other one stops at its bound. The statement
is proved along the text of the lexer, and it says more than it seems to: a lexer allows at least as
many levels as itself, so each of its failures is one that the statement lists. None of these is a
bound on a loop, and none is about looking ahead, which is the business of a window.

Reading a raw token takes no notice of the tokens cut so far. So the part of the statement that is
about raw tokens is made for lexers that merely stand *beside* each other, at the same place of the
same text.
-/

namespace ScriptFront

/-- A lexer may fail with this cause. -/
def Cause.IsOfLexer : Cause → Prop
  | .outOfFuel | .lookaheadExceeded _ _ => False
  | _ => True

/-- A lexer may fail with this. -/
def ScriptError.IsOfLexer (e : ScriptError) : Prop := e.cause.IsOfLexer

theorem ScriptError.IsOfLexer.withinFuel {e : ScriptError} (h : e.IsOfLexer) : e.WithinFuel := by
  intro hcause
  rw [IsOfLexer, hcause] at h
  exact h

theorem Ensures.withinFuel {σ α : Type} {x : EStateM ScriptError σ α} {s : σ} {Q : α → σ → Prop}
    (h : Ensures ScriptError.IsOfLexer x s Q) : Ensures ScriptError.WithinFuel x s Q :=
  h.loosen fun _ he ↦ he.withinFuel

/-- The lexical extensions of a dialect do not move the cursor back, and fail as a lexer may. -/
def Dialect.IsTame (d : Dialect) : Prop :=
  ∀ e ∈ d.extensions, ∀ t c, (e.lex t c).2.left ≤ c.left ∧
    ∀ err, (e.lex t c).1 = .error err → err.IsOfLexer

theorem Dialect.isTame_of_extensions {d : Dialect} (h : d.extensions = []) : d.IsTame := by
  intro e he
  rw [h] at he
  cases he

namespace Lexer

/-- Both runs may fail alike, and the first one may also stop at a bound. -/
def tighter : Leeway where
  common e := e.IsOfLexer
  first e := e.category = .limit ∧ e.IsOfLexer
  second _ := False

/-- The second lexer is the first one, except that it may allow more levels. -/
structure Allows (lx lx' : Lexer) : Prop where
  /-- The second allows at least as many levels. -/
  levels : lx.levels ≤ lx'.levels
  /-- They agree in everything else. -/
  rest : lx' = { lx with
    levels := lx'.levels
    dialect := { lx.dialect with maxNesting := lx'.dialect.maxNesting } }
  /-- Their extensions are tame. -/
  tame : lx.dialect.IsTame

/-- The second lexer stands at the same place, and may allow more levels. Nothing is said about the
tokens cut so far. -/
structure Beside (lx lx' : Lexer) : Prop where
  /-- The second allows at least as many levels. -/
  levels : lx.levels ≤ lx'.levels
  /-- They cut in the same way. -/
  dialect : lx'.dialect = { lx.dialect with maxNesting := lx'.dialect.maxNesting }
  /-- They have reached the same place. -/
  cursor : lx'.cursor = lx.cursor
  /-- Their texts begin at the same offset. -/
  base : lx'.base = lx.base
  /-- Their extensions are tame. -/
  tame : lx.dialect.IsTame

section

variable {α β : Type} {lx lx' : Lexer}

theorem Allows.cursor_eq (h : Allows lx lx') : lx'.cursor = lx.cursor := by rw [h.rest]

theorem Allows.dialect_eq (h : Allows lx lx') :
    lx'.dialect = { lx.dialect with maxNesting := lx'.dialect.maxNesting } :=
  congrArg dialect h.rest

theorem Allows.refl (h : lx.dialect.IsTame) : Allows lx lx := ⟨Nat.le_refl _, rfl, h⟩

theorem Allows.beside (h : Allows lx lx') : Beside lx lx' :=
  ⟨h.levels, h.dialect_eq, h.cursor_eq, by rw [h.rest], h.tame⟩

/-- Sections at the same place are cut by lexers that have cut nothing yet. -/
theorem Beside.forSection (h : Beside lx lx') (start : Position) (offset : Nat) (text : String) :
    Allows (lx.forSection start offset text) (lx'.forSection start offset text) := by
  refine ⟨Nat.sub_le_sub_right h.levels 1, ?_, h.tame⟩
  rw [Lexer.forSection, Lexer.forSection, h.dialect]

theorem Beside.moved (h : Beside lx lx') (c : Cursor) :
    Beside { lx with cursor := c } { lx' with cursor := c } :=
  ⟨h.levels, h.dialect, rfl, h.base, h.tame⟩

/-- Both lexers agree on a computation. -/
abbrev Keeps (x y : LexM α) : Prop := Twin tighter Allows x y

/-- Both lexers agree on reading. -/
abbrev ReadsAlike (x y : LexM α) : Prop := Twin tighter Beside x y

theorem readsAlike_scan (f : Cursor → α × Cursor) : ReadsAlike (scan f) (scan f) := by
  intro lx lx' h
  rw [scan_run, scan_run, h.cursor]
  exact .ok ⟨rfl, h.moved _⟩

theorem readsAlike_pass (n : Nat) : ReadsAlike (pass n) (pass n) := readsAlike_scan _

theorem readsAlike_fail {position : Position} {cause : Cause} (h : cause.IsOfLexer) :
    ReadsAlike (fail position cause : LexM α) (fail position cause) := .throw h

theorem readsAlike_scanExcept {f : Cursor → Except ScriptError α × Cursor}
    (h : ∀ c e, (f c).1 = .error e → e.IsOfLexer) : ReadsAlike (scanExcept f) (scanExcept f) := by
  intro lx lx' hlx
  rw [scanExcept, scan_bind_run, scan_bind_run, hlx.cursor]
  cases hresult : (f lx.cursor).1 with
  | ok a => exact .ok ⟨rfl, hlx.moved _⟩
  | error e => exact .error (h _ _ hresult)

theorem keeps_scanExcept {f : Cursor → Except ScriptError α × Cursor}
    (h : ∀ c e, (f c).1 = .error e → e.IsOfLexer) : Keeps (scanExcept f) (scanExcept f) := by
  intro lx lx' hlx
  have hupdate :
      Allows { lx with cursor := (f lx.cursor).2 } { lx' with cursor := (f lx.cursor).2 } :=
    ⟨hlx.levels, by rw [hlx.rest], hlx.tame⟩
  rw [scanExcept, scan_bind_run, scan_bind_run, hlx.cursor_eq]
  cases hresult : (f lx.cursor).1 with
  | ok a => exact .ok ⟨rfl, hupdate⟩
  | error e => exact .error (h _ _ hresult)

/-! ## Strings with embedded sections -/

theorem readsAlike_readSection (opening : Position) :
    ReadsAlike (readSection opening) (readSection opening) := by
  refine .get_bind fun lx lx' hlx ↦ ?_
  rw [hlx.cursor]
  dsimp only
  split
  · exact (readsAlike_pass _).bind fun _ ↦ readsAlike_fail trivial
  · exact (readsAlike_pass _).bind fun _ ↦ .pure _

section Sections

variable {inner₁ inner₂ : Lexer → Except ScriptError (List Token)}
  (hinner : ∀ lx lx', Allows lx lx' → Conform tighter Eq (inner₁ lx) (inner₂ lx'))

include hinner

theorem readsAlike_readParts (opening : Position) (fuel : Nat) (text : List Char)
    (parts : List Section) :
    ReadsAlike (readParts inner₁ opening fuel text parts)
      (readParts inner₂ opening fuel text parts) := by
  induction fuel generalizing text parts with
  | zero => exact readsAlike_fail trivial
  | succ fuel ih =>
    rw [readParts, readParts]
    refine .get_bind fun lx lx' hlx ↦ ?_
    rw [hlx.cursor]
    split
    · exact readsAlike_fail trivial
    · next c rest hrest =>
      have hmarker : lx'.dialect.marker = lx.dialect.marker := by rw [hlx.dialect]
      rw [hmarker]
      refine .ite ?_ (.ite ?_ (.ite ?_ ?_))
      · split
        · exact (readsAlike_pass 1).bind fun _ ↦ readsAlike_fail trivial
        · exact (readsAlike_pass 2).bind fun _ ↦ ih _ _
      · exact (readsAlike_pass 1).bind fun _ ↦ .pure _
      · by_cases hlevels : lx.levels = 0
        · -- the first lexer stops at its bound, whatever the second one does
          rw [if_pos hlevels]
          exact fun _ _ _ ↦ .first ⟨rfl, trivial⟩
        · have hlevels' : lx'.levels ≠ 0 := by
            have := hlx.levels
            omega
          rw [if_neg hlevels, if_neg hlevels']
          refine (readsAlike_pass 2).bind fun _ ↦ .get_bind fun lx₂ lx₂' hlx₂ ↦ ?_
          rw [hlx₂.cursor]
          refine (readsAlike_readSection opening).bind fun body ↦ ?_
          have hsame := hinner _ _ (hlx.forSection lx₂.cursor.position
            (lx.base + lx₂.cursor.pos) body)
          rw [hlx.base]
          revert hsame
          generalize inner₁ _ = r
          generalize inner₂ _ = r'
          intro hsame
          cases hsame with
          | ok htokens =>
            rw [htokens]
            exact ih _ _
          | error herror => exact .throw herror
          | first hfirst => exact fun _ _ _ ↦ .first hfirst
          | second hsecond => exact hsecond.elim
      · exact (readsAlike_pass 1).bind fun _ ↦ ih _ _

theorem readsAlike_readString : ReadsAlike (readString inner₁) (readString inner₂) := by
  refine .get_bind fun lx lx' hlx ↦ ?_
  rw [hlx.cursor]
  refine (readsAlike_pass 1).bind fun _ ↦ (readsAlike_readParts hinner _ _ _ _).bind fun found ↦ ?_
  refine .get_bind fun lx₂ lx₂' hlx₂ ↦ ?_
  rw [hlx₂.cursor]
  exact .ite (.pure _) (.pure _)

/-! ## Raw tokens -/

omit hinner in
theorem readsAlike_readBlockComment : ReadsAlike readBlockComment readBlockComment := by
  refine .get_bind fun lx lx' hlx ↦ ?_
  rw [hlx.cursor]
  refine (readsAlike_pass 1).bind fun _ ↦ (readsAlike_scan _).bind fun run ↦ ?_
  exact .ite (.pure _) (readsAlike_fail trivial)

omit hinner in
theorem scanQuoted_isOfLexer (quote mark : Char) (placing : Placing) (c : Cursor)
    (e : ScriptError) (h : (Cursor.scanQuoted quote mark placing c).1 = .error e) :
    e.IsOfLexer := by
  simp only [Cursor.scanQuoted] at h
  split at h
  · cases h
  · cases h
    trivial

omit hinner in
theorem readsAlike_readPlainString : ReadsAlike readPlainString readPlainString := by
  refine .get_bind fun lx lx' hlx ↦ ?_
  rw [hlx.cursor]
  refine (readsAlike_scanExcept (scanQuoted_isOfLexer _ _ _)).bind fun run ↦ ?_
  refine .get_bind fun lx₂ lx₂' hlx₂ ↦ ?_
  rw [hlx₂.cursor]
  exact .pure _

theorem readsAlike_readLexeme (c : Char) (rest : List Char) :
    ReadsAlike (readLexeme inner₁ c rest) (readLexeme inner₂ c rest) := by
  rw [readLexeme, readLexeme]
  refine .ite ((readsAlike_scan _).bind fun _ ↦ .pure _) ?_
  refine .ite ((readsAlike_pass 1).bind fun _ ↦ .pure _) ?_
  refine .ite (.ite ((readsAlike_pass 2).bind fun _ ↦ .pure _) ((readsAlike_pass 1).bind fun _ ↦
    .pure _)) ?_
  refine .ite ((readsAlike_scan _).bind fun _ ↦ .pure _) (.ite readsAlike_readBlockComment ?_)
  refine .ite (readsAlike_readString hinner) (.ite readsAlike_readPlainString ?_)
  refine .ite ((readsAlike_scan _).bind fun _ ↦ .pure _)
    (.ite ((readsAlike_scan _).bind fun _ ↦ .pure _) ?_)
  split
  · exact (readsAlike_pass _).bind fun _ ↦ .pure _
  · refine .get_bind fun lx lx' hlx ↦ ?_
    rw [hlx.cursor]
    exact readsAlike_fail trivial

theorem readsAlike_readTokenWith : ReadsAlike (readTokenWith inner₁) (readTokenWith inner₂) := by
  refine .get_bind fun lx lx' hlx ↦ ?_
  rw [hlx.cursor, hlx.base]
  split
  · exact .bind (.pure _) fun _ ↦ .pure _
  · exact (readsAlike_readLexeme hinner _ _).bind fun _ ↦ .pure _

/-- Both lexers leave alone the tokens cut so far. -/
theorem keeps_readTokenWith : Keeps (readTokenWith inner₁) (readTokenWith inner₂) := by
  intro lx lx' hlx
  refine (readsAlike_readTokenWith hinner lx lx' hlx.beside).remember.mono ?_
  rintro t _ lx₁ lx₁' ⟨⟨hread, hread'⟩, rfl, hbeside⟩
  obtain ⟨c, rfl⟩ := readTokenWith_moved hread
  obtain ⟨c', rfl⟩ := readTokenWith_moved hread'
  obtain rfl : c' = c := hbeside.cursor
  exact ⟨rfl, hlx.levels, by rw [hlx.rest], hlx.tame⟩

/-! ## Significant tokens -/

omit hinner in
theorem keeps_enqueue (tokens : List Token) : Keeps (enqueue tokens) (enqueue tokens) :=
  .modify fun lx lx' hlx ↦ ⟨hlx.levels, by rw [hlx.rest], hlx.tame⟩

omit hinner in
theorem keeps_produce (t : Token) : Keeps (produce t) (produce t) := by
  refine .get_bind fun lx lx' hlx ↦ ?_
  have hrules : lx'.dialect.rules = lx.dialect.rules := by rw [hlx.dialect_eq]
  have hextensions : lx'.dialect.extensions = lx.dialect.extensions := by rw [hlx.dialect_eq]
  rw [hlx.cursor_eq, hrules, hextensions]
  refine .ite ?_ ?_
  · refine .bind (.modify fun lx lx' hlx ↦ ⟨hlx.levels, by rw [hlx.rest], hlx.tame⟩) fun _ ↦ ?_
    exact keeps_enqueue _
  · split
    · next e he =>
      refine (keeps_scanExcept fun c err ↦ ?_).bind fun _ ↦ keeps_enqueue _
      exact (hlx.tame e (List.mem_of_find?_eq_some he) t c).2 err
    · exact keeps_enqueue _

theorem keeps_nextWith (fuel : Nat) : Keeps (nextWith inner₁ fuel) (nextWith inner₂ fuel) := by
  induction fuel with
  | zero => exact .pure _
  | succ fuel ih =>
    rw [nextWith, nextWith]
    refine .get_bind fun lx lx' hlx ↦ ?_
    have hqueued : lx'.queued = lx.queued := by rw [hlx.rest]
    have hended : lx'.ended = lx.ended := by rw [hlx.rest]
    rw [hqueued, hended]
    split
    · refine .bind (fun _ _ _ ↦ .ok ⟨rfl, ?_⟩) fun _ ↦ .pure _
      exact ⟨hlx.levels, by rw [hlx.rest], hlx.tame⟩
    · refine .ite (.pure _) ((keeps_readTokenWith hinner).bind fun t ↦ ?_)
      by_cases hkind : (t.kind != .whitespace) = true
      · rw [if_pos hkind, if_pos hkind]
        exact (keeps_produce t).bind fun _ ↦ ih
      · rw [if_neg hkind, if_neg hkind]
        exact ih

theorem keeps_batchWith (count : Nat) (done : List Token) :
    Keeps (batchWith inner₁ count done) (batchWith inner₂ count done) := by
  induction count generalizing done with
  | zero => exact .pure _
  | succ count ih =>
    rw [batchWith, batchWith]
    refine .get_bind fun lx lx' hlx ↦ ?_
    rw [hlx.cursor_eq]
    refine (keeps_nextWith hinner _).bind fun found ↦ ?_
    cases found with
    | none => exact .pure _
    | some t => exact ih _

end Sections

theorem Allows.tokensLeft_eq (h : Allows lx lx') : lx'.tokensLeft = lx.tokensLeft := by
  rw [h.rest]
  rfl

theorem sectionTokens_succ (levels : Nat) (lx : Lexer) :
    sectionTokens (levels + 1) lx =
      outcome (fun tokens _ ↦ tokens) (batchWith (sectionTokens levels) lx.tokensLeft [] lx) := by
  rw [sectionTokens]
  cases batchWith (sectionTokens levels) lx.tokensLeft [] lx <;> rfl

theorem conform_sectionTokens {levels levels' : Nat} (hle : levels ≤ levels')
    (h : Allows lx lx') :
    Conform tighter Eq (sectionTokens levels lx) (sectionTokens levels' lx') := by
  induction levels generalizing levels' lx lx' with
  | zero => exact .first ⟨rfl, trivial⟩
  | succ levels ih =>
    obtain ⟨levels', rfl⟩ := Nat.exists_eq_succ_of_ne_zero (Nat.ne_zero_of_lt hle)
    have hbatch := keeps_batchWith (fun _ _ ↦ ih (Nat.le_of_succ_le_succ hle)) lx.tokensLeft []
      lx lx' h
    rw [sectionTokens_succ, sectionTokens_succ, h.tokensLeft_eq]
    exact hbatch.conform fun _ _ _ _ hab ↦ hab.1

/-- **Levels.** Asked for more tokens, a lexer that allows more levels of embedded sections does
what the other one does, or the other one stops at its bound. -/
theorem batch_agree (count : Nat) (h : Allows lx lx') :
    Agree tighter (fun a b lx lx' ↦ a = b ∧ Allows lx lx') (batch count lx) (batch count lx') :=
  keeps_batchWith (fun _ _ hlx ↦ conform_sectionTokens h.levels hlx) count [] lx lx' h

/-- The failures of a lexer are of its own kind. -/
theorem batch_isOfLexer {count : Nat} {e : ScriptError} (htame : lx.dialect.IsTame)
    (h : batch count lx = .error e lx') : e.IsOfLexer := by
  have hagree := batch_agree count (Allows.refl htame)
  rw [h] at hagree
  cases hagree with
  | error herror => exact herror
  | first hfirst => exact hfirst.2
  | second hsecond => exact hsecond.elim

end

end Lexer

end ScriptFront
