import ScriptFront.Proofs.Lexer.Levels

/-!
# How a lexer fails

Without extensions, which may fail as they like, a lexer has few ways to fail: a literal or a
comment is not closed, a character begins no token, or sections are nested too deep. Rules do not
fail. So whatever else goes wrong while a text is parsed is noticed by the parser.
-/

namespace ScriptFront

/-- What a text alone can be refused for by a lexer. -/
def Cause.IsLexical : Cause → Prop
  | .unterminatedString | .unterminatedInterpolation | .unterminatedComment
  | .unexpectedCharacter _ | .nestingTooDeep _ _ => True
  | _ => False

/-- A lexer without extensions may fail with this. -/
def ScriptError.IsLexical (e : ScriptError) : Prop := e.cause.IsLexical

/-- Lexers of this dialect fail in no other way. -/
def Dialect.FailsOnly (E : ScriptError → Prop) (d : Dialect) : Prop :=
  ∀ lx lx' count e, lx.dialect = d → Lexer.batch count lx = .error e lx' → E e

theorem Dialect.IsTame.failsOnly {d : Dialect} (h : d.IsTame) :
    d.FailsOnly ScriptError.IsOfLexer := by
  rintro lx lx' count e rfl hbatch
  exact Lexer.batch_isOfLexer h hbatch

namespace Lexer

variable {α β : Type} {x y : LexM α}

/-- Without extensions, the computation fails as a lexer may, and does not add any. -/
def Lapses (x : LexM α) : Prop :=
  ∀ lx, lx.dialect.extensions = [] →
    Ensures ScriptError.IsLexical x lx fun _ lx' ↦ lx'.dialect.extensions = []

namespace Lapses

theorem pure (a : α) : Lapses (pure a) := fun _ hlx ↦ .pure hlx

theorem bind {f : α → LexM β} (h : Lapses x) (hf : ∀ a, Lapses (f a)) : Lapses (x >>= f) :=
  fun lx hlx ↦ (h lx hlx).bind fun a lx' hlx' ↦ hf a lx' hlx'

theorem ite {p : Prop} [Decidable p] (hx : Lapses x) (hy : Lapses y) :
    Lapses (if p then x else y) :=
  fun lx hlx ↦ .branch (fun _ ↦ hx lx hlx) fun _ ↦ hy lx hlx

theorem get_bind {f : Lexer → LexM α} (hf : ∀ lx, lx.dialect.extensions = [] → Lapses (f lx)) :
    Lapses (get >>= f) :=
  fun lx hlx ↦ .get_bind (hf lx hlx lx hlx)

theorem modify {m : Lexer → Lexer} (hm : ∀ lx, (m lx).dialect = lx.dialect) :
    Lapses (modify m : LexM PUnit) :=
  fun lx hlx ↦ .known rfl (by rw [hm]; exact hlx)

theorem throw {e : ScriptError} (h : e.IsLexical) : Lapses (throw e : LexM α) :=
  fun _ _ ↦ .throw h

theorem fail {position : Position} {cause : Cause} (h : cause.IsLexical) :
    Lapses (fail position cause : LexM α) := .throw h

theorem scan (f : Cursor → α × Cursor) : Lapses (scan f) := fun _ hlx ↦ .known rfl hlx

theorem pass (n : Nat) : Lapses (pass n) := scan _

theorem scanExcept {f : Cursor → Except ScriptError α × Cursor}
    (h : ∀ c e, (f c).1 = .error e → e.IsLexical) : Lapses (scanExcept f) := by
  intro lx hlx
  rw [Lexer.scanExcept, Ensures, scan_bind_run]
  cases hresult : (f lx.cursor).1 with
  | ok a => exact hlx
  | error e => exact h _ _ hresult

/-! ## Raw tokens -/

theorem readSection (opening : Position) : Lapses (readSection opening) := by
  refine .get_bind fun lx _ ↦ ?_
  dsimp only
  split
  · exact (pass _).bind fun _ ↦ .fail trivial
  · exact (pass _).bind fun _ ↦ .pure _

section

variable {inner : Lexer → Except ScriptError (List Token)}
  (hinner : ∀ lx e, lx.dialect.extensions = [] → inner lx = .error e → e.IsLexical)

include hinner

theorem readParts (opening : Position) (fuel : Nat) (text : List Char) (parts : List Section) :
    Lapses (readParts inner opening fuel text parts) := by
  induction fuel generalizing text parts with
  | zero => exact .fail trivial
  | succ fuel ih =>
    rw [Lexer.readParts]
    refine .get_bind fun lx hlx ↦ ?_
    split
    · exact .fail trivial
    · refine .ite ?_ (.ite ?_ (.ite ?_ ?_))
      · split
        · exact (pass 1).bind fun _ ↦ .fail trivial
        · exact (pass 2).bind fun _ ↦ ih _ _
      · exact (pass 1).bind fun _ ↦ .pure _
      · refine .ite (.fail trivial) ((pass 2).bind fun _ ↦ .get_bind fun lx₁ _ ↦ ?_)
        refine (readSection opening).bind fun body ↦ ?_
        split
        · next e he => exact .throw (hinner _ _ (by exact hlx) he)
        · exact ih _ _
      · exact (pass 1).bind fun _ ↦ ih _ _

theorem readString : Lapses (readString inner) :=
  .get_bind fun _ _ ↦ (pass 1).bind fun _ ↦ (readParts hinner _ _ _ _).bind fun _ ↦
    .get_bind fun _ _ ↦ .ite (.pure _) (.pure _)

omit hinner in
theorem readBlockComment : Lapses readBlockComment :=
  .get_bind fun _ _ ↦ (pass 1).bind fun _ ↦ (scan _).bind fun _ ↦ .ite (.pure _) (.fail trivial)

omit hinner in
theorem scanQuoted_isLexical (quote mark : Char) (placing : Placing) (c : Cursor) (e : ScriptError)
    (h : (Cursor.scanQuoted quote mark placing c).1 = .error e) : e.IsLexical := by
  simp only [Cursor.scanQuoted] at h
  split at h
  · cases h
  · cases h
    trivial

omit hinner in
theorem readPlainString : Lapses readPlainString :=
  .get_bind fun _ _ ↦ (scanExcept (scanQuoted_isLexical _ _ _)).bind fun _ ↦
    .get_bind fun _ _ ↦ .pure _

theorem readLexeme (c : Char) (rest : List Char) : Lapses (readLexeme inner c rest) := by
  rw [Lexer.readLexeme]
  refine .ite ((scan _).bind fun _ ↦ .pure _) (.ite ((pass 1).bind fun _ ↦ .pure _) ?_)
  refine .ite (.ite ((pass 2).bind fun _ ↦ .pure _) ((pass 1).bind fun _ ↦ .pure _)) ?_
  refine .ite ((scan _).bind fun _ ↦ .pure _) (.ite readBlockComment ?_)
  refine .ite (readString hinner) (.ite readPlainString ?_)
  refine .ite ((scan _).bind fun _ ↦ .pure _) (.ite ((scan _).bind fun _ ↦ .pure _) ?_)
  split
  · exact (pass _).bind fun _ ↦ .pure _
  · exact .get_bind fun _ _ ↦ .fail trivial

theorem readTokenWith : Lapses (readTokenWith inner) := by
  refine .get_bind fun lx _ ↦ ?_
  dsimp only
  split
  · exact .bind (.pure _) fun _ ↦ .pure _
  · exact (readLexeme hinner _ _).bind fun _ ↦ .pure _

/-! ## Significant tokens -/

omit hinner in
theorem enqueue (tokens : List Token) : Lapses (enqueue tokens) := .modify fun _ ↦ rfl

omit hinner in
theorem produce (t : Token) : Lapses (produce t) := by
  refine .get_bind fun lx hlx ↦ .ite (.bind (.modify fun _ ↦ rfl) fun _ ↦ enqueue _) ?_
  split
  · next e he =>
    rw [hlx] at he
    cases he
  · exact enqueue _

theorem nextWith (fuel : Nat) : Lapses (nextWith inner fuel) := by
  induction fuel with
  | zero => exact .pure _
  | succ fuel ih =>
    rw [Lexer.nextWith]
    refine .get_bind fun lx hlx ↦ ?_
    split
    · exact .bind (fun _ _ ↦ .known rfl hlx) fun _ ↦ .pure _
    · refine .ite (.pure _) ((readTokenWith hinner).bind fun t ↦ ?_)
      exact .ite ((produce t).bind fun _ ↦ ih) ih

theorem batchWith (count : Nat) (done : List Token) : Lapses (batchWith inner count done) := by
  induction count generalizing done with
  | zero => exact .pure _
  | succ count ih =>
    rw [Lexer.batchWith]
    refine .get_bind fun lx _ ↦ (nextWith hinner _).bind fun found ↦ ?_
    cases found with
    | none => exact .pure _
    | some t => exact ih _

end

theorem sectionTokens (levels : Nat) (lx : Lexer) (e : ScriptError)
    (hlx : lx.dialect.extensions = [])
    (h : sectionTokens levels lx = .error e) : e.IsLexical := by
  induction levels generalizing lx e with
  | zero =>
    cases h
    trivial
  | succ levels ih =>
    rw [sectionTokens_succ] at h
    exact (batchWith ih lx.tokensLeft [] lx hlx).of_outcome_error h

end Lapses

end Lexer

/-- Without extensions, a dialect has only the failures of texts. -/
theorem Dialect.failsOnly_isLexical {d : Dialect} (h : d.extensions = []) :
    d.FailsOnly ScriptError.IsLexical := by
  rintro lx lx' count e rfl hbatch
  exact (Lexer.Lapses.batchWith (Lexer.Lapses.sectionTokens lx.levels) count [] lx h).of_error
    hbatch

end ScriptFront
