import ScriptFront.Proofs.Lexer.Rounds

/-!
# Where the tokens of a text end

Unless a rule or an extension makes up end tokens of its own, the only end token of a text is the
last one. So a lexer delivers a closed list of tokens if it cuts its whole text, whatever batches it
is asked for; and if it fails somewhere, no batch that comes before the failure holds the end.
-/

namespace ScriptFront

/-- No rule puts an end token into the stream. -/
structure SpellingRules.IsEndless (r : SpellingRules) : Prop where
  /-- Nothing is replaced by the end. -/
  replacements : ∀ entry ∈ r.replacements, entry.2.kind ≠ .endOfInput
  /-- The end is not inserted. -/
  insertions : ∀ entry ∈ r.insertions, entry.2.kind ≠ .endOfInput

theorem SpellingRules.isEndless_empty : SpellingRules.empty.IsEndless :=
  ⟨by simp [empty], by simp [empty]⟩

theorem SpellingRules.IsEndless.apply {r : SpellingRules} (h : r.IsEndless) {t u : Token}
    (ht : t.isEnd = false) (hu : u ∈ r.apply t) : u.isEnd = false := by
  have hinserted : ∀ u ∈ (r.insertionsAfter t.text).map t.withLexeme, u.isEnd = false := by
    intro u hu
    obtain ⟨lexeme, hlexeme, rfl⟩ := List.mem_map.mp hu
    obtain ⟨entry, hentry, rfl⟩ := List.mem_map.mp hlexeme
    simpa [Token.isEnd, Token.kind, Token.withLexeme, Token.lexeme] using
      h.insertions entry (List.mem_of_mem_filter hentry)
  rw [SpellingRules.apply] at hu
  split at hu
  · next lexeme hlookup =>
    rcases List.mem_cons.mp hu with rfl | hu
    · obtain ⟨entry, hentry, rfl⟩ : ∃ entry ∈ r.replacements, entry.2 = lexeme := by
        obtain ⟨before, after, hsplit, -⟩ := List.lookup_eq_some_iff.mp hlookup
        exact ⟨(t.text, lexeme), by simp [hsplit], rfl⟩
      simpa [Token.isEnd, Token.kind, Token.withLexeme, Token.lexeme] using
        h.replacements entry hentry
    · exact hinserted u hu
  · split at hu
    · simp at hu
    · rcases List.mem_cons.mp hu with rfl | hu
      · exact ht
      · exact hinserted u hu

/-- Nothing but the end of the text becomes an end token. -/
structure Dialect.IsEndless (d : Dialect) : Prop where
  /-- Rules do not make up the end. -/
  rules : d.rules.IsEndless
  /-- Extensions do not make up the end. -/
  extensions : ∀ e ∈ d.extensions, ∀ t c lexeme, (e.lex t c).1 = .ok lexeme →
      lexeme.kind ≠ .endOfInput
  /-- Extensions do not move the cursor back, and fail as a lexer may. -/
  isTame : d.IsTame

theorem Dialect.isEndless_of_extensions {d : Dialect} (hrules : d.rules.IsEndless)
    (h : d.extensions = []) : d.IsEndless := by
  refine ⟨hrules, fun e he ↦ ?_, d.isTame_of_extensions h⟩
  rw [h] at he
  cases he

namespace Lexer

open Relation (ReflTransGen)

/-- If the end is queued, it is last; it is queued only if the end of the text was reached. -/
structure IsTidy (lx : Lexer) : Prop where
  /-- Before the end of the text no end is queued. -/
  before : lx.ended = false → ∀ t ∈ lx.queued, t.isEnd = false
  /-- At the end of the text the queue is used up or closed. -/
  atEnd : lx.ended = true → lx.queued = [] ∨ Closed lx.queued
  /-- Nothing but the end of the text becomes an end token. -/
  endless : lx.dialect.IsEndless

section

variable {inner : Lexer → Except ScriptError (List Token)} {lx lx' lx₂ : Lexer} {t : Token}
  {tokens : List Token}

theorem isTidy_of_fresh (hqueued : lx.queued = []) (hended : lx.ended = false)
    (h : lx.dialect.IsEndless) : lx.IsTidy :=
  ⟨fun _ ↦ by simp [hqueued], fun hnot ↦ absurd (hended.symm.trans hnot) (by simp), h⟩

theorem Round.isTidy (h : Round inner lx lx₂) (htidy : lx.IsTidy) : lx₂.IsTidy := by
  have hdialect := h.dialect_eq ▸ htidy.endless
  cases h with
  | atEnd => exact ⟨by simp, fun _ ↦ .inr (closed_singleton rfl), hdialect⟩
  | @reading t lx₁ tokens cursor hqueued hended hread hreads hproduced =>
    refine ⟨fun _ u hu ↦ ?_, fun hnot ↦ absurd (hended.symm.trans hnot) (by simp), hdialect⟩
    have ht : t.isEnd = false := by simpa [Token.isEnd, Token.kind] using hreads.notEnd
    have htokens : ∀ v ∈ tokens, v.isEnd = false := by
      cases hproduced with
      | blank => simp
      | rules => exact fun v hv ↦ htidy.endless.rules.apply ht hv
      | extension he hlex =>
        have hend := htidy.endless.extensions _ he _ _ _ (congrArg Prod.fst hlex)
        simpa [Token.isEnd, Token.kind, Token.withLexeme, Token.lexeme] using hend
    obtain ⟨i, hi, rfl⟩ := List.mem_mapIdx.mp hu
    exact htokens tokens[i] (List.getElem_mem hi)

theorem rounds_isTidy (h : ReflTransGen (Round inner) lx lx₂) (htidy : lx.IsTidy) :
    lx₂.IsTidy := by
  induction h with
  | refl => exact htidy
  | tail _ hround ih => exact hround.isTidy ih

theorem Takes.isTidy (h : Takes inner lx t lx') (htidy : lx.IsTidy) :
    lx'.IsTidy ∧ (t.isEnd = true → lx'.ended = true ∧ lx'.queued = []) := by
  obtain ⟨lx₂, hrounds, hqueued, heq⟩ := h.rounds
  have htidy₂ := rounds_isTidy hrounds htidy
  have hended : lx'.ended = lx₂.ended := by rw [heq]
  have hdialect : lx'.dialect = lx₂.dialect := by rw [heq]
  refine ⟨⟨fun hnot u hu ↦ ?_, fun hend ↦ ?_, hdialect ▸ htidy₂.endless⟩, fun ht ↦ ?_⟩
  · exact htidy₂.before (hended.symm.trans hnot) u (hqueued ▸ List.mem_cons_of_mem _ hu)
  · rcases htidy₂.atEnd (hended.symm.trans hend) with hnil | hclosed
    · simp [hqueued] at hnil
    · rw [hqueued] at hclosed
      exact (closed_cons_iff.mp hclosed).imp And.right And.right
  · cases hcase : lx₂.ended with
    | false =>
      have hfalse := htidy₂.before hcase t (by simp [hqueued])
      exact absurd (ht.symm.trans hfalse) (by simp)
    | true =>
      refine ⟨hended.trans hcase, ?_⟩
      rcases htidy₂.atEnd hcase with hnil | hclosed
      · simp [hqueued] at hnil
      · rw [hqueued] at hclosed
        rcases closed_cons_iff.mp hclosed with ⟨-, hnil⟩ | ⟨hfalse, -⟩
        · exact hnil
        · exact absurd (ht.symm.trans hfalse) (by simp)

/-- Behind the end nothing is taken. -/
theorem Takes.not_closed (h : Takes inner lx t lx') (hended : lx.ended = true) :
    lx.queued ≠ [] := by
  obtain ⟨lx₂, hrounds, hqueued, -⟩ := h.rounds
  rcases hrounds.cases_head with rfl | ⟨lx₁, hround, -⟩
  · simp [hqueued]
  · cases hround with
    | atEnd _ hnot => exact absurd (hended.symm.trans hnot) (by simp)
    | reading _ hnot => exact absurd (hended.symm.trans hnot) (by simp)

theorem Yields.isTidy (h : Yields inner lx tokens lx') (htidy : lx.IsTidy) : lx'.IsTidy := by
  induction h with
  | nil => exact htidy
  | cons htakes _ ih => exact ih (htakes.isTidy htidy).1

/-- Nothing is yielded behind the end. -/
theorem Yields.eq_nil_of_closed (h : Yields inner lx tokens lx') (hended : lx.ended = true)
    (hqueued : lx.queued = []) : tokens = [] ∧ lx' = lx := by
  cases h with
  | nil => exact ⟨rfl, rfl⟩
  | cons htakes _ => exact absurd hqueued (htakes.not_closed hended)

/-- Tokens that end in the end are closed by it. -/
theorem Yields.closed (h : Yields inner lx tokens lx') (htidy : lx.IsTidy)
    (hlast : ∃ t ∈ tokens.getLast?, t.isEnd = true) : Closed tokens := by
  induction h with
  | nil => simp at hlast
  | @cons lx lx₁ lx' t tokens htakes hyields ih =>
    obtain ⟨htidy₁, hclosed⟩ := htakes.isTidy htidy
    cases hcase : t.isEnd with
    | true =>
      obtain ⟨hended, hqueued⟩ := hclosed hcase
      rw [(hyields.eq_nil_of_closed hended hqueued).1]
      exact closed_singleton hcase
    | false =>
      obtain ⟨u, hu, huend⟩ := hlast
      cases tokens with
      | nil =>
        obtain rfl : t = u := by simpa using hu
        exact absurd (huend.symm.trans hcase) (by simp)
      | cons v tokens =>
        rw [List.getLast?_cons_cons] at hu
        exact (ih htidy₁ ⟨u, hu, huend⟩).cons hcase

/-- A lexer that is still open has not yielded the end. -/
theorem Yields.isEnd_eq_false (h : Yields inner lx tokens lx') (htidy : lx.IsTidy)
    (hopen : lx'.IsOpen) : ∀ t ∈ tokens, t.isEnd = false := by
  induction h with
  | nil => simp
  | @cons lx lx₁ lx' t tokens htakes hyields ih =>
    obtain ⟨htidy₁, hclosed⟩ := htakes.isTidy htidy
    refine List.forall_mem_cons.mpr ⟨?_, ih htidy₁ hopen⟩
    rw [← Bool.not_eq_true]
    intro hend
    obtain ⟨hended, hqueued⟩ := hclosed hend
    obtain ⟨-, rfl⟩ := hyields.eq_nil_of_closed hended hqueued
    obtain ⟨last, hlast, -⟩ := hopen hended
    simp [hqueued] at hlast

/-! ## What is delivered -/

/-- The tokens of a batch come first among those delivered. -/
theorem batchWith_delivers {count : Nat} {done result : List Token} (htame : lx.dialect.IsTame)
    (hopen : lx.IsOpen) (h : batchWith lx.inner count done lx = .ok result lx') :
    ∃ tokens, result = done.reverse ++ tokens ∧
      ∀ later, Delivers lx' later → Delivers lx (tokens ++ later) := by
  induction count generalizing lx done with
  | zero =>
    cases h
    exact ⟨[], by simp, fun _ h ↦ h⟩
  | succ count ih =>
    rw [batchWith, get_bind_run] at h
    obtain ⟨found, lx₁, hnext, h⟩ := bind_eq_ok_iff.mp h
    obtain ⟨t, rfl, htakes⟩ :=
      nextWith_takes htame hopen (fun _ ↦ Nat.le_refl _) (Nat.succ_pos _) hnext
    have hlevels := htakes.levels_eq
    have hless := htakes.tokensLeft_lt htame
    rcases htakes.isOpen hopen with hopen₁ | ⟨hend, hended, hqueued⟩
    · have hinner : lx₁.inner = lx.inner := by rw [inner, inner, hlevels]
      rw [← hinner] at h
      obtain ⟨tokens, rfl, hdelivers⟩ := ih (htakes.dialect_eq ▸ htame) hopen₁ h
      exact ⟨t :: tokens, by simp, fun later hlater ↦
        .next hnext hlevels hless (hdelivers later hlater)⟩
    · obtain ⟨rfl, rfl⟩ := batchWith_closed hended hqueued h
      exact ⟨[t], by simp, fun later hlater ↦ .next hnext hlevels hless hlater⟩

/-- As many tokens as the bound admits are all that are left: an open lexer would have more. -/
theorem batchWith_all (htidy : lx.IsTidy) (hopen : lx.IsOpen)
    (h : batchWith inner lx.tokensLeft [] lx = .ok tokens lx') :
    Yields inner lx tokens lx' ∧ Closed tokens ∧ lx'.ended = true ∧ lx'.queued = [] := by
  have htame := htidy.endless.isTame
  obtain ⟨result, hsame, hyields, hends⟩ := batchWith_yields htame hopen h
  obtain rfl : tokens = result := by simpa using hsame
  rcases hends with ⟨hopen', hlength⟩ | ⟨hlast, hended, hqueued⟩
  · have hle := hyields.length_le htame
    have hpos := hopen'.tokensLeft_pos
    omega
  · exact ⟨hyields, hyields.closed htidy hlast, hended, hqueued⟩

theorem exists_batch_of_tokenize (h : lx.tokenize = .ok tokens) :
    ∃ lx', batchWith lx.inner lx.tokensLeft [] lx = .ok tokens lx' := by
  rw [tokenize] at h
  cases hbatch : batch lx.tokensLeft lx with
  | error e lx' =>
    rw [hbatch] at h
    cases h
  | ok result lx' =>
    rw [hbatch] at h
    cases h
    exact ⟨lx', hbatch⟩

/-- A lexer that cuts its whole text delivers a closed list. -/
theorem delivers_of_tokenize (htidy : lx.IsTidy) (hopen : lx.IsOpen)
    (h : lx.tokenize = .ok tokens) : Delivers lx tokens ∧ Closed tokens := by
  obtain ⟨lx', hbatch⟩ := exists_batch_of_tokenize h
  obtain ⟨-, hclosed, hended, hqueued⟩ := batchWith_all htidy hopen hbatch
  obtain ⟨result, hsame, hdelivers⟩ := batchWith_delivers htidy.endless.isTame hopen hbatch
  obtain rfl : tokens = result := by simpa using hsame
  have hall := hdelivers [] (.done hended hqueued)
  rw [List.append_nil] at hall
  exact ⟨hall, hclosed⟩

/-- So does a lexer without rules and extensions that begins with its text. -/
theorem delivers_ofText_plain {marker : Char} {text : String}
    (h : (ofText (.plain marker) text).tokenize = .ok tokens) :
    Delivers (ofText (.plain marker) text) tokens ∧ Closed tokens := by
  have hendless : (Dialect.plain marker).IsEndless :=
    Dialect.isEndless_of_extensions SpellingRules.isEndless_empty rfl
  exact delivers_of_tokenize (isTidy_of_fresh rfl rfl hendless) (isOpen_ofText _ _) h

/-- A lexer that delivers its tokens cuts its whole text. -/
theorem Delivers.tokenize_eq (h : Delivers lx tokens) : lx.tokenize = .ok tokens := by
  obtain ⟨lx', hbatch, -⟩ := h.batchWith_eq lx.tokensLeft []
  rw [List.reverse_nil, List.nil_append, List.take_of_length_le h.length_le] at hbatch
  have hrun : batch lx.tokensLeft lx = .ok tokens lx' := hbatch
  rw [tokenize, hrun]

/-! ## Lexers that fail somewhere -/

/-- The lexer will not cut its whole text. -/
structure IsDoomed (lx : Lexer) : Prop where
  /-- No list of tokens is delivered. -/
  stuck : ∀ tokens, ¬ Delivers lx tokens
  /-- The end of the text is still to be asked for. -/
  isOpen : lx.IsOpen
  /-- If the end is queued, it is last. -/
  tidy : lx.IsTidy

/-- A batch that comes before the failure does not hold the end. -/
theorem IsDoomed.batch {count : Nat} (h : lx.IsDoomed) (hcount : 0 < count)
    (hbatch : batch count lx = .ok tokens lx') :
    lx'.IsDoomed ∧ tokens ≠ [] ∧ ∀ t ∈ tokens, t.isEnd = false := by
  have htame := h.tidy.endless.isTame
  obtain ⟨result, hsame, hyields, hends⟩ := batchWith_yields htame h.isOpen hbatch
  obtain ⟨result', hsame', hdelivers⟩ := batchWith_delivers htame h.isOpen hbatch
  obtain rfl : tokens = result := by simpa using hsame
  obtain rfl : tokens = result' := by simpa using hsame'
  rcases hends with ⟨hopen', hlength⟩ | ⟨-, hended, hqueued⟩
  · refine ⟨⟨fun later hlater ↦ h.stuck _ (hdelivers later hlater), hopen',
      hyields.isTidy h.tidy⟩, ?_, hyields.isEnd_eq_false h.tidy hopen'⟩
    rintro rfl
    exact absurd hlength (Nat.ne_of_lt hcount)
  · exact absurd (hdelivers [] (.done hended hqueued)) (h.stuck _)

theorem isDoomed_of_tokenize {e : ScriptError} (htidy : lx.IsTidy) (hopen : lx.IsOpen)
    (h : lx.tokenize = .error e) : lx.IsDoomed := by
  refine ⟨fun tokens hdelivers ↦ ?_, hopen, htidy⟩
  rw [hdelivers.tokenize_eq] at h
  cases h

end

end Lexer

end ScriptFront
