import ScriptFront.Proofs.Lexer.Genuine

/-!
# Cutting a text as it stands

Without rules and extensions, every raw token that is not blank becomes one significant token, and
the queue of the lexer is empty whenever a token is asked for. So the tokens of a text are described
by what is read from it, one raw token after the other. `Lexer.Cuts` is that description for the
tokens before the end; being a relation between two lexers, it can be taken apart at any token,
which is what statements about texts that go on need.
-/

namespace ScriptFront.Lexer

/-- A lexer between two tokens: nothing is queued, and the end was not produced. Its text is cut as
it stands. -/
structure IsBetween (lx : Lexer) : Prop where
  /-- Neither rules nor extensions. -/
  bare : lx.dialect.IsBare
  /-- Nothing is queued. -/
  queued : lx.queued = []
  /-- The end was not produced. -/
  ended : lx.ended = false

/-- The end of the text, at the place of the lexer. -/
def endToken (lx : Lexer) : Token :=
  .mk .endOfInput lx.cursor.position (lx.base + lx.cursor.pos) lx.index

/-- The lexer behind a token that was read and got the next number. -/
def counting (lx : Lexer) : Lexer := { lx with index := lx.index + 1 }

/-- From the first lexer on, these significant tokens are read, which leads to the second one. The
end of the text is not among them. -/
inductive Cuts (inner : Lexer → Except ScriptError (List Token)) : Lexer → List Token → Lexer → Prop
  /-- Nothing is read. -/
  | nil {lx : Lexer} : Cuts inner lx [] lx
  /-- Blanks are left out. -/
  | blank {lx lx₁ lx₂ : Lexer} {t : Token} {tokens : List Token}
      (hread : readTokenWith inner lx = .ok t lx₁) (ht : t.kind = .whitespace)
      (h : Cuts inner lx₁ tokens lx₂) : Cuts inner lx tokens lx₂
  /-- Other tokens are numbered. -/
  | token {lx lx₁ lx₂ : Lexer} {t : Token} {tokens : List Token}
      (hread : readTokenWith inner lx = .ok t lx₁) (ht : t.kind ≠ .whitespace)
      (hend : t.isEnd = false) (h : Cuts inner lx₁.counting tokens lx₂) :
      Cuts inner lx (t.withIndex lx.index :: tokens) lx₂

section

variable {inner : Lexer → Except ScriptError (List Token)} {lx lx₁ lx₂ : Lexer} {t : Token}
  {tokens more done : List Token} {fuel count : Nat}

/-! ## One raw token -/

theorem readTokenWith_end (hrest : lx.cursor.rest = []) :
    readTokenWith inner lx =
      .ok (.mk .endOfInput lx.cursor.position (lx.base + lx.cursor.pos) 0) lx := by
  rw [readTokenWith, get_bind_run, hrest]
  rfl

/-- A raw token other than the end is a lexeme, which is read from the characters in front. -/
theorem reads_of_readTokenWith (hread : readTokenWith inner lx = .ok t lx₁)
    (hend : t.isEnd = false) :
    Reads lx t.lexeme lx₁ := by
  obtain ⟨l, rfl, ⟨-, rfl, -⟩ | hreads⟩ := readTokenWith_cases hread
  · cases hend
  · exact hreads

theorem isEnd_of_kind {kind : TokenKind} (ht : t.kind = kind) (hkind : kind ≠ .endOfInput) :
    t.isEnd = false := by
  rw [Token.isEnd, ht]
  exact beq_eq_false_iff_ne.mpr hkind

theorem Reads.isBetween {l : Lexeme} (h : Reads lx l lx₁) (hlx : lx.IsBetween) : lx₁.IsBetween := by
  rw [h.passed.moved]
  exact ⟨hlx.bare, hlx.queued, hlx.ended⟩

theorem IsBetween.counting (h : lx.IsBetween) : lx.counting.IsBetween := ⟨h.bare, h.queued, h.ended⟩

theorem isBetween_sectionAt (h : lx.dialect.IsBare) (n : Nat) (body : String) :
    (lx.sectionAt n body).IsBetween := ⟨h, rfl, rfl⟩

/-- Reading a token changes neither the dialect nor the numbers. -/
theorem Reads.index_eq {l : Lexeme} (h : Reads lx l lx₁) : lx₁.index = lx.index := by
  rw [h.passed.moved]

theorem Reads.levels_eq {l : Lexeme} (h : Reads lx l lx₁) : lx₁.levels = lx.levels := by
  rw [h.passed.moved]

theorem Reads.dialect_eq {l : Lexeme} (h : Reads lx l lx₁) : lx₁.dialect = lx.dialect := by
  rw [h.passed.moved]

/-! ## Some tokens -/

namespace Cuts

theorem append (h : Cuts inner lx tokens lx₁) (h' : Cuts inner lx₁ more lx₂) :
    Cuts inner lx (tokens ++ more) lx₂ := by
  induction h with
  | nil => exact h'
  | blank hread ht _ ih => exact .blank hread ht (ih h')
  | token hread ht hend _ ih => exact .token hread ht hend (ih h')

theorem isBetween (h : Cuts inner lx tokens lx₁) (hlx : lx.IsBetween) : lx₁.IsBetween := by
  induction h with
  | nil => exact hlx
  | blank hread ht _ ih =>
    exact ih ((reads_of_readTokenWith hread (isEnd_of_kind ht (by decide))).isBetween hlx)
  | token hread _ hend _ ih =>
    exact ih ((reads_of_readTokenWith hread hend).isBetween hlx).counting

theorem dialect_eq (h : Cuts inner lx tokens lx₁) : lx₁.dialect = lx.dialect := by
  induction h with
  | nil => rfl
  | blank hread ht _ ih =>
    rw [ih, (reads_of_readTokenWith hread (isEnd_of_kind ht (by decide))).dialect_eq]
  | token hread _ hend _ ih => exact ih.trans (reads_of_readTokenWith hread hend).dialect_eq

theorem levels_eq (h : Cuts inner lx tokens lx₁) : lx₁.levels = lx.levels := by
  induction h with
  | nil => rfl
  | blank hread ht _ ih =>
    rw [ih, (reads_of_readTokenWith hread (isEnd_of_kind ht (by decide))).levels_eq]
  | token hread _ hend _ ih => exact ih.trans (reads_of_readTokenWith hread hend).levels_eq

/-- Where no characters are left, no token is read. -/
theorem eq_nil (h : Cuts inner lx tokens lx₁) (hrest : lx.cursor.rest = []) :
    tokens = [] ∧ lx₁ = lx := by
  cases h with
  | nil => exact ⟨rfl, rfl⟩
  | blank hread ht _ =>
    rw [readTokenWith_end hrest] at hread
    cases hread
    cases ht
  | token hread _ hend _ =>
    rw [readTokenWith_end hrest] at hread
    cases hread
    cases hend

/-- Every token has at least one character. -/
theorem length_le (h : Cuts inner lx tokens lx₁) :
    tokens.length + lx₁.cursor.rest.length ≤ lx.cursor.rest.length := by
  induction h with
  | nil => simp
  | blank hread ht _ ih =>
    have hless := (reads_of_readTokenWith hread (isEnd_of_kind ht (by decide))).left_lt
    rw [Cursor.left_eq_length, Cursor.left_eq_length] at hless
    omega
  | @token lx lx₁ _ _ _ hread _ hend _ ih =>
    have hless := (reads_of_readTokenWith hread hend).left_lt
    rw [Cursor.left_eq_length, Cursor.left_eq_length] at hless
    have hsame : lx₁.counting.cursor = lx₁.cursor := rfl
    rw [hsame] at ih
    rw [List.length_cons]
    omega

/-- The tokens are numbered one after the other. -/
theorem map_index_eq (h : Cuts inner lx tokens lx₁) :
    tokens.map Token.index = List.range' lx.index tokens.length ∧
      lx₁.index = lx.index + tokens.length := by
  induction h with
  | nil => exact ⟨rfl, rfl⟩
  | blank hread ht _ ih =>
    rwa [(reads_of_readTokenWith hread (isEnd_of_kind ht (by decide))).index_eq] at ih
  | @token lx lx₁ lx₂ t tokens hread _ hend _ ih =>
    have hindex : lx₁.counting.index = lx.index + 1 :=
      congrArg (· + 1) (reads_of_readTokenWith hread hend).index_eq
    obtain ⟨hindices, hlast⟩ := ih
    rw [hindex] at hindices hlast
    refine ⟨?_, ?_⟩
    · rw [List.map_cons, hindices]
      rfl
    · rw [hlast, List.length_cons]
      omega

theorem isEnd_eq_false (h : Cuts inner lx tokens lx₁) : ∀ t ∈ tokens, t.isEnd = false := by
  induction h with
  | nil => simp
  | blank _ _ _ ih => exact ih
  | token _ _ hend _ ih => exact List.forall_mem_cons.mpr ⟨hend, ih⟩

end Cuts

/-! ## Asking for tokens -/

/-- The next token is the first one that is read, or the end if none is. -/
theorem nextWith_cases {found : Option Token} (hlx : lx.IsBetween)
    (hfuel : lx.cursor.left + 2 ≤ fuel)
    (h : nextWith inner fuel lx = .ok found lx₂) :
    (∃ t, found = some t ∧ lx₂.IsBetween ∧ Cuts inner lx [t] lx₂) ∨
      ∃ lx₁, Cuts inner lx [] lx₁ ∧ lx₁.cursor.rest = [] ∧ found = some lx₁.endToken ∧
        lx₂.ended = true ∧ lx₂.queued = [] := by
  induction fuel generalizing lx with
  | zero => omega
  | succ fuel ih =>
    obtain ⟨fuel, rfl⟩ := Nat.exists_eq_add_of_le' (show 1 ≤ fuel by omega)
    have hstep := h
    rw [nextWith, get_bind_run] at hstep
    simp only [hlx.queued, hlx.ended, Bool.false_eq_true, if_false] at hstep
    obtain ⟨t, lx₁, hread, -⟩ := bind_eq_ok_iff.mp hstep
    by_cases hblank : t.kind = .whitespace
    · have hreads := reads_of_readTokenWith hread (isEnd_of_kind hblank (by decide))
      have hless := hreads.left_lt
      rw [nextWith_blank inner hlx.queued hlx.ended hread hblank] at h
      rcases ih (hreads.isBetween hlx) (by omega) h with
        ⟨u, hu, hbetween, hcuts⟩ | ⟨lx₃, hcuts, hrest⟩
      · exact .inl ⟨u, hu, hbetween, .blank hread hblank hcuts⟩
      · exact .inr ⟨lx₃, .blank hread hblank hcuts, hrest⟩
    · cases hend : t.isEnd with
      | true =>
        obtain ⟨l, rfl, ⟨hrest, rfl, rfl⟩ | hreads⟩ := readTokenWith_cases hread
        · rw [nextWith_produced inner hlx.queued hlx.ended hread hblank (produce_end_run hend)
            (by rw [hlx.queued]; rfl)] at h
          cases h
          exact .inr ⟨lx₁, .nil, hrest, rfl, rfl, rfl⟩
        · exact absurd hend (by simpa [Token.isEnd, Token.kind, Token.lexeme] using hreads.notEnd)
      | false =>
        have hreads := reads_of_readTokenWith hread hend
        have hbetween := hreads.isBetween hlx
        rw [nextWith_produced inner hlx.queued hlx.ended hread hblank
          (produce_run hbetween.bare.rules hbetween.bare.extensions hend)
          (by rw [hbetween.queued]; rfl)] at h
        cases h
        have hlast :
            ({ lx₁ with queued := [], index := lx₁.index + 1 } : Lexer) = lx₁.counting := by
          rw [counting, hbetween.queued]
        refine .inl ⟨_, rfl, ?_, ?_⟩
        · rw [hlast]
          exact hbetween.counting
        · rw [hlast, hreads.index_eq]
          exact .token hread hblank hend .nil

/-- The first of the tokens is the next one. -/
theorem Cuts.nextWith_eq (h : Cuts inner lx (t :: tokens) lx₂) (hlx : lx.IsBetween) :
    ∃ lx₁, lx₁.IsBetween ∧ Cuts inner lx₁ tokens lx₂ ∧
      ∀ fuel, lx.cursor.left + 2 ≤ fuel → nextWith inner fuel lx = .ok (some t) lx₁ := by
  generalize hall : t :: tokens = all at h
  induction h with
  | nil => cases hall
  | blank hread hblank _ ih =>
    have hreads := reads_of_readTokenWith hread (isEnd_of_kind hblank (by decide))
    have hless := hreads.left_lt
    obtain ⟨lx₁, hbetween, hcuts, hnext⟩ := ih (hreads.isBetween hlx) hall
    refine ⟨lx₁, hbetween, hcuts, fun fuel hfuel ↦ ?_⟩
    obtain ⟨fuel, rfl⟩ := Nat.exists_eq_add_of_le' (show 1 ≤ fuel by omega)
    rw [nextWith_blank inner hlx.queued hlx.ended hread hblank]
    exact hnext fuel (by omega)
  | @token lx lx₁ _ _ _ hread hblank hend h _ =>
    cases hall
    have hreads := reads_of_readTokenWith hread hend
    have hbetween := hreads.isBetween hlx
    refine ⟨lx₁.counting, hbetween.counting, h, fun fuel hfuel ↦ ?_⟩
    obtain ⟨fuel, rfl⟩ := Nat.exists_eq_add_of_le' (show 2 ≤ fuel by omega)
    rw [nextWith_produced inner hlx.queued hlx.ended hread hblank
      (produce_run hbetween.bare.rules hbetween.bare.extensions hend)
      (by rw [hbetween.queued]; rfl),
      counting, hbetween.queued, hreads.index_eq]

/-- The lexer whose end was asked for. -/
def closed (lx : Lexer) : Lexer := { lx with ended := true, index := lx.index + 1 }

/-- Behind the last of the tokens stands the end. -/
theorem Cuts.nextWith_end (h : Cuts inner lx tokens lx₁) (hlx : lx.IsBetween) (hnil : tokens = [])
    (hrest : lx₁.cursor.rest = []) :
    ∀ fuel, lx.cursor.left + 2 ≤ fuel → nextWith inner fuel lx = .ok
      (some lx₁.endToken) lx₁.closed := by
  induction h with
  | nil =>
    intro fuel hfuel
    obtain ⟨fuel, rfl⟩ := Nat.exists_eq_add_of_le' (show 2 ≤ fuel by omega)
    rw [nextWith_produced inner hlx.queued hlx.ended (readTokenWith_end hrest)
      (by simp [Token.kind, Token.lexeme, Lexeme.kind]) (produce_end_run rfl)
      (by rw [hlx.queued]; rfl), closed, hlx.queued]
    rfl
  | blank hread hblank _ ih =>
    intro fuel hfuel
    have hreads := reads_of_readTokenWith hread (isEnd_of_kind hblank (by decide))
    have hless := hreads.left_lt
    obtain ⟨fuel, rfl⟩ := Nat.exists_eq_add_of_le' (show 1 ≤ fuel by omega)
    rw [nextWith_blank inner hlx.queued hlx.ended hread hblank]
    exact ih (hreads.isBetween hlx) hnil hrest fuel (by omega)
  | token => cases hnil

/-! ## All tokens -/

/-- These are all tokens that are read, the last one being the end of the text. -/
def CutsAll (inner : Lexer → Except ScriptError (List Token)) (lx : Lexer) (tokens : List Token) :
    Prop :=
  ∃ body lx₁, Cuts inner lx body lx₁ ∧ lx₁.cursor.rest = [] ∧ tokens = body ++ [lx₁.endToken]

theorem Cuts.cons_all (h : Cuts inner lx [t] lx₁) (hall : CutsAll inner lx₁ tokens) :
    CutsAll inner lx (t :: tokens) := by
  obtain ⟨body, lx₂, hcuts, hrest, rfl⟩ := hall
  exact ⟨t :: body, lx₂, h.append hcuts, hrest, rfl⟩

theorem CutsAll.closed (h : CutsAll inner lx tokens) : Closed tokens := by
  obtain ⟨body, lx₁, hcuts, -, rfl⟩ := h
  exact ⟨body, _, rfl, rfl, hcuts.isEnd_eq_false⟩

theorem CutsAll.map_index_eq (h : CutsAll inner lx tokens) :
    tokens.map Token.index = List.range' lx.index tokens.length := by
  obtain ⟨body, lx₁, hcuts, -, rfl⟩ := h
  obtain ⟨hindices, hlast⟩ := hcuts.map_index_eq
  rw [List.map_append, hindices, List.length_append, List.length_singleton, List.range'_concat,
    Nat.one_mul, ← hlast]
  rfl

/-- A batch that is large enough has all tokens. -/
theorem cutsAll_of_batchWith {result : List Token} (hlx : lx.IsBetween)
    (hcount : lx.cursor.rest.length < count) (h : batchWith inner count done lx = .ok result lx₂) :
    ∃ tokens, result = done.reverse ++ tokens ∧ CutsAll inner lx tokens := by
  induction count generalizing lx done with
  | zero => omega
  | succ count ih =>
    rw [batchWith, get_bind_run] at h
    obtain ⟨found, lx₁, hnext, h⟩ := bind_eq_ok_iff.mp h
    rcases nextWith_cases hlx (Nat.le_refl _) hnext with
      ⟨t, rfl, hbetween, hcuts⟩ | ⟨lx₃, hcuts, hrest, rfl, hended, hqueued⟩
    · have hless := hcuts.length_le
      rw [List.length_singleton] at hless
      obtain ⟨tokens, rfl, hall⟩ := ih hbetween (by omega) h
      exact ⟨t :: tokens, by simp, hcuts.cons_all hall⟩
    · obtain ⟨rfl, -⟩ := batchWith_closed hended hqueued h
      exact ⟨_, List.reverse_cons, [], lx₃, hcuts, hrest, rfl⟩

/-- All tokens are in every batch that is large enough. -/
theorem CutsAll.batchWith_eq (h : CutsAll inner lx tokens) (hlx : lx.IsBetween)
    (hcount : tokens.length ≤ count) :
    ∃ lx₂, batchWith inner count done lx = .ok (done.reverse ++ tokens) lx₂ := by
  induction tokens generalizing lx done count with
  | nil => exact absurd rfl h.closed.ne_nil
  | cons t tokens ih =>
    obtain ⟨count, rfl⟩ := Nat.exists_eq_add_of_le' (Nat.le_trans (Nat.le_add_left 1 _) hcount)
    obtain ⟨body, lx₁, hcuts, hrest, hsplit⟩ := h
    rw [batchWith, get_bind_run]
    cases body with
    | nil =>
      rw [List.nil_append, List.cons.injEq] at hsplit
      obtain ⟨rfl, rfl⟩ := hsplit
      rw [bind_eq_of_ok (hcuts.nextWith_end hlx rfl hrest _ (Nat.le_refl _))]
      refine ⟨lx₁.closed, ?_⟩
      have hbetween := hcuts.isBetween hlx
      cases count with
      | zero => simp [batchWith]
      | succ count =>
        have hnext :
            nextWith inner (lx₁.closed.cursor.left + 2) lx₁.closed = .ok none lx₁.closed := by
          simp [nextWith, Lexer.closed, hbetween.queued]
        simp only [batchWith, get_bind_run, bind_eq_of_ok hnext, List.reverse_cons]
        rfl
    | cons u body =>
      rw [List.cons_append, List.cons.injEq] at hsplit
      obtain ⟨rfl, rfl⟩ := hsplit
      obtain ⟨lx₂, hbetween, hcuts₂, hnext⟩ := hcuts.nextWith_eq hlx
      rw [bind_eq_of_ok (hnext _ (Nat.le_refl _))]
      obtain ⟨lx₃, hbatch⟩ := @ih _ (t :: done) _ ⟨body, lx₁, hcuts₂, hrest, rfl⟩ hbetween
        (Nat.le_of_succ_le_succ hcount)
      exact ⟨lx₃, by simpa using hbatch⟩

theorem CutsAll.length_le (h : CutsAll inner lx tokens) (hlx : lx.IsBetween) :
    tokens.length ≤ lx.tokensLeft := by
  obtain ⟨body, lx₁, hcuts, -, rfl⟩ := h
  have := hcuts.length_le
  rw [tokensLeft_eq hlx.bare.rules hlx.queued hlx.ended, List.length_append, List.length_singleton]
  omega

/-- A batch of the size of the bound consists of all tokens. -/
theorem outcome_batchWith_eq_ok_iff (hlx : lx.IsBetween) :
    outcome (fun tokens _ ↦ tokens) (batchWith inner lx.tokensLeft [] lx) = .ok tokens ↔
      CutsAll inner lx tokens := by
  constructor
  · intro h
    cases hbatch : batchWith inner lx.tokensLeft [] lx with
    | error e lx' =>
      rw [hbatch] at h
      cases h
    | ok result lx' =>
      rw [hbatch] at h
      cases h
      rw [tokensLeft_eq hlx.bare.rules hlx.queued hlx.ended] at hbatch
      obtain ⟨tokens, rfl, hall⟩ := cutsAll_of_batchWith hlx (Nat.lt_succ_self _) hbatch
      exact hall
  · intro h
    obtain ⟨lx', hbatch⟩ :
        ∃ lx', batchWith inner lx.tokensLeft [] lx = .ok ([].reverse ++ tokens) lx' :=
      h.batchWith_eq hlx (h.length_le hlx)
    rw [hbatch]
    rfl

/-- **All tokens of a text.** A lexer that cuts its whole text has read it raw token by raw
token. -/
theorem tokenize_eq_ok_iff (hlx : lx.IsBetween) :
    lx.tokenize = .ok tokens ↔ CutsAll lx.inner lx tokens := by
  have hsame : lx.tokenize = outcome (fun tokens _ ↦ tokens)
      (batchWith lx.inner lx.tokensLeft [] lx) := by
    rw [tokenize, batch]
    cases batchWith lx.inner lx.tokensLeft [] lx <;> rfl
  rw [hsame, outcome_batchWith_eq_ok_iff hlx]

/-- The same holds of a section. -/
theorem sectionTokens_eq_ok_iff (hlx : lx.IsBetween) (levels : Nat) :
    sectionTokens (levels + 1) lx = .ok tokens ↔ CutsAll (sectionTokens levels) lx tokens := by
  rw [sectionTokens_succ, outcome_batchWith_eq_ok_iff hlx]

end

end ScriptFront.Lexer
