import ScriptFront.Proofs.Lexer.Cuts

/-!
# Rules act token by token, whatever the batching

Between the raw tokens of a text and the batches that are handed out stands a queue. A raw token may
leave nothing in it, or more than the batch at hand has room for, and what is left over waits for
the next call, which may ask for any number of tokens, or for none.

None of this can be seen in the tokens. `SpellingRules.rewrite` says what becomes of one raw token
by itself; a text whose raw tokens can be read has the list of what becomes of each of them,
numbered, and the batches are pieces of that list. The invariant is `Lexer.Comes`: what is in the
queue, and then what will become of the raw tokens not read yet. It does not depend on the size of
any batch, and a step takes the first token of the list away.

That the raw tokens are the same for all sizes needs a word: they are read by a lexer that numbers
other tokens than one that reads nothing but raw tokens, and reading takes no notice of the numbers.
-/

namespace ScriptFront

/-- What becomes of a raw token. The end of the text stays. Otherwise a replacement for the spelling
takes its place, and insertions for the spelling follow; without a replacement nothing is left of a
token that is to be removed, and any other token stays, and insertions follow. All of them stand at
the place of the token. -/
def SpellingRules.rewrite (r : SpellingRules) (t : Token) : List Token :=
  if t.isEnd then [t]
  else
    match r.replacement? t.text with
    | some lexeme => (lexeme :: r.insertionsAfter t.text).map t.withLexeme
    | none =>
      if t.text ∈ r.removals then [] else t :: (r.insertionsAfter t.text).map t.withLexeme

theorem SpellingRules.rewrite_end (r : SpellingRules) {t : Token} (ht : t.isEnd = true) :
    r.rewrite t = [t] := by
  rw [rewrite, if_pos ht]

theorem SpellingRules.rewrite_eq_apply (r : SpellingRules) {t : Token} (ht : t.isEnd = false) :
    r.rewrite t = r.apply t := by
  rw [rewrite, if_neg (by simp [ht]), apply]
  cases r.replacement? t.text with
  | some lexeme => rfl
  | none => simp only [List.contains_iff_mem]

namespace Lexer

/-- The significant tokens made of raw ones, numbered from `index` on. -/
def rewritten (r : SpellingRules) (index : Nat) (raw : List Token) : List Token :=
  numbered index ((raw.filter (·.kind != .whitespace)).flatMap r.rewrite)

theorem numbered_append (index : Nat) (first second : List Token) :
    numbered index (first ++ second) =
      numbered index first ++ numbered (index + first.length) second := by
  rw [numbered, numbered, numbered, List.mapIdx_append]
  simp only [Nat.add_assoc, Nat.add_comm first.length]

section

variable {r : SpellingRules} {t : Token} {raw : List Token} {index : Nat}

theorem rewritten_blank (ht : t.kind = .whitespace) :
    rewritten r index (t :: raw) = rewritten r index raw := by
  rw [rewritten, List.filter_cons_of_neg (by simp [ht]), ← rewritten]

theorem rewritten_cons (ht : t.kind ≠ .whitespace) :
    rewritten r index (t :: raw) =
      numbered index (r.rewrite t) ++ rewritten r (index + (r.rewrite t).length) raw := by
  rw [rewritten, List.filter_cons_of_pos (by simpa using ht), List.flatMap_cons, numbered_append,
    ← rewritten]

theorem rewrite_withIndex (r : SpellingRules) (t : Token) (i : Nat) :
    r.rewrite (t.withIndex i) = (r.rewrite t).map (·.withIndex i) := by
  rw [SpellingRules.rewrite, SpellingRules.rewrite]
  have hend : (t.withIndex i).isEnd = t.isEnd := rfl
  have htext : (t.withIndex i).text = t.text := rfl
  have hlexemes : ∀ ls : List Lexeme,
      ls.map (t.withIndex i).withLexeme = (ls.map t.withLexeme).map (·.withIndex i) := by
    intro ls
    rw [List.map_map]
    rfl
  rw [hend, htext]
  split
  · rfl
  · split
    · exact hlexemes _
    · split
      · rfl
      · rw [List.map_cons, hlexemes]

theorem numbered_map_withIndex (i : Nat) (tokens : List Token) :
    numbered index (tokens.map (·.withIndex i)) = numbered index tokens := by
  refine List.ext_getElem (by simp) fun n _ _ ↦ ?_
  simp only [numbered, List.getElem_mapIdx, List.getElem_map]
  rfl

/-- The numbers of the raw tokens do not matter. -/
theorem rewritten_numbered (i : Nat) :
    rewritten r index (numbered i raw) = rewritten r index raw := by
  induction raw generalizing index i with
  | nil => rfl
  | cons t raw ih =>
    have hcons : numbered i (t :: raw) = t.withIndex i :: numbered (i + 1) raw :=
      numbered_append i [t] raw
    rw [hcons]
    by_cases ht : t.kind = .whitespace
    · rw [rewritten_blank ht, rewritten_blank (by exact ht), ih]
    · rw [rewritten_cons ht, rewritten_cons (by exact ht), rewrite_withIndex,
        numbered_map_withIndex, List.length_map, ih]

end

/-! ## Raw tokens, however they are counted -/

/-- Reading on, the lexer comes to these raw tokens, the last of which is the end of the text. -/
inductive ReadsAll (inner : Lexer → Except ScriptError (List Token)) : Lexer → List Token → Prop
  | last {lx lx₁ : Lexer} {t : Token} (hread : readTokenWith inner lx = .ok t lx₁)
    (hend : t.isEnd = true) : ReadsAll inner lx [t]
  | cons {lx lx₁ : Lexer} {t : Token} {raw : List Token}
    (hread : readTokenWith inner lx = .ok t lx₁) (hend : t.isEnd = false)
    (h : ReadsAll inner lx₁ raw) : ReadsAll inner lx (t :: raw)

section

variable {levels : Nat} {lx lx' lx₁ : Lexer} {t : Token} {raw : List Token}

/-- Lexers at the same place read the same raw token. -/
theorem Beside.exists_readTokenWith_eq (h : Beside lx lx')
    (hread : readTokenWith (sectionTokens levels) lx = .ok t lx₁) :
    ∃ lx₁', readTokenWith (sectionTokens levels) lx' = .ok t lx₁' ∧ Beside lx₁ lx₁' := by
  have hagree := readsAlike_readTokenWith
    (fun _ _ h ↦ conform_sectionTokens (Nat.le_refl levels) h) lx lx' h
  rw [hread] at hagree
  cases hrun : readTokenWith (sectionTokens levels) lx' with
  | ok t' lx₁' =>
    rw [hrun] at hagree
    cases hagree with
    | ok hok => exact ⟨lx₁', by rw [hok.1], hok.2⟩
  | error e lx₁' =>
    rw [hrun] at hagree
    cases hagree with
    | second hsecond => exact hsecond.elim

theorem ReadsAll.beside (h : ReadsAll (sectionTokens levels) lx raw) (hlx : Beside lx lx') :
    ReadsAll (sectionTokens levels) lx' raw := by
  induction h generalizing lx' with
  | last hread hend =>
    obtain ⟨lx₁', hread', -⟩ := hlx.exists_readTokenWith_eq hread
    exact .last hread' hend
  | cons hread hend _ ih =>
    obtain ⟨lx₁', hread', hlx₁⟩ := hlx.exists_readTokenWith_eq hread
    exact .cons hread' hend (ih hlx₁)

theorem ReadsAll.rewritten_ne_nil {inner : Lexer → Except ScriptError (List Token)}
    {r : SpellingRules}
    {index : Nat} (h : ReadsAll inner lx raw) : rewritten r index raw ≠ [] := by
  induction h generalizing index with
  | @last lx lx₁ t hread hend =>
    have ht : t.kind ≠ .whitespace := by
      intro ht
      simp [Token.isEnd, ht] at hend
    rw [rewritten_cons ht, r.rewrite_end hend]
    exact List.cons_ne_nil _ _
  | @cons lx lx₁ t raw hread hend h ih =>
    by_cases ht : t.kind = .whitespace
    · rw [rewritten_blank ht]
      exact ih
    · rw [rewritten_cons ht]
      exact List.append_ne_nil_of_right_ne_nil _ ih

/-- The raw tokens of a text are read one after the other; between them only their number
changes. -/
theorem rawTokensWith_readsAll {fuel : Nat} {done tokens : List Token} (htame : lx.dialect.IsTame)
    (hfuel : lx.cursor.left < fuel) (h : rawTokensWith fuel done lx = .ok tokens lx') :
    ∃ raw, tokens = done.reverse ++ numbered lx.index raw ∧ ReadsAll lx.inner lx raw := by
  induction fuel generalizing done lx with
  | zero => exact absurd hfuel (Nat.not_lt_zero _)
  | succ fuel ih =>
    rw [rawTokensWith] at h
    obtain ⟨t, lx₁, hread, h⟩ := bind_eq_ok_iff.mp h
    obtain ⟨c, hmoved⟩ := readTokenWith_moved hread
    have hindex : lx₁.index = lx.index := by rw [hmoved]
    simp only [get_bind_run, set_bind_run, ite_run, hindex] at h
    cases hend : t.isEnd with
    | true =>
      rw [if_pos hend] at h
      cases h
      exact ⟨[t], List.reverse_cons, .last hread hend⟩
    | false =>
      rw [if_neg (by simp [hend])] at h
      have hleft : lx₁.counting.cursor.left < fuel := by
        have hless : lx₁.cursor.left < lx.cursor.left := (reads_of_readTokenWith hread hend).left_lt
        exact Nat.lt_of_lt_of_le hless (Nat.le_of_lt_succ hfuel)
      have hcounting : { lx₁ with index := lx.index + 1 } = lx₁.counting := by
        rw [counting, hindex]
      rw [hcounting] at h
      obtain ⟨raw, rfl, hraw⟩ := ih (by rw [hmoved]; exact htame) hleft h
      have hinner : lx₁.counting.inner = lx.inner := by rw [hmoved, counting, inner, inner]
      have hnumber : lx₁.counting.index = lx.index + 1 := by rw [counting, hindex]
      rw [hinner] at hraw
      rw [hnumber]
      refine ⟨t :: raw, ?_, .cons hread hend (hraw.beside ?_)⟩
      · rw [List.reverse_cons, List.append_assoc]
        exact congrArg _ (numbered_append lx.index [t] raw).symm
      · exact ⟨Nat.le_refl _, rfl, rfl, rfl, by rw [hmoved]; exact htame⟩

end

/-! ## Tokens to come -/

/-- These tokens are still to come: the ones in the queue, and those that will be made of the raw
tokens not read yet. -/
inductive Comes (lx : Lexer) : List Token → Prop
  | ended (hended : lx.ended = true) : Comes lx lx.queued
  | reading {raw : List Token} (hended : lx.ended = false) (hraw : ReadsAll lx.inner lx raw) :
    Comes lx (lx.queued ++ rewritten lx.dialect.rules lx.index raw)

section

variable {lx lx' lx₁ : Lexer} {t u : Token} {raw tokens : List Token} {fuel : Nat}

theorem produce_rules_run (hextensions : lx.dialect.extensions = []) (ht : t.isEnd = false) :
    produce t lx = .ok () { lx with
      queued := lx.queued ++ numbered lx.index (lx.dialect.rules.rewrite t)
      index := lx.index + (lx.dialect.rules.rewrite t).length } := by
  rw [lx.dialect.rules.rewrite_eq_apply ht]
  simp only [produce, get_bind_run, ht, hextensions, List.find?_nil, enqueue, modify_run,
    Bool.false_eq_true, if_false]
  rfl

/-- The next token is the first of those to come. The induction is on the raw tokens that are read
before something is in the queue. -/
theorem ReadsAll.exists_nextWith_eq (h : ReadsAll (sectionTokens lx.levels) lx raw)
    (hextensions : lx.dialect.extensions = []) (hqueued : lx.queued = [])
    (hended : lx.ended = false)
    (hfuel : lx.cursor.left + 2 ≤ fuel) :
    ∃ t tokens lx', rewritten lx.dialect.rules lx.index raw = t :: tokens ∧
      nextWith (sectionTokens lx.levels) fuel lx = .ok (some t) lx' ∧ Comes lx' tokens := by
  induction raw generalizing fuel lx with
  | nil => cases h
  | cons t raw ih =>
    obtain ⟨fuel, rfl⟩ := Nat.exists_eq_add_of_le' (Nat.le_trans (Nat.le_add_left 2 _) hfuel)
    cases h with
    | last hread hend =>
      have ht : t.kind ≠ .whitespace := by
        intro ht
        simp [Token.isEnd, ht] at hend
      obtain ⟨c, rfl⟩ := readTokenWith_moved hread
      refine ⟨t.withIndex lx.index, [], _, ?_, nextWith_produced _ hqueued hended hread ht
        (produce_end_run hend) (by rw [hqueued]; rfl), .ended rfl⟩
      rw [rewritten_cons ht, SpellingRules.rewrite_end _ hend]
      rfl
    | @cons _ lx₁ _ _ hread hend h =>
      have hleft : lx₁.cursor.left + 2 ≤ fuel + 1 := by
        have := (reads_of_readTokenWith hread hend).left_lt
        omega
      obtain ⟨c, rfl⟩ := readTokenWith_moved hread
      have hlater : ReadsAll (sectionTokens (Lexer.levels { lx with cursor := c }))
        { lx with cursor := c } raw := h
      by_cases ht : t.kind = .whitespace
      · rw [rewritten_blank ht, nextWith_blank _ hqueued hended hread ht]
        exact ih hlater hextensions hqueued hended hleft
      · have hproduce : produce t { lx with cursor := c } = _ := produce_rules_run hextensions hend
        rw [rewritten_cons ht, nextWith_produce _ hqueued hended hread ht hproduce]
        dsimp only
        rw [hqueued, List.nil_append]
        cases hmade : lx.dialect.rules.rewrite t with
        | nil =>
          -- nothing is left of the token, and the loop goes on with a queue that is still empty
          have hsame :
              { lx with cursor := c, queued := numbered lx.index [], index := lx.index + 0 } =
              { lx with cursor := c } := by rw [hqueued]; rfl
          exact hsame ▸ ih hlater hextensions hqueued hended hleft
        | cons u us =>
          have hqueue : numbered lx.index (u :: us) =
              u.withIndex lx.index :: numbered (lx.index + 1) us := numbered_append lx.index [u] us
          rw [hqueue, List.cons_append]
          refine ⟨_, _, _, rfl, nextWith_cons rfl, .reading hended (h.beside ?_)⟩
          exact ⟨Nat.le_refl _, rfl, rfl, rfl, Dialect.isTame_of_extensions hextensions⟩

/-- Nothing comes any more only behind the end. -/
theorem Comes.closed (h : Comes lx []) : lx.ended = true ∧ lx.queued = [] := by
  generalize hnil : [] = tokens at h
  cases h with
  | ended hended => exact ⟨hended, rfl⟩
  | reading hended hraw =>
    obtain ⟨-, hnone⟩ := List.append_eq_nil_iff.mp hnil.symm
    exact absurd hnone hraw.rewritten_ne_nil

/-- A token taken from the queue does not matter to those after it. -/
theorem Comes.unqueue {queued : List Token} (h : Comes lx (t :: tokens))
    (hextensions : lx.dialect.extensions = []) (hqueued : lx.queued = u :: queued) :
    u = t ∧ Comes { lx with queued } tokens := by
  generalize hall : t :: tokens = all at h
  cases h with
  | ended hended =>
    obtain ⟨rfl, rfl⟩ := List.cons.inj (hall.trans hqueued)
    exact ⟨rfl, .ended hended⟩
  | @reading raw hended hraw =>
    rw [hqueued, List.cons_append] at hall
    obtain ⟨rfl, rfl⟩ := List.cons.inj hall
    refine ⟨rfl, .reading hended (hraw.beside ?_)⟩
    exact ⟨Nat.le_refl _, rfl, rfl, rfl, Dialect.isTame_of_extensions hextensions⟩

/-- **One token.** The next token is the first of those to come, and the others come after it. -/
theorem Comes.exists_next (h : Comes lx (t :: tokens)) (hextensions : lx.dialect.extensions = []) :
    ∃ lx', next? lx = .ok (some t) lx' ∧ lx'.dialect = lx.dialect ∧ lx'.levels = lx.levels ∧
      lx'.tokensLeft < lx.tokensLeft ∧ Comes lx' tokens := by
  cases hqueued : lx.queued with
  | cons u queued =>
    obtain ⟨rfl, hlater⟩ := h.unqueue hextensions hqueued
    refine ⟨_, nextWith_cons hqueued, rfl, rfl, ?_, hlater⟩
    rw [tokensLeft, tokensLeft, hqueued, List.length_cons]
    dsimp only
    omega
  | nil =>
    have htame := Dialect.isTame_of_extensions hextensions
    generalize hall : t :: tokens = all at h
    cases h with
    | ended hended => exact absurd (hall.trans hqueued) (List.cons_ne_nil _ _)
    | @reading raw hended hraw =>
      obtain ⟨t', tokens', lx', hmade, hnext, hlater⟩ :=
        hraw.exists_nextWith_eq hextensions hqueued hended (Nat.le_refl _)
      rw [hqueued, hmade, List.nil_append] at hall
      obtain ⟨rfl, rfl⟩ := List.cons.inj hall
      have hopen : lx.IsOpen := fun h ↦ absurd (hended.symm.trans h) (by simp)
      obtain ⟨u, hu, htakes⟩ :=
        nextWith_takes htame hopen (fun _ ↦ Nat.le_refl _) (Nat.succ_pos _) hnext
      obtain rfl : t = u := Option.some.inj hu
      exact ⟨lx', hnext, htakes.dialect_eq, htakes.levels_eq, htakes.tokensLeft_lt htame, hlater⟩

theorem Comes.delivers (h : Comes lx tokens) (hextensions : lx.dialect.extensions = []) :
    Delivers lx tokens := by
  induction tokens generalizing lx with
  | nil => exact .done h.closed.1 h.closed.2
  | cons t tokens ih =>
    obtain ⟨lx', hnext, hdialect, hlevels, hless, hlater⟩ := h.exists_next hextensions
    exact .next hnext hlevels hless (ih hlater (hdialect ▸ hextensions))

end

/-! ## Batches -/

/-- How many tokens several batches ask for. -/
def total (counts : List Nat) : Nat := counts.foldr (· + ·) 0

theorem total_cons (count : Nat) (counts : List Nat) :
    total (count :: counts) = count + total counts := rfl

/-- A list cut into pieces of these lengths; less is left for a piece only if the list has no
more. -/
def pieces : List Token → List Nat → List (List Token)
  | _, [] => []
  | tokens, count :: counts => tokens.take count :: pieces (tokens.drop count) counts

section

variable {lx : Lexer} {tokens : List Token}

@[simp] theorem length_pieces (tokens : List Token) (counts : List Nat) :
    (pieces tokens counts).length = counts.length := by
  induction counts generalizing tokens with
  | nil => rfl
  | cons count counts ih => rw [pieces, List.length_cons, ih, List.length_cons]

theorem flatten_pieces (tokens : List Token) (counts : List Nat) :
    (pieces tokens counts).flatten = tokens.take (total counts) := by
  induction counts generalizing tokens with
  | nil => rfl
  | cons count counts ih =>
    rw [pieces, List.flatten_cons, ih, total_cons, List.take_add]

/-- A piece that is shorter than asked for reaches the end of the list. -/
theorem flatten_take_pieces {counts : List Nat} {i count : Nat} {piece : List Token}
    (hpiece : (pieces tokens counts)[i]? = some piece) (hcount : counts[i]? = some count)
    (hshort : piece.length < count) : ((pieces tokens counts).take (i + 1)).flatten = tokens := by
  induction counts generalizing tokens i with
  | nil => simp at hcount
  | cons first counts ih =>
    rw [pieces] at hpiece ⊢
    cases i with
    | zero =>
      obtain rfl : first = count := by simpa using hcount
      obtain rfl : tokens.take first = piece := by simpa using hpiece
      have hle : tokens.length ≤ first := by
        rw [List.length_take] at hshort
        omega
      simp [List.take_of_length_le hle]
    | succ i =>
      have hlater := ih (by simpa using hpiece) (by simpa using hcount)
      rw [List.take_succ_cons, List.flatten_cons, hlater, List.take_append_drop]

/-- Batch after batch, a lexer hands out what it delivers. -/
theorem Delivers.mapM_batch_eq (h : Delivers lx tokens) (counts : List Nat) :
    ∃ lx', counts.mapM batch lx = .ok (pieces tokens counts) lx' ∧
      Delivers lx' (tokens.drop (total counts)) := by
  induction counts generalizing lx tokens with
  | nil => exact ⟨lx, rfl, h⟩
  | cons count counts ih =>
    obtain ⟨lx₁, hbatch, hlater⟩ := h.batchWith_eq count []
    obtain ⟨lx', hrest, hlast⟩ := ih hlater
    refine ⟨lx', ?_, by rwa [total_cons, ← List.drop_drop]⟩
    rw [List.mapM_cons, bind_eq_of_ok (show batch count lx = _ from hbatch), bind_eq_of_ok hrest]
    rfl

/-- A text whose raw tokens can be read delivers what the rules make of them. -/
theorem delivers_rewritten {d : Dialect} {text : String} {raw : List Token}
    (hextensions : d.extensions = []) (hraw : (ofText d text).rawTokens = .ok raw) :
    Delivers (ofText d text) (rewritten d.rules 0 raw) := by
  rw [rawTokens] at hraw
  cases hrun : rawTokensWith ((ofText d text).cursor.left + 1) [] (ofText d text) with
  | error e lx => simp [hrun] at hraw
  | ok found lx =>
    obtain rfl : found = raw := by simpa [hrun] using hraw
    obtain ⟨bare, rfl, hreads⟩ := rawTokensWith_readsAll
      (Dialect.isTame_of_extensions hextensions) (Nat.lt_succ_self _) hrun
    have hcomes : Comes (ofText d text) ([] ++ rewritten d.rules 0 bare) := .reading rfl hreads
    rw [List.reverse_nil, List.nil_append, rewritten_numbered]
    exact hcomes.delivers hextensions

/-- **Rules act token by token.** If a text can be cut into raw tokens, then, in a dialect without
extensions, batches of any sizes are the pieces of one list: what the rules make of each raw token
that is not blank, numbered from zero. Joined, the batches are a first part of the list; one that is
shorter than asked for reaches the end; and the list is what is read when all tokens are asked
for. -/
theorem exists_batches_eq_pieces {d : Dialect} {text : String} {raw : List Token}
    (hextensions : d.extensions = []) (hraw : (ofText d text).rawTokens = .ok raw)
    (counts : List Nat) :
    ∃ batches lx, counts.mapM batch (ofText d text) = .ok batches lx ∧
      batches = pieces (rewritten d.rules 0 raw) counts ∧
      batches.flatten = (rewritten d.rules 0 raw).take (total counts) ∧
      (∀ (i count : Nat) (tokens : List Token), counts[i]? = some count →
        batches[i]? = some tokens →
        tokens.length < count → (batches.take (i + 1)).flatten = rewritten d.rules 0 raw) ∧
      (ofText d text).tokenize = .ok (rewritten d.rules 0 raw) := by
  have hdelivers := delivers_rewritten hextensions hraw
  obtain ⟨lx, hrun, -⟩ := hdelivers.mapM_batch_eq counts
  refine ⟨_, lx, hrun, rfl, flatten_pieces _ _, fun i count tokens hcount hpiece hshort ↦
    flatten_take_pieces hpiece hcount hshort, ?_⟩
  obtain ⟨lx', hall, -⟩ := hdelivers.batchWith_eq (ofText d text).tokensLeft []
  rw [tokenize, show batch _ _ = _ from hall, List.reverse_nil, List.nil_append,
    List.take_of_length_le hdelivers.length_le]

/-- Rules under which a spelling grows, one vanishes, and one that is put in is itself replaced when
it stands in the text. -/
def sampleRules : SpellingRules :=
  SpellingRules.empty |>.replace "let" (.ident "var") |>.replace "var" (.ident "x")
    |>.insertAfter "let" (.symbol ";") |>.insertAfter "let" (.ident "var") |>.remove "gone"

/-- One token that becomes three is spread over two batches with an empty one between them. -/
theorem exists_batches_eq_pieces_sampleRules :
    ∃ raw batches lx,
      (ofText { Dialect.plain '#' with rules := sampleRules } "let gone var").rawTokens = .ok raw ∧
      [1, 0, 3, 9, 9].mapM batch
      (ofText { Dialect.plain '#' with rules := sampleRules } "let gone var") =
        .ok batches lx ∧
      batches.map (·.map Token.text) = [["var"], [], [";", "var", "x"], [""], []] := by
  obtain ⟨raw, hraw, htexts⟩ : ∃ raw,
      (ofText { Dialect.plain '#' with rules := sampleRules } "let gone var").rawTokens = .ok raw ∧
      (pieces (rewritten sampleRules 0 raw) [1, 0, 3, 9, 9]).map (·.map Token.text) =
        [["var"], [], [";", "var", "x"], [""], []] :=
    exists_eq_ok_of_map_eq_some (by decide +kernel)
  obtain ⟨batches, lx, hrun, rfl, -⟩ := exists_batches_eq_pieces rfl hraw [1, 0, 3, 9, 9]
  exact ⟨raw, _, lx, hraw, hrun, htexts⟩

end

end Lexer

end ScriptFront
