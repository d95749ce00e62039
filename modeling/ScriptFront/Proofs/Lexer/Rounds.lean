import Mathlib.Logic.Relation
import ScriptFront.Proofs.Lexer.Delivery
import ScriptFront.Proofs.Lexer.Levels

/-!
# The rounds of a lexer

Asked for a token while its queue is empty, a lexer reads raw tokens until one of them leaves
something in the queue. `Lexer.Round` is one such step, for any rules and extensions. Whatever is to
be known of the tokens that a lexer yields is proved of one round, and carried over the rounds
before each token by `Lexer.Takes` and over the tokens of a batch by `Lexer.Yields`.

A round at the end of the text produces the end token; any other one uses up a character. So the
bounds that the lexer gives to its own loops are never reached, and the bound that it states on the
number of tokens left is one.
-/

namespace ScriptFront

open Relation (ReflTransGen)

theorem SpellingRules.length_apply_le (r : SpellingRules) (t : Token) :
    (r.apply t).length ≤ r.fanOut := by
  have hinserted : (r.insertionsAfter t.text).length ≤ r.insertions.length := by
    rw [insertionsAfter, List.length_map]
    exact List.length_filter_le _ _
  unfold apply fanOut
  dsimp only
  split
  · simpa using hinserted
  · split
    · exact Nat.zero_le _
    · simpa using hinserted

namespace Lexer

/-- Tokens with consecutive numbers from `index` on. -/
def numbered (index : Nat) (tokens : List Token) : List Token :=
  tokens.mapIdx fun i t ↦ t.withIndex (index + i)

@[simp] theorem length_numbered (index : Nat) (tokens : List Token) :
    (numbered index tokens).length = tokens.length := by
  simp [numbered]

/-- What becomes of a raw token that is not the end, with the cursor behind it: the tokens in its
place, and where reading goes on. -/
inductive Produced (d : Dialect) (t : Token) (c : Cursor) : List Token → Cursor → Prop
  /-- Blanks are dropped. -/
  | blank (h : t.kind = .whitespace) : Produced d t c [] c
  /-- Rules apply. -/
  | rules : Produced d t c (d.rules.apply t) c
  /-- An extension takes over. -/
  | extension {e : LexExtension} {lexeme : Lexeme} {c' : Cursor} (he : e ∈ d.extensions)
      (hlex : e.lex t c = (.ok lexeme, c')) : Produced d t c [t.withLexeme lexeme] c'

/-- One raw token is read, and what becomes of it is put into the empty queue. -/
inductive Round (inner : Lexer → Except ScriptError (List Token)) (lx : Lexer) : Lexer → Prop
  /-- At the end of the text. -/
  | atEnd (hqueued : lx.queued = []) (hended : lx.ended = false) (hrest : lx.cursor.rest = []) :
      Round inner lx { lx with
        ended := true
        queued := [.mk .endOfInput lx.cursor.position (lx.base + lx.cursor.pos) lx.index]
        index := lx.index + 1 }
  /-- Before the end of the text. -/
  | reading {t : Token} {lx₁ : Lexer} {tokens : List Token} {cursor : Cursor}
      (hqueued : lx.queued = []) (hended : lx.ended = false)
      (hread : readTokenWith inner lx = .ok t lx₁) (hreads : Reads lx t.lexeme lx₁)
      (hproduced : Produced lx.dialect t lx₁.cursor tokens cursor) :
      Round inner lx { lx with
        cursor
        queued := numbered lx.index tokens
        index := lx.index + tokens.length }

/-- The end of the text is still to be asked for. -/
def IsOpen (lx : Lexer) : Prop := lx.ended = true → ∃ t ∈ lx.queued.getLast?, t.isEnd = true

section

variable {inner : Lexer → Except ScriptError (List Token)} {lx lx' lx₂ : Lexer} {t : Token}
  {tokens : List Token} {cursor : Cursor}

theorem isOpen_ofText (dialect : Dialect) (text : String) : (ofText dialect text).IsOpen := by
  intro h
  cases h

theorem IsOpen.tokensLeft_pos (h : lx.IsOpen) : 0 < lx.tokensLeft := by
  rw [tokensLeft]
  cases hended : lx.ended with
  | false =>
    have := Nat.mul_pos (Nat.succ_pos lx.cursor.left)
      (Nat.succ_pos lx.dialect.rules.insertions.length)
    simp only [Bool.false_eq_true, if_false]
    exact Nat.add_pos_right _ this
  | true =>
    obtain ⟨t, ht, -⟩ := h hended
    exact Nat.add_pos_left (List.length_pos_of_mem (List.mem_of_getLast? ht)) _

/-! ## One round -/

theorem produce_end_eq (ht : t.isEnd = true) (h : produce t lx = .ok () lx') :
    lx' = { lx with
      ended := true
      queued := lx.queued ++ [t.withIndex lx.index]
      index := lx.index + 1 } := by
  rw [produce_end_run ht] at h
  cases h
  rfl

theorem produce_cases (ht : t.isEnd = false) (h : produce t lx = .ok () lx') :
    ∃ tokens cursor, Produced lx.dialect t lx.cursor tokens cursor ∧
      lx' = { lx with
        cursor
        queued := lx.queued ++ numbered lx.index tokens
        index := lx.index + tokens.length } := by
  rw [produce, get_bind_run] at h
  simp only [ht, Bool.false_eq_true, if_false] at h
  cases hfind : lx.dialect.extensions.find? fun e ↦ e.claims t lx.cursor with
  | none =>
    rw [hfind] at h
    cases h
    exact ⟨_, _, .rules, rfl⟩
  | some e =>
    rw [hfind] at h
    obtain ⟨lexeme, lx₁, hlex, h⟩ := bind_eq_ok_iff.mp h
    rw [scanExcept, scan_bind_run] at hlex
    cases hresult : (e.lex t lx.cursor).1 with
    | error err =>
      rw [hresult] at hlex
      cases hlex
    | ok found =>
      rw [hresult] at hlex
      cases hlex
      cases h
      exact ⟨_, _, .extension (List.mem_of_find?_eq_some hfind) (Prod.ext hresult rfl), rfl⟩

/-- An empty queue is filled by a round. -/
theorem round_of_read {lx₁ : Lexer} (hqueued : lx.queued = []) (hended : lx.ended = false)
    (hread : readTokenWith inner lx = .ok t lx₁)
    (h : t.kind = .whitespace ∧ lx₂ = lx₁ ∨
      t.kind ≠ .whitespace ∧ produce t lx₁ = .ok () lx₂) : Round inner lx lx₂ := by
  obtain ⟨l, rfl, ⟨hrest, rfl, rfl⟩ | hreads⟩ := readTokenWith_cases hread
  · rcases h with ⟨hkind, -⟩ | ⟨-, hproduce⟩
    · cases hkind
    · rw [produce_end_eq rfl hproduce, hqueued]
      exact .atEnd hqueued hended hrest
  · have hmoved := hreads.passed.moved
    rcases h with ⟨hkind, hsame⟩ | ⟨-, hproduce⟩
    · rw [hsame]
      have hround := Round.reading hqueued hended hread hreads (.blank hkind)
      have heq : lx₁ = { lx with
          cursor := lx₁.cursor, queued := numbered lx.index [], index := lx.index + 0 } := by
        conv_lhs => rw [hmoved]
        rw [hmoved]
        simp [numbered, hqueued]
      rw [heq]
      exact hround
    · have hnotEnd : (Token.mk l lx.cursor.position (lx.base + lx.cursor.pos) 0).isEnd = false := by
        simpa [Token.isEnd, Token.kind, Token.lexeme] using hreads.notEnd
      obtain ⟨tokens, cursor, hproduced, rfl⟩ := produce_cases hnotEnd hproduce
      have hdialect : lx₁.dialect = lx.dialect := by rw [hmoved]
      rw [hdialect] at hproduced
      have hround := Round.reading hqueued hended hread hreads hproduced
      have heq : { lx₁ with
          cursor := cursor
          queued := lx₁.queued ++ numbered lx₁.index tokens
          index := lx₁.index + tokens.length } = { lx with
          cursor := cursor
          queued := numbered lx.index tokens
          index := lx.index + tokens.length } := by
        rw [hmoved]
        simp [hqueued]
      rw [heq]
      exact hround

theorem Round.dialect_eq (h : Round inner lx lx₂) : lx₂.dialect = lx.dialect := by
  cases h <;> rfl

theorem Round.levels_eq (h : Round inner lx lx₂) : lx₂.levels = lx.levels := by
  cases h <;> rfl

theorem Round.isOpen (h : Round inner lx lx₂) : lx₂.IsOpen := by
  cases h with
  | atEnd => exact fun _ ↦ ⟨_, rfl, rfl⟩
  | reading hqueued hended => exact fun hended' ↦ absurd (hended.symm.trans hended') (by simp)

theorem Produced.length_le {d : Dialect} {c : Cursor} (h : Produced d t c tokens cursor) :
    tokens.length ≤ d.rules.fanOut := by
  cases h with
  | blank => exact Nat.zero_le _
  | rules => exact d.rules.length_apply_le t
  | extension => exact Nat.succ_le_succ (Nat.zero_le _)

theorem Produced.left_le {d : Dialect} {c : Cursor} (h : Produced d t c tokens cursor)
    (htame : d.IsTame) : cursor.left ≤ c.left := by
  cases h with
  | blank => exact Nat.le_refl _
  | rules => exact Nat.le_refl _
  | extension he hlex =>
    have hleft := (htame _ he t c).1
    rwa [hlex] at hleft

theorem Reads.left_lt {l : Lexeme} (h : Reads lx l lx') : lx'.cursor.left < lx.cursor.left := by
  rw [Cursor.left_eq_length, Cursor.left_eq_length, h.passed.rest_eq, List.length_append]
  have := List.length_pos_iff.mpr h.nonempty
  omega

theorem Round.tokensLeft_le (h : Round inner lx lx₂) (htame : lx.dialect.IsTame) :
    lx₂.tokensLeft ≤ lx.tokensLeft := by
  cases h with
  | atEnd hqueued hended hrest =>
    have hleft : lx.cursor.left = 0 := by rw [Cursor.left_eq_length, hrest]; rfl
    simp [tokensLeft, hqueued, hended, hleft, SpellingRules.fanOut]
  | @reading t lx₁ tokens cursor hqueued hended hread hreads hproduced =>
    have hfan := hproduced.length_le
    have hleft : cursor.left + 1 ≤ lx.cursor.left :=
      Nat.lt_of_le_of_lt (hproduced.left_le htame) hreads.left_lt
    have hmul := Nat.mul_le_mul_right lx.dialect.rules.fanOut hleft
    simp only [tokensLeft, hqueued, hended, length_numbered, List.length_nil, Bool.false_eq_true,
      if_false, Nat.add_mul, Nat.one_mul] at *
    omega

/-! ## The rounds before a token -/

theorem rounds_dialect_eq (h : ReflTransGen (Round inner) lx lx₂) : lx₂.dialect = lx.dialect := by
  induction h with
  | refl => rfl
  | tail _ hround ih => rw [hround.dialect_eq, ih]

theorem rounds_levels_eq (h : ReflTransGen (Round inner) lx lx₂) : lx₂.levels = lx.levels := by
  induction h with
  | refl => rfl
  | tail _ hround ih => rw [hround.levels_eq, ih]

theorem rounds_isOpen (h : ReflTransGen (Round inner) lx lx₂) (hopen : lx.IsOpen) :
    lx₂.IsOpen := by
  cases h with
  | refl => exact hopen
  | tail _ hround => exact hround.isOpen

theorem rounds_tokensLeft_le (h : ReflTransGen (Round inner) lx lx₂) (htame : lx.dialect.IsTame) :
    lx₂.tokensLeft ≤ lx.tokensLeft := by
  induction h with
  | refl => exact Nat.le_refl _
  | tail hrounds hround ih =>
    have hdialect := rounds_dialect_eq hrounds
    exact Nat.le_trans (hround.tokensLeft_le (hdialect ▸ htame)) ih

/-- After some rounds the token is the first of the queue, and is taken from it. -/
structure Takes (inner : Lexer → Except ScriptError (List Token)) (lx : Lexer) (t : Token)
    (lx' : Lexer) : Prop where
  /-- The rounds, and what they leave in the queue. -/
  rounds : ∃ lx₂, ReflTransGen (Round inner) lx lx₂ ∧ lx₂.queued = t :: lx'.queued ∧
    lx' = { lx₂ with queued := lx'.queued }

/-- An open lexer takes a token. The induction is on the fuel, of which each round needs one and
uses up a character. -/
theorem nextWith_takes {fuel : Nat} {found : Option Token} (htame : lx.dialect.IsTame)
    (hopen : lx.IsOpen) (hfuel : lx.queued = [] → lx.cursor.left + 2 ≤ fuel) (hpos : 0 < fuel)
    (h : nextWith inner fuel lx = .ok found lx') : ∃ t, found = some t ∧ Takes inner lx t lx' := by
  induction fuel generalizing lx with
  | zero => exact absurd hpos (Nat.lt_irrefl 0)
  | succ fuel ih =>
    simp only [nextWith, get_bind_run] at h
    cases hqueued : lx.queued with
    | cons t queued =>
      rw [hqueued] at h
      cases h
      exact ⟨t, rfl, lx, .refl, hqueued, rfl⟩
    | nil =>
      have hended : lx.ended = false := by
        rw [← Bool.not_eq_true]
        intro hended
        obtain ⟨t, ht, -⟩ := hopen hended
        simp [hqueued] at ht
      have hleft := hfuel hqueued
      rw [hqueued] at h
      simp only [hended, Bool.false_eq_true, if_false] at h
      obtain ⟨t, lx₁, hread, h⟩ := bind_eq_ok_iff.mp h
      -- whatever becomes of the raw token, the rest of the loop runs after one round
      obtain ⟨lx₂, hround, h⟩ : ∃ lx₂, Round inner lx lx₂ ∧
          nextWith inner fuel lx₂ = .ok found lx' := by
        by_cases hkind : t.kind = .whitespace
        · rw [if_neg (by simp [hkind])] at h
          exact ⟨lx₁, round_of_read hqueued hended hread (.inl ⟨hkind, rfl⟩), h⟩
        · rw [if_pos (by simp [hkind])] at h
          obtain ⟨_, lx₂, hproduce, h⟩ := bind_eq_ok_iff.mp h
          exact ⟨lx₂, round_of_read hqueued hended hread (.inr ⟨hkind, hproduce⟩), h⟩
      have hfuel₂ : lx₂.queued = [] → lx₂.cursor.left + 2 ≤ fuel := by
        cases hround with
        | atEnd => simp
        | reading _ _ _ hreads hproduced =>
          have := Nat.lt_of_le_of_lt (hproduced.left_le htame) hreads.left_lt
          intro _
          dsimp only
          omega
      obtain ⟨t', hfound, lx₃, hrounds, htaken⟩ :=
        ih (hround.dialect_eq ▸ htame) hround.isOpen hfuel₂ (by omega) h
      exact ⟨t', hfound, lx₃, .head hround hrounds, htaken⟩

theorem Takes.dialect_eq (h : Takes inner lx t lx') : lx'.dialect = lx.dialect := by
  obtain ⟨lx₂, hrounds, -, heq⟩ := h.rounds
  have hsame : lx'.dialect = lx₂.dialect := by rw [heq]
  rw [hsame, rounds_dialect_eq hrounds]

theorem Takes.levels_eq (h : Takes inner lx t lx') : lx'.levels = lx.levels := by
  obtain ⟨lx₂, hrounds, -, heq⟩ := h.rounds
  have hsame : lx'.levels = lx₂.levels := by rw [heq]
  rw [hsame, rounds_levels_eq hrounds]

theorem Takes.tokensLeft_lt (h : Takes inner lx t lx') (htame : lx.dialect.IsTame) :
    lx'.tokensLeft < lx.tokensLeft := by
  obtain ⟨lx₂, hrounds, hqueued, heq⟩ := h.rounds
  have hle := rounds_tokensLeft_le hrounds htame
  refine Nat.lt_of_lt_of_le ?_ hle
  rw [heq, tokensLeft, tokensLeft, hqueued, List.length_cons]
  dsimp only
  omega

/-- An open lexer stays open until the end is taken. -/
theorem Takes.isOpen (h : Takes inner lx t lx') (hopen : lx.IsOpen) :
    lx'.IsOpen ∨ t.isEnd = true ∧ lx'.ended = true ∧ lx'.queued = [] := by
  obtain ⟨lx₂, hrounds, hqueued, heq⟩ := h.rounds
  have hopen₂ := rounds_isOpen hrounds hopen
  have hended₂ : lx'.ended = lx₂.ended := by rw [heq]
  cases hended : lx'.ended with
  | false => exact .inl fun h ↦ absurd (hended.symm.trans h) (by simp)
  | true =>
    obtain ⟨last, hlast, hend⟩ := hopen₂ (hended₂.symm.trans hended)
    rw [hqueued] at hlast
    cases hrest : lx'.queued with
    | nil =>
      rw [hrest] at hlast
      obtain rfl : t = last := by simpa using hlast
      exact .inr ⟨hend, rfl, rfl⟩
    | cons u queued =>
      rw [hrest, List.getLast?_cons_cons] at hlast
      exact .inl fun _ ↦ ⟨last, hrest ▸ hlast, hend⟩

/-! ## The tokens of a batch -/

/-- The lexer takes these tokens one after the other. -/
inductive Yields (inner : Lexer → Except ScriptError (List Token)) :
    Lexer → List Token → Lexer → Prop
  | nil {lx : Lexer} : Yields inner lx [] lx
  | cons {lx lx₁ lx' : Lexer} {t : Token} {tokens : List Token} (ht : Takes inner lx t lx₁)
      (h : Yields inner lx₁ tokens lx') : Yields inner lx (t :: tokens) lx'

theorem Yields.dialect_eq (h : Yields inner lx tokens lx') : lx'.dialect = lx.dialect := by
  induction h with
  | nil => rfl
  | cons ht _ ih => rw [ih, ht.dialect_eq]

theorem Yields.length_le (h : Yields inner lx tokens lx') (htame : lx.dialect.IsTame) :
    tokens.length + lx'.tokensLeft ≤ lx.tokensLeft := by
  induction h with
  | nil => simp
  | cons ht _ ih =>
    have hlater := ih (ht.dialect_eq ▸ htame)
    have hless := ht.tokensLeft_lt htame
    rw [List.length_cons]
    omega

/-- Behind the end nothing is left to take. -/
theorem batchWith_closed {count : Nat} {done result : List Token} (hended : lx.ended = true)
    (hqueued : lx.queued = []) (h : batchWith inner count done lx = .ok result lx') :
    result = done.reverse ∧ lx' = lx := by
  cases count with
  | zero =>
    cases h
    exact ⟨rfl, rfl⟩
  | succ count =>
    have hnext : nextWith inner (lx.cursor.left + 2) lx = .ok none lx := by
      simp [nextWith, hqueued, hended]
    rw [batchWith, get_bind_run, bind_eq_of_ok hnext] at h
    cases h
    exact ⟨rfl, rfl⟩

/-- A batch of an open lexer is as long as was asked for and leaves the lexer open, or it ends in
the end and leaves nothing. -/
theorem batchWith_yields {count : Nat} {done result : List Token} (htame : lx.dialect.IsTame)
    (hopen : lx.IsOpen) (h : batchWith inner count done lx = .ok result lx') :
    ∃ tokens, result = done.reverse ++ tokens ∧ Yields inner lx tokens lx' ∧
      (lx'.IsOpen ∧ tokens.length = count ∨
        (∃ t ∈ tokens.getLast?, t.isEnd = true) ∧ lx'.ended = true ∧ lx'.queued = []) := by
  induction count generalizing lx done with
  | zero =>
    cases h
    exact ⟨[], by simp, .nil, .inl ⟨hopen, rfl⟩⟩
  | succ count ih =>
    rw [batchWith, get_bind_run] at h
    obtain ⟨found, lx₁, hnext, h⟩ := bind_eq_ok_iff.mp h
    obtain ⟨t, rfl, htakes⟩ :=
      nextWith_takes htame hopen (fun _ ↦ Nat.le_refl _) (Nat.succ_pos _) hnext
    rcases htakes.isOpen hopen with hopen₁ | ⟨hend, hended, hqueued⟩
    · obtain ⟨tokens, rfl, hyields, hlast⟩ := ih (htakes.dialect_eq ▸ htame) hopen₁ h
      refine ⟨t :: tokens, by simp, .cons htakes hyields, ?_⟩
      rcases hlast with ⟨hopen', hlength⟩ | ⟨⟨u, hu, huend⟩, hclosed⟩
      · exact .inl ⟨hopen', by simp [hlength]⟩
      · refine .inr ⟨⟨u, ?_, huend⟩, hclosed⟩
        cases tokens with
        | nil => simp at hu
        | cons v tokens => rwa [List.getLast?_cons_cons]
    · obtain ⟨rfl, rfl⟩ := batchWith_closed hended hqueued h
      exact ⟨[t], by simp, .cons htakes .nil, .inr ⟨⟨t, rfl, hend⟩, hended, hqueued⟩⟩

end

end Lexer

end ScriptFront
