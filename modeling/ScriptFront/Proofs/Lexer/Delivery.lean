import ScriptFront.Proofs.Lexer.RawTokens
import ScriptFront.Proofs.Window.Stream

/-!
# What a lexer delivers

A text is cut up as it stands: what a lexer reads first depends on the characters that follow too,
so the statement that a text consists of certain lexemes is made from its end to its beginning.
`Lexes cs ls` says that the characters `cs` consist of the lexemes `ls`, with single blanks between
some of them. A lexer without rules and extensions in front of such characters delivers tokens with
these lexemes and then the end of the text, however many are asked for at a time.
-/

namespace ScriptFront.Lexer

/-- A lexer with the standard marker, without rules and extensions. -/
structure IsPlain (lx : Lexer) : Prop where
  /-- The marker is the standard one. -/
  marker : lx.dialect.marker = Dialect.defaultMarker
  /-- There are no rules. -/
  rules : lx.dialect.rules = .empty
  /-- There are no extensions. -/
  extensions : lx.dialect.extensions = []

/-- Before these characters, a plain lexer reads `l` first, whatever it does with sections. -/
def ReadsFirst (l : Lexeme) (cs : List Char) : Prop :=
  ∀ (inner : Lexer → Except ScriptError (List Token)) (lx : Lexer) (c : Char) (rest : List Char),
    lx.IsPlain → lx.cursor.rest = cs → cs = c :: rest →
    ∃ lx', readLexeme inner c rest lx = .ok l lx'

/-- The characters consist of these lexemes. -/
inductive Lexes : List Char → List Lexeme → Prop
  | nil : Lexes [] []
  | blank {rest : List Char} {ls : List Lexeme}
    (hfirst : ∀ c ∈ rest.head?, Cursor.isSpacing c = false) (h : Lexes rest ls) :
    Lexes (' ' :: rest) ls
  | cons {l : Lexeme} {rest : List Char} {ls : List Lexeme}
    (hfirst : ReadsFirst l (l.text.toList ++ rest)) (htext : l.text.toList ≠ [])
    (htrivia : l.isTrivia = false) (hend : l.kind ≠ .endOfInput) (h : Lexes rest ls) :
    Lexes (l.text.toList ++ rest) (l :: ls)

/-! ## Step by step -/

/-- The lexer delivers these tokens, one after the other, and then none. The bound on the number of
tokens left decreases at each step. -/
inductive Delivers : Lexer → List Token → Prop
  | done {lx : Lexer} (hended : lx.ended = true) (hqueued : lx.queued = []) : Delivers lx []
  | next {lx lx' : Lexer} {t : Token} {tokens : List Token}
    (hstep : next? lx = .ok (some t) lx') (hlevels : lx'.levels = lx.levels)
    (hless : lx'.tokensLeft < lx.tokensLeft) (h : Delivers lx' tokens) :
    Delivers lx (t :: tokens)

theorem Delivers.length_le {lx : Lexer} {tokens : List Token} (h : Delivers lx tokens) :
    tokens.length ≤ lx.tokensLeft := by
  induction h with
  | done hended hqueued => exact Nat.zero_le _
  | next hstep hlevels hless h ih =>
    rw [List.length_cons]
    omega

/-- A batch takes a first part of what is delivered. -/
theorem Delivers.batchWith_eq {lx : Lexer} {tokens : List Token} (h : Delivers lx tokens)
    (count : Nat) (done : List Token) :
    ∃ lx', batchWith lx.inner count done lx =
        .ok (done.reverse ++ tokens.take count) lx' ∧ Delivers lx' (tokens.drop count) := by
  induction count generalizing lx tokens done with
  | zero => exact ⟨lx, by simp [batchWith], h⟩
  | succ count ih =>
    cases h with
    | done hended hqueued =>
      refine ⟨lx, ?_, .done hended hqueued⟩
      have hnone : nextWith lx.inner (lx.cursor.left + 2) lx = .ok none lx := by
        simp [nextWith, hqueued, hended]
      rw [batchWith, get_bind_run, bind_eq_of_ok hnone, List.take_nil, List.append_nil]
      rfl
    | @next _ lx₁ t tokens hstep hlevels hless h =>
      obtain ⟨lx', hbatch, hlater⟩ := ih h (t :: done)
      refine ⟨lx', ?_, hlater⟩
      have hinner : lx₁.inner = lx.inner := by rw [inner, inner, hlevels]
      rw [batchWith, get_bind_run, bind_eq_of_ok (show nextWith _ _ lx = _ from hstep)]
      rw [hinner] at hbatch
      simpa using hbatch

theorem isDelivery_delivers : IsDelivery Delivers where
  next {lx tokens count} h hne hcount := by
    obtain ⟨lx', hbatch, hlater⟩ := h.batchWith_eq count []
    refine ⟨tokens.take count, tokens.drop count, lx', ?_, ?_, ?_, hlater⟩
    · simp [TokenSupply.nextBatch, batch, hbatch]
    · rw [ne_eq, List.take_eq_nil_iff, not_or]
      exact ⟨Nat.ne_of_gt hcount, hne⟩
    · rw [List.take_append_drop]
  bound h := h.length_le

theorem Delivers.supplies {lx : Lexer} {tokens : List Token} (h : Delivers lx tokens) :
    Supplies lx tokens := ⟨Delivers, isDelivery_delivers, h⟩

/-! ## From characters to steps -/

theorem produce_run {lx : Lexer} {t : Token} (hrules : lx.dialect.rules = .empty)
    (hextensions : lx.dialect.extensions = []) (ht : t.isEnd = false) :
    produce t lx = .ok ()
      { lx with queued := lx.queued ++ [t.withIndex lx.index], index := lx.index + 1 } := by
  have happly : lx.dialect.rules.apply t = [t] := by
    rw [hrules]
    rfl
  simp only [produce, get_bind_run, ht, hextensions, List.find?_nil, happly, enqueue, modify_run,
    Bool.false_eq_true, if_false]
  rfl

theorem produce_end_run {lx : Lexer} {t : Token} (ht : t.isEnd = true) :
    produce t lx = .ok ()
      { lx with
        ended := true
        queued := lx.queued ++ [t.withIndex lx.index]
        index := lx.index + 1 } := by
  simp only [produce, get_bind_run, ht, if_true, modify_bind_run, enqueue, modify_run]
  rfl

/-- What is queued is taken first. -/
theorem nextWith_cons {inner : Lexer → Except ScriptError (List Token)} {lx : Lexer} {t : Token}
    {queued : List Token} {fuel : Nat} (h : lx.queued = t :: queued) :
    nextWith inner (fuel + 1) lx = .ok (some t) { lx with queued } := by
  simp only [nextWith, get_bind_run, h]
  rfl

/-- A lexer without rules and extensions whose queue is empty and which has not reached the end. -/
structure IsFresh (lx : Lexer) : Prop where
  /-- There are no rules. -/
  rules : lx.dialect.rules = .empty
  /-- There are no extensions. -/
  extensions : lx.dialect.extensions = []
  /-- Nothing is queued. -/
  queued : lx.queued = []
  /-- The end was not produced. -/
  ended : lx.ended = false

/-! ## What the dialect is for -/

section Dialect

variable {α β : Type} {inner : Lexer → Except ScriptError (List Token)} {x : LexM α}
    {f : α → LexM β}

/-- The lexer with another dialect, and with other levels to go. -/
def under (lx : Lexer) (dialect : Dialect) (levels : Nat) : Lexer := { lx with dialect, levels }

/-- The computation depends neither on the dialect nor on the levels. -/
def IgnoresDialect (x : LexM α) : Prop :=
  ∀ lx dialect levels, x (lx.under dialect levels) = mapState (under · dialect levels) (x lx)

theorem IgnoresDialect.bind (hx : IgnoresDialect x) (hf : ∀ a, IgnoresDialect (f a)) :
    IgnoresDialect (x >>= f) := by
  intro lx dialect levels
  have hrun := hx lx dialect levels
  cases h : x lx with
  | ok a lx' =>
    rw [h] at hrun
    rw [bind_eq_of_ok h, bind_eq_of_ok hrun]
    exact hf a lx' dialect levels
  | error e lx' =>
    rw [h] at hrun
    rw [bind_eq_of_error h, bind_eq_of_error hrun]
    rfl

theorem IgnoresDialect.ite {p : Prop} [Decidable p] {y : LexM α} (hx : IgnoresDialect x)
    (hy : IgnoresDialect y) : IgnoresDialect (if p then x else y) := by
  by_cases h : p
  · rwa [if_pos h]
  · rwa [if_neg h]

theorem ignoresDialect_pure (a : α) : IgnoresDialect (pure a : LexM α) := fun _ _ _ ↦ rfl

theorem ignoresDialect_scan (g : Cursor → α × Cursor) : IgnoresDialect (scan g) := fun _ _ _ ↦ rfl

theorem ignoresDialect_fail (position : Position) (cause : Cause) :
    IgnoresDialect (fail position cause : LexM α) := fun _ _ _ ↦ rfl

theorem ignoresDialect_get_bind {g : Lexer → LexM β}
    (hsame : ∀ lx dialect levels, g (lx.under dialect levels) = g lx)
    (hg : ∀ lx, IgnoresDialect (g lx)) :
    IgnoresDialect (get >>= g) := by
  intro lx dialect levels
  rw [get_bind_run, get_bind_run, hsame]
  exact hg lx lx dialect levels

/-- Only strings in double quotes are read by the marker and the levels. -/
theorem ignoresDialect_readLexeme (inner : Lexer → Except ScriptError (List Token)) {c : Char}
    (hc : c ≠ '"')
    (rest : List Char) :
    IgnoresDialect (readLexeme inner c rest) := by
  rw [readLexeme]
  refine .ite ((ignoresDialect_scan _).bind fun _ ↦ ignoresDialect_pure _)
    (.ite ?_ (.ite (.ite ?_ ?_)
    (.ite ((ignoresDialect_scan _).bind fun _ ↦ ignoresDialect_pure _) (.ite ?_ ?_))))
  · exact (ignoresDialect_scan _).bind fun _ ↦ ignoresDialect_pure _
  · exact (ignoresDialect_scan _).bind fun _ ↦ ignoresDialect_pure _
  · exact (ignoresDialect_scan _).bind fun _ ↦ ignoresDialect_pure _
  · -- a block comment
    refine ignoresDialect_get_bind (fun _ _ _ ↦ rfl) fun lx ↦ (ignoresDialect_scan _).bind fun _ ↦
      (ignoresDialect_scan _).bind fun run ↦ .ite (ignoresDialect_pure _) (ignoresDialect_fail _ _)
  · rw [if_neg hc]
    refine .ite ?_ (.ite ((ignoresDialect_scan _).bind fun _ ↦ ignoresDialect_pure _)
      (.ite ((ignoresDialect_scan _).bind fun _ ↦ ignoresDialect_pure _) ?_))
    · -- a string that embeds nothing
      refine ignoresDialect_get_bind (fun _ _ _ ↦ rfl) fun lx ↦ .bind ?_ fun run ↦
        ignoresDialect_get_bind (fun _ _ _ ↦ rfl) fun lx ↦ ignoresDialect_pure _
      refine (ignoresDialect_scan _).bind fun found ↦ ?_
      cases found with
      | ok run => exact ignoresDialect_pure _
      | error e => exact fun _ _ _ ↦ rfl
    · cases Lexeme.longestSymbol? (c :: rest.take 1) with
      | some lexeme => exact (ignoresDialect_scan _).bind fun _ ↦ ignoresDialect_pure _
      | none => exact ignoresDialect_get_bind (fun _ _ _ ↦ rfl) fun lx ↦ ignoresDialect_fail _ _

end Dialect

/-- The lexeme may be read with the marker of the lexer: it is the standard one, or the lexeme is no
string in double quotes. -/
def Suits (lx : Lexer) (l : Lexeme) : Prop :=
  lx.dialect.marker = Dialect.defaultMarker ∨ l.text.toList.head? ≠ some '"'

section Reading

variable (inner : Lexer → Except ScriptError (List Token)) {lx lx' : Lexer} {t : Token} {fuel : Nat}

theorem nextWith_blank (hqueued : lx.queued = []) (hended : lx.ended = false)
    (hread : readTokenWith inner lx = .ok t lx') (ht : t.kind = .whitespace) :
    nextWith inner (fuel + 1) lx = nextWith inner fuel lx' := by
  simp only [nextWith, get_bind_run, hqueued, hended]
  rw [ite_run, if_neg (by simp), bind_eq_of_ok hread]
  simp [ht]

/-- What is produced of a token is put into the queue before the loop goes on. -/
theorem nextWith_produce (hqueued : lx.queued = []) (hended : lx.ended = false)
    (hread : readTokenWith inner lx = .ok t lx') (ht : t.kind ≠ .whitespace) {lx₂ : Lexer}
    (hproduce : produce t lx' = .ok () lx₂) :
    nextWith inner (fuel + 1) lx = nextWith inner fuel lx₂ := by
  rw [nextWith]
  simp only [get_bind_run, hqueued, hended]
  rw [ite_run, if_neg (by simp), bind_eq_of_ok hread]
  simp only [bne_iff_ne, ne_eq, ht, not_false_eq_true, if_true]
  rw [bind_eq_of_ok hproduce]

theorem nextWith_produced (hqueued : lx.queued = []) (hended : lx.ended = false)
    (hread : readTokenWith inner lx = .ok t lx') (ht : t.kind ≠ .whitespace) {lx₂ : Lexer}
    (hproduce : produce t lx' = .ok () lx₂) {t' : Token} (hqueued₂ : lx₂.queued = [t']) :
    nextWith inner (fuel + 2) lx = .ok (some t') { lx₂ with queued := [] } := by
  rw [nextWith_produce inner hqueued hended hread ht hproduce, nextWith_cons hqueued₂]

/-- In front of what it reads first, a lexer reads it and moves over its spelling. -/
theorem ReadsFirst.readTokenWith_eq {l : Lexeme} {rest : List Char} (h : lx.IsFresh)
    (hsuits : lx.Suits l)
    (hfirst : ReadsFirst l (l.text.toList ++ rest)) (htext : l.text.toList ≠ [])
    (hrest : lx.cursor.rest = l.text.toList ++ rest) :
    ∃ position offset, readTokenWith inner lx =
      .ok (.mk l position offset 0)
        { lx with cursor := lx.cursor.advance l.text.toList.length } := by
  obtain ⟨c, cs, hcs⟩ := List.exists_cons_of_ne_nil (List.append_ne_nil_of_left_ne_nil htext rest)
  obtain ⟨lx', hread⟩ : ∃ lx', readLexeme inner c cs lx = .ok l lx' := by
    rcases hsuits with hmarker | hquote
    · exact hfirst inner lx c cs ⟨hmarker, h.rules, h.extensions⟩ hrest hcs
    · -- with the standard marker it is read, and without quotes the marker does not count
      have hc : c ≠ '"' := by
        obtain ⟨d, ds, hd⟩ := List.exists_cons_of_ne_nil htext
        rw [hd, List.cons_append] at hcs
        obtain ⟨rfl, -⟩ := List.cons.inj hcs
        rw [hd] at hquote
        simpa using hquote
      obtain ⟨lx', hread⟩ :=
        hfirst inner (lx.under { lx.dialect with marker := Dialect.defaultMarker } lx.levels) c cs
          ⟨rfl, h.rules, h.extensions⟩ hrest hcs
      have hback := ignoresDialect_readLexeme inner hc cs
        (lx.under { lx.dialect with marker := Dialect.defaultMarker } lx.levels)
        lx.dialect lx.levels
      rw [hread] at hback
      exact ⟨_, hback⟩
  rw [hcs] at hrest
  have hmoved := (readLexeme_reads hrest hread).passed.moved
  refine ⟨lx.cursor.position, lx.base + lx.cursor.pos, ?_⟩
  rw [readTokenWith, get_bind_run]
  simp only [hrest]
  rw [bind_eq_of_ok hread, hmoved]
  rfl

end Reading

theorem takeWhile_eq_nil {p : Char → Bool} {cs : List Char} (h : ∀ c ∈ cs.head?, p c = false) :
    cs.takeWhile p = [] := by
  cases cs with
  | nil => rfl
  | cons c cs => rw [List.takeWhile_cons, if_neg (by simp [h c rfl])]

theorem text_scanWhile (p : Char → Bool) (emptyFails : Bool) (c : Cursor) :
    (Cursor.scanWhile p emptyFails .plain c).1.text = String.ofList (c.rest.takeWhile p) := rfl

theorem readsFirst_blank {rest : List Char}
    (hfirst : ∀ c ∈ rest.head?, Cursor.isSpacing c = false) :
    ReadsFirst (.whitespace " ") ((Lexeme.whitespace " ").text.toList ++ rest) := by
  intro inner lx c cs h hrest hcs
  obtain ⟨rfl, rfl⟩ : ' ' = c ∧ rest = cs := List.cons.inj hcs
  have hrun : (Cursor.scanBlanks .plain lx.cursor).1.text = " " := by
    rw [Cursor.scanBlanks, text_scanWhile, hrest, hcs, List.takeWhile_cons, if_pos (by decide),
      takeWhile_eq_nil hfirst]
  refine ⟨{ lx with cursor := (Cursor.scanBlanks .plain lx.cursor).2 }, ?_⟩
  simp only [readLexeme, ite_run]
  rw [if_pos (by decide), scan_bind_run, hrun]
  rfl

theorem tokensLeft_eq {lx : Lexer} (hrules : lx.dialect.rules = .empty) (hqueued : lx.queued = [])
    (hended : lx.ended = false) : lx.tokensLeft = lx.cursor.rest.length + 1 := by
  rw [tokensLeft, hqueued, hended, hrules, Cursor.left_eq_length]
  simp [SpellingRules.fanOut, SpellingRules.empty]

theorem IsFresh.tokensLeft_eq {lx : Lexer} (h : lx.IsFresh) :
    lx.tokensLeft = lx.cursor.rest.length + 1 :=
  ScriptFront.Lexer.tokensLeft_eq h.rules h.queued h.ended

theorem IsFresh.advance {lx : Lexer} (h : lx.IsFresh) (n : Nat) :
    IsFresh { lx with cursor := lx.cursor.advance n } :=
  ⟨h.rules, h.extensions, h.queued, h.ended⟩

/-- In front of the end, the end is delivered. -/
theorem IsFresh.delivers_end {lx : Lexer} (h : lx.IsFresh) (hrest : lx.cursor.rest = []) :
    Delivers lx [.mk .endOfInput lx.cursor.position (lx.base + lx.cursor.pos) lx.index] := by
  have hread : readTokenWith lx.inner lx =
      .ok (.mk .endOfInput lx.cursor.position (lx.base + lx.cursor.pos) 0) lx := by
    simp only [readTokenWith, get_bind_run, hrest]
    rfl
  have hstep : next? lx = _ := nextWith_produced _ h.queued h.ended hread
    (by simp [Token.kind, Token.lexeme, Lexeme.kind]) (produce_end_run rfl) (by rw [h.queued]; rfl)
  refine .next hstep rfl ?_ (.done rfl rfl)
  rw [h.tokensLeft_eq, tokensLeft]
  simp

/-- A blank is passed over. -/
theorem IsFresh.delivers_blank {lx : Lexer} (h : lx.IsFresh) {rest : List Char}
    {tokens : List Token} (hrest : lx.cursor.rest = ' ' :: rest)
    (hfirst : ∀ c ∈ rest.head?, Cursor.isSpacing c = false)
    (hdelivers : Delivers { lx with cursor := lx.cursor.advance 1 } tokens) :
    Delivers lx tokens := by
  have hrest' : (lx.cursor.advance 1).rest = rest := by rw [Cursor.rest_advance, hrest]; rfl
  have hblank : lx.Suits (.whitespace " ") := .inr (by simp [Lexeme.text])
  obtain ⟨position, offset, hread⟩ := (readsFirst_blank hfirst).readTokenWith_eq
    lx.inner h hblank (by simp [Lexeme.text]) hrest
  cases hdelivers with
  | done hended hqueued => exact absurd (h.ended.symm.trans hended) (by simp)
  | next hstep hlevels hless hlater =>
    -- the blank uses up one character, and the step one of the rounds
    have hleft : lx.cursor.left = (lx.cursor.advance 1).left + 1 := by
      rw [Cursor.left_eq_length, Cursor.left_eq_length, hrest, hrest', List.length_cons]
    refine .next ?_ hlevels ?_ hlater
    · rw [next?, hleft, nextWith_blank _ h.queued h.ended hread rfl]
      exact hstep
    · rw [(h.advance 1).tokensLeft_eq] at hless
      rw [h.tokensLeft_eq, hrest, List.length_cons]
      simp only [hrest'] at hless
      omega

/-- A lexeme is delivered with the next number, and then what stands behind it. -/
theorem IsFresh.exists_delivers_cons {lx : Lexer} (h : lx.IsFresh) {l : Lexeme} {rest : List Char}
    {tokens : List Token} (hrest : lx.cursor.rest = l.text.toList ++ rest)
    (hfirst : ReadsFirst l (l.text.toList ++ rest)) (hsuits : lx.Suits l)
    (htext : l.text.toList ≠ []) (htrivia : l.isTrivia = false) (hend : l.kind ≠ .endOfInput)
    (hdelivers : Delivers { lx with
      cursor := lx.cursor.advance l.text.toList.length, queued := [], index := lx.index + 1 }
        tokens) :
    ∃ position offset, Delivers lx (.mk l position offset lx.index :: tokens) := by
  obtain ⟨position, offset, hread⟩ := hfirst.readTokenWith_eq lx.inner h hsuits htext hrest
  have hready' := h.advance l.text.toList.length
  have hkind : (Token.mk l position offset 0).kind ≠ .whitespace := by
    intro hkind
    have : l.kind = .whitespace := hkind
    simp [Lexeme.isTrivia, this] at htrivia
  have hnotEnd : (Token.mk l position offset 0).isEnd = false := by
    simpa [Token.isEnd, Token.kind, Token.lexeme] using hend
  have hstep : next? lx = _ := nextWith_produced _ h.queued h.ended
    hread hkind (produce_run hready'.rules hready'.extensions hnotEnd) (by rw [h.queued]; rfl)
  have hlater : IsFresh { lx with
      cursor := lx.cursor.advance l.text.toList.length, queued := [], index := lx.index + 1 } :=
    ⟨h.rules, h.extensions, rfl, h.ended⟩
  have hrest' : (lx.cursor.advance l.text.toList.length).rest = rest := by
    rw [Cursor.rest_advance, hrest, List.drop_left]
  refine ⟨position, offset, .next hstep rfl ?_ hdelivers⟩
  have hpos := List.length_pos_iff.mpr htext
  rw [h.tokensLeft_eq, hrest, List.length_append, hlater.tokensLeft_eq]
  simp only [hrest']
  omega

/-- **Tokens of a text.** A lexer without rules and extensions in front of characters that consist
of some lexemes delivers them and the end of the text, numbered one after the other. -/
theorem Lexes.exists_delivers {cs : List Char} {ls : List Lexeme} (h : Lexes cs ls) {lx : Lexer}
    (hready : lx.IsFresh) (hsuits : ∀ l ∈ ls, lx.Suits l) (hrest : lx.cursor.rest = cs) :
    ∃ tokens, Delivers lx tokens ∧ tokens.map Token.lexeme = ls ++ [.endOfInput] ∧
      tokens.map Token.index = List.range' lx.index (ls.length + 1) := by
  induction h generalizing lx with
  | nil => exact ⟨_, hready.delivers_end hrest, rfl, rfl⟩
  | @blank rest ls hfirst h ih =>
    have hrest' : (lx.cursor.advance 1).rest = rest := by rw [Cursor.rest_advance, hrest]; rfl
    obtain ⟨tokens, hdelivers, hall⟩ := ih (hready.advance 1) hsuits hrest'
    exact ⟨tokens, hready.delivers_blank hrest hfirst hdelivers, hall⟩
  | @cons l rest ls hfirst htext htrivia hend h ih =>
    obtain ⟨hsuitsFirst, hsuits⟩ := List.forall_mem_cons.mp hsuits
    have hrest' : (lx.cursor.advance l.text.toList.length).rest = rest := by
      rw [Cursor.rest_advance, hrest, List.drop_left]
    have hlater : IsFresh { lx with
        cursor := lx.cursor.advance l.text.toList.length, queued := [], index := lx.index + 1 } :=
      ⟨hready.rules, hready.extensions, rfl, hready.ended⟩
    obtain ⟨tokens, hdelivers, hlexemes, hindices⟩ := ih hlater hsuits hrest'
    obtain ⟨position, offset, hall⟩ :=
      hready.exists_delivers_cons hrest hfirst hsuitsFirst htext htrivia hend hdelivers
    refine ⟨_, hall, ?_, ?_⟩
    · rw [List.map_cons, hlexemes]
      rfl
    · rw [List.map_cons, hindices]
      rfl

/-! ## A window on the text -/

theorem Lexes.solid_of_mem {cs : List Char} {ls : List Lexeme} (h : Lexes cs ls) :
    ∀ l ∈ ls, l.isTrivia = false ∧ l.kind ≠ .endOfInput := by
  induction h with
  | nil => simp
  | blank hfirst h ih => exact ih
  | cons hfirst htext htrivia hend h ih =>
    intro l hl
    rcases List.mem_cons.mp hl with rfl | hl
    · exact ⟨htrivia, hend⟩
    · exact ih l hl

/-- A window on characters that consist of some lexemes shows these lexemes and the end, each with a
greater number than the one before. -/
theorem Lexes.exists_ofSource {cs : List Char} {ls : List Lexeme} (h : Lexes cs ls) {lx : Lexer}
    (hready : lx.IsFresh) (hsuits : ∀ l ∈ ls, lx.Suits l) (hrest : lx.cursor.rest = cs)
    (lookahead : Nat) :
    ∃ w tokens, Window.ofSource lx lookahead = .ok w ∧ w.Shows tokens ∧
      tokens.map Token.lexeme = ls ++ [.endOfInput] ∧
      (tokens.map Token.index).Pairwise (· < ·) := by
  obtain ⟨tokens, hdelivers, hlexemes, hindices⟩ := h.exists_delivers hready hsuits hrest
  obtain ⟨body, last, rfl, hbody, hlast⟩ := List.map_eq_append_iff.mp hlexemes
  obtain ⟨t, none, rfl, ht, hnone⟩ := List.map_eq_cons_iff.mp hlast
  obtain rfl := List.map_eq_nil_iff.mp hnone
  have hsolid : ∀ t ∈ body, t.lexeme.isTrivia = false ∧ t.lexeme.kind ≠ .endOfInput :=
    fun t ht ↦ h.solid_of_mem t.lexeme (hbody ▸ List.mem_map_of_mem ht)
  have hclosed : Closed (body ++ [t]) := by
    refine ⟨body, t, rfl, by simp [Token.isEnd, Token.kind, ht, Lexeme.kind], fun t ht ↦ ?_⟩
    simpa [Token.isEnd, Token.kind] using (hsolid t ht).2
  have hfilter : (body ++ [t]).filter Window.isSignificant = body ++ [t] := by
    refine List.filter_eq_self.mpr fun u hu ↦ ?_
    rcases List.mem_append.mp hu with hu | hu
    · simpa [Window.isSignificant] using (hsolid u hu).1
    · obtain rfl : u = t := by simpa using hu
      simp [Window.isSignificant, Lexeme.isTrivia, ht, Lexeme.kind]
  obtain ⟨w, hw, hshows, -⟩ := Window.exists_ofSource_shows hdelivers.supplies hclosed lookahead
  exact ⟨w, body ++ [t], hw, hfilter ▸ hshows, hlexemes, hindices ▸ List.pairwise_lt_range'⟩

end ScriptFront.Lexer
