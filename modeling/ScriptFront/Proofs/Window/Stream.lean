import ScriptFront.Proofs.Computation
import ScriptFront.Window.Source

/-!
# A window is a cursor in a list of tokens

What a window holds depends on how its source delivers tokens, on how far it may look ahead, and on
when it last forgot the tokens behind it. None of this is visible. `Window.Streams` says which
tokens are still to come, whether they are held or pending in the source, and `Window.Shows` says
which of them a parser will see, blanks and comments being left out. Every operation is then
described by what it does to these two lists.

A source may deliver in batches of any sizes. What is assumed of it is a *delivery*: a relation
between sources and the tokens still to come from them, such that asking for more yields a first
part of them and keeps the relation for the rest.
-/

namespace ScriptFront

variable {σ : Type} [TokenSupply σ]

/-! ## Sources -/

/-- A relation between sources and the tokens still to come from them, which asking for more
keeps. -/
structure IsDelivery (R : σ → List Token → Prop) : Prop where
  /-- If tokens are to come, asking for some yields a first part of them. -/
  next : ∀ {source : σ} {tokens : List Token} {count : Nat}, R source tokens → tokens ≠ [] →
    0 < count → ∃ batch later source', TokenSupply.nextBatch count source = (.ok batch, source') ∧
      batch ≠ [] ∧ tokens = batch ++ later ∧ R source' later
  /-- The bound that the source states is one. -/
  bound : ∀ {source : σ} {tokens : List Token}, R source tokens →
    tokens.length ≤ TokenSupply.tokensLeft source

/-- The source delivers exactly these tokens, however they are asked for. -/
def Supplies (source : σ) (tokens : List Token) : Prop := ∃ R, IsDelivery R ∧ R source tokens

theorem Supplies.next {source : σ} {tokens : List Token} {count : Nat}
    (h : Supplies source tokens) (hne : tokens ≠ []) (hcount : 0 < count) :
    ∃ batch later source', TokenSupply.nextBatch count source = (.ok batch, source') ∧
      batch ≠ [] ∧ tokens = batch ++ later ∧ Supplies source' later := by
  obtain ⟨R, hR, hsource⟩ := h
  obtain ⟨batch, later, source', hbatch, hnonempty, hsplit, hlater⟩ := hR.next hsource hne hcount
  exact ⟨batch, later, source', hbatch, hnonempty, hsplit, R, hR, hlater⟩

theorem Supplies.length_le {source : σ} {tokens : List Token} (h : Supplies source tokens) :
    tokens.length ≤ TokenSupply.tokensLeft source := by
  obtain ⟨R, hR, hsource⟩ := h
  exact hR.bound hsource

/-! ## Lists that end in the end token -/

/-- The last token is the end of the text, and no other is. -/
def Closed (tokens : List Token) : Prop :=
  ∃ body last, tokens = body ++ [last] ∧ last.isEnd = true ∧ ∀ t ∈ body, t.isEnd = false

theorem Closed.ne_nil {tokens : List Token} (h : Closed tokens) : tokens ≠ [] := by
  obtain ⟨body, last, rfl, -, -⟩ := h
  simp

theorem closed_singleton {t : Token} (h : t.isEnd = true) : Closed [t] := ⟨[], t, rfl, h, by simp⟩

theorem Closed.cons {t : Token} {tokens : List Token} (ht : t.isEnd = false)
    (h : Closed tokens) : Closed (t :: tokens) := by
  obtain ⟨body, last, rfl, hlast, hbody⟩ := h
  exact ⟨t :: body, last, rfl, hlast, by simpa [ht] using hbody⟩

/-- The first token is the end of the text exactly when it is the only one. -/
theorem closed_cons_iff {t : Token} {tokens : List Token} :
    Closed (t :: tokens) ↔
      t.isEnd = true ∧ tokens = [] ∨ t.isEnd = false ∧ Closed tokens := by
  constructor
  · rintro ⟨body, last, hsplit, hlast, hbody⟩
    cases body with
    | nil =>
      obtain ⟨rfl, rfl⟩ : t = last ∧ tokens = [] := by simpa using hsplit
      exact .inl ⟨hlast, rfl⟩
    | cons b body =>
      obtain ⟨rfl, rfl⟩ : t = b ∧ tokens = body ++ [last] := by simpa using hsplit
      exact .inr ⟨hbody t (by simp), body, last, rfl, hlast, fun x hx ↦ hbody x (by simp [hx])⟩
  · rintro (⟨ht, rfl⟩ | ⟨ht, h⟩)
    · exact closed_singleton ht
    · exact h.cons ht

/-- If a first part holds the end of the text, nothing follows it; otherwise something does. -/
theorem Closed.append_cases {front back : List Token} (h : Closed (front ++ back)) :
    front.any Token.isEnd = true ∧ back = [] ∨ front.any Token.isEnd = false ∧ Closed back := by
  induction front with
  | nil => exact .inr ⟨rfl, h⟩
  | cons t front ih =>
    rcases closed_cons_iff.mp h with ⟨ht, hnil⟩ | ⟨ht, hrest⟩
    · exact .inl ⟨by simp [ht], (List.append_eq_nil_iff.mp hnil).2⟩
    · simpa [ht] using ih hrest

namespace Window

theorem terminated_of_closed {tokens : List Token} (h : Closed tokens) :
    terminated tokens = tokens := by
  obtain ⟨body, last, rfl, hlast, -⟩ := h
  simp [terminated, hlast]

/-! ## The tokens to come -/

/-- The tokens that the window does not hold yet. -/
def Pending (w : Window σ) (later : List Token) : Prop :=
  if w.exhausted then later = []
  else later ≠ [] ∧ ∃ source, w.source = some source ∧ Supplies source later

/-- The tokens to come are those held and those pending; they end in the end of the text. -/
structure Streams (w : Window σ) (tokens : List Token) : Prop where
  /-- A window is never made with less sight. -/
  sight : minLookahead ≤ w.lookahead
  /-- What is held comes first. -/
  split : ∃ later, tokens = w.ahead ++ later ∧ w.Pending later
  /-- The last token is the end of the text. -/
  closed : Closed tokens

variable {w : Window σ} {tokens : List Token}

theorem Streams.lookahead_pos (h : w.Streams tokens) : 0 < w.lookahead :=
  Nat.lt_of_lt_of_le (by decide) h.sight

theorem Streams.length_le_tokensLeft (h : w.Streams tokens) : tokens.length ≤ w.tokensLeft := by
  obtain ⟨later, rfl, hlater⟩ := h.split
  rw [Pending] at hlater
  rw [List.length_append, tokensLeft]
  split at hlater
  · next hex => simp [hex, hlater]
  · next hex =>
    obtain ⟨-, source, hsource, hsupplies⟩ := hlater
    have := hsupplies.length_le
    simp only [hex, hsource, Option.map_some, Option.getD_some]
    simp
    omega

/-- Pulling holds more of the tokens to come, if there are any, as the source delivers them, and
changes nothing else. -/
theorem Streams.pull (h : w.Streams tokens) {count : Nat} (hcount : 0 < count) :
    ∃ w', Window.pull count w = .ok () w' ∧ w'.Streams tokens ∧ w'.passed = w.passed ∧
      w'.lookahead = w.lookahead ∧
      ∃ more, w'.ahead = w.ahead ++ more ∧ (more = [] → w.ahead = tokens) ∧
        (w' = w ∨ ∃ source source', w.source = some source ∧
          TokenSupply.nextBatch count source = (.ok more, source') ∧ w'.source = some source') := by
  obtain ⟨later, hsplit, hlater⟩ := h.split
  rw [Pending] at hlater
  unfold Window.pull
  by_cases hex : w.exhausted = true
  · rw [if_pos hex] at hlater ⊢
    subst hlater
    exact ⟨w, rfl, h, rfl, rfl, [], by simp, by simp [hsplit], .inl rfl⟩
  · rw [if_neg hex] at hlater ⊢
    obtain ⟨hne, source, hsource, hsupplies⟩ := hlater
    obtain ⟨batch, rest, source', hbatch, hbne, rfl, hrest⟩ := hsupplies.next hne hcount
    have hempty : batch.isEmpty = false := by simpa using hbne
    have hclosed : Closed (w.ahead ++ batch ++ rest) := by
      rw [List.append_assoc, ← hsplit]
      exact h.closed
    have hheld : w.ahead.any Token.isEnd = false := by
      rcases (hsplit ▸ h.closed).append_cases with ⟨-, hnil⟩ | ⟨hno, -⟩
      · simp [hbne] at hnil
      · exact hno
    simp only [hsource, hbatch, hempty, Bool.false_or]
    refine ⟨_, rfl, ⟨h.sight, ?_, h.closed⟩, rfl, rfl, ?_⟩
    · -- the batch holds the end of the text exactly when it is the last one
      rcases hclosed.append_cases with ⟨hany, rfl⟩ | ⟨hany, hrestClosed⟩
      · have hend : batch.any Token.isEnd = true := by simpa [hheld] using hany
        rw [List.append_nil] at hclosed
        refine ⟨[], ?_, by simp [Pending, hend]⟩
        simp [hend, terminated_of_closed hclosed, hsplit]
      · have hend : batch.any Token.isEnd = false := by simpa [hheld] using hany
        refine ⟨rest, ?_, ?_⟩
        · simp [hend, hsplit]
        · simp only [Pending, hend, Bool.false_eq_true, if_false]
          exact ⟨hrestClosed.ne_nil, source', rfl, hrest⟩
    · refine ⟨batch, ?_, by simp [hbne], .inr ⟨source, source', rfl, hbatch, rfl⟩⟩
      by_cases hend : batch.any Token.isEnd = true
      · rcases hclosed.append_cases with ⟨-, rfl⟩ | ⟨hany, -⟩
        · rw [List.append_nil] at hclosed
          simp [hend, terminated_of_closed hclosed]
        · simp [hheld, hend] at hany
      · simp [hend]

/-! ## Moving over tokens as they are -/

theorem current_eq {t : Token} (h : w.Streams (t :: tokens)) (hheld : w.ahead ≠ []) :
    w.current = t := by
  obtain ⟨later, hsplit, -⟩ := h.split
  obtain ⟨first, ahead, hahead⟩ := List.exists_cons_of_ne_nil hheld
  rw [hahead, List.cons_append, List.cons.injEq] at hsplit
  rw [current, hahead, hsplit.1]
  rfl

/-- A window that holds a token can be made to hold the one after it, if there is one. -/
theorem Streams.hold_one {t : Token} (h : w.Streams (t :: tokens)) (hheld : w.ahead ≠ []) :
    ∃ w', hold 1 w = .ok () w' ∧ w'.Streams (t :: tokens) ∧ w'.lookahead = w.lookahead ∧
      ∃ ahead, w'.ahead = t :: ahead ∧ (ahead = [] → tokens = []) := by
  obtain ⟨later, hsplit, hlater⟩ := h.split
  obtain ⟨first, ahead, hahead⟩ := List.exists_cons_of_ne_nil hheld
  have hfirst : first = t := by
    rw [hahead, List.cons_append, List.cons.injEq] at hsplit
    exact hsplit.1.symm
  unfold hold
  by_cases hnext : ahead = []
  · subst hnext
    rw [if_pos (by simp [hahead])]
    obtain ⟨w', hpull, hstreams, -, hlook, more, hmore, hall, -⟩ := h.pull h.lookahead_pos
    refine ⟨w', hpull, hstreams, hlook, more, by rw [hmore, hahead, hfirst]; rfl, ?_⟩
    intro hnil
    have hheldAll := hall hnil
    rw [hahead, List.cons.injEq] at hheldAll
    exact hheldAll.2.symm
  · rw [if_neg (by simp [hahead, hnext])]
    exact ⟨w, rfl, h, rfl, ahead, by rw [hahead, hfirst], fun hnil ↦ absurd hnil hnext⟩

/-- A step moves to the next token to come. -/
theorem Streams.step {t : Token} (h : w.Streams (t :: tokens)) (hheld : w.ahead ≠ [])
    (hne : tokens ≠ []) :
    ∃ w', Window.step w = .ok () w' ∧ w'.Streams tokens ∧ w'.ahead ≠ [] ∧
      w'.lookahead = w.lookahead := by
  obtain ⟨w', hhold, hstreams, hlook, ahead, hahead, hlast⟩ := h.hold_one hheld
  obtain ⟨next, rest, rfl⟩ := List.exists_cons_of_ne_nil fun hnil ↦ hne (hlast hnil)
  unfold Window.step
  simp only [hhold, hahead]
  refine ⟨_, rfl, ⟨hlook ▸ h.sight, ?_, ?_⟩, by simp, hlook⟩
  · obtain ⟨later, hsplit, hlater⟩ := hstreams.split
    rw [hahead] at hsplit
    exact ⟨later, by simpa using hsplit, hlater⟩
  · rcases closed_cons_iff.mp h.closed with ⟨-, hnil⟩ | ⟨-, hclosed⟩
    · exact absurd hnil hne
    · exact hclosed

theorem not_isPassedOver_of_isEnd {t : Token} (passNewLine : Bool) (h : t.isEnd = true) :
    isPassedOver passNewLine t = false := by
  have hkind : t.lexeme.kind = .endOfInput := by simpa [Token.isEnd, Token.kind] using h
  simp [isPassedOver, Lexeme.isTrivia, Token.kind, hkind]

/-- What is passed over never reaches the end of the text. -/
theorem closed_dropWhile {passNewLine : Bool} (h : Closed tokens) :
    Closed (tokens.dropWhile (isPassedOver passNewLine)) := by
  induction tokens with
  | nil => exact h
  | cons t tokens ih =>
    rw [List.dropWhile_cons]
    split
    · next hpassed =>
      rcases closed_cons_iff.mp h with ⟨hend, -⟩ | ⟨-, hclosed⟩
      · rw [not_isPassedOver_of_isEnd passNewLine hend] at hpassed
        exact absurd hpassed (by simp)
      · exact ih hclosed
    · exact h

theorem Streams.skipWithin {passNewLine : Bool} {fuel : Nat} (h : w.Streams tokens)
    (hheld : w.ahead ≠ []) (hfuel : tokens.length ≤ fuel) :
    ∃ w', Window.skipWithin passNewLine fuel w = .ok () w' ∧
      w'.Streams (tokens.dropWhile (isPassedOver passNewLine)) ∧ w'.ahead ≠ [] ∧
      w'.lookahead = w.lookahead := by
  induction fuel generalizing w tokens with
  | zero =>
    have hnil : tokens = [] := List.length_eq_zero_iff.mp (by omega)
    exact absurd hnil h.closed.ne_nil
  | succ fuel ih =>
    obtain ⟨t, tokens, rfl⟩ := List.exists_cons_of_ne_nil h.closed.ne_nil
    simp only [Window.skipWithin, get_bind_run, ite_run, current_eq h hheld]
    rw [List.dropWhile_cons]
    by_cases hpassed : isPassedOver passNewLine t = true
    · rw [if_pos hpassed, if_pos hpassed]
      have hne : tokens ≠ [] := by
        rcases closed_cons_iff.mp h.closed with ⟨hend, -⟩ | ⟨-, hclosed⟩
        · rw [not_isPassedOver_of_isEnd passNewLine hend] at hpassed
          exact absurd hpassed (by simp)
        · exact hclosed.ne_nil
      obtain ⟨w₁, hstep, hstreams, hheld₁, hlook₁⟩ := h.step hheld hne
      obtain ⟨w₂, hskip, hstreams₂, hheld₂, hlook₂⟩ :=
        ih hstreams hheld₁ (by simpa using hfuel)
      exact ⟨w₂, by rw [bind_eq_of_ok hstep, hskip], hstreams₂, hheld₂, hlook₂.trans hlook₁⟩
    · rw [if_neg hpassed, if_neg hpassed]
      exact ⟨w, rfl, h, hheld, rfl⟩

theorem Streams.skip (passNewLine : Bool) (h : w.Streams tokens) (hheld : w.ahead ≠ []) :
    ∃ w', Window.skip passNewLine w = .ok () w' ∧
      w'.Streams (tokens.dropWhile (isPassedOver passNewLine)) ∧ w'.ahead ≠ [] ∧
      w'.lookahead = w.lookahead := by
  unfold Window.skip
  split
  · exact h.skipWithin hheld h.length_le_tokensLeft
  · next hpassed =>
    obtain ⟨t, tokens, rfl⟩ := List.exists_cons_of_ne_nil h.closed.ne_nil
    rw [current_eq h hheld] at hpassed
    rw [List.dropWhile_cons, if_neg hpassed]
    exact ⟨w, rfl, h, hheld, rfl⟩

/-- Forgetting passed tokens is not visible. -/
theorem Streams.forget (rounds : Nat) (h : w.Streams tokens) (hheld : w.ahead ≠ []) :
    ∃ w', Window.forget rounds w = .ok () w' ∧ w'.Streams tokens ∧ w'.ahead ≠ [] ∧
      w'.lookahead = w.lookahead := by
  induction rounds generalizing w with
  | zero => exact ⟨w, rfl, h, hheld, rfl⟩
  | succ rounds ih =>
    have hless : ({ w with passed := w.passed - w.lookahead } : Window σ).Streams tokens :=
      ⟨h.sight, h.split, h.closed⟩
    obtain ⟨w₁, hpull, hstreams, -, hlook, more, hmore, -⟩ := hless.pull h.lookahead_pos
    obtain ⟨w₂, hforget, hstreams₂, hheld₂, hlook₂⟩ := ih hstreams (by simp [hmore, hheld])
    refine ⟨w₂, ?_, hstreams₂, hheld₂, hlook₂.trans hlook⟩
    simp only [Window.forget, modify_bind_run, get_bind_run]
    rw [bind_eq_of_ok hpull, hforget]

/-! ## What a parser sees -/

/-- A token that is neither blank nor a comment. -/
def isSignificant (t : Token) : Bool := !t.lexeme.isTrivia

/-- A line break. -/
def isNewLine (t : Token) : Bool := t.kind == .newLine

/-- The significant tokens to come, the first of which is current. -/
structure Shows (w : Window σ) (tokens : List Token) : Prop where
  /-- They are the tokens to come less blanks and comments. -/
  streams : ∃ raw, w.Streams raw ∧ raw.filter isSignificant = tokens
  /-- The current token is held. -/
  held : w.ahead ≠ []
  /-- The current token is one of them. -/
  current_significant : isSignificant w.current = true

theorem isSignificant_of_isEnd {t : Token} (h : t.isEnd = true) : isSignificant t = true := by
  have hkind : t.lexeme.kind = .endOfInput := by simpa [Token.isEnd, Token.kind] using h
  simp [isSignificant, Lexeme.isTrivia, hkind]

theorem closed_filter (h : Closed tokens) : Closed (tokens.filter isSignificant) := by
  induction tokens with
  | nil => exact h
  | cons t tokens ih =>
    rcases closed_cons_iff.mp h with ⟨hend, rfl⟩ | ⟨hend, hclosed⟩
    · rw [List.filter_cons_of_pos (isSignificant_of_isEnd hend)]
      exact closed_singleton hend
    · by_cases hsig : isSignificant t = true
      · rw [List.filter_cons_of_pos hsig]
        exact (ih hclosed).cons hend
      · rw [List.filter_cons_of_neg hsig]
        exact ih hclosed

/-- Passing over blanks, comments and perhaps line breaks, seen among the significant tokens. -/
theorem filter_dropWhile_isPassedOver (passNewLine : Bool) (raw : List Token) :
    (raw.dropWhile (isPassedOver passNewLine)).filter isSignificant =
      (raw.filter isSignificant).dropWhile fun t ↦ passNewLine && isNewLine t := by
  induction raw with
  | nil => rfl
  | cons t raw ih =>
    by_cases hsig : isSignificant t = true
    · have htrivia : t.lexeme.isTrivia = false := by simpa [isSignificant] using hsig
      have hpassed : isPassedOver passNewLine t = (passNewLine && isNewLine t) := by
        simp [isPassedOver, htrivia, isNewLine]
      rw [List.filter_cons_of_pos hsig, List.dropWhile_cons, List.dropWhile_cons, hpassed]
      split
      · exact ih
      · rw [List.filter_cons_of_pos hsig]
    · have htrivia : t.lexeme.isTrivia = true := by simpa [isSignificant] using hsig
      rw [List.filter_cons_of_neg hsig, List.dropWhile_cons,
        if_pos (by simp [isPassedOver, htrivia]), ih]

theorem dropWhile_false (l : List Token) : (l.dropWhile fun _ ↦ false) = l := by
  cases l <;> rfl

/-- Behind what is passed over stands a significant token. -/
theorem Streams.shows_dropWhile {passNewLine : Bool} {raw : List Token}
    (h : w.Streams (raw.dropWhile (isPassedOver passNewLine))) (hheld : w.ahead ≠ []) :
    w.Shows ((raw.filter isSignificant).dropWhile fun t ↦ passNewLine && isNewLine t) := by
  refine ⟨⟨_, h, filter_dropWhile_isPassedOver passNewLine raw⟩, hheld, ?_⟩
  obtain ⟨t, rest, hcons⟩ := List.exists_cons_of_ne_nil h.closed.ne_nil
  rw [hcons] at h
  rw [current_eq h hheld]
  have hnot : isPassedOver passNewLine t = false := by
    have := List.head?_dropWhile_not (isPassedOver passNewLine) raw
    rwa [hcons] at this
  have htrivia : t.lexeme.isTrivia = false := (Bool.or_eq_false_iff.mp hnot).1
  simp [isSignificant, htrivia]

theorem Shows.closed (h : w.Shows tokens) : Closed tokens := by
  obtain ⟨raw, hstreams, rfl⟩ := h.streams
  exact closed_filter hstreams.closed

theorem Shows.length_le_tokensLeft (h : w.Shows tokens) : tokens.length ≤ w.tokensLeft := by
  obtain ⟨raw, hstreams, rfl⟩ := h.streams
  exact Nat.le_trans (List.length_filter_le _ _) hstreams.length_le_tokensLeft

/-- The tokens to come begin with the current one. -/
theorem Shows.streams_cons {t : Token} (h : w.Shows (t :: tokens)) :
    ∃ raw, w.Streams (t :: raw) ∧ raw.filter isSignificant = tokens := by
  obtain ⟨raw, hstreams, hfilter⟩ := h.streams
  obtain ⟨first, rest, rfl⟩ := List.exists_cons_of_ne_nil hstreams.closed.ne_nil
  have hcurrent := current_eq hstreams h.held
  have hsig := h.current_significant
  rw [hcurrent] at hsig
  rw [List.filter_cons_of_pos hsig, List.cons.injEq] at hfilter
  obtain ⟨rfl, rfl⟩ := hfilter
  exact ⟨rest, hstreams, rfl⟩

theorem Shows.current_eq {t : Token} (h : w.Shows (t :: tokens)) : w.current = t := by
  obtain ⟨raw, hstreams, -⟩ := h.streams_cons
  exact Window.current_eq hstreams h.held

theorem Shows.isEnd_iff {t : Token} (h : w.Shows (t :: tokens)) :
    t.isEnd = true ↔ tokens = [] := by
  rcases closed_cons_iff.mp h.closed with ⟨hend, hnil⟩ | ⟨hend, hclosed⟩
  · simp [hend, hnil]
  · simp [hend, hclosed.ne_nil]

theorem Shows.forgetPassed (h : w.Shows tokens) :
    ∃ w', Window.forgetPassed w = .ok () w' ∧ w'.Shows tokens ∧ w'.lookahead = w.lookahead := by
  obtain ⟨t, tokens, rfl⟩ := List.exists_cons_of_ne_nil h.closed.ne_nil
  obtain ⟨raw, hstreams, hfilter⟩ := h.streams_cons
  obtain ⟨w', hforget, hstreams', hheld, hlook⟩ :=
    hstreams.forget (w.passed / w.lookahead) h.held
  have hsig : isSignificant t = true := h.current_eq ▸ h.current_significant
  refine ⟨w', hforget, ⟨⟨_, hstreams', ?_⟩, hheld, ?_⟩, hlook⟩
  · rw [List.filter_cons_of_pos hsig, hfilter]
  · rwa [Window.current_eq hstreams' hheld]

/-- The first of several moves passes a token that is not the end, and the line breaks behind it if
asked to. -/
theorem Shows.advanceBy_succ (passNewLine : Bool) (count : Nat) {t : Token}
    (h : w.Shows (t :: tokens)) (hne : tokens ≠ []) :
    ∃ w', advanceBy passNewLine (count + 1) w = advanceBy passNewLine count w' ∧
      w'.Shows (tokens.dropWhile fun t ↦ passNewLine && isNewLine t) ∧
      w'.lookahead = w.lookahead := by
  obtain ⟨raw, hstreams, rfl⟩ := h.streams_cons
  have hraw : raw ≠ [] := by rintro rfl; exact hne rfl
  obtain ⟨w₁, hstep, hstreams₁, hheld₁, hlook₁⟩ := hstreams.step h.held hraw
  obtain ⟨w₂, hskip, hstreams₂, hheld₂, hlook₂⟩ := hstreams₁.skip passNewLine hheld₁
  refine ⟨w₂, ?_, hstreams₂.shows_dropWhile hheld₂, hlook₂.trans hlook₁⟩
  have hended : w.isEnded = false := by
    have hkind := mt h.isEnd_iff.mp hne
    simpa [isEnded, kind, h.current_eq, Token.isEnd] using hkind
  simp only [advanceBy, get_bind_run, hended, Bool.not_false, if_true]
  rw [bind_eq_of_ok hstep, bind_eq_of_ok hskip]

theorem Shows.advance_one (passNewLine : Bool) {t : Token} (h : w.Shows (t :: tokens))
    (hne : tokens ≠ []) :
    ∃ w', advance 1 passNewLine w = .ok () w' ∧
      w'.Shows (tokens.dropWhile fun t ↦ passNewLine && isNewLine t) ∧
      w'.lookahead = w.lookahead := by
  obtain ⟨w₁, hby, hshows, hlook₁⟩ := h.advanceBy_succ passNewLine 0 hne
  obtain ⟨w₂, hforget, hshows₂, hlook₂⟩ := hshows.forgetPassed
  have hone : advanceBy passNewLine 1 w = .ok () w₁ := hby
  exact ⟨w₂, by rw [advance, bind_eq_of_ok hone, hforget], hshows₂, hlook₂.trans hlook₁⟩

/-- Moving over two tokens, neither of which is the end. -/
theorem Shows.advance_two {t next : Token} (h : w.Shows (t :: next :: tokens))
    (hne : tokens ≠ []) :
    ∃ w', advance 2 false w = .ok () w' ∧ w'.Shows tokens ∧ w'.lookahead = w.lookahead := by
  obtain ⟨w₁, hby₁, hshows₁, hlook₁⟩ := h.advanceBy_succ false 1 (List.cons_ne_nil _ _)
  simp only [Bool.false_and, dropWhile_false] at hshows₁
  obtain ⟨w₂, hby₂, hshows₂, hlook₂⟩ := hshows₁.advanceBy_succ false 0 hne
  simp only [Bool.false_and, dropWhile_false] at hshows₂
  obtain ⟨w₃, hforget, hshows₃, hlook₃⟩ := hshows₂.forgetPassed
  have htwo : advanceBy false 2 w = .ok () w₂ := hby₁.trans hby₂
  exact ⟨w₃, by rw [advance, bind_eq_of_ok htwo, hforget], hshows₃,
    hlook₃.trans (hlook₂.trans hlook₁)⟩

/-- Moving over a token that is not the end. -/
theorem Shows.advance_stay {t : Token} (h : w.Shows (t :: tokens)) (hne : tokens ≠ []) :
    ∃ w', advance 1 false w = .ok () w' ∧ w'.Shows tokens ∧ w'.lookahead = w.lookahead := by
  simpa [dropWhile_false] using h.advance_one false hne

/-- Moving over a token that is not the end and the line breaks behind it. -/
theorem Shows.advance_pass {t : Token} (h : w.Shows (t :: tokens)) (hne : tokens ≠ []) :
    ∃ w', advance 1 true w = .ok () w' ∧ w'.Shows (tokens.dropWhile isNewLine) ∧
      w'.lookahead = w.lookahead := by
  simpa using h.advance_one true hne

/-- Moving over line breaks. -/
theorem Shows.skipNewLines (h : w.Shows tokens) :
    ∃ w', Window.skipNewLines w = .ok () w' ∧ w'.Shows (tokens.dropWhile isNewLine) ∧
      w'.lookahead = w.lookahead := by
  obtain ⟨raw, hstreams, rfl⟩ := h.streams
  obtain ⟨w₁, hskip, hstreams₁, hheld₁, hlook₁⟩ := hstreams.skip true h.held
  obtain ⟨w₂, hforget, hshows, hlook₂⟩ := (hstreams₁.shows_dropWhile hheld₁).forgetPassed
  refine ⟨w₂, ?_, hshows, hlook₂.trans hlook₁⟩
  rw [Window.skipNewLines, bind_eq_of_ok hskip, hforget]

/-! ## Looking at the next token -/

theorem Streams.held_eq {front back : List Token} {t : Token}
    (h : w.Streams (front ++ t :: back)) (hheld : front.length < w.ahead.length) :
    w.held front.length = t := by
  obtain ⟨later, hsplit, -⟩ := h.split
  have hget := congrArg (fun l ↦ l[front.length]?) hsplit
  simp only [List.getElem?_append_right (Nat.le_refl front.length), Nat.sub_self,
    List.getElem?_cons_zero, List.getElem?_append_left hheld] at hget
  rw [held, List.getD_eq_getElem?_getD, ← hget]
  rfl

/-- The token after those held can be held too, if there is one. -/
theorem Streams.hold {n : Nat} (h : w.Streams tokens) (hn : n ≤ w.ahead.length)
    (hlength : n < tokens.length) :
    ∃ w', Window.hold n w = .ok () w' ∧ w'.Streams tokens ∧ w'.lookahead = w.lookahead ∧
      n < w'.ahead.length := by
  unfold Window.hold
  by_cases hdrop : w.ahead.drop n = []
  · rw [if_pos (by simp [hdrop])]
    obtain ⟨w', hpull, hstreams, -, hlook, more, hmore, hall, -⟩ := h.pull h.lookahead_pos
    refine ⟨w', hpull, hstreams, hlook, ?_⟩
    rw [List.drop_eq_nil_iff] at hdrop
    have hnonempty : more ≠ [] := by
      intro hnil
      rw [← hall hnil] at hlength
      exact absurd hdrop (Nat.not_le_of_lt hlength)
    rw [hmore, List.length_append]
    have := List.length_pos_iff.mpr hnonempty
    omega
  · rw [if_neg (by simpa using hdrop)]
    refine ⟨w, rfl, h, rfl, ?_⟩
    rw [List.drop_eq_nil_iff] at hdrop
    exact Nat.lt_of_not_le hdrop

/-- The place of the next significant token is found. The induction is on the blanks and comments
before it, each of which takes one round. -/
theorem Streams.reach_one {trivia front back : List Token} {t next : Token} {fuel : Nat}
    (h : w.Streams (front ++ t :: (trivia ++ next :: back))) (ht : t.isEnd = false)
    (htrivia : ∀ u ∈ trivia, isSignificant u = false) (hnext : isSignificant next = true)
    (hheld : front.length < w.ahead.length) (hfuel : trivia.length + 1 ≤ fuel) :
    ∃ w', reach false fuel 1 front.length w =
        .ok (front.length + 1 + trivia.length) w' ∧
      w'.Streams (front ++ t :: (trivia ++ next :: back)) ∧
      front.length + 1 + trivia.length < w'.ahead.length := by
  induction trivia generalizing front t w fuel with
  | nil =>
    obtain ⟨fuel, rfl⟩ := Nat.exists_eq_succ_of_ne_zero (Nat.ne_zero_of_lt hfuel)
    obtain ⟨w', hhold, hstreams, -, hheld'⟩ :=
      h.hold hheld (by simp only [List.length_append, List.length_cons]; omega)
    have hsplit : front ++ t :: ([] ++ next :: back) = (front ++ [t]) ++ next :: back := by simp
    have hplace : front.length + 1 = (front ++ [t]).length := by simp
    have heq : w'.held (front.length + 1) = next := by
      rw [hplace]
      exact (hsplit ▸ hstreams).held_eq (by simpa using hheld')
    have hpassed : isPassedOver false next = false := by
      simpa [isPassedOver, isSignificant] using hnext
    refine ⟨w', ?_, hstreams, hheld'⟩
    simp only [reach, get_bind_run, h.held_eq hheld, ht, Bool.false_eq_true, if_false]
    rw [bind_eq_of_ok hhold, get_bind_run, heq, hpassed]
    cases fuel <;> rfl
  | cons u trivia ih =>
    obtain ⟨fuel, rfl⟩ := Nat.exists_eq_succ_of_ne_zero (Nat.ne_zero_of_lt hfuel)
    obtain ⟨w', hhold, hstreams, -, hheld'⟩ :=
      h.hold hheld (by simp only [List.length_append, List.length_cons]; omega)
    have hsplit : front ++ t :: (u :: trivia ++ next :: back) =
        (front ++ [t]) ++ u :: (trivia ++ next :: back) := by simp
    have hplace : front.length + 1 = (front ++ [t]).length := by simp
    have hu : isSignificant u = false := htrivia u List.mem_cons_self
    have hend : u.isEnd = false := by
      rw [← Bool.not_eq_true]
      intro hend
      rw [isSignificant_of_isEnd hend] at hu
      exact absurd hu (by simp)
    have heq : w'.held (front.length + 1) = u := by
      rw [hplace]
      exact (hsplit ▸ hstreams).held_eq (by simpa using hheld')
    have hpassed : isPassedOver false u = true := by
      simpa [isPassedOver, isSignificant] using hu
    obtain ⟨w₂, hreach, hstreams₂, hheld₂⟩ := ih (hsplit ▸ hstreams) hend
      (fun v hv ↦ htrivia v (List.mem_cons_of_mem _ hv)) (by simpa using hheld')
      (Nat.le_of_succ_le_succ hfuel)
    have hcount : front.length + 1 + (u :: trivia).length =
        (front ++ [t]).length + 1 + trivia.length := by
      simp only [List.length_append, List.length_cons, List.length_nil]
      omega
    refine ⟨w₂, ?_, hsplit ▸ hstreams₂, hcount ▸ hheld₂⟩
    simp only [reach, get_bind_run, h.held_eq hheld, ht, Bool.false_eq_true, if_false]
    rw [bind_eq_of_ok hhold, get_bind_run, heq, hpassed, if_pos rfl, hcount, hplace, hreach]

/-- Looking at the token after the current one changes nothing that can be seen. -/
theorem Shows.peek_one {t next : Token} (h : w.Shows (t :: next :: tokens)) :
    ∃ w', peek 1 false w = .ok next w' ∧ w'.Shows (t :: next :: tokens) := by
  obtain ⟨raw, hstreams, hfilter⟩ := h.streams_cons
  obtain ⟨trivia, back, rfl, htrivia, hnext, hback⟩ := List.filter_eq_cons_iff.mp hfilter
  have ht : t.isEnd = false := by
    rw [← Bool.not_eq_true]
    intro hend
    exact absurd (h.isEnd_iff.mp hend) (by simp)
  have hheld : ([] : List Token).length < w.ahead.length := List.length_pos_iff.mpr h.held
  have hfuel : trivia.length + 1 ≤ w.tokensLeft := by
    have := hstreams.length_le_tokensLeft
    simp only [List.length_cons, List.length_append] at this
    omega
  obtain ⟨w', hreach, hstreams', hheld'⟩ := Streams.reach_one (show w.Streams
    ([] ++ t :: (trivia ++ next :: back)) from hstreams) ht (by simpa using htrivia)
    hnext hheld hfuel
  have hlocate : locate 1 false w = .ok (0 + 1 + trivia.length) w' := by
    have hsight := hstreams.lookahead_pos
    rw [locate, if_neg (by omega), if_neg (by decide)]
    exact hreach
  have hplace : 0 + 1 + trivia.length = (t :: trivia).length := by
    rw [List.length_cons]
    omega
  have hnextHeld : w'.held (0 + 1 + trivia.length) = next := by
    rw [hplace]
    exact Streams.held_eq (show w'.Streams (t :: trivia ++ next :: back) from hstreams')
      (hplace ▸ hheld')
  have hheldNow : w'.ahead ≠ [] :=
    List.ne_nil_of_length_pos (Nat.lt_of_le_of_lt (Nat.zero_le _) hheld')
  refine ⟨w', ?_, ⟨_, hstreams', ?_⟩, hheldNow, ?_⟩
  · rw [peek, bind_eq_of_ok hlocate, get_bind_run, hnextHeld]
    rfl
  · have hsig : isSignificant t = true := h.current_eq ▸ h.current_significant
    rw [List.nil_append, List.filter_cons_of_pos hsig, hfilter]
  · rw [Window.current_eq hstreams' hheldNow]
    exact h.current_eq ▸ h.current_significant

/-! ## New windows -/

/-- A window on a source has the tokens to come that the source delivers, from the first significant
one on. -/
theorem exists_ofSource_streams {source : σ} (h : Supplies source tokens) (hclosed : Closed tokens)
    (lookahead : Nat) :
    ∃ w, ofSource source lookahead = .ok w ∧
      w.Streams (tokens.dropWhile (isPassedOver false)) ∧ w.ahead ≠ [] ∧
      w.lookahead = max lookahead minLookahead := by
  have hsight : minLookahead ≤ max lookahead minLookahead := Nat.le_max_right _ _
  have hnew : (⟨0, [], max lookahead minLookahead, some source, false⟩ : Window σ).Streams tokens :=
    ⟨hsight, ⟨tokens, rfl, by simp [Pending, hclosed.ne_nil, h]⟩, hclosed⟩
  have hcount : 0 < 2 * max lookahead minLookahead := by
    have : 0 < minLookahead := by decide
    omega
  obtain ⟨w₁, hpull, hstreams₁, -, hlook₁, more, hmore, hall, -⟩ := hnew.pull hcount
  have hheld₁ : w₁.ahead ≠ [] := by
    rw [hmore]
    intro hnil
    exact hclosed.ne_nil (hall (by simpa using hnil)).symm
  obtain ⟨w₂, hskip, hstreams₂, hheld₂, hlook₂⟩ := hstreams₁.skip false hheld₁
  refine ⟨w₂, ?_, hstreams₂, hheld₂, hlook₂.trans hlook₁⟩
  rw [ofSource]
  simp only [bind_eq_of_ok hpull, hskip]

/-- A window on a source shows the significant tokens that the source delivers. -/
theorem exists_ofSource_shows {source : σ} (h : Supplies source tokens) (hclosed : Closed tokens)
    (lookahead : Nat) :
    ∃ w, ofSource source lookahead = .ok w ∧ w.Shows (tokens.filter isSignificant) ∧
      w.lookahead = max lookahead minLookahead := by
  obtain ⟨w, hsource, hstreams, hheld, hlook⟩ := exists_ofSource_streams h hclosed lookahead
  refine ⟨w, hsource, ?_, hlook⟩
  simpa [dropWhile_false] using hstreams.shows_dropWhile hheld

omit [TokenSupply σ] in
theorem ahead_ofTokens (tokens : List Token) (lookahead : Nat) :
    (ofTokens tokens lookahead : Window σ).ahead =
      (terminated tokens).dropWhile (isPassedOver false) := by
  have hsplit : (terminated tokens).takeWhile (isPassedOver false) ++
      (terminated tokens).dropWhile (isPassedOver false) = terminated tokens :=
    List.takeWhile_append_dropWhile
  exact (congrArg (List.drop _) hsplit.symm).trans List.drop_left

/-- A window on a list has the tokens of the list to come, from the first significant one on. -/
theorem ofTokens_streams (hclosed : Closed tokens) (lookahead : Nat) :
    (ofTokens tokens lookahead : Window σ).Streams (tokens.dropWhile (isPassedOver false)) ∧
      (ofTokens tokens lookahead : Window σ).ahead ≠ [] := by
  have hahead : (ofTokens tokens lookahead : Window σ).ahead =
      tokens.dropWhile (isPassedOver false) := by
    rw [ahead_ofTokens, terminated_of_closed hclosed]
  refine ⟨⟨Nat.le_max_right _ _, ⟨[], by rw [hahead, List.append_nil], by simp [Pending, ofTokens]⟩,
    closed_dropWhile hclosed⟩, ?_⟩
  rw [hahead]
  exact (closed_dropWhile hclosed).ne_nil

/-- A window on a list shows the significant tokens of the list. -/
theorem ofTokens_shows (hclosed : Closed tokens) (lookahead : Nat) :
    (ofTokens tokens lookahead : Window σ).Shows (tokens.filter isSignificant) := by
  obtain ⟨hstreams, hheld⟩ := ofTokens_streams (σ := σ) hclosed lookahead
  simpa [dropWhile_false] using hstreams.shows_dropWhile hheld

end Window

end ScriptFront
