import ScriptFront.Proofs.Lexer.Similar

/-!
# Lists of tokens that go on

A list of tokens that ends in the end of its text is compared with a list that goes on in its place.
What goes on, the *tail*, is the same for every comparison of a development; it begins with a line
break, or it is the end again, and then the two lists are similar throughout.

`Joins` says that the second list goes on where the first one ends. It survives moving over a token,
and moving over line breaks too unless the first list comes to its end by that: then the second
cursor may have moved on, and nothing is known of it but what has become of the first one.
-/

namespace ScriptFront

open Window (isNewLine)

/-- A token at which a statement ends wherever it stands: the end of the text or a line break. -/
def Token.IsStop (t : Token) : Prop := t.isEnd = true ∨ t.lexeme.IsLineBreak

theorem Token.isNewLine_of_isLineBreak {t : Token} (h : t.lexeme.IsLineBreak) :
    isNewLine t = true :=
  beq_iff_eq.mpr h.kind_eq

theorem Token.lexeme_eq_of_isEnd {t : Token} (h : t.isEnd = true) : t.lexeme = .endOfInput := by
  obtain ⟨l, position, offset, index⟩ := t
  cases l with
  | endOfInput => rfl
  | _ => cases h

theorem Window.isNewLine_of_isEnd {t : Token} (h : t.isEnd = true) : isNewLine t = false := by
  rw [isNewLine, Token.kind, t.lexeme_eq_of_isEnd h]
  rfl

/-- The rest of a list behind the place where another list ends. -/
structure IsTailOfTokens (tail : List Token) : Prop where
  /-- It begins with the end of the text or with a line break. -/
  stops : ∃ t rest, tail = t :: rest ∧ t.IsStop
  /-- Its line breaks are spelled like line breaks. -/
  breaks : ∀ t ∈ tail, isNewLine t = true → t.lexeme.IsLineBreak
  /-- The first word of its first line does not go on with a statement from before. -/
  calm : ∀ t ∈ (tail.dropWhile isNewLine).head?, t.is "else" = false

/-- The second list goes on with `tail` where the first one ends. -/
inductive Joins (tail : List Token) : List Token → List Token → Prop
  /-- The first list is at its end. -/
  | stop {e : Token} (he : e.isEnd = true) : Joins tail [e] tail
  /-- The line break before the end is the one that begins the tail. -/
  | last {n e m : Token} {rest : List Token} (hn : n.lexeme.IsLineBreak) (he : e.isEnd = true)
      (hm : m.lexeme.IsLineBreak) (htail : tail = m :: rest) : Joins tail [n, e] tail
  /-- Both lists have a token, and these are similar. -/
  | cons {t t' : Token} {l l' : List Token} (ht : t.Similar t') (hend : t.isEnd = false)
      (h : Joins tail l l') : Joins tail (t :: l) (t' :: l')

variable {tail rest l l' : List Token} {t t' e : Token}

/-! ## Joining lists -/

theorem Joins.append {front front' : List Token} (hfront : List.Forall₂ Token.Similar front front')
    (hend : ∀ t ∈ front, t.isEnd = false) (h : Joins tail l l') :
    Joins tail (front ++ l) (front' ++ l') := by
  induction hfront with
  | nil => exact h
  | cons ht _ ih =>
    rw [List.forall_mem_cons] at hend
    exact .cons ht hend.1 (ih hend.2)

/-- Similar lists go on with the end. -/
theorem exists_joins_of_forall₂ (h : List.Forall₂ Token.Similar l l') (hclosed : Closed l) :
    ∃ e, e.isEnd = true ∧ Joins [e] l l' := by
  induction h with
  | nil => exact absurd rfl hclosed.ne_nil
  | @cons t t' l l' ht hrest ih =>
    rcases closed_cons_iff.mp hclosed with ⟨hend, rfl⟩ | ⟨hend, hclosed⟩
    · cases hrest
      exact ⟨t', ht.isEnd_eq ▸ hend, .stop hend⟩
    · obtain ⟨e, he, hjoins⟩ := ih hclosed
      exact ⟨e, he, .cons ht hend hjoins⟩

/-- The end alone is a tail. -/
theorem isTailOfTokens_singleton (he : e.isEnd = true) : IsTailOfTokens [e] := by
  have hnot := Window.isNewLine_of_isEnd he
  refine ⟨⟨e, [], rfl, .inl he⟩, fun t ht hbreak ↦ ?_, ?_⟩
  · obtain rfl := List.mem_singleton.mp ht
    exact absurd (hbreak.symm.trans hnot) (by simp)
  rw [List.dropWhile_cons, if_neg (by simp [hnot])]
  intro t ht
  obtain rfl : e = t := Option.some.inj ht
  rw [Token.is, e.lexeme_eq_of_isEnd he]
  rfl

/-- Comments may be left out. -/
theorem Joins.filter (h : Joins tail l l') :
    Joins (tail.filter Window.isSignificant) (l.filter Window.isSignificant)
      (l'.filter Window.isSignificant) := by
  have hbreak {n : Token} (hn : n.lexeme.IsLineBreak) : Window.isSignificant n = true := by
    simp [Window.isSignificant, Lexeme.isTrivia, hn.kind_eq]
  induction h with
  | @stop e he =>
    rw [List.filter_cons_of_pos (Window.isSignificant_of_isEnd he)]
    exact .stop he
  | @last n e m rest hn he hm htail =>
    rw [List.filter_cons_of_pos (hbreak hn),
      List.filter_cons_of_pos (Window.isSignificant_of_isEnd he)]
    exact .last hn he hm (htail ▸ List.filter_cons_of_pos (hbreak hm))
  | @cons t t' l l' ht hend _ ih =>
    by_cases hsignificant : Window.isSignificant t = true
    · rw [List.filter_cons_of_pos hsignificant,
        List.filter_cons_of_pos (ht.isSignificant_eq ▸ hsignificant)]
      exact .cons ht hend ih
    · rw [List.filter_cons_of_neg hsignificant,
        List.filter_cons_of_neg (ht.isSignificant_eq ▸ hsignificant)]
      exact ih

/-! ## What two cursors have in common -/

/-- The first list is at its end. -/
def IsSpent (l : List Token) : Prop := ∃ e, e.isEnd = true ∧ l = [e]

/-- Both lists begin with a token that is neither the end nor a line break. -/
inductive JoinsSolid (tail : List Token) : List Token → List Token → Prop
  /-- The first tokens are similar. -/
  | intro {t t' : Token} {l l' : List Token} (ht : t.Similar t') (hstop : ¬ t.IsStop)
      (h : Joins tail l l') : JoinsSolid tail (t :: l) (t' :: l')

/-- The second list goes on where the first one ends, or the first one is spent and line breaks of
the tail may have been passed. -/
def JoinsLax (tail l l' : List Token) : Prop :=
  Joins tail l l' ∨ IsSpent l ∧ l'.dropWhile isNewLine = tail.dropWhile isNewLine

/-- What a move leaves: line breaks behind the token are passed or not. -/
def JoinsMoved (tail : List Token) : (passNewLine : Bool) → List Token → List Token → Prop
  | false => Joins tail
  | true => JoinsLax tail

/-- The second list goes on where the first one ends, perhaps behind the line break that begins the
tail. -/
def JoinsBehind (tail l l' : List Token) : Prop :=
  Joins tail l l' ∨ IsSpent l ∧ ∃ m, isNewLine m = true ∧ tail = m :: l'

/-- The first tokens of both lists are these. -/
structure JoinsAt (tail : List Token) (t t' : Token) (l l' : List Token) : Prop where
  /-- The second list goes on where the first one ends. -/
  joins : Joins tail l l'
  /-- The first token of the first list. -/
  head : l.head? = some t
  /-- The first token of the second list. -/
  head' : l'.head? = some t'

/-- Tokens that may begin two lists that are joined: they are similar, or a statement ends at
both. -/
def Token.Meets (t t' : Token) : Prop := t.Similar t' ∧ ¬ t.IsStop ∨ t.IsStop ∧ t'.IsStop

theorem JoinsSolid.joins (h : JoinsSolid tail l l') : Joins tail l l' := by
  obtain ⟨ht, hstop, h⟩ := h
  exact .cons ht (Bool.eq_false_iff.mpr fun hend ↦ hstop (.inl hend)) h

theorem Joins.lax (h : Joins tail l l') : JoinsLax tail l l' := .inl h

theorem Joins.behind (h : Joins tail l l') : JoinsBehind tail l l' := .inl h

theorem Token.Similar.isStop_iff (h : t.Similar t') : t'.IsStop ↔ t.IsStop := by
  have hbreak {u v : Token} (huv : u.Similar v) (hkind : u.lexeme.kind = .newLine) :=
    huv.lexeme.isLineBreak hkind
  rw [Token.IsStop, Token.IsStop, h.isEnd_eq]
  refine or_congr Iff.rfl ⟨fun ht ↦ ?_, fun ht ↦ (hbreak h ht.kind_eq).2⟩
  exact (hbreak h (h.kind_eq.symm.trans ht.kind_eq)).1

/-- Both lists have a first token. -/
theorem Joins.exists_at (h : Joins tail l l') (htail : IsTailOfTokens tail) :
    ∃ t t', t.Meets t' ∧ JoinsAt tail t t' l l' := by
  obtain ⟨m, rest, hsplit, hm⟩ := htail.stops
  have hjoins := h
  cases h with
  | @stop e he => exact ⟨e, m, .inr ⟨.inl he, hm⟩, hjoins, rfl, by rw [hsplit]; rfl⟩
  | @last n e m' rest' hn he hm' htail' =>
    exact ⟨n, m, .inr ⟨.inr hn, hm⟩, hjoins, rfl, by rw [hsplit]; rfl⟩
  | @cons t t' l l' ht hend h =>
    refine ⟨t, t', ?_, hjoins, rfl, rfl⟩
    by_cases hstop : t.IsStop
    · exact .inr ⟨hstop, ht.isStop_iff.mpr hstop⟩
    · exact .inl ⟨ht, hstop⟩

/-- A first token at which no statement ends has one in the other list that is similar. -/
theorem JoinsAt.solid (h : JoinsAt tail t t' l l') (hstop : ¬ t.IsStop) : JoinsSolid tail l l' := by
  obtain ⟨hjoins, hhead, -⟩ := h
  cases hjoins with
  | stop he =>
    obtain rfl := Option.some.inj hhead
    exact absurd (.inl he) hstop
  | last hn =>
    obtain rfl := Option.some.inj hhead
    exact absurd (.inr hn) hstop
  | cons ht hend h =>
    obtain rfl := Option.some.inj hhead
    exact .intro ht hstop h

/-- Moving over tokens of some kind, line breaks among them: a similar token comes next, or the
first list is spent. -/
theorem Joins.dropWhile {p : Token → Bool} (hsimilar : ∀ {t t' : Token}, t.Similar t' → p t' = p t)
    (hbreak : ∀ {t : Token}, isNewLine t = true → p t = true)
    (hends : ∀ {t : Token}, t.isEnd = true → p t = false) (h : Joins tail l l') :
    JoinsSolid tail (l.dropWhile p) (l'.dropWhile p) ∨
      IsSpent (l.dropWhile p) ∧ l'.dropWhile p = tail.dropWhile p := by
  induction h with
  | @stop e he =>
    rw [List.dropWhile_cons, if_neg (by simp [hends he])]
    exact .inr ⟨⟨e, he, rfl⟩, rfl⟩
  | @last n e m rest hn he hm htail =>
    rw [List.dropWhile_cons, if_pos (hbreak (Token.isNewLine_of_isLineBreak hn)),
      List.dropWhile_cons, if_neg (by simp [hends he])]
    exact .inr ⟨⟨e, he, rfl⟩, rfl⟩
  | @cons t t' l l' ht hend h ih =>
    rw [List.dropWhile_cons, List.dropWhile_cons, hsimilar ht]
    split
    · exact ih
    · next hp =>
      refine .inl (.intro ht ?_ h)
      rintro (hend' | hn)
      · exact absurd (hend.symm.trans hend') (by simp)
      · exact hp (hbreak (Token.isNewLine_of_isLineBreak hn))

/-! ## The ends of two lists -/

/-- The second list does not come to its end before the first. -/
theorem Joins.isEnd_of (h : Joins tail (t :: l) (t' :: l')) (hend : t'.isEnd = true) :
    t.isEnd = true := by
  generalize hsecond : t' :: l' = second at h
  cases h with
  | stop he => exact he
  | last _ _ hm htail =>
    obtain ⟨rfl, -⟩ := List.cons.inj (hsecond.trans htail)
    exact absurd ((Token.isNewLine_of_isLineBreak hm).symm.trans (Window.isNewLine_of_isEnd hend))
      (by simp)
  | cons ht _ _ =>
    obtain ⟨rfl, -⟩ := List.cons.inj hsecond
    exact ht.isEnd_eq.symm.trans hend

/-- Where the second list goes on with the end only, both lists end together. -/
theorem Joins.isEnd_eq (he : e.isEnd = true) (h : Joins [e] (t :: l) (t' :: l')) :
    t'.isEnd = t.isEnd := by
  generalize hsecond : t' :: l' = second at h
  cases h with
  | stop hend =>
    obtain ⟨rfl, -⟩ := List.cons.inj hsecond
    rw [he, hend]
  | last _ _ hm htail =>
    obtain ⟨rfl, -⟩ := List.cons.inj htail
    exact absurd ((Token.isNewLine_of_isLineBreak hm).symm.trans (Window.isNewLine_of_isEnd he))
      (by simp)
  | cons ht _ _ =>
    obtain ⟨rfl, -⟩ := List.cons.inj hsecond
    exact ht.isEnd_eq

theorem JoinsSolid.not_isSpent (h : JoinsSolid tail l l') : ¬ IsSpent l := by
  obtain ⟨-, hstop, -⟩ := h
  rintro ⟨e, he, hsplit⟩
  obtain ⟨rfl, -⟩ := List.cons.inj hsplit
  exact hstop (.inl he)

/-- All line breaks of joined lists are spelled like line breaks. -/
theorem Joins.breaks (h : Joins tail l l') (htail : IsTailOfTokens tail) :
    (∀ u ∈ l, isNewLine u = true → u.lexeme.IsLineBreak) ∧
      ∀ u ∈ l', isNewLine u = true → u.lexeme.IsLineBreak := by
  have hend {e u : Token} (he : e.isEnd = true) (hu : u ∈ [e]) (hbreak : isNewLine u = true) :
      u.lexeme.IsLineBreak := by
    obtain rfl := List.mem_singleton.mp hu
    exact absurd (hbreak.symm.trans (Window.isNewLine_of_isEnd he)) (by simp)
  induction h with
  | stop he => exact ⟨fun u hu ↦ hend he hu, htail.breaks⟩
  | last hn he _ _ =>
    exact ⟨List.forall_mem_cons.mpr ⟨fun _ ↦ hn, fun u hu ↦ hend he hu⟩, htail.breaks⟩
  | cons ht _ _ ih =>
    have hboth (hbreak : isNewLine _ = true) := ht.lexeme.isLineBreak (beq_iff_eq.mp hbreak)
    exact ⟨List.forall_mem_cons.mpr ⟨fun hbreak ↦ (hboth hbreak).1, ih.1⟩,
      List.forall_mem_cons.mpr ⟨fun hbreak ↦ (hboth (ht.isNewLine_eq ▸ hbreak)).2, ih.2⟩⟩

/-! ## Questions to which both cursors give the same answer -/

namespace Token

variable {text : String}

theorem IsStop.lexeme_cases (h : t.IsStop) : t.lexeme = .endOfInput ∨ t.lexeme.IsLineBreak :=
  h.imp_left t.lexeme_eq_of_isEnd

/-- A statement ends at two kinds of tokens only. -/
theorem IsStop.kind_ne (h : t.IsStop) {kind : TokenKind} (hend : kind ≠ .endOfInput)
    (hbreak : kind ≠ .newLine) : t.kind ≠ kind := by
  rcases h.lexeme_cases with ht | ht
  · rw [Token.kind, ht]
    exact hend.symm
  · rw [Token.kind, ht.kind_eq]
    exact hbreak.symm

theorem IsStop.is_eq_false (h : t.IsStop) (htext : Lexeme.IsMark text) : t.is text = false := by
  rcases h.lexeme_cases with ht | ht
  · rw [Token.is, ht]
    exact htext.is_end
  · exact htext.is_lineBreak ht

theorem IsStop.isSymbol_eq_false (h : t.IsStop) : t.isSymbol text = false := by
  have hkind : (t.kind == .symbol) = false :=
    beq_eq_false_iff_ne.mpr (h.kind_ne (by decide) (by decide))
  rw [Token.isSymbol, hkind, Bool.false_and]

theorem not_isStop_of_isSymbol (h : t.isSymbol text = true) : ¬ t.IsStop :=
  fun hstop ↦ absurd (h.symm.trans hstop.isSymbol_eq_false) (by simp)

namespace Meets

/-- For a kind of tokens at which no statement ends. -/
theorem kind_iff {kind : TokenKind} (h : t.Meets t') (hend : kind ≠ .endOfInput)
    (hbreak : kind ≠ .newLine) : t'.kind = kind ↔ t.kind = kind := by
  rcases h with ⟨hsimilar, -⟩ | ⟨ht, ht'⟩
  · rw [hsimilar.kind_eq]
  · exact iff_of_false (ht'.kind_ne hend hbreak) (ht.kind_ne hend hbreak)

theorem is_eq (h : t.Meets t') (htext : Lexeme.IsMark text) : t'.is text = t.is text := by
  rcases h with ⟨hsimilar, -⟩ | ⟨ht, ht'⟩
  · exact hsimilar.is_eq htext
  · rw [ht.is_eq_false htext, ht'.is_eq_false htext]

theorem isSymbol_eq (h : t.Meets t') : t'.isSymbol text = t.isSymbol text := by
  rcases h with ⟨hsimilar, hstop⟩ | ⟨ht, ht'⟩
  · have hbreak : t.lexeme.kind ≠ .newLine := fun hkind ↦
      hstop (.inr (hsimilar.lexeme.isLineBreak hkind).1)
    rw [Token.isSymbol, Token.isSymbol, hsimilar.kind_eq, Token.is, Token.is, Lexeme.is, Lexeme.is,
      hsimilar.lexeme.text_eq hbreak]
  · rw [ht.isSymbol_eq_false, ht'.isSymbol_eq_false]

/-- A symbol is the same in both lists. -/
theorem text_eq (h : t.Meets t') (hkind : t.kind = .symbol) : t'.text = t.text := by
  rcases h with ⟨hsimilar, -⟩ | ⟨ht, -⟩
  · exact hsimilar.lexeme.text_eq (by simp [show t.lexeme.kind = .symbol from hkind])
  · exact absurd hkind (ht.kind_ne (by decide) (by decide))

/-- Tokens that meet have one lexeme, or both are strings with similar sections, or a statement ends
at both. -/
theorem lexeme_cases (h : t.Meets t') :
    (t'.lexeme = t.lexeme ∧ t.kind ≠ .interpolated ∧ ¬ t.IsStop) ∨
      (∃ raw parts parts', t.lexeme = .interpolated raw parts ∧
        t'.lexeme = .interpolated raw parts' ∧
        List.Forall₂ Section.Similar parts parts') ∨
      t.IsStop ∧ t'.IsStop := by
  rcases h with ⟨hsimilar, hstop⟩ | hstops
  · have hlexemes := hsimilar.lexeme
    have hbreak (hkind : t.lexeme.kind = .newLine) :
        False := hstop (.inr (hlexemes.isLineBreak hkind).1)
    rw [Token.kind]
    generalize t.lexeme = l at *
    generalize t'.lexeme = l' at *
    cases hlexemes with
    | same _ hparts => exact .inl ⟨rfl, hparts, hstop⟩
    | newLine => exact (hbreak rfl).elim
    | interpolated raw hparts => exact .inr (.inl ⟨raw, _, _, rfl, rfl, hparts⟩)
  · exact .inr (.inr hstops)

theorem number?_eq (h : t.Meets t') : t'.lexeme.number? = t.lexeme.number? := by
  have hstop {u : Token} (hu : u.IsStop) : u.lexeme.number? = none := by
    rcases hu.lexeme_cases with hend | ⟨text, -, hbreak⟩
    · rw [hend]
      rfl
    · rw [hbreak]
      rfl
  rcases h.lexeme_cases with ⟨hsame, -⟩ | ⟨raw, parts, parts', hl, hl', -⟩ | ⟨ht, ht'⟩
  · rw [hsame]
  · rw [hl, hl']
    rfl
  · rw [hstop ht, hstop ht']

end Meets

end Token

/-! ## Looking ahead -/

/-- Both lists begin with `n` tokens at which no statement ends, pairwise similar ones. -/
inductive JoinsFar (tail : List Token) : (n : Nat) → List Token → List Token → Prop
  /-- The rest of the lists is joined. -/
  | here {l l' : List Token} (h : Joins tail l l') : JoinsFar tail 0 l l'
  /-- One token more. -/
  | cons {n : Nat} {t t' : Token} {l l' : List Token} (ht : t.Similar t') (hstop : ¬ t.IsStop)
      (h : JoinsFar tail n l l') : JoinsFar tail (n + 1) (t :: l) (t' :: l')

theorem JoinsSolid.far (h : JoinsSolid tail l l') : JoinsFar tail 1 l l' := by
  obtain ⟨ht, hstop, h⟩ := h
  exact .cons ht hstop (.here h)

theorem JoinsFar.solid {n : Nat} (h : JoinsFar tail (n + 1) l l') : JoinsSolid tail l l' := by
  induction n generalizing l l' with
  | zero =>
    obtain _ | ⟨ht, hstop, h⟩ := h
    cases h with
    | here h => exact .intro ht hstop h
  | succ n ih =>
    obtain _ | ⟨ht, hstop, h⟩ := h
    exact .intro ht hstop (ih h).joins

/-- The tokens behind those `n`. -/
theorem JoinsFar.exists_get {n : Nat} (h : JoinsFar tail n l l') (htail : IsTailOfTokens tail) :
    ∃ u u', u.Meets u' ∧ l[n]? = some u ∧ l'[n]? = some u' ∧
      (¬ u.IsStop → JoinsFar tail (n + 1) l l') := by
  induction h with
  | here h =>
    obtain ⟨u, u', hmeets, hat⟩ := h.exists_at htail
    refine ⟨u, u', hmeets, ?_, ?_, fun hstop ↦ (hat.solid hstop).far⟩
    · rw [← List.head?_eq_getElem?, hat.head]
    · rw [← List.head?_eq_getElem?, hat.head']
  | cons ht hstop _ ih =>
    obtain ⟨u, u', hmeets, hu, hu', hfar⟩ := ih
    exact ⟨u, u', hmeets, hu, hu', fun hnot ↦ .cons ht hstop (hfar hnot)⟩

/-- Fewer tokens may be counted. -/
theorem JoinsFar.nearer (h : JoinsFar tail (n + 1) l l') : JoinsFar tail n l l' := by
  induction n generalizing l l' with
  | zero =>
    obtain _ | ⟨ht, hstop, h⟩ := h
    cases h with
    | here h => exact .here (JoinsSolid.intro ht hstop h).joins
  | succ n ih =>
    obtain _ | ⟨ht, hstop, h⟩ := h
    exact .cons ht hstop (ih h)

theorem JoinsFar.joins (h : JoinsFar tail n l l') : Joins tail l l' := by
  cases n with
  | zero =>
    cases h with
    | here h => exact h
  | succ n => exact h.solid.joins

end ScriptFront
