import ScriptFront.Proofs.Window.Joins

/-!
# Lists of tokens that go on, between statements

Line breaks and semicolons stand between statements, and a parser drops them in front of a
statement, as many as there are. Of two lists that are joined, the first may come to its end by
that, and then the second is where the tail goes on. So what two parsers have in common between
statements is seen behind the separators: `JoinsApart`.

A statement ends in front of a separator, of a closing brace and of the end, and some statements
look at the first word of the next line before they end. That word is no part of them, as long as
the tail does not begin with an alternative branch.
-/

namespace ScriptFront

open Window (isNewLine)

variable {tail rest l l' : List Token} {t t' e : Token}

/-! ## Separators -/

/-- What stands between statements: line breaks and semicolons. -/
def Token.isSeparator (t : Token) : Bool := isNewLine t || t.is ";"

theorem Token.Similar.isSeparator_eq (h : t.Similar t') : t'.isSeparator = t.isSeparator := by
  rw [isSeparator, isSeparator, h.isNewLine_eq, h.is_eq (by decide)]

theorem Token.isSeparator_of_isNewLine (h : isNewLine t = true) : t.isSeparator = true := by
  rw [isSeparator, h, Bool.true_or]

theorem Token.isSeparator_of_isEnd (h : t.isEnd = true) : t.isSeparator = false := by
  rw [isSeparator, Window.isNewLine_of_isEnd h, IsStop.is_eq_false (.inl h) (by decide)]
  rfl

/-- Part of what is dropped may be dropped first. -/
theorem dropWhile_dropWhile {p q : Token → Bool} (h : ∀ t, p t = true → q t = true)
    (l : List Token) :
    (l.dropWhile p).dropWhile q = l.dropWhile q := by
  induction l with
  | nil => rfl
  | cons t l ih =>
    rw [List.dropWhile_cons]
    split
    · next ht => rw [ih, List.dropWhile_cons, if_pos (h t ht)]
    · rfl

/-- The line breaks among the separators may be dropped first. -/
theorem dropWhile_isSeparator_dropWhile (l : List Token) :
    (l.dropWhile isNewLine).dropWhile Token.isSeparator = l.dropWhile Token.isSeparator :=
  dropWhile_dropWhile (fun _ ↦ Token.isSeparator_of_isNewLine) l

/-- Behind separators both lists begin with similar tokens, or the first list is spent and the
second is where the tail goes on. -/
def JoinsFresh (tail l l' : List Token) : Prop :=
  JoinsSolid tail l l' ∨ IsSpent l ∧ l' = tail.dropWhile Token.isSeparator

/-- The lists are joined in that way when the separators are dropped. -/
def JoinsApart (tail l l' : List Token) : Prop :=
  JoinsFresh tail (l.dropWhile Token.isSeparator) (l'.dropWhile Token.isSeparator)

theorem Joins.apart (h : Joins tail l l') : JoinsApart tail l l' :=
  h.dropWhile Token.Similar.isSeparator_eq Token.isSeparator_of_isNewLine Token.isSeparator_of_isEnd

theorem Joins.dropNewLines (h : Joins tail l l') :
    JoinsSolid tail (l.dropWhile isNewLine) (l'.dropWhile isNewLine) ∨
      IsSpent (l.dropWhile isNewLine) ∧ l'.dropWhile isNewLine = tail.dropWhile isNewLine :=
  h.dropWhile Token.Similar.isNewLine_eq id Window.isNewLine_of_isEnd

theorem IsSpent.dropWhile {p : Token → Bool} (hends : ∀ {t : Token}, t.isEnd = true → p t = false)
    (h : IsSpent l) : l.dropWhile p = l := by
  obtain ⟨e, he, rfl⟩ := h
  rw [List.dropWhile_cons, if_neg (by simp [hends he])]

theorem JoinsBehind.apart (h : JoinsBehind tail l l') : JoinsApart tail l l' := by
  rcases h with hjoins | ⟨hspent, m, hm, rfl⟩
  · exact hjoins.apart
  · refine .inr ⟨?_, ?_⟩
    · rwa [hspent.dropWhile Token.isSeparator_of_isEnd]
    · rw [List.dropWhile_cons, if_pos (Token.isSeparator_of_isNewLine hm)]

theorem JoinsLax.dropNewLines (h : JoinsLax tail l l') :
    JoinsLax tail (l.dropWhile isNewLine) (l'.dropWhile isNewLine) := by
  have hidem (l : List Token) :
      (l.dropWhile isNewLine).dropWhile isNewLine = l.dropWhile isNewLine :=
    dropWhile_dropWhile (fun _ ↦ id) l
  rcases h with hjoins | ⟨hspent, heq⟩
  · refine hjoins.dropNewLines.imp JoinsSolid.joins (And.imp_right fun heq ↦ ?_)
    rw [heq, hidem]
  · refine .inr ⟨?_, ?_⟩
    · rwa [hspent.dropWhile Window.isNewLine_of_isEnd]
    · rw [hidem, heq]

theorem JoinsLax.apart (h : JoinsLax tail l l') : JoinsApart tail l l' := by
  rcases h with hjoins | ⟨hspent, heq⟩
  · exact hjoins.apart
  · refine .inr ⟨?_, ?_⟩
    · rwa [hspent.dropWhile Token.isSeparator_of_isEnd]
    · rw [← dropWhile_isSeparator_dropWhile l', heq, dropWhile_isSeparator_dropWhile]

/-- The first list is spent, and behind separators the second one goes on where the tail does. -/
def JoinsSpent (tail l l' : List Token) : Prop :=
  IsSpent l ∧ l'.dropWhile Token.isSeparator = tail.dropWhile Token.isSeparator

/-! ## The end of a statement -/

/-- Whether a statement may end in front of the token. -/
def Token.endsStatement (t : Token) : Bool :=
  t.isSeparator || t.isEnd || t.is "\x7d" || t.is "else"

theorem Token.IsStop.endsStatement (h : t.IsStop) : t.endsStatement = true := by
  rw [Token.endsStatement]
  rcases h with hend | hbreak
  · simp [hend]
  · simp [Token.isSeparator_of_isNewLine (Token.isNewLine_of_isLineBreak hbreak)]

theorem Token.Similar.endsStatement_eq (h : t.Similar t') : t'.endsStatement = t.endsStatement := by
  rw [endsStatement, endsStatement, h.isSeparator_eq, h.isEnd_eq, h.is_eq (by decide),
    h.is_eq (by decide)]

theorem Token.Meets.endsStatement_eq (h : t.Meets t') : t'.endsStatement = t.endsStatement := by
  rcases h with ⟨hsimilar, -⟩ | ⟨ht, ht'⟩
  · exact hsimilar.endsStatement_eq
  · rw [ht.endsStatement, ht'.endsStatement]

/-- A separator that ends a statement is passed in both lists. -/
theorem Joins.behind_separator (h : Joins tail (t :: l) (t' :: l')) (htail : IsTailOfTokens tail) :
    JoinsBehind tail (if t.isSeparator then l else t :: l)
      (if t'.isSeparator then l' else t' :: l') := by
  obtain ⟨m, rest, hsplit, hm⟩ := htail.stops
  have hbreak {n : Token} (hn : n.lexeme.IsLineBreak) : isNewLine n = true :=
    Token.isNewLine_of_isLineBreak hn
  generalize hfirst : t :: l = first at h
  generalize hsecond : t' :: l' = second at h
  cases h with
  | @stop e he =>
    obtain ⟨rfl, rfl⟩ := List.cons.inj hfirst
    obtain ⟨rfl, rfl⟩ := List.cons.inj (hsecond.trans hsplit)
    rw [if_neg (by simp [Token.isSeparator_of_isEnd he])]
    rcases hm with hend | hm
    · rw [if_neg (by simp [Token.isSeparator_of_isEnd hend])]
      exact .inl (hsecond ▸ .stop he)
    · rw [if_pos (Token.isSeparator_of_isNewLine (hbreak hm))]
      exact .inr ⟨⟨_, he, rfl⟩, _, hbreak hm, hsecond.symm⟩
  | @last n e m' rest' hn he hm' htail' =>
    obtain ⟨rfl, rfl⟩ := List.cons.inj hfirst
    obtain ⟨rfl, rfl⟩ := List.cons.inj (hsecond.trans htail')
    rw [if_pos (Token.isSeparator_of_isNewLine (hbreak hn)),
      if_pos (Token.isSeparator_of_isNewLine (hbreak hm'))]
    exact .inr ⟨⟨_, he, rfl⟩, _, hbreak hm', hsecond.symm⟩
  | @cons u u' k k' hu hend h =>
    obtain ⟨rfl, rfl⟩ := List.cons.inj hfirst
    obtain ⟨rfl, rfl⟩ := List.cons.inj hsecond
    rw [hu.isSeparator_eq]
    split
    · exact .inl h
    · exact .inl (.cons hu hend h)

/-! ## Words in the next line -/

/-- Whether `text` stands behind the line breaks that come first. -/
def leadsTo (text : String) (l : List Token) : Bool := (l.dropWhile isNewLine).head?.any (·.is text)

theorem IsSpent.leadsTo_eq (h : IsSpent (l.dropWhile isNewLine)) {text : String}
    (htext : Lexeme.IsMark text) : leadsTo text l = false := by
  obtain ⟨e, he, hl⟩ := h
  rw [leadsTo, hl]
  exact Token.IsStop.is_eq_false (.inl he) htext

/-- What the first list leads to, the second one does. -/
theorem Joins.leadsTo (h : Joins tail l l') {text : String} (htext : Lexeme.IsMark text)
    (hfound : leadsTo text l = true) :
    leadsTo text l' = true ∧ JoinsSolid tail (l.dropWhile isNewLine) (l'.dropWhile isNewLine) := by
  rcases h.dropNewLines with hsolid | ⟨hspent, -⟩
  · refine ⟨?_, hsolid⟩
    rw [ScriptFront.leadsTo] at hfound ⊢
    generalize l.dropWhile isNewLine = k at *
    generalize l'.dropWhile isNewLine = k' at *
    obtain ⟨ht, -, -⟩ := hsolid
    exact (ht.is_eq htext).trans hfound
  · exact absurd (hfound.symm.trans (hspent.leadsTo_eq htext)) (by simp)

theorem IsTailOfTokens.leadsTo_eq (h : IsTailOfTokens tail) : leadsTo "else" tail = false := by
  rw [leadsTo]
  cases hfirst : (tail.dropWhile isNewLine).head? with
  | none => rfl
  | some t => exact h.calm t hfirst

/-- Neither list leads to an alternative branch if the first one does not. -/
theorem JoinsBehind.leadsTo_else (h : JoinsBehind tail l l') (htail : IsTailOfTokens tail) :
    leadsTo "else" l' = leadsTo "else" l ∧
      (leadsTo "else" l = true → JoinsSolid tail (l.dropWhile isNewLine)
        (l'.dropWhile isNewLine)) := by
  have hspent {k k' : List Token} (hk : IsSpent (k.dropWhile isNewLine))
      (hk' : k'.dropWhile isNewLine = tail.dropWhile isNewLine) :
      leadsTo "else" k' = leadsTo "else" k ∧ leadsTo "else" k = false := by
    have hnot : leadsTo "else" k = false := hk.leadsTo_eq (by decide)
    refine ⟨?_, hnot⟩
    rw [leadsTo, hk']
    exact htail.leadsTo_eq.trans hnot.symm
  rcases h with hjoins | ⟨hl, m, hm, hsplit⟩
  · rcases hjoins.dropNewLines with hsolid | ⟨hk, hk'⟩
    · refine ⟨?_, fun _ ↦ hsolid⟩
      rw [leadsTo, leadsTo]
      generalize l.dropWhile isNewLine = k at *
      generalize l'.dropWhile isNewLine = k' at *
      obtain ⟨ht, -, -⟩ := hsolid
      exact ht.is_eq (by decide)
    · obtain ⟨heq, hnot⟩ := hspent hk hk'
      exact ⟨heq, fun hfound ↦ absurd (hfound.symm.trans hnot) (by simp)⟩
  · have hk : IsSpent (l.dropWhile isNewLine) := by rwa [hl.dropWhile Window.isNewLine_of_isEnd]
    have hk' : l'.dropWhile isNewLine = tail.dropWhile isNewLine := by
      rw [hsplit, List.dropWhile_cons, if_pos hm]
    obtain ⟨heq, hnot⟩ := hspent hk hk'
    exact ⟨heq, fun hfound ↦ absurd (hfound.symm.trans hnot) (by simp)⟩

theorem JoinsBehind.breaks (h : JoinsBehind tail l l') (htail : IsTailOfTokens tail) :
    (∀ u ∈ l, isNewLine u = true → u.lexeme.IsLineBreak) ∧
      ∀ u ∈ l', isNewLine u = true → u.lexeme.IsLineBreak := by
  rcases h with hjoins | ⟨⟨e, he, rfl⟩, m, -, rfl⟩
  · exact hjoins.breaks htail
  · refine ⟨fun u hu hbreak ↦ ?_, fun u hu ↦ htail.breaks u (List.mem_cons_of_mem _ hu)⟩
    obtain rfl := List.mem_singleton.mp hu
    exact absurd (hbreak.symm.trans (Window.isNewLine_of_isEnd he)) (by simp)

/-- Where the second tokens begin, a tail begins with a line break before them. -/
theorem isTailOfTokens_cons {m : Token} (hm : m.lexeme.IsLineBreak) (he : e.isEnd = true)
    (h : Joins [e] l rest) (hcalm : leadsTo "else" l = false) : IsTailOfTokens (m :: rest) := by
  have htail := isTailOfTokens_singleton he
  refine ⟨⟨m, rest, rfl, .inr hm⟩, List.forall_mem_cons.mpr ⟨fun _ ↦ hm, (h.breaks htail).2⟩,
    fun t ht ↦ ?_⟩
  rw [List.dropWhile_cons, if_pos (Token.isNewLine_of_isLineBreak hm)] at ht
  have hnot := (h.behind.leadsTo_else htail).1.trans hcalm
  rw [leadsTo, Option.mem_def.mp ht] at hnot
  exact hnot

end ScriptFront
