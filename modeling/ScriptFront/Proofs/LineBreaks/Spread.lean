import ScriptFront.Proofs.LineBreaks.Places

/-!
# Lists of tokens with more line breaks

A list of tokens is compared with a list that has line breaks at places where they are free. Nothing
else distinguishes the two, apart from where the tokens stand.

Line breaks that are passed leave two lists that begin with similar tokens, and in a block, or
behind a prefix operator, two lists begin with similar tokens anyway: `Begun`. Elsewhere the second
list may begin with a line break and the first one with a token that may stand in the next line.
-/

namespace ScriptFront

open Window (isNewLine)

/-! ## Lists with more line breaks -/

/-- Spelled like a symbol only if it is one. Tokens that are read from a text are of this kind. -/
def Token.IsOrdinary (t : Token) : Prop := t.text ∈ Lexeme.symbols → t.kind = .symbol

/-- The second list is the first one with line breaks at places that are free, when both are read
from a place on. -/
inductive Spread : Place → List Token → List Token → Prop
  /-- Both lists are at their ends. -/
  | stop {p : Place} {e e' : Token} (he : e.isEnd = true) (hsimilar : e.Similar e') :
      Spread p [e] [e']
  /-- Both lists have a token, and these are similar. -/
  | cons {p : Place} {t t' : Token} {l l' : List Token} (ht : t.Similar t') (hend : t.isEnd = false)
    (hordinary : t.IsOrdinary) (h : Spread (p.after t) l l') : Spread p (t :: l) (t' :: l')
  /-- The second list has a line break more, and what follows it may stand in the next line. -/
  | gap {p : Place} {b t : Token} {l l' : List Token} (hb : b.lexeme.IsLineBreak)
    (ht : t ∈ (l.dropWhile isNewLine).head?) (hfrees : p.frees t = true) (h : Spread p l l') :
    Spread p l (b :: l')

/-- No line break more stands at the beginning. -/
inductive Begun (p : Place) : List Token → List Token → Prop
  /-- Both lists are at their ends. -/
  | stop {e e' : Token} (he : e.isEnd = true) (hsimilar : e.Similar e') : Begun p [e] [e']
  /-- Both lists have a token, and these are similar. -/
  | cons {t t' : Token} {l l' : List Token} (ht : t.Similar t') (hend : t.isEnd = false)
    (hordinary : t.IsOrdinary) (h : Spread (p.after t) l l') : Begun p (t :: l) (t' :: l')

/-- Both lists begin with so many tokens, pairwise similar ones, and are spread from a place on
behind these.
-/
inductive Ahead (q : Place) : (n : Nat) → List Token → List Token → Prop
  /-- The rest of the lists. -/
  | here {l l' : List Token} (h : Spread q l l') : Ahead q 0 l l'
  /-- One token more. -/
  | cons {n : Nat} {t t' : Token} {l l' : List Token} (ht : t.Similar t') (hend : t.isEnd = false)
    (h : Ahead q n l l') : Ahead q (n + 1) (t :: l) (t' :: l')

/-- The first tokens of both lists are these. -/
structure BegunAt (p : Place) (t t' : Token) (l l' : List Token) : Prop where
  /-- No line break more stands in front of them. -/
  begun : Begun p l l'
  /-- The first token of the first list. -/
  head : l.head? = some t
  /-- The first token of the second list. -/
  head' : l'.head? = some t'

/-- No line break more stands at the beginning, and both lists begin with a mark. -/
def BegunWith (p : Place) (text : String) (l l' : List Token) : Prop :=
  ∃ t t', BegunAt p t t' l l' ∧ t.is text = true

/-- What a move leaves: line breaks behind the token are passed or not. -/
def SpreadMoved (p : Place) : (passNewLine : Bool) → List Token → List Token → Prop
  | false => Spread p
  | true => Begun p

variable {p q : Place} {t t' : Token} {l l' : List Token} {text : String}

/-! ## Lists that are spread -/

theorem Begun.spread (h : Begun p l l') : Spread p l l' := by
  cases h with
  | stop he hsimilar => exact .stop he hsimilar
  | cons ht hend hordinary h => exact .cons ht hend hordinary h

/-- A place may be taken that frees more. -/
theorem Spread.refine (h : Spread p l l') (hpq : p.Refines q) : Spread q l l' := by
  induction h generalizing q with
  | stop he hsimilar => exact .stop he hsimilar
  | cons ht hend hordinary _ ih => exact .cons ht hend hordinary (ih (hpq.after _))
  | gap hb ht hfrees _ ih => exact .gap hb ht (hpq.frees hfrees) (ih hpq)

theorem Begun.refine (h : Begun p l l') (hpq : p.Refines q) : Begun q l l' := by
  cases h with
  | stop he hsimilar => exact .stop he hsimilar
  | cons ht hend hordinary h => exact .cons ht hend hordinary (h.refine (hpq.after _))

/-- Another place may be taken that the first token leads on from in the same way. -/
theorem Begun.move (h : Begun p l l') (hpq : ∀ t ∈ l.head?, p.after t = q.after t) :
    Begun q l l' := by
  cases h with
  | stop he hsimilar => exact .stop he hsimilar
  | cons ht hend hordinary h => exact .cons ht hend hordinary (hpq _ rfl ▸ h)

/-- Line breaks that are passed leave lists that begin with similar tokens. -/
theorem Spread.dropNewLines (h : Spread p l l') :
    Begun p (l.dropWhile isNewLine) (l'.dropWhile isNewLine) := by
  induction h with
  | stop he hsimilar =>
    rw [List.dropWhile_cons, if_neg (by simp [Window.isNewLine_of_isEnd he]), List.dropWhile_cons,
      if_neg (by simp [Window.isNewLine_of_isEnd (hsimilar.isEnd_eq.trans he)])]
    exact .stop he hsimilar
  | @cons p t t' l l' ht hend hordinary h ih =>
    rw [List.dropWhile_cons, List.dropWhile_cons, ht.isNewLine_eq]
    split
    · next hbreak => rwa [Place.after_newLine hbreak] at ih
    · exact .cons ht hend hordinary h
  | gap hb ht hfrees h ih =>
    rwa [List.dropWhile_cons, if_pos (Token.isNewLine_of_isLineBreak hb)]

/-- Nothing is free at this place. -/
def Place.IsTight (p : Place) : Prop := ∀ t, p.frees t = false

theorem Place.isTight_block (depth : Nat) (outer : List Level) :
    (Place.block depth outer).IsTight :=
  fun _ ↦ rfl

theorem Place.isTight_sign (p : Place) : (p.now .sign).IsTight := by
  intro t
  cases p <;> rfl

theorem Spread.begun (h : Spread p l l') (hp : p.IsTight) : Begun p l l' := by
  cases h with
  | stop he hsimilar => exact .stop he hsimilar
  | cons ht hend hordinary h => exact .cons ht hend hordinary h
  | gap hb ht hfrees h => exact absurd (hfrees.symm.trans (hp _)) (by simp)

theorem Ahead.refine {n : Nat} (h : Ahead p n l l') (hpq : p.Refines q) : Ahead q n l l' := by
  induction h with
  | here h => exact .here (h.refine hpq)
  | cons ht hend _ ih => exact .cons ht hend ih

/-! ## What the lists begin with -/

theorem Token.Similar.meets (h : t.Similar t') : t.Meets t' := by
  by_cases hstop : t.IsStop
  · exact .inr ⟨hstop, h.isStop_iff.mpr hstop⟩
  · exact .inl ⟨h, hstop⟩

/-- A token that is spelled like a symbol is this symbol. -/
theorem Token.IsOrdinary.lexeme_eq (h : t.IsOrdinary) (his : t.is text = true)
    (htext : text ∈ Lexeme.symbols) : t.lexeme = .symbol text := by
  have hspelled : t.text = text := beq_iff_eq.mp his
  have hkind : t.lexeme.kind = .symbol := h (hspelled ▸ htext)
  rw [Token.text] at hspelled
  generalize t.lexeme = lexeme at hspelled hkind
  cases lexeme with
  | symbol spelling => exact congrArg Lexeme.symbol hspelled
  | _ => cases hkind

/-- A mark is not the end. -/
theorem Token.isEnd_eq_false_of_is (htext : Lexeme.IsMark text) (his : t.is text = true) :
    t.isEnd = false := by
  rw [← Bool.not_eq_true]
  exact fun hend ↦ absurd (his.symm.trans (Token.IsStop.is_eq_false (.inl hend) htext)) (by simp)

theorem Begun.exists_at (h : Begun p l l') : ∃ t t', t.Meets t' ∧ BegunAt p t t' l l' := by
  have hbegun := h
  cases h with
  | stop he hsimilar => exact ⟨_, _, hsimilar.meets, hbegun, rfl, rfl⟩
  | cons ht hend hordinary h => exact ⟨_, _, ht.meets, hbegun, rfl, rfl⟩

theorem BegunAt.move (h : BegunAt p t t' l l') (hpq : p.after t = q.after t) :
    BegunAt q t t' l l' := by
  refine ⟨h.begun.move fun u hu ↦ ?_, h.head, h.head'⟩
  obtain rfl := Option.some.inj (h.head.symm.trans hu)
  exact hpq

/-- What is not the end has something behind it. -/
theorem BegunAt.ahead (h : BegunAt p t t' l l') (hend : t.isEnd = false) :
    Ahead (p.after t) 1 l l' := by
  obtain ⟨hbegun, hhead, -⟩ := h
  cases hbegun with
  | stop he =>
    obtain rfl := Option.some.inj hhead
    exact absurd (hend.symm.trans he) (by simp)
  | cons ht hend hordinary h =>
    obtain rfl := Option.some.inj hhead
    exact .cons ht hend (.here h)

theorem BegunAt.similar (h : BegunAt p t t' l l') : t.Similar t' := by
  obtain ⟨hbegun, hhead, hhead'⟩ := h
  cases hbegun with
  | stop he hsimilar =>
    obtain rfl := Option.some.inj hhead
    obtain rfl := Option.some.inj hhead'
    exact hsimilar
  | cons ht hend hordinary h =>
    obtain rfl := Option.some.inj hhead
    obtain rfl := Option.some.inj hhead'
    exact ht

theorem BegunAt.isOrdinary (h : BegunAt p t t' l l') (hend : t.isEnd = false) : t.IsOrdinary := by
  obtain ⟨hbegun, hhead, -⟩ := h
  cases hbegun with
  | stop he =>
    obtain rfl := Option.some.inj hhead
    exact absurd (hend.symm.trans he) (by simp)
  | cons ht hend hordinary h =>
    obtain rfl := Option.some.inj hhead
    exact hordinary

/-- The tokens behind those `n`, where a line break more cannot stand. -/
theorem Ahead.exists_get {n : Nat} (h : Ahead p n l l') (hp : p.IsTight) :
    ∃ u u', u.Meets u' ∧ l[n]? = some u ∧ l'[n]? = some u' ∧
      (u.isEnd = false → Ahead (p.after u) (n + 1) l l') := by
  induction h with
  | here h =>
    obtain ⟨u, u', hmeets, hat⟩ := (h.begun hp).exists_at
    refine ⟨u, u', hmeets, ?_, ?_, hat.ahead⟩
    · rw [← List.head?_eq_getElem?, hat.head]
    · rw [← List.head?_eq_getElem?, hat.head']
  | cons ht hend _ ih =>
    obtain ⟨u, u', hmeets, hu, hu', hfar⟩ := ih
    exact ⟨u, u', hmeets, hu, hu', fun hnot ↦ .cons ht hend (hfar hnot)⟩

/-- All line breaks of the two lists are spelled like line breaks. -/
theorem Spread.breaks (h : Spread p l l') :
    (∀ u ∈ l, isNewLine u = true → u.lexeme.IsLineBreak) ∧
      ∀ u ∈ l', isNewLine u = true → u.lexeme.IsLineBreak := by
  have hend {e u : Token} (he : e.isEnd = true) (hu : u ∈ [e]) (hbreak : isNewLine u = true) :
      u.lexeme.IsLineBreak := by
    obtain rfl := List.mem_singleton.mp hu
    exact absurd (hbreak.symm.trans (Window.isNewLine_of_isEnd he)) (by simp)
  induction h with
  | stop he hsimilar =>
    exact ⟨fun u hu ↦ hend he hu, fun u hu ↦ hend (hsimilar.isEnd_eq.trans he) hu⟩
  | cons ht _ _ _ ih =>
    have hboth (hbreak : isNewLine _ = true) := ht.lexeme.isLineBreak (beq_iff_eq.mp hbreak)
    exact ⟨List.forall_mem_cons.mpr ⟨fun hbreak ↦ (hboth hbreak).1, ih.1⟩,
      List.forall_mem_cons.mpr ⟨fun hbreak ↦ (hboth (ht.isNewLine_eq ▸ hbreak)).2, ih.2⟩⟩
  | gap hb _ _ _ ih => exact ⟨ih.1, List.forall_mem_cons.mpr ⟨fun _ ↦ hb, ih.2⟩⟩

/-- The lists begin with similar tokens, or the second one begins with a line break and the first
one with a token that may stand in the next line. -/
theorem Spread.begun_or_gap (h : Spread p l l') : Begun p l l' ∨
    ∃ t t', l.head? = some t ∧ l'.head? = some t' ∧ t'.lexeme.IsLineBreak ∧
      (t.lexeme.IsLineBreak ∨ p.frees t = true) := by
  have hbreaks := h.breaks.1
  cases h with
  | stop he hsimilar => exact .inl (.stop he hsimilar)
  | cons ht hend hordinary h => exact .inl (.cons ht hend hordinary h)
  | @gap p b u l l' hb hu hfrees h =>
    obtain _ | ⟨t, rest⟩ := l
    · cases hu
    refine .inr ⟨t, b, rfl, rfl, hb, ?_⟩
    by_cases hline : isNewLine t = true
    · exact .inl (hbreaks t (List.mem_cons_self ..) hline)
    · rw [List.dropWhile_cons, if_neg hline] at hu
      obtain rfl := Option.some.inj hu
      exact .inr hfrees

/-- Both lists lead to the same word. -/
theorem Spread.leadsTo_eq (h : Spread p l l') (htext : Lexeme.IsMark text) :
    leadsTo text l' = leadsTo text l := by
  obtain ⟨t, t', hmeets, hat⟩ := h.dropNewLines.exists_at
  rw [leadsTo, leadsTo, hat.head, hat.head']
  exact hmeets.is_eq htext

/-! ## What a spelling leads to -/

/-- Behind a token with this spelling, the place is the second one. -/
def Place.Leads (p : Place) (text : String) (q : Place) : Prop :=
  ∀ t : Token, t.is text = true → t.IsOrdinary → p.after t = q

namespace Place

theorem after_symbol (hlexeme : t.lexeme = .symbol text) (hfront : p.inFront t = p) :
    p.after t = p.afterSymbol text := by
  rw [after, hlexeme]
  exact congrArg (afterSymbol · text) hfront

/-- Behind a symbol that opens no operand. -/
theorem leads_symbol (htext : text ∈ Lexeme.symbols) (hopens : text ∉ ["!", "["]) :
    p.Leads text (p.afterSymbol text) := by
  intro t his hordinary
  have hlexeme := hordinary.lexeme_eq his htext
  refine after_symbol hlexeme (inFront_eq ?_)
  simp only [List.mem_cons, List.not_mem_nil, or_false, not_or] at hopens
  simp [Parse.opensOperand, Lexeme.isLiteral, Token.kind, Token.isSymbol, Token.is,
    Lexeme.is, hlexeme, Lexeme.kind, Lexeme.text, hopens.1, hopens.2]

/-- A comma or a colon. -/
theorem leads_separator (htext : text ∈ [",", ":"]) (lately : Lately) :
    (p.now lately).Leads text (p.now .fresh) := by
  have h : (p.now lately).Leads text ((p.now lately).afterSymbol text) :=
    leads_symbol (by revert text; decide) (by revert text; decide)
  rwa [afterSymbol_separator _ htext, now_now] at h

/-- A closing bracket. -/
theorem leads_close (htext : text ∈ [")", "]", "\x7d"]) (lately : Lately) :
    (p.now lately).Leads text p.closed := by
  have h : (p.now lately).Leads text ((p.now lately).afterSymbol text) :=
    leads_symbol (by revert text; decide) (by revert text; decide)
  rwa [afterSymbol_close _ htext, closed_now] at h

end Place

/-- A mark that is found leads on. -/
theorem BegunAt.leads (h : BegunAt p t t' l l') (htext : Lexeme.IsMark text)
    (his : t.is text = true)
    (hp : p.Leads text q) : Ahead q 1 l l' := by
  have hend := Token.isEnd_eq_false_of_is htext his
  exact hp t his (h.isOrdinary hend) ▸ h.ahead hend

theorem BegunWith.begun (h : BegunWith p text l l') : Begun p l l' := by
  obtain ⟨t, t', hat, -⟩ := h
  exact hat.begun

theorem BegunWith.leads (h : BegunWith p text l l') (htext : Lexeme.IsMark text)
    (hp : p.Leads text q) : Ahead q 1 l l' := by
  obtain ⟨t, t', hat, his⟩ := h
  exact hat.leads htext his hp

/-- Neither a line break nor what may stand in the next line is spelled like what is withheld. -/
theorem Place.Withholds.is_eq_false (h : p.Withholds text) (htext : Lexeme.IsMark text)
    (ht : t.lexeme.IsLineBreak ∨ p.frees t = true) : t.is text = false := by
  rcases ht with hline | hfrees
  · exact htext.is_lineBreak hline
  · rw [← Bool.not_eq_true]
    exact fun his ↦ absurd (hfrees.symm.trans (h t his)) (by simp)

theorem SpreadMoved.spread {passNewLine : Bool} (h : SpreadMoved p passNewLine l l') :
    Spread p l l' := by
  cases passNewLine with
  | false => exact h
  | true => exact Begun.spread h

theorem Begun.moved (h : Begun p l l') (passNewLine : Bool) : SpreadMoved p passNewLine l l' := by
  cases passNewLine with
  | false => exact h.spread
  | true => exact h

/-- What a move leaves begins with similar tokens if nothing is free there, or if line breaks were
passed. -/
theorem SpreadMoved.begun {passNewLine : Bool} (h : SpreadMoved p passNewLine l l')
    (hp : p.IsTight) :
    Begun p l l' := by
  cases passNewLine with
  | false => exact Spread.begun h hp
  | true => exact h

/-! ## In a block -/

/-- The brackets, opening and closing ones. -/
def Lexeme.brackets : List String := ["(", ")", "[", "]", "\x7b", "\x7d"]

/-- In a block only brackets matter. -/
theorem Place.after_block {depth : Nat} {outer : List Level} (h : t.text ∉ Lexeme.brackets) :
    (Place.block depth outer).after t = .block depth outer := by
  unfold Place.after
  cases hlexeme : t.lexeme with
  | symbol text =>
    have htext : text ∉ Lexeme.brackets := by rwa [Token.text, hlexeme] at h
    show (Place.block depth outer).afterSymbol text = _
    unfold Place.afterSymbol
    split
    all_goals first
      | rfl
      | exact absurd (by decide) htext
  | _ => rfl

theorem Place.leads_block {depth : Nat} {outer : List Level} (htext : text ∉ Lexeme.brackets) :
    (Place.block depth outer).Leads text (.block depth outer) := by
  intro t his _
  have hspelled : t.text = text := beq_iff_eq.mp his
  exact after_block (hspelled ▸ htext)

/-- Nor do separators. -/
theorem Place.after_separator {depth : Nat} {outer : List Level} (h : t.isSeparator = true) :
    (Place.block depth outer).after t = .block depth outer := by
  rcases Bool.or_eq_true_iff.mp h with hbreak | hmark
  · exact after_newLine hbreak
  · have htext : t.text = ";" := beq_iff_eq.mp hmark
    refine after_block ?_
    rw [htext]
    decide

/-- The separator that ends a statement may be passed in both lists. -/
theorem Begun.behind_separator {depth : Nat} {outer : List Level}
    (h : Begun (.block depth outer) (t :: l) (t' :: l')) :
    Begun (.block depth outer) (if t.isSeparator then l else t :: l)
      (if t'.isSeparator then l' else t' :: l') := by
  have hbegun := h
  cases h with
  | stop he hsimilar =>
    rw [if_neg (by simp [Token.isSeparator_of_isEnd he]),
      if_neg (by simp [Token.isSeparator_of_isEnd (hsimilar.isEnd_eq.trans he)])]
    exact hbegun
  | cons ht hend hordinary h =>
    rw [ht.isSeparator_eq]
    split
    · next hseparator =>
      rw [Place.after_separator hseparator] at h
      exact h.begun (Place.isTight_block depth outer)
    · exact hbegun

/-- Separators may be dropped from both lists. -/
theorem Begun.dropSeparators {depth : Nat} {outer : List Level}
    (h : Begun (.block depth outer) l l') :
    Begun (.block depth outer) (l.dropWhile Token.isSeparator)
      (l'.dropWhile Token.isSeparator) := by
  have hspread := h.spread
  clear h
  generalize hp : Place.block depth outer = p at hspread ⊢
  induction hspread with
  | stop he hsimilar =>
    rw [List.dropWhile_cons, if_neg (by simp [Token.isSeparator_of_isEnd he]), List.dropWhile_cons,
      if_neg (by simp [Token.isSeparator_of_isEnd (hsimilar.isEnd_eq.trans he)])]
    exact .stop he hsimilar
  | @cons p t t' l l' ht hend hordinary h ih =>
    subst hp
    rw [List.dropWhile_cons, List.dropWhile_cons, ht.isSeparator_eq]
    split
    · next hseparator =>
      rw [Place.after_separator hseparator] at ih
      exact ih rfl
    · exact .cons ht hend hordinary h
  | gap _ _ hfrees => subst hp; cases hfrees

end ScriptFront
