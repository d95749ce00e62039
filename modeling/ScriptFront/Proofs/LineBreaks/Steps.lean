import ScriptFront.Proofs.LineBreaks.Spread
import ScriptFront.Proofs.Parse.Steps
import ScriptFront.Proofs.Tandem.Operands

/-!
# Steps of two parsers, one of which meets more line breaks

Where similar tokens are current, both parsers take the same decision, and the place that they reach
is that behind the token. Where only the second parser may have come to a line break, a decision is
the same as long as it asks for a token that may not stand in the next line: then neither of them
finds it.

In a block nothing is free, so similar tokens are current throughout, and the place changes at
brackets only.
-/

namespace ScriptFront

open Window (isNewLine)

namespace Parse

variable {α β γ δ : Type} {R : Pairing} {p q : Place}
  {text : String} {ctx : ParseContext} {sub₁ sub₂ : Subparser} {n depth : Nat} {outer : List Level}

/-! ## Symbols -/

/-- A symbol that is current leads on. -/
theorem ahead_of_isSymbol {t t' : Token} {l l' : List Token} {lately : Lately}
    (h : BegunAt (p.now lately) t t' l l') (hsymbol : t.isSymbol text = true)
    (hlately : lately ≠ .callee) : Ahead ((p.now lately).afterSymbol text) 1 l l' := by
  have hlexeme := isSymbol_iff.mp hsymbol
  rw [← Place.after_symbol hlexeme (Place.inFront_now hlately)]
  exact h.ahead (isEnd_of_symbol hlexeme)

/-- No symbol that is withheld stands where the second list may have a line break more. -/
theorem isSymbol_eq_false_of_gap {t : Token} (hp : p.Withholds text)
    (ht : t.lexeme.IsLineBreak ∨ p.frees t = true) : t.isSymbol text = false := by
  rcases ht with hbreak | hfrees
  · exact Token.IsStop.isSymbol_eq_false (.inr hbreak)
  · rw [← Bool.not_eq_true]
    intro hsymbol
    have his : t.is text = true := (Bool.and_eq_true_iff.mp hsymbol).2
    exact absurd (hfrees.symm.trans (hp t his)) (by simp)

/-- Nor does an operand begin there. -/
theorem opensOperand_eq_false_of_gap {t : Token} {lately : Lately}
    (hlately : lately.isBehind = true)
    (ht : t.lexeme.IsLineBreak ∨ (p.now lately).frees t = true) : opensOperand t = false := by
  rcases ht with hbreak | hfrees
  · exact opensOperand_of_isStop (.inr hbreak)
  · have hmark (text : String) (htext : text ∈ ["!", "["]) : t.isSymbol text = false := by
      refine isSymbol_eq_false_of_gap (Place.withholds_now hlately fun level _ ↦ ?_) (.inr hfrees)
      revert text
      cases level <;> decide
    obtain ⟨-, -, hkind, -⟩ := Place.exists_of_frees hfrees hlately
    rw [opensOperand, hmark "!" (by decide), hmark "[" (by decide), Lexeme.isLiteral,
      show t.lexeme.kind = .symbol from hkind, hkind]
    rfl

namespace Follows

variable {V : γ → δ → Prop} {P : γ → Pairing}

/-! ## The current tokens -/

/-- The current tokens, where no line break more stands in front of them. -/
theorem current_begun {g : Token → Parse γ} {k : Token → Parse δ}
    (h : ∀ t t', t.Meets t' → Follows (BegunAt p t t') (g t) (k t') V P) :
    Follows (Begun p) (current >>= g) (current >>= k) V P := by
  intro s t hst
  obtain ⟨l, l', hl, hl', hll'⟩ := hst.shows
  obtain ⟨u, u', hmeets, hat⟩ := hll'.exists_at
  obtain ⟨rest, rfl⟩ := List.head?_eq_some_iff.mp hat.head
  obtain ⟨rest', rfl⟩ := List.head?_eq_some_iff.mp hat.head'
  rw [bind_eq_of_ok current_run, bind_eq_of_ok current_run, hl.current_eq, hl'.current_eq]
  exact h u u' hmeets s t ⟨⟨_, _, hl, hl', hat⟩, hst.symbols, hst.depths⟩

/-- The current tokens, where a line break more may be the second one. -/
theorem current_spread {g : Token → Parse γ} {k : Token → Parse δ}
    (h : ∀ t t', t.Meets t' → Follows (BegunAt p t t') (g t) (k t') V P)
    (hgap : ∀ t t', t'.lexeme.IsLineBreak → (t.lexeme.IsLineBreak ∨ p.frees t = true) →
      Follows (Spread p) (g t) (k t') V P) :
    Follows (Spread p) (current >>= g) (current >>= k) V P := by
  intro s t hst
  obtain ⟨l, l', hl, hl', hll'⟩ := hst.shows
  rcases hll'.begun_or_gap with hbegun | ⟨u, u', hu, hu', hbreak, hfree⟩
  · exact current_begun h s t ⟨⟨l, l', hl, hl', hbegun⟩, hst.symbols, hst.depths⟩
  · obtain ⟨rest, rfl⟩ := List.head?_eq_some_iff.mp hu
    obtain ⟨rest', rfl⟩ := List.head?_eq_some_iff.mp hu'
    rw [bind_eq_of_ok current_run, bind_eq_of_ok current_run, hl.current_eq, hl'.current_eq]
    exact hgap u u' hbreak hfree s t hst

/-- The current tokens, which are known to be similar. -/
theorem current_ahead {g : Token → Parse γ} {k : Token → Parse δ}
    (h : ∀ t t', t.Similar t' → Follows (Ahead q (n + 1)) (g t) (k t') V P) :
    Follows (Ahead q (n + 1)) (current >>= g) (current >>= k) V P := by
  intro s t hst
  obtain ⟨l, l', hl, hl', hll'⟩ := hst.shows
  have hahead := hll'
  obtain _ | ⟨hu, -, -⟩ := hll'
  rw [bind_eq_of_ok current_run, bind_eq_of_ok current_run, hl.current_eq, hl'.current_eq]
  exact h _ _ hu s t ⟨⟨_, _, hl, hl', hahead⟩, hst.symbols, hst.depths⟩

/-- The current tokens are spelled in the same way. -/
theorem is_begun_cases (htext : Lexeme.IsMark text) (hp : p.Leads text q) {g : Bool → Parse γ}
    {k : Bool → Parse δ} (h : Follows (Ahead q 1) (g true) (k true) V P)
    (h' : Follows (Begun p) (g false) (k false) V P) :
    Follows (Begun p) (Parse.is text >>= g) (Parse.is text >>= k) V P := by
  refine current_begun (g := fun t ↦ g (t.is text)) (k := fun t ↦ k (t.is text))
    fun t t' hmeets ↦ ?_
  rw [hmeets.is_eq htext]
  cases his : t.is text with
  | true => exact h.of_implies fun l l' hat ↦ hat.leads htext his hp
  | false => exact h'.of_implies fun _ _ ↦ BegunAt.begun

theorem is_begun_branch (htext : Lexeme.IsMark text) (hp : p.Leads text q) {x x' : Parse γ}
    {y y' : Parse δ}
    (h : Follows (Ahead q 1) x y V P) (h' : Follows (Begun p) x' y' V P) :
    Follows (Begun p) (do if ← Parse.is text then x else x') (do if ← Parse.is text then y else y')
      V P := is_begun_cases htext hp h h'

theorem is_begun (htext : Lexeme.IsMark text) :
    Follows (Begun p) (Parse.is text) (Parse.is text) Eq fun _ ↦ Begun p :=
  current_begun (g := fun t ↦ Pure.pure (t.is text)) (k := fun t ↦ Pure.pure (t.is text))
    fun _ _ hmeets ↦
    .pure (hmeets.is_eq htext).symm fun _ _ ↦ BegunAt.begun

/-- A mark that may not stand in the next line is found by both, or by neither. -/
theorem is_spread_cases (htext : Lexeme.IsMark text) (hfree : p.Withholds text)
    (hp : p.Leads text q)
    {g : Bool → Parse γ} {k : Bool → Parse δ} (h : Follows (Ahead q 1) (g true) (k true) V P)
    (h' : Follows (Spread p) (g false) (k false) V P) :
    Follows (Spread p) (Parse.is text >>= g) (Parse.is text >>= k) V P := by
  refine current_spread (g := fun t ↦ g (t.is text)) (k := fun t ↦ k (t.is text))
    (fun t t' hmeets ↦ ?_)
    fun t t' hbreak hgap ↦ ?_
  · rw [hmeets.is_eq htext]
    cases his : t.is text with
    | true => exact h.of_implies fun l l' hat ↦ hat.leads htext his hp
    | false => exact h'.of_implies fun _ _ hat ↦ hat.begun.spread
  · have hnot : t'.is text = false := htext.is_lineBreak hbreak
    rw [hfree.is_eq_false htext hgap, hnot]
    exact h'

theorem is_spread_branch (htext : Lexeme.IsMark text) (hfree : p.Withholds text)
    (hp : p.Leads text q)
    {x x' : Parse γ} {y y' : Parse δ} (h : Follows (Ahead q 1) x y V P)
    (h' : Follows (Spread p) x' y' V P) :
    Follows (Spread p) (do if ← Parse.is text then x else x')
      (do if ← Parse.is text then y else y') V P := is_spread_cases htext hfree hp h h'

theorem is_spread (htext : Lexeme.IsMark text) (hfree : p.Withholds text) :
    Follows (Spread p) (Parse.is text) (Parse.is text) Eq fun _ ↦ Spread p := by
  refine current_spread (g := fun t ↦ Pure.pure (t.is text)) (k := fun t ↦ Pure.pure (t.is text))
    (fun t t' hmeets ↦ ?_) fun t t' hbreak hgap ↦ ?_
  · exact .pure (hmeets.is_eq htext).symm fun _ _ hat ↦ hat.begun.spread
  · exact .pure ((hfree.is_eq_false htext hgap).trans (htext.is_lineBreak hbreak).symm) fun _ _ ↦ id

theorem isEnded_begun : Follows (Begun p) Parse.isEnded Parse.isEnded Eq fun _ ↦ Begun p := by
  intro s t hst
  obtain ⟨l, l', hl, hl', hll'⟩ := hst.shows
  obtain ⟨u, u', -, hat⟩ := hll'.exists_at
  obtain ⟨rest, rfl⟩ := List.head?_eq_some_iff.mp hat.head
  obtain ⟨rest', rfl⟩ := List.head?_eq_some_iff.mp hat.head'
  rw [isEnded_run, isEnded_run, (ParserState.At.refl hl).isEnded_eq,
    (ParserState.At.refl hl').isEnded_eq]
  exact .ok ⟨hat.similar.isEnd_eq.symm, hst⟩

/-! ## Moves -/

theorem advance_ahead (passNewLine : Bool) :
    Follows (Ahead q 1) (Parse.advance 1 passNewLine) (Parse.advance 1 passNewLine) (fun _ _ ↦ True)
      fun _ ↦ SpreadMoved q passNewLine := by
  intro s t hst
  obtain ⟨l, l', hl, hl', hll'⟩ := hst.shows
  obtain _ | ⟨ht, hend, hrest⟩ := hll'
  cases hrest with
  | here hspread =>
    have hend' := ht.isEnd_eq.trans hend
    cases passNewLine with
    | false =>
      exact agree_of_yields hst (advance_yields (.refl hl) hend) (advance_yields (.refl hl') hend')
        fun _ _ _ _ ↦ ⟨trivial, hspread⟩
    | true =>
      exact agree_of_yields hst (advance_pass_yields (.refl hl) hend)
        (advance_pass_yields (.refl hl') hend') fun _ _ _ _ ↦ ⟨trivial, hspread.dropNewLines⟩

/-- A known token is passed. -/
theorem advance_begun {t t' : Token} (hend : t.isEnd = false) (hp : p.after t = q)
    (passNewLine : Bool) :
    Follows (BegunAt p t t') (Parse.advance 1 passNewLine) (Parse.advance 1 passNewLine)
      (fun _ _ ↦ True) fun _ ↦ SpreadMoved q passNewLine :=
  (advance_ahead passNewLine).of_implies fun _ _ hat ↦ hp ▸ hat.ahead hend

/-- A known symbol is passed. -/
theorem advance_symbol {t t' : Token} {lately : Lately} (hsymbol : t.isSymbol text = true)
    (hlately : lately ≠ .callee) (hq : (p.now lately).afterSymbol text = q) (passNewLine : Bool) :
    Follows (BegunAt (p.now lately) t t') (Parse.advance 1 passNewLine)
      (Parse.advance 1 passNewLine) (fun _ _ ↦ True) fun _ ↦ SpreadMoved q passNewLine :=
  (advance_ahead passNewLine).of_implies fun _ _ hat ↦ hq ▸ ahead_of_isSymbol hat hsymbol hlately

theorem advance_two_ahead : Follows (Ahead q 2) (Parse.advance 2 false) (Parse.advance 2 false)
    (fun _ _ ↦ True) fun _ ↦ Spread q := by
  intro s t hst
  obtain ⟨l, l', hl, hl', hll'⟩ := hst.shows
  obtain _ | ⟨hu, hu_end, hrest⟩ := hll'
  obtain _ | ⟨hv, hend, hrest⟩ := hrest
  cases hrest with
  | here hspread =>
    exact agree_of_yields hst (advance_two_yields (.refl hl) hend)
      (advance_two_yields (.refl hl') (hv.isEnd_eq.trans hend)) fun _ _ _ _ ↦ ⟨trivial, hspread⟩

/-- Line breaks are passed, one more of them or not. -/
theorem skipNewLines_spread : Follows (Spread p) Parse.skipNewLines Parse.skipNewLines
    (fun _ _ ↦ True)
    fun _ ↦ Begun p := by
  intro s t hst
  obtain ⟨l, l', hl, hl', hll'⟩ := hst.shows
  exact agree_of_yields hst (skipNewLines_yields (.refl hl)) (skipNewLines_yields (.refl hl'))
    fun _ _ _ _ ↦ ⟨trivial, hll'.dropNewLines⟩

/-- A mark is required. -/
theorem expect_begun (htext : Lexeme.IsMark text) (hp : p.Leads text q) (passNewLine : Bool) :
    Follows (Begun p) (Parse.expect text passNewLine) (Parse.expect text passNewLine)
      (fun _ _ ↦ True) fun _ ↦ SpreadMoved q passNewLine := by
  rw [expect_eq]
  exact is_begun_cases htext hp (advance_ahead passNewLine) (of_fails fails_onTokens)

/-- A mark is required that may not stand in the next line. -/
theorem expect_spread (htext : Lexeme.IsMark text) (hfree : p.Withholds text) (hp : p.Leads text q)
    (passNewLine : Bool) :
    Follows (Spread p) (Parse.expect text passNewLine) (Parse.expect text passNewLine)
      (fun _ _ ↦ True) fun _ ↦ SpreadMoved q passNewLine := by
  rw [expect_eq]
  exact is_spread_cases htext hfree hp (advance_ahead passNewLine) (of_fails fails_onTokens)

/-- A mark is required that is known to be there. -/
theorem expect_ahead (htext : Lexeme.IsMark text) (passNewLine : Bool) :
    Follows (Ahead q 1) (Parse.expect text passNewLine) (Parse.expect text passNewLine)
      (fun _ _ ↦ True) fun _ ↦ SpreadMoved q passNewLine := by
  rw [expect_eq]
  refine current_ahead (g := fun t ↦
      if t.is text then Parse.advance 1 passNewLine else onTokens (Window.failExpected text))
    (k := fun t ↦ if t.is text then Parse.advance 1 passNewLine else onTokens
      (Window.failExpected text))
    fun t t' hsimilar ↦ ?_
  exact .ite (by rw [hsimilar.is_eq htext]) (fun _ ↦ advance_ahead passNewLine) fun _ ↦
    of_fails fails_onTokens

/-- A name is required. -/
theorem expectName_begun (hp : ∀ t : Token, p.inFront t = p) (passNewLine : Bool) :
    Follows (Begun p) (Parse.expectName passNewLine) (Parse.expectName passNewLine) Eq
      fun _ ↦ SpreadMoved p.afterName passNewLine := by
  rw [expectName_eq]
  refine current_begun fun t t' hmeets ↦ .ite (hmeets.kind_iff (by simp) (by simp)) (fun hkind ↦ ?_)
    fun _ ↦ of_fails fails_onTokens
  obtain ⟨name, hname⟩ : ∃ name, t.lexeme = .ident name := by
    rw [Token.kind] at hkind
    cases hlexeme : t.lexeme with
    | ident name => exact ⟨name, rfl⟩
    | _ => rw [hlexeme] at hkind; cases hkind
  have hafter : p.after t = p.afterName := by
    rw [Place.after, hname, hp]
  have htext : t'.text = t.text := by
    rcases hmeets with ⟨hsimilar, -⟩ | ⟨hstop, -⟩
    · exact hsimilar.lexeme.text_eq (by simp [hname, Lexeme.kind])
    · exact absurd hkind (hstop.kind_ne (by simp) (by simp))
  have hend : t.isEnd = false := by rw [Token.isEnd, hkind]; rfl
  refine (advance_begun hend hafter passNewLine).bind fun _ _ _ ↦ ?_
  exact .pure htext.symm fun _ _ ↦ id

/-- The token so many places ahead, where a line break more cannot stand. Nothing is moved. -/
theorem peek_ahead (hn : n ≤ Window.minLookahead) (hp : p.IsTight)
    (hR : ∀ l l', R l l' → Ahead p n l l') :
    Follows R (Parse.peek n false) (Parse.peek n false) Token.Meets
      fun u l l' ↦ R l l' ∧ (u.isEnd = false → Ahead (p.after u) (n + 1) l l') := by
  intro s t hst
  obtain ⟨l, l', hl, hl', hll'⟩ := hst.shows
  obtain ⟨u, u', hmeets, hu, hu', hfar⟩ := (hR l l' hll').exists_get hp
  obtain ⟨w, hrun, hshows⟩ := hl.peek_stay hn hu
  obtain ⟨w', hrun', hshows'⟩ := hl'.peek_stay hn hu'
  refine agree_of_yields hst
    (onTokens_yields (.refl hl) ⟨u, w, hrun, hshows, rfl⟩ : Parse.Yields _ _ _ _ (· = u))
    (onTokens_yields (.refl hl') ⟨u', w', hrun', hshows', rfl⟩ : Parse.Yields _ _ _ _ (· = u')) ?_
  rintro _ _ rfl rfl
  exact ⟨hmeets, hll', hfar⟩

/-- A word that is found in the present line or in the next one that is not empty. -/
theorem continuesWith_spread (htext : Lexeme.IsMark text) :
    Follows (Spread p) (Parse.continuesWith text) (Parse.continuesWith text) Eq
      fun found l l' ↦ (found = true → BegunWith p text l l') ∧
      (found = false → Spread p l l') := by
  intro s t hst
  obtain ⟨l, l', hl, hl', hll'⟩ := hst.shows
  obtain ⟨u, rest, rfl⟩ := List.exists_cons_of_ne_nil hl.closed.ne_nil
  obtain ⟨u', rest', rfl⟩ := List.exists_cons_of_ne_nil hl'.closed.ne_nil
  obtain ⟨hbreaks, hbreaks'⟩ := hll'.breaks
  have heq := hll'.leadsTo_eq htext
  refine agree_of_yields hst
    (continuesWith_yields (.refl hl) fun h ↦
      htext.is_lineBreak (hbreaks u (List.mem_cons_self ..) h))
    (continuesWith_yields (.refl hl') fun h ↦
      htext.is_lineBreak (hbreaks' u' (List.mem_cons_self ..) h)) ?_
  rintro a b ha hb
  refine ⟨(ha.trans heq.symm).trans hb.symm, fun hfound ↦ ?_, fun hnot ↦ ?_⟩
  · have hleads : leadsTo text (u :: rest) = true := ha ▸ hfound
    rw [heq, if_pos hleads, if_pos hleads]
    obtain ⟨v, v', -, hat⟩ := hll'.dropNewLines.exists_at
    rw [ScriptFront.leadsTo, hat.head] at hleads
    exact ⟨v, v', hat, hleads⟩
  · have hleads : leadsTo text (u :: rest) = false := ha ▸ hnot
    rw [heq, hleads]
    exact hll'

/-- A comma, or the mark that closes the list, in front of what follows. -/
theorem listSeparator_begun {close : String} (hclose : close ∈ [")", "]", "\x7d"]) {lately : Lately}
    {x : Parse γ} {y : Parse δ} (h : Follows (Begun (p.now .fresh)) x y V P) :
    Follows (Begun (p.now lately)) (do
      if ← Parse.is "," then
        Parse.advance 1 true
        x
      else if !(← Parse.is close) then
        Parse.failExpected close
        x
      else x) (do
      if ← Parse.is "," then
        Parse.advance 1 true
        y
      else if !(← Parse.is close) then
        Parse.failExpected close
        y
      else y) V P := by
  have hmark : Lexeme.IsMark close := by revert close; decide
  refine is_begun_cases (by decide) (Place.leads_separator (by decide) lately)
    ((advance_ahead true).bind fun _ _ _ ↦ h) ?_
  refine current_begun (g := fun t ↦ if !(t.is close) then Parse.failExpected close >>=
    fun _ ↦ x else x)
    (k := fun t ↦ if !(t.is close) then Parse.failExpected close >>= fun _ ↦ y else y)
    fun t t' hmeets ↦ ?_
  rw [hmeets.is_eq hmark]
  refine .require Orderly.fails_failExpected id fun hnot ↦ h.of_implies fun l l' hat ↦ ?_
  have his : t.is close = true := by simpa using hnot
  -- in front of the closing mark, it does not matter what was read last
  have hordinary := hat.isOrdinary (Token.isEnd_eq_false_of_is hmark his)
  have hleads (lately : Lately) := Place.leads_close (p := p) hclose lately t his hordinary
  exact (hat.move ((hleads lately).trans (hleads .fresh).symm)).begun

/-! ## In a block -/

theorem advance_block (passNewLine : Bool) :
    Follows (Ahead (.block depth outer) 1) (Parse.advance 1 passNewLine)
      (Parse.advance 1 passNewLine) (fun _ _ ↦ True) fun _ ↦ Begun (.block depth outer) :=
  (advance_ahead passNewLine).mono fun _ _ _ hmoved ↦ hmoved.begun (Place.isTight_block depth outer)

theorem skipNewLines_begun : Follows (Begun p) Parse.skipNewLines Parse.skipNewLines
    (fun _ _ ↦ True) fun _ ↦ Begun p := skipNewLines_spread.of_implies fun _ _ ↦ Begun.spread

theorem is_block_branch (htext : Lexeme.IsMark text) (hbrackets : text ∉ Lexeme.brackets)
    {x x' : Parse γ} {y y' : Parse δ} (h : Follows (Ahead (.block depth outer) 1) x y V P)
    (h' : Follows (Begun (.block depth outer)) x' y' V P) :
    Follows (Begun (.block depth outer)) (do if ← Parse.is text then x else x')
      (do if ← Parse.is text then y else y') V P :=
  is_begun_branch htext (Place.leads_block hbrackets) h h'

theorem expect_block (htext : Lexeme.IsMark text) (hbrackets : text ∉ Lexeme.brackets)
    (passNewLine : Bool) :
    Follows (Begun (.block depth outer)) (Parse.expect text passNewLine)
      (Parse.expect text passNewLine) (fun _ _ ↦ True) fun _ ↦ Begun (.block depth outer) :=
  (expect_begun htext (Place.leads_block hbrackets) passNewLine).mono fun _ _ _ hmoved ↦
    hmoved.begun (Place.isTight_block depth outer)

theorem expectName_block (passNewLine : Bool) :
    Follows (Begun (.block depth outer)) (Parse.expectName passNewLine)
      (Parse.expectName passNewLine) Eq fun _ ↦ Begun (.block depth outer) :=
  (expectName_begun (fun _ ↦ rfl) passNewLine).mono fun _ _ _ hmoved ↦
    hmoved.begun (Place.isTight_block depth outer)

theorem continuesWith_block (htext : Lexeme.IsMark text) :
    Follows (Begun (.block depth outer)) (Parse.continuesWith text) (Parse.continuesWith text) Eq
      fun found l l' ↦ (found = true → BegunWith (.block depth outer) text l l') ∧
        (found = false → Begun (.block depth outer) l l') :=
  ((continuesWith_spread htext).of_implies fun _ _ ↦ Begun.spread).mono fun _ _ _ h ↦
    ⟨h.1, fun hnot ↦ (h.2 hnot).begun (Place.isTight_block depth outer)⟩

theorem passSeparators_block : Follows (Begun (.block depth outer)) Parse.passSeparators
    Parse.passSeparators (fun _ _ ↦ True) fun _ ↦ Begun (.block depth outer) := by
  intro s t hst
  obtain ⟨l, l', hl, hl', hll'⟩ := hst.shows
  exact agree_of_ensures (passSeparators_ensures (.refl hl)) fun _ _ hs ↦
    ((passSeparators_ensures (.refl hl')).loosen fun _ ↦ .inl).mono fun _ _ ht ↦
      ⟨trivial, hst.move hs ht hll'.dropSeparators⟩

theorem endStatement_block :
    Follows (Begun (.block depth outer)) Parse.endStatement Parse.endStatement
    (fun _ _ ↦ True) fun _ ↦ Begun (.block depth outer) := by
  intro s t hst
  obtain ⟨l, l', hl, hl', hll'⟩ := hst.shows
  obtain ⟨u, u', hmeets, hat⟩ := hll'.exists_at
  obtain ⟨rest, rfl⟩ := List.head?_eq_some_iff.mp hat.head
  obtain ⟨rest', rfl⟩ := List.head?_eq_some_iff.mp hat.head'
  refine agree_of_ensures (endStatement_ensures (.refl hl)) fun _ s' hs ↦ ?_
  obtain ⟨hends, hs⟩ := hs
  have hends' := hmeets.endsStatement_eq.trans hends
  refine ((endStatement_ensures (.refl hl')).loosen fun _ h ↦ absurd (hends'.symm.trans h)
    (by simp)).mono
    fun _ t' ht ↦ ⟨trivial, hst.move hs ht.2 hat.begun.behind_separator⟩

end Follows
end Parse
end ScriptFront
