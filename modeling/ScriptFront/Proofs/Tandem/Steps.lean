import ScriptFront.Proofs.Tandem.Judgment

/-!
# Steps of two parsers abreast

What the productions of the grammar are made of, for two parsers abreast: moves over tokens, the
words between statements, names and counters, and computations inside other ones. Each step says how
the tokens of the two parsers have to be related before, and how they are related then.

Two moves leave the second list in more than one place. Behind line breaks the first list may be
spent while the second one goes on, `JoinsLax`; whatever needs a token there succeeds in the first
parser only if the lists still go together. Behind the end of a statement the line break of the tail
may have been passed, `JoinsBehind`.

A loop goes with another loop as a round goes with a round: `Parse.Follows.rounded`.
-/

namespace ScriptFront

open Window (isNewLine)

namespace Parse

variable {α β γ δ : Type} {R R₁ : Pairing} {tail l : List Token} {text : String}
    {ctx : ParseContext}
  {sub sub₁ sub₂ : Subparser} {s s' t : ParserState}

/-! ## Steps that ask first -/

theorem onTokens_bind {h : WindowM Lexer α} {k : α → WindowM Lexer β} :
    onTokens (h >>= k) = onTokens h >>= fun a ↦ onTokens (k a) := by
  funext s
  cases hrun : h s.tokens with
  | ok a w =>
    have hfirst : onTokens h s = .ok a { s with tokens := w } := by rw [onTokens, hrun]
    rw [bind_eq_of_ok hfirst, onTokens, bind_eq_of_ok hrun]
    rfl
  | error e w =>
    have hfirst : onTokens h s = .error e { s with tokens := w } := by rw [onTokens, hrun]
    rw [bind_eq_of_error hfirst, onTokens, bind_eq_of_error hrun]

theorem onTokens_ite {p : Prop} [Decidable p] {h k : WindowM Lexer α} :
    onTokens (if p then h else k) = if p then onTokens h else onTokens k := by
  split <;> rfl

theorem expect_eq (text : String) (passNewLine : Bool) : Parse.expect text passNewLine = (do
    if ← is text then Parse.advance 1 passNewLine else onTokens (Window.failExpected text)) := by
  have hget : Parse.expect text passNewLine = (do
      let w ← tokens
      onTokens (if w.is text then Window.advance 1 passNewLine else Window.failExpected text)) :=
    rfl
  rw [hget]
  simp only [onTokens_ite]
  rfl

theorem expectName_eq (passNewLine : Bool) : Parse.expectName passNewLine = (do
    let t ← current
    if t.kind = .ident then
      Parse.advance 1 passNewLine
      return t.text
    else onTokens (Window.failExpected "identifier")) := by
  have hget : Parse.expectName passNewLine = (do
      let w ← tokens
      let t ← onTokens (if w.kind = .ident then do
          Window.advance 1 passNewLine
          return w.current
        else Window.failExpected "identifier")
      return t.text) := by
    rw [Parse.expectName, Window.expectName, onTokens_bind]
    rfl
  rw [hget]
  simp only [onTokens_ite, onTokens_bind, ite_bind, bind_assoc]
  rfl

theorem fails_onTokens {wanted : String} :
    Orderly.Fails (onTokens (Window.failExpected wanted) : Parse α) := fun _ ↦ ⟨_, rfl, id⟩

theorem Orderly.fails_failFuel : Orderly.Fails (failFuel : Parse α) := Orderly.fails_fail id

/-! ## At the end of the tokens -/

namespace Dies

variable {x y : Parse α} {f : α → Parse β}

theorem is_branch (htext : Lexeme.IsMark text) (h : Dies y) :
    Dies (do if ← Parse.is text then x else y) :=
  .is htext (.ite (fun h ↦ absurd h Bool.false_ne_true) fun _ ↦ h)

theorem is_require (htext : Lexeme.IsMark text) {wanted : String} {f : Unit → Parse α} :
    Dies (do if !(← Parse.is text) then Parse.failExpected wanted >>= f else f ()) :=
  .is htext (.ite (fun _ ↦ failExpected.bind) fun h ↦ absurd rfl h)

theorem expect (htext : Lexeme.IsMark text) (passNewLine : Bool) :
    Dies (Parse.expect text passNewLine) := by
  rw [expect_eq]
  exact is_branch htext (of_fails fails_onTokens)

theorem expectName (passNewLine : Bool) : Dies (Parse.expectName passNewLine) := by
  rw [expectName_eq]
  refine current fun t ht ↦ .ite (fun hkind ↦ ?_) fun _ ↦ of_fails fails_onTokens
  rw [Token.kind, ht] at hkind
  cases hkind

/-- The end is current. -/
theorem isEnded {f : Bool → Parse α} (h : Dies (f true)) : Dies (Parse.isEnded >>= f) := by
  intro s hs b s' hrun
  have hended : s.tokens.isEnded = true := by
    rw [Window.isEnded, Window.kind, Token.kind, hs.lexeme_eq]
    rfl
  rw [bind_eq_of_ok (isEnded_run (s := s)), hended] at hrun
  exact h s hs b s' hrun

theorem isEnded_require {wanted : String} {f : Unit → Parse α} :
    Dies (do if ← Parse.isEnded then Parse.failExpected wanted >>= f else f ()) :=
  isEnded (.ite (fun _ ↦ failExpected.bind) fun h ↦ absurd rfl h)

/-- A result that is there already comes first. -/
theorem settled {found : Option α} (h : ∀ a, Dies (f a)) : Dies (settled found >>= f) := by
  cases found with
  | none => exact failExpected.bind
  | some a => exact h a

/-- Without extensions, no token is replaced. -/
theorem replaceTokens (hctx : ctx.registry.entries = []) {f : Unit → Parse β} (h : Dies (f ())) :
    Dies (ctx.replaceTokens >>= f) :=
  .ask (g := fun _ ↦ ()) (fun _ ↦ replaceTokens_run hctx) fun _ ↦ h

theorem passSeparators {f : Unit → Parse β} (h : Dies (f ())) :
    Dies (Parse.passSeparators >>= f) := by
  refine step (fun s hs u s' hrun ↦ ?_) fun _ ↦ h
  obtain ⟨l, hl, hspent⟩ := hs
  refine ⟨_, ((passSeparators_ensures (.refl hl)).of_ok hrun).shows, ?_⟩
  rwa [hspent.dropWhile Token.isSeparator_of_isEnd]

theorem enterBlock {f : Unit → Parse β} (h : Dies (f ())) : Dies (ctx.enterBlock >>= f) := by
  have hlimit {s s' : ParserState} {depth max : Nat} {what : Nesting} {u : Unit}
      (h : ParseContext.limit depth max what s = .ok u s') : s' = s := by
    rw [ParseContext.limit] at h
    split at h
    · cases h
    · cases h
      rfl
  refine .step (fun s hs u s' hrun ↦ ?_) fun _ ↦ h
  rw [hlimit hrun]
  exact hs

theorem inScope {kind : ScopeKind} {x : Parse α} (h : Dies x) : Dies (Parse.inScope kind x) := by
  refine .step (fun s hs u s' hrun ↦ ?_) fun _ ↦ h.bind
  cases hrun
  exact hs

end Dies

/-! ## Results that are demanded -/

/-- The result of a computation that must have one. -/
def demanded {α : Type} (x : Parse (Option α)) : Parse α := do
  match ← x with
  | none => failExpected "statement"
  | some a => return a

theorem demanded_eq_ok_iff {x : Parse (Option α)} {a : α} :
    demanded x s = .ok a s' ↔ x s = .ok (some a) s' := by
  rw [demanded]
  cases hx : x s with
  | error e s₁ => simp [bind_eq_of_error hx]
  | ok found s₁ =>
    rw [bind_eq_of_ok hx]
    cases found with
    | none => exact iff_of_false (fun h ↦ by cases h) fun h ↦ by cases h
    | some b => exact ⟨fun h ↦ by cases h; rfl, fun h ↦ by cases h; rfl⟩

/-- A missing result is no failure that is excused. -/
theorem eq_error_of_demanded {x : Parse (Option α)} {e : ScriptError}
    (h : demanded x s = .error e s')
    (he : e.IsExcused) : x s = .error e s' := by
  rw [demanded] at h
  cases hx : x s with
  | error e' s₁ =>
    rw [bind_eq_of_error hx] at h
    cases h
    rfl
  | ok found s₁ =>
    rw [bind_eq_of_ok hx] at h
    cases found with
    | none =>
      cases h
      exact he.elim (fun hfuel ↦ absurd (fun h ↦ by cases h) hfuel) False.elim
    | some b => cases h

namespace Follows

variable {x x' : Parse α} {y y' : Parse β} {f : α → Parse γ} {g : β → Parse δ} {V : α → β → Prop}
  {V' : γ → δ → Prop} {P Q : α → Pairing} {P' : γ → Pairing} {a : α} {b : β}

/-- What the second parser finds where the first has found something. -/
theorem ensures_found {x : Parse (Option α)} {y : Parse (Option β)} {s s' t : ParserState}
    (h : Follows R (demanded x) (demanded y) V P) (hst : s.Abreast R t) {a : α}
    (hx : x s = .ok (some a) s') :
    Ensures ScriptError.IsExcused y t fun found t' ↦ ∃ b, found = some b ∧ V a b ∧
    s'.Abreast (P a) t' := by
  have hboth := h s t hst
  rw [demanded_eq_ok_iff.mpr hx] at hboth
  cases hy : demanded y t with
  | error e t' =>
    rw [hy] at hboth
    cases hboth with
    | second he =>
      rw [Ensures, eq_error_of_demanded hy he]
      exact he
  | ok b t' =>
    rw [hy] at hboth
    cases hboth with
    | ok hab => exact .known (demanded_eq_ok_iff.mp hy) ⟨b, rfl, hab⟩

/-- Where a result is demanded, nothing is asked if there is none. -/
theorem demanded_bind {x : Parse (Option α)} {y : Parse (Option β)} {k : Option α → Parse γ}
    {k' : Option β → Parse δ} (h : Follows R (demanded x) (demanded y) V P)
    (hnone : Orderly.Fails (k none))
    (hsome : ∀ a b, V a b → Follows (P a) (k (some a)) (k' (some b)) V' P') :
    Follows R (x >>= k) (y >>= k') V' P' := by
  intro s t hst
  cases hx : x s with
  | error e s' =>
    rw [bind_eq_of_error hx]
    exact .first trivial
  | ok found s' =>
    rw [bind_eq_of_ok hx]
    cases found with
    | none =>
      obtain ⟨e, hrun, -⟩ := hnone s'
      rw [hrun]
      exact .first trivial
    | some a =>
      have hsecond := h.ensures_found hst hx
      cases hy : y t with
      | error e t' =>
        rw [bind_eq_of_error hy]
        exact .second (hsecond.of_error hy)
      | ok found' t' =>
        obtain ⟨b, rfl, hab, hst'⟩ := hsecond.of_ok hy
        rw [bind_eq_of_ok hy]
        exact hsome a b hab s' t' hst'

theorem settled {found : Option α} {found' : Option β}
    (h : ∀ a, found = some a → ∃ b, found' = some b ∧ V a b) :
    Follows R (settled found) (settled found') V fun _ ↦ R := by
  cases found with
  | none => exact failExpected
  | some a =>
    obtain ⟨b, rfl, hab⟩ := h a rfl
    exact .pure hab fun _ _ ↦ id

/-! ## Moving -/

/-- Two runs that are known. -/
theorem agree_of_yields {s t : ParserState} {k k' : List Token} {U : α → Prop} {U' : β → Prop}
    (h : s.Abreast R t) (hx : x.Yields s s k U) (hy : y.Yields t t k' U')
    (hV : ∀ a b, U a → U' b → V a b ∧ P a k k') :
    Agree onward (fun a b s' t' ↦ V a b ∧ s'.Abreast (P a) t') (x s) (y t) := by
  obtain ⟨a, s', hrun, hs, ha⟩ := hx
  obtain ⟨b, t', hrun', ht, hb⟩ := hy
  rw [hrun, hrun']
  exact .ok ⟨(hV a b ha hb).1, h.move hs ht (hV a b ha hb).2⟩

/-- Of the first run it matters only what a success leaves. -/
theorem agree_of_ensures {s t : ParserState} {E : ScriptError → Prop} {U : α → ParserState → Prop}
    (hx : Ensures E x s U)
    (hy : ∀ a s', U a s' → Ensures ScriptError.IsExcused y t fun b t' ↦ V a b ∧
      s'.Abreast (P a) t') :
    Agree onward (fun a b s' t' ↦ V a b ∧ s'.Abreast (P a) t') (x s) (y t) := by
  cases hrun : x s with
  | error e s' => exact .first trivial
  | ok a s' =>
    have hsecond := hy a s' (hx.of_ok hrun)
    cases hrun' : y t with
    | error e t' => exact .second (hsecond.of_error hrun')
    | ok b t' => exact .ok (hsecond.of_ok hrun')

theorem advance (passNewLine : Bool) :
    Follows (JoinsSolid tail) (advance 1 passNewLine) (advance 1 passNewLine) (fun _ _ ↦ True)
      fun _ ↦ JoinsMoved tail passNewLine := by
  intro s t hst
  obtain ⟨l, l', hl, hl', hll'⟩ := hst.shows
  obtain ⟨ht, hstop, hjoins⟩ := hll'
  have hend : (_ : Token).isEnd = false := Bool.eq_false_iff.mpr fun hend ↦ hstop (.inl hend)
  have hend' := ht.isEnd_eq.trans hend
  cases passNewLine with
  | false =>
    exact agree_of_yields hst (advance_yields (.refl hl) hend) (advance_yields (.refl hl') hend')
      fun _ _ _ _ ↦ ⟨trivial, hjoins⟩
  | true =>
    exact agree_of_yields hst (advance_pass_yields (.refl hl) hend)
      (advance_pass_yields (.refl hl') hend')
      fun _ _ _ _ ↦ ⟨trivial, hjoins.lax.dropNewLines⟩

/-- A token at which no statement ends is passed. -/
theorem advance_at {u u' : Token} (hstop : ¬ u.IsStop) (passNewLine : Bool) :
    Follows (JoinsAt tail u u') (Parse.advance 1 passNewLine) (Parse.advance 1 passNewLine)
      (fun _ _ ↦ True) fun _ ↦ JoinsMoved tail passNewLine :=
  (advance passNewLine).of_implies fun _ _ hat ↦ hat.solid hstop

theorem skipNewLines : Follows (JoinsLax tail) skipNewLines skipNewLines (fun _ _ ↦ True)
    fun _ ↦ JoinsLax tail := by
  intro s t hst
  obtain ⟨l, l', hl, hl', hll'⟩ := hst.shows
  exact agree_of_yields hst (skipNewLines_yields (.refl hl)) (skipNewLines_yields (.refl hl'))
    fun _ _ _ _ ↦ ⟨trivial, hll'.dropNewLines⟩

theorem advance_two : Follows (JoinsFar tail 2) (Parse.advance 2 false) (Parse.advance 2 false)
    (fun _ _ ↦ True) fun _ ↦ Joins tail := by
  intro s t hst
  obtain ⟨l, l', hl, hl', hll'⟩ := hst.shows
  obtain _ | ⟨hu, hu_stop, hrest⟩ := hll'
  obtain _ | ⟨hv, hv_stop, hjoins⟩ := hrest
  cases hjoins with
  | here hjoins =>
    have hend := Bool.eq_false_iff.mpr fun hend ↦ hv_stop (.inl hend)
    exact agree_of_yields hst (advance_two_yields (.refl hl) hend)
      (advance_two_yields (.refl hl') (hv.isEnd_eq.trans hend)) fun _ _ _ _ ↦ ⟨trivial, hjoins⟩

theorem passSeparators : Follows (JoinsApart tail) passSeparators passSeparators (fun _ _ ↦ True)
    fun _ ↦ JoinsFresh tail := by
  intro s t hst
  obtain ⟨l, l', hl, hl', hll'⟩ := hst.shows
  exact agree_of_ensures (passSeparators_ensures (.refl hl)) fun _ _ hs ↦
    ((passSeparators_ensures (.refl hl')).loosen fun _ ↦ .inl).mono fun _ _ ht ↦
      ⟨trivial, hst.move hs ht hll'⟩

section

variable (htail : IsTailOfTokens tail)

include htail

theorem is (htext : Lexeme.IsMark text) :
    Follows (Joins tail) (Parse.is text) (Parse.is text) Eq fun _ ↦ Joins tail := by
  have h := is_cases (f := fun found ↦ (Pure.pure found : Parse Bool)) (g := Pure.pure) htail htext
    (.pure (V := Eq) (P := fun _ ↦ Joins tail) rfl fun _ _ ↦ JoinsSolid.joins)
    (.pure rfl fun _ _ ↦ id)
  rwa [bind_pure] at h

theorem expect (htext : Lexeme.IsMark text) (passNewLine : Bool) :
    Follows (Joins tail) (expect text passNewLine) (expect text passNewLine) (fun _ _ ↦ True)
      fun _ ↦ JoinsMoved tail passNewLine := by
  rw [expect_eq]
  exact is_branch htail htext (advance passNewLine) (of_fails fails_onTokens)

theorem expectName (passNewLine : Bool) :
    Follows (Joins tail) (expectName passNewLine) (expectName passNewLine) Eq
      fun _ ↦ JoinsMoved tail passNewLine := by
  rw [expectName_eq]
  refine current_bind htail fun t t' hmeets ↦ ite (hmeets.kind_iff (by simp) (by simp))
    (fun hkind ↦ ?_)
    fun _ ↦ of_fails fails_onTokens
  have hstop : ¬ t.IsStop := fun hstop ↦ hstop.kind_ne (by simp) (by simp) hkind
  have htext : t'.text = t.text := by
    rcases hmeets with ⟨hsimilar, -⟩ | ⟨h, -⟩
    · exact hsimilar.lexeme.text_eq (by simp [show t.lexeme.kind = .ident from hkind])
    · exact absurd h hstop
  exact (advance_at hstop passNewLine).bind fun _ _ _ ↦ .pure htext.symm fun _ _ ↦ id

/-- Behind line breaks a mark is required. -/
theorem expect_lax (htext : Lexeme.IsMark text) (passNewLine : Bool) :
    Follows (JoinsLax tail) (Parse.expect text passNewLine) (Parse.expect text passNewLine)
      (fun _ _ ↦ True) fun _ ↦ JoinsMoved tail passNewLine :=
  .of_lax (expect htail htext passNewLine) (.expect htext passNewLine)

/-- Behind line breaks a name is required. -/
theorem expectName_lax (passNewLine : Bool) :
    Follows (JoinsLax tail) (Parse.expectName passNewLine) (Parse.expectName passNewLine) Eq
      fun _ ↦ JoinsMoved tail passNewLine :=
  .of_lax (expectName htail passNewLine) (.expectName passNewLine)

/-- A comma, or the mark that closes the list, in front of what follows. -/
theorem listSeparator {close : String} (hclose : Lexeme.IsMark close) {x : Parse α} {y : Parse β}
    {V : α → β → Prop} {P : α → Pairing} (h : Follows (JoinsLax tail) x y V P) :
    Follows (JoinsLax tail) (do
      if ← Parse.is "," then
        Parse.advance 1 true
        x
      else if !(← Parse.is close) then
        Parse.failExpected close
        x
      else x) (do
      if ← Parse.is "," then
        Parse.advance 1 true
        y
      else if !(← Parse.is close) then
        Parse.failExpected close
        y
      else y) V P := by
  refine .of_lax ?_ (.is_branch (by decide) (.is_require hclose))
  refine .is_branch htail (by decide) ((Follows.advance true).bind fun _ _ _ ↦ h) ?_
  exact .is_require htail hclose Orderly.fails_failExpected (h.of_implies fun _ _ hs ↦ hs.joins.lax)

theorem endStatement : Follows (Joins tail) endStatement endStatement (fun _ _ ↦ True)
    fun _ ↦ JoinsBehind tail := by
  intro s t hst
  obtain ⟨u, u', rest, rest', hl, hl', hmeets, hat⟩ := hst.exists_current htail
  refine agree_of_ensures (endStatement_ensures (.refl hl)) fun _ s' ⟨hends, hs⟩ ↦ ?_
  have hends' := hmeets.endsStatement_eq.trans hends
  refine ((endStatement_ensures (.refl hl')).loosen fun _ h ↦ absurd (hends'.symm.trans h)
    (by simp)).mono
    fun _ t' ht ↦ ⟨trivial, hst.move hs ht.2 (hat.joins.behind_separator htail)⟩

/-- A word that the first parser finds, the second does. -/
theorem continuesWith (htext : Lexeme.IsMark text) :
    Follows (Joins tail) (continuesWith text) (continuesWith text) (fun a b ↦ a = true → b = true)
      fun a l l' ↦ a = true → JoinsSolid tail l l' := by
  intro s t hst
  obtain ⟨u, u', rest, rest', hl, hl', -, hat⟩ := hst.exists_current htail
  obtain ⟨hbreaks, hbreaks'⟩ := hat.joins.breaks htail
  refine agree_of_yields hst
    (continuesWith_yields (.refl hl) fun h ↦
      htext.is_lineBreak (hbreaks u (List.mem_cons_self ..) h))
    (continuesWith_yields (.refl hl') fun h ↦
      htext.is_lineBreak (hbreaks' u' (List.mem_cons_self ..) h)) ?_
  rintro a b ha hb
  refine ⟨fun hfound ↦ hb.trans (hat.joins.leadsTo htext (ha ▸ hfound)).1, fun hfound ↦ ?_⟩
  obtain ⟨hleads, hsolid⟩ := hat.joins.leadsTo htext (ha ▸ hfound)
  rwa [if_pos hleads, if_pos (ha ▸ hfound)]

/-- Both parsers find the word that begins an alternative branch, or neither does. -/
theorem continuesWith_else :
    Follows (JoinsBehind tail) (Parse.continuesWith "else") (Parse.continuesWith "else") Eq
      fun a l l' ↦ JoinsBehind tail l l' ∧ (a = true → JoinsSolid tail l l') := by
  intro s t hst
  obtain ⟨l, l', hl, hl', hll'⟩ := hst.shows
  obtain ⟨u, rest, rfl⟩ := List.exists_cons_of_ne_nil hl.closed.ne_nil
  obtain ⟨u', rest', rfl⟩ := List.exists_cons_of_ne_nil hl'.closed.ne_nil
  have hbreaks := hll'.breaks htail
  have hmark : Lexeme.IsMark "else" := by decide
  obtain ⟨heq, hsolid⟩ := hll'.leadsTo_else htail
  refine agree_of_yields hst
    (continuesWith_yields (.refl hl) fun h ↦
      hmark.is_lineBreak (hbreaks.1 u (List.mem_cons_self ..) h))
    (continuesWith_yields (.refl hl') fun h ↦
      hmark.is_lineBreak (hbreaks.2 u' (List.mem_cons_self ..) h)) ?_
  rintro a b ha hb
  rw [heq, ← ha] at hb
  rw [heq, ← ha]
  refine ⟨hb.symm, ?_⟩
  cases a with
  | true => exact ⟨(hsolid ha.symm).joins.behind, fun _ ↦ hsolid ha.symm⟩
  | false => exact ⟨hll', fun h ↦ absurd h (by simp)⟩

/-- The token so many places ahead. -/
theorem peek {n : Nat} (hn : n ≤ Window.minLookahead) :
    Follows (JoinsFar tail n) (peek n false) (peek n false) Token.Meets
      fun u l l' ↦ JoinsFar tail n l l' ∧ (¬ u.IsStop → JoinsFar tail (n + 1) l l') := by
  intro s t hst
  obtain ⟨l, l', hl, hl', hll'⟩ := hst.shows
  obtain ⟨u, u', hmeets, hu, hu', hfar⟩ := hll'.exists_get htail
  obtain ⟨w, hrun, hshows⟩ := hl.peek_stay hn hu
  obtain ⟨w', hrun', hshows'⟩ := hl'.peek_stay hn hu'
  refine agree_of_yields hst
    (onTokens_yields (.refl hl) ⟨u, w, hrun, hshows, rfl⟩ : Parse.Yields _ _ _ _ (· = u))
    (onTokens_yields (.refl hl') ⟨u', w', hrun', hshows', rfl⟩ : Parse.Yields _ _ _ _ (· = u')) ?_
  rintro _ _ rfl rfl
  exact ⟨hmeets, hll', hfar⟩

/-- Where the first list has not come to its end, the second has not. -/
theorem isEnded_require {z z' : Parse Unit} (hz : Orderly.Fails z) {f : Unit → Parse γ}
    {g : Unit → Parse δ} {V : γ → δ → Prop} {P : γ → Pairing}
    (h : Follows (Joins tail) (f ()) (g ()) V P) :
    Follows (Joins tail) (do if ← Parse.isEnded then z >>= f else f ())
      (do if ← Parse.isEnded then z' >>= g else g ()) V P := by
  intro s t hst
  obtain ⟨u, u', rest, rest', hl, hl', -, hat⟩ := hst.exists_current htail
  rw [bind_eq_of_ok (isEnded_run (s := s)), bind_eq_of_ok (isEnded_run (s := t)),
    (ParserState.At.refl hl).isEnded_eq, (ParserState.At.refl hl').isEnded_eq]
  exact Follows.require hz hat.joins.isEnd_of (fun _ ↦ h) s t hst

end

theorem isEnded_solid {f : Bool → Parse γ} {g : Bool → Parse δ} {V : γ → δ → Prop} {P : γ → Pairing}
    (h : Follows (JoinsSolid tail) (f false) (g false) V P) :
    Follows (JoinsSolid tail) (Parse.isEnded >>= f) (Parse.isEnded >>= g) V P := by
  intro s t hst
  obtain ⟨l, l', hl, hl', hll'⟩ := hst.shows
  obtain ⟨ht, hstop, -⟩ := hll'
  have hend := Bool.eq_false_iff.mpr fun hend ↦ hstop (.inl hend)
  rw [bind_eq_of_ok (isEnded_run (s := s)), bind_eq_of_ok (isEnded_run (s := t)),
    (ParserState.At.refl hl).isEnded_eq, (ParserState.At.refl hl').isEnded_eq, ht.isEnd_eq, hend]
  exact h s t hst

theorem isEnded {e : Token} (he : e.isEnd = true) :
    Follows (Joins [e]) Parse.isEnded Parse.isEnded Eq fun _ ↦ Joins [e] := by
  intro s t hst
  obtain ⟨u, u', rest, rest', hl, hl', -, hat⟩ := hst.exists_current (isTailOfTokens_singleton he)
  rw [isEnded_run, isEnded_run, (ParserState.At.refl hl).isEnded_eq,
    (ParserState.At.refl hl').isEnded_eq]
  exact .ok ⟨(hat.joins.isEnd_eq he).symm, hst⟩

/-! ## Names and counters -/

theorem limit (depth max : Nat) (what : Nesting) :
    Follows R (ParseContext.limit depth max what) (ParseContext.limit depth max what)
      (fun _ _ ↦ True)
      fun _ ↦ R :=
  ite Iff.rfl (fun _ ↦ of_fails (Orderly.fails_fail id)) fun _ ↦ .pure trivial fun _ _ ↦ id

/-- Something is counted, the same on both sides. -/
theorem count {m : ParserState → ParserState}
    (counted : Nat × Nat × Nat × Nat → Nat × Nat × Nat × Nat)
    (htokens : ∀ s, (m s).tokens = s.tokens) (hsymbols : ∀ s, (m s).symbols = s.symbols)
    (hdepths : ∀ s, (m s).depths = counted s.depths) :
    Follows R (modify m : Parse Unit) (modify m) (fun _ _ ↦ True) fun _ ↦ R := by
  refine fun s t hst ↦ .ok ⟨trivial, ?_, ?_, ?_⟩
  · rw [htokens, htokens]
    exact hst.shows
  · rw [hsymbols, hsymbols]
    exact hst.symbols
  · rw [hdepths, hdepths, hst.depths]

/-- What is counted is limited, with the same outcome on both sides. -/
theorem enter {m : ParserState → ParserState} {max : Nat} {what : Nesting}
    (counted : Nat × Nat × Nat × Nat → Nat × Nat × Nat × Nat) (depth : Nat × Nat × Nat × Nat → Nat)
    (htokens : ∀ s, (m s).tokens = s.tokens) (hsymbols : ∀ s, (m s).symbols = s.symbols)
    (hdepths : ∀ s, (m s).depths = counted s.depths) :
    Follows R (do modify m; ParseContext.limit (depth (← get).depths) max what)
      (do modify m; ParseContext.limit (depth (← get).depths) max what)
      (fun _ _ ↦ True) fun _ ↦ R := by
  refine (count counted htokens hsymbols hdepths).bind fun _ _ _ s t hst ↦ ?_
  rw [get_bind_run, get_bind_run, hst.depths]
  exact limit _ _ _ s t hst

theorem enterBlock : Follows R ctx.enterBlock ctx.enterBlock (fun _ _ ↦ True) fun _ ↦ R :=
  enter (fun d ↦ (d.1 + 1, d.2)) Prod.fst (fun _ ↦ rfl) (fun _ ↦ rfl) fun _ ↦ rfl

theorem enterCall : Follows R ctx.enterCall ctx.enterCall (fun _ _ ↦ True) fun _ ↦ R :=
  enter (fun d ↦ (d.1, d.2.1 + 1, d.2.2)) (fun d ↦ d.2.1) (fun _ ↦ rfl) (fun _ ↦ rfl) fun _ ↦ rfl

theorem enterParen : Follows R ctx.enterParen ctx.enterParen (fun _ _ ↦ True) fun _ ↦ R :=
  enter (fun d ↦ (d.1, d.2.1, d.2.2.1 + 1, d.2.2.2)) (fun d ↦ d.2.2.1) (fun _ ↦ rfl) (fun _ ↦ rfl)
    fun _ ↦ rfl

theorem leaveBlock : Follows R ParseContext.leaveBlock ParseContext.leaveBlock
    (fun _ _ ↦ True) fun _ ↦ R :=
  count (fun d ↦ (d.1 - 1, d.2)) (fun _ ↦ rfl) (fun _ ↦ rfl) fun _ ↦ rfl

theorem leaveCall : Follows R ParseContext.leaveCall ParseContext.leaveCall
    (fun _ _ ↦ True) fun _ ↦ R :=
  count (fun d ↦ (d.1, d.2.1 - 1, d.2.2)) (fun _ ↦ rfl) (fun _ ↦ rfl) fun _ ↦ rfl

theorem leaveParen : Follows R ParseContext.leaveParen ParseContext.leaveParen
    (fun _ _ ↦ True) fun _ ↦ R :=
  count (fun d ↦ (d.1, d.2.1, d.2.2.1 - 1, d.2.2.2)) (fun _ ↦ rfl) (fun _ ↦ rfl) fun _ ↦ rfl

/-- The names are changed, alike up to positions. -/
theorem modifySymbols {h k : SymbolTable → SymbolTable}
    (hhk : ∀ a b : SymbolTable, b.unplaced = a.unplaced → (k b).unplaced = (h a).unplaced) :
    Follows R (modifySymbols h) (modifySymbols k) (fun _ _ ↦ True) fun _ ↦ R :=
  fun _ _ hst ↦ .ok ⟨trivial, hst.shows, hhk _ _ hst.symbols, hst.depths⟩

theorem pushScope (kind : ScopeKind) :
    Follows R (pushScope kind) (pushScope kind) Eq fun _ ↦ R := by
  intro s t hst
  have hpush : (t.symbols.push kind).1 = (s.symbols.push kind).1 ∧
      (t.symbols.push kind).2.unplaced = (s.symbols.push kind).2.unplaced := by
    have h := congrArg (SymbolTable.push · kind) hst.symbols
    simpa [SymbolTable.push_unplaced] using h
  exact .ok ⟨hpush.1.symm, hst.shows, hpush.2, hst.depths⟩

theorem popScope : Follows R popScope popScope (fun _ _ ↦ True) fun _ ↦ R := by
  intro s t hst
  have hpop := congrArg SymbolTable.pop hst.symbols
  rw [SymbolTable.pop_unplaced, SymbolTable.pop_unplaced] at hpop
  rw [Parse.popScope, get_bind_run, get_bind_run]
  cases hs : s.symbols.pop with
  | error cause => exact .first trivial
  | ok popped =>
    rw [hs] at hpop
    cases ht : t.symbols.pop with
    | error cause =>
      rw [ht] at hpop
      cases hpop
    | ok popped' =>
      rw [ht] at hpop
      injection hpop with hpop
      exact .ok ⟨trivial, hst.shows, congrArg Prod.snd hpop, hst.depths⟩

/-! ## Inside other computations -/

theorem deeper (h : Follows R x y V P) : Follows R (ctx.deeper x) (ctx.deeper y) V P := by
  intro s t hst
  have hin : ParserState.Abreast R { s with expressionDepth := s.expressionDepth + 1 }
      { t with expressionDepth := t.expressionDepth + 1 } :=
    ⟨hst.shows, hst.symbols,
      congrArg (fun d : Nat × Nat × Nat × Nat ↦ (d.1, d.2.1, d.2.2.1, d.2.2.2 + 1)) hst.depths⟩
  have hlimited : Follows R (do
      ParseContext.limit (← get).expressionDepth ctx.limits.maxExpressionDepth .expression
      x) (do
      ParseContext.limit (← get).expressionDepth ctx.limits.maxExpressionDepth .expression
      y) V P := by
    intro s t hst
    have hdepth : t.expressionDepth = s.expressionDepth := congrArg (fun d ↦ d.2.2.2) hst.depths
    rw [get_bind_run, get_bind_run, hdepth]
    exact (limit _ _ _).bind (fun _ _ _ ↦ h) s t hst
  rw [deeper_run, deeper_run]
  refine (hlimited _ _ hin).mapState fun a b s' t' hab ↦ ⟨hab.1, hab.2.shows, hab.2.symbols, ?_⟩
  exact congrArg (fun d : Nat × Nat × Nat × Nat ↦ (d.1, d.2.1, d.2.2.1, d.2.2.2 - 1)) hab.2.depths

/-- Other tokens are parsed on their own. -/
theorem aside {list list' : List Token} (hclosed : Closed list) (hclosed' : Closed list')
    (hlists : R₁ (list.filter Window.isSignificant) (list'.filter Window.isSignificant))
    {P : α → Pairing} (h : Follows R₁ x y V P) :
    Follows R (aside list x) (aside list' y) V fun _ ↦ R := by
  intro s t hst
  rw [aside_run, aside_run]
  have hin : ParserState.Abreast R₁ { s with tokens := .ofTokens list s.tokens.lookahead }
      { t with tokens := .ofTokens list' t.tokens.lookahead } :=
    ⟨⟨_, _, Window.ofTokens_shows hclosed _, Window.ofTokens_shows hclosed' _, hlists⟩, hst.symbols,
      hst.depths⟩
  exact (h _ _ hin).mapState fun a b s' t' hab ↦ ⟨hab.1, hst.shows, hab.2.symbols, hab.2.depths⟩

/-- A computation in a new scope. -/
theorem inScope {kind : ScopeKind} (h : Follows R x y V P) :
    Follows R (Parse.inScope kind x) (Parse.inScope kind y) (fun p p' ↦ V p.1 p'.1 ∧ p'.2 = p.2)
      fun p ↦ P p.1 := by
  refine (Follows.pushScope kind).bind fun scope scope' hscope ↦ h.bind fun a b hab ↦ ?_
  exact Follows.popScope.bind fun _ _ _ ↦ .pure ⟨hab, hscope.symm⟩ fun _ _ ↦ id

/-- Without extensions, no node is built by one. -/
theorem build?_bind (hctx : ctx.registry.entries = []) {kind : ExtensionKind}
    {f : Option Expr → Parse α} {g : Option Expr → Parse β} (h : Follows R (f none) (g none) V P) :
    Follows R (ctx.build? sub₁ kind >>= f) (ctx.build? sub₂ kind >>= g) V P := by
  intro s t hst
  rw [bind_eq_of_ok (build?_run hctx sub₁ kind), bind_eq_of_ok (build?_run hctx sub₂ kind)]
  exact h s t hst

theorem replaceTokens (hctx : ctx.registry.entries = []) :
    Follows R ctx.replaceTokens ctx.replaceTokens (fun _ _ ↦ True) fun _ ↦ R :=
  .ask (fun _ ↦ replaceTokens_run hctx) (fun _ ↦ replaceTokens_run hctx) fun _ _ _ ↦ trivial

end Follows

/-! ## Progress and loops -/

/-- Whether a parser has moved changes nothing, and a failure is excused. -/
theorem requireProgress_ensures (before : Nat × Nat) (s : ParserState) :
    Ensures ScriptError.IsExcused (requireProgress before) s fun _ s' ↦ s' = s := by
  rw [Ensures, requireProgress_run]
  by_cases hstuck :
      ((s.tokens.current.index, s.tokens.current.offset) = before && !s.tokens.isEnded) = true
  · rw [if_pos hstuck]
    exact .inr trivial
  · rw [if_neg hstuck]

theorem Follows.requireProgress (before before' : Nat × Nat) :
    Follows R (Parse.requireProgress before) (Parse.requireProgress before')
      (fun _ _ ↦ True) fun _ ↦ R :=
  fun s t hst ↦ agree_of_ensures (requireProgress_ensures before s) fun _ _ hs ↦
    (requireProgress_ensures before' t).mono fun _ _ ht ↦ ⟨trivial, by rw [hs, ht]; exact hst⟩

/-- How the rounds of two loops go together. -/
inductive Round.Matches {ε ζ : Type} (V : α → β → Prop) (W : ε → ζ → Prop) :
    Round α ε → Round β ζ → Prop
  /-- Both loops go on. -/
  | again {a : α} {b : β} (h : V a b) : Matches V W (.again a) (.again b)
  /-- Both loops are over. -/
  | done {c : ε} {d : ζ} (h : W c d) : Matches V W (.done c) (.done d)

/-- What two loops have in common behind a round. -/
def Round.pairing {ε : Type} (P : α → Pairing) (R : Pairing) : Round α ε → Pairing
  | .again a => P a
  | .done _ => R

/-- Two loops go together as their rounds do. -/
theorem Follows.rounded {ε ζ : Type} {V : α → β → Prop} {W : ε → ζ → Prop}
    {P : α → Pairing} {R : Pairing}
    {round : α → Parse (Round α ε)} {round' : β → Parse (Round β ζ)}
    (h : ∀ a b, V a b → Follows (P a) (round a) (round' b) (Round.Matches V W) (Round.pairing P R))
    (m n : Nat) {a : α} {b : β} (hab : V a b) :
    Follows (P a) (Parse.rounded round m a) (Parse.rounded round' n b) W fun _ ↦ R := by
  induction m generalizing n a b with
  | zero => exact .of_fails (Orderly.fails_fail id)
  | succ m ih =>
    cases n with
    | zero => exact .short
    | succ n =>
      refine (h a b hab).bind fun next next' hnext ↦ ?_
      cases hnext with
      | again hab => exact ih n hab
      | done hcd => exact .pure hcd fun _ _ ↦ id

end Parse

end ScriptFront
