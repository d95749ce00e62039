import ScriptFront.Proofs.Extension.Claims
import ScriptFront.Proofs.Extension.Walks
import ScriptFront.Proofs.Window.Refills

/-!
# A wider window loses no match

A walk through a pattern learns of the reach of its window in two ways only. It asks for a token
beyond the reach, and then it is marked for good as one that went too far, which is no match. And it
bounds the number of names in a list by the reach, but a list that comes to this bound has gone too
far before. So a walk that ends without the mark has not learnt of the reach at all: on a window at
the same place that sees further it goes the same way, unless the lexer fails on tokens that only
the wider window pulls.
-/

namespace ScriptFront

open Window (Firm Refilled)

variable {F : ScriptError → Prop} {v v' w w' : Window Lexer} {count : Nat}

/-! ## Windows at the same place -/

/-- Two windows await the first tokens of one and the same stream, and the second sees at least as
far. -/
structure Window.Abreast (v w : Window Lexer) : Prop where
  /-- The first window is firm. -/
  firm : Firm ScriptError.IsOfLexer v
  /-- So is the second. -/
  firm_wide : Firm ScriptError.IsOfLexer w
  /-- The second sees at least as far. -/
  lookahead_le : v.lookahead ≤ w.lookahead
  /-- There is a stream of tokens before both. -/
  stream : ∃ stream : List Token, (∀ tokens, v.Awaits tokens → tokens <+: stream) ∧
    ∀ tokens, w.Awaits tokens → tokens <+: stream

/-- Windows that stream the same tokens are at the same place. -/
theorem Window.Streams.abreast {tokens : List Token} (hv : v.Streams tokens) (hw : w.Streams tokens)
    (hfirm : Firm ScriptError.IsOfLexer v) (hfirm' : Firm ScriptError.IsOfLexer w)
    (hle : v.lookahead ≤ w.lookahead) : v.Abreast w :=
  ⟨hfirm, hfirm', hle, tokens, fun _ ↦ hv.awaits_iff.mp, fun _ ↦ hw.awaits_iff.mp⟩

/-- So are windows on one source, whatever their reach. -/
theorem Window.exists_ofSource_abreast {lx : Lexer} {tokens : List Token} {k k' : Nat}
    (hopen : lx.IsOpen)
    (htame : lx.dialect.IsTame) (hdelivers : lx.Delivers tokens) (hclosed : Closed tokens)
    (hle : k ≤ k') :
    ∃ v w, ofSource lx k = .ok v ∧ ofSource lx k' = .ok w ∧ v.Abreast w ∧ w.IsErrorFree := by
  obtain ⟨v, hv, hstreams, -, hlook⟩ := exists_ofSource_streams hdelivers.supplies hclosed k
  obtain ⟨w, hw, hstreams', -, hlook'⟩ := exists_ofSource_streams hdelivers.supplies hclosed k'
  have hfirm := ((ofSource_ensures hopen htame k).1 v hv).1.firm
  have hfirm' := ((ofSource_ensures hopen htame k').1 w hw).1.firm
  refine ⟨v, w, hv, hw, hstreams.abreast hstreams' hfirm hfirm' ?_, hstreams'.isErrorFree⟩
  rw [hlook, hlook']
  omega

theorem Window.Abreast.refilled (h : v.Abreast w) (hv : Refilled v v') (hw : Refilled w w') :
    v'.Abreast w' := by
  obtain ⟨stream, hstream, hstream'⟩ := h.stream
  refine ⟨h.firm.refilled hv, h.firm_wide.refilled hw, ?_, stream, fun tokens htokens ↦ ?_,
    fun tokens htokens ↦ ?_⟩
  · rw [hv.lookahead_eq h.firm, hw.lookahead_eq h.firm_wide]
    exact h.lookahead_le
  · exact hstream tokens ((hv.awaits_iff h.firm).mp htokens)
  · exact hstream' tokens ((hw.awaits_iff h.firm_wide).mp htokens)

theorem Window.Abreast.current_eq (h : v.Abreast w) : w.current = v.current := by
  obtain ⟨stream, hstream, hstream'⟩ := h.stream
  obtain ⟨t, ahead, hv⟩ := List.exists_cons_of_ne_nil h.firm.held
  obtain ⟨t', ahead', hw⟩ := List.exists_cons_of_ne_nil h.firm_wide.held
  obtain ⟨rest, rfl⟩ := hstream _ ⟨v, .refl, List.prefix_refl _⟩
  obtain ⟨rest', hsame⟩ := hstream' _ ⟨w, .refl, List.prefix_refl _⟩
  rw [hv, hw, List.cons_append, List.cons_append, List.cons.injEq] at hsame
  rw [Window.current, Window.current, hv, hw]
  exact hsame.1

/-- What is seen from the first window is seen from the second, unless a refill of this one
fails. -/
theorem Window.Abreast.peek (h : v.Abreast w) (hcount : count ≤ v.lookahead) {t : Token}
    (hpeek : Window.peek count false v = .ok t v') :
    Ensures (fun e ↦ e.IsOfLexer ∧ w.RefillFails e) (Window.peek count false) w fun u w' ↦
      u = t ∧ Refilled v v' ∧ Refilled w w' := by
  obtain ⟨hv, place, hwalk, ht⟩ := (h.firm.peek_refills hcount false).of_ok hpeek
  refine (h.firm_wide.peek_refills (hcount.trans h.lookahead_le) false).mono ?_
  rintro u w' ⟨hw, place', hwalk', hu⟩
  obtain ⟨stream, hstream, hstream'⟩ := h.stream
  have hahead := hstream _ ⟨v', hv, List.prefix_refl _⟩
  have hahead' := hstream' _ ⟨w', hw, List.prefix_refl _⟩
  obtain rfl := (hwalk.mono hahead).unique (hwalk'.mono hahead')
  have hsame :=
    (Window.getElem?_of_isPrefix hahead ht).symm.trans (Window.getElem?_of_isPrefix hahead' hu)
  exact ⟨(Option.some.inj hsame).symm, hv, hw⟩

namespace Matching

/-! ## Walks that do not go too far -/

variable {narrow : Nat} {s s' t : State} {α β : Type}

/-- Two walks that have come equally far, the second on a window that sees at least as far, and
whose refills fail with `F` only. -/
structure Wider (narrow : Nat) (F : ScriptError → Prop) (s t : State) : Prop where
  /-- The windows are at the same place. -/
  abreast : s.window.Abreast t.window
  /-- The first one sees as far as this. -/
  lookahead_eq : s.window.lookahead = narrow
  /-- What refills of the second one fail with. -/
  fails : ∀ e, t.window.RefillFails e → F e
  /-- Everything else is the same. -/
  rest : t = { s with window := t.window }

/-- A walk that went too far stays marked. If the first walk ends without the mark, then so does the
second one, with the same result, or a refill fails. -/
structure Widens (narrow : Nat) (F : ScriptError → Prop) (α : Type) (x y : MatchM α) : Prop where
  /-- The mark is never taken back. -/
  within : ∀ {s a s'}, x s = .ok a s' → s'.overflowed = false → s.overflowed = false
  /-- The second walk follows the first one. -/
  follows : ∀ {s t a s'}, Wider narrow F s t → x s = .ok a s' → s'.overflowed = false →
    Ensures F y t fun b t' ↦ b = a ∧ Wider narrow F s' t'

theorem widens_pure (a : α) : Widens narrow F α (pure a) (pure a) := by
  refine ⟨?_, ?_⟩
  · rintro s _ _ ⟨⟩
    exact id
  · rintro s t _ _ hst ⟨⟩ -
    exact .pure ⟨rfl, hst⟩

theorem Widens.bind {x y : MatchM α} {f g : α → MatchM β} (h : Widens narrow F α x y)
    (hfg : ∀ a, Widens narrow F β (f a) (g a)) : Widens narrow F β (x >>= f) (y >>= g) := by
  refine ⟨fun hrun hwithin ↦ ?_, fun hst hrun hwithin ↦ ?_⟩
  · obtain ⟨a, s₁, hx, hf⟩ := bind_eq_ok_iff.mp hrun
    exact h.within hx ((hfg a).within hf hwithin)
  · obtain ⟨a, s₁, hx, hf⟩ := bind_eq_ok_iff.mp hrun
    refine (h.follows hst hx ((hfg a).within hf hwithin)).bind ?_
    rintro _ t₁ ⟨rfl, hst₁⟩
    exact (hfg _).follows hst₁ hf hwithin

/-- A look beyond the reach leaves the mark, and any other is the same on the wider window. -/
theorem widens_peek (n : Nat) : Widens narrow F _ (peek n) (peek n) := by
  refine ⟨fun {s a s'} hrun hwithin ↦ ?_, fun {s t a s'} hst hrun hwithin ↦ ?_⟩
  · unfold peek at hrun
    split at hrun
    · cases hrun
      exact hwithin
    · split at hrun
      · cases hrun
        cases hwithin
      · cases hrun
  · by_cases hfar : s.window.lookahead < n
    · rw [peek_of_far hfar] at hrun
      cases hrun
      cases hwithin
    · have hreach := Nat.le_of_not_lt hfar
      have hsteady := hst.abreast.firm.peek_refills hreach false
      cases hpeek : Window.peek n false s.window with
      | error e v =>
        rw [peek_of_error (hsteady.of_error hpeek).1 hpeek] at hrun
        cases hrun
      | ok u v =>
        rw [peek_of_ok hpeek] at hrun
        cases hrun
        have hwide := hst.abreast.peek hreach hpeek
        cases hpeek' : Window.peek n false t.window with
        | error e w =>
          obtain ⟨he, hfails⟩ := hwide.of_error hpeek'
          rw [Ensures, peek_of_error he hpeek']
          exact hst.fails e hfails
        | ok u' w =>
          obtain ⟨rfl, hv, hw⟩ := hwide.of_ok hpeek'
          refine .known (peek_of_ok hpeek') ⟨rfl, hst.abreast.refilled hv hw, ?_, ?_, ?_⟩
          · exact (hv.lookahead_eq hst.abreast.firm).trans hst.lookahead_eq
          · exact fun e he ↦ hst.fails e (he.of_refilled hw)
          · rw [hst.rest]

theorem isCongruence_widens : IsCongruence (Widens narrow F) where
  pure := widens_pure
  bind := Widens.bind
  peek := widens_peek
  get_bind h := by
    refine ⟨fun {s _ _} hrun ↦ (h s s.window).within hrun, fun {s t _ _} hst hrun hwithin ↦
      .get_bind ?_⟩
    have hfollows := (h s t.window).follows hst hrun hwithin
    rwa [← hst.rest] at hfollows
  modify {m} hm hwindow hover := by
    refine ⟨?_, ?_⟩
    · rintro s _ _ ⟨⟩ hwithin
      exact (hover s).symm.trans hwithin
    · rintro s t _ _ hst ⟨⟩ -
      refine .known rfl ⟨rfl, ?_, ?_, ?_, ?_⟩
      · rw [hwindow, hwindow]
        exact hst.abreast
      · rw [hwindow]
        exact hst.lookahead_eq
      · rw [hwindow]
        exact hst.fails
      · rw [hwindow, ← hm, ← hst.rest]

/-! ## Lists of names -/

/-- Once the names may be as many as the reach admits, more fuel changes nothing. -/
theorem moreNames_eq_of_le {bound fuel fuel' : Nat} {names : List String} (hs : Steady bound s)
    (hreach : 2 * names.length ≤ bound + 2) (hfuel : bound + 2 ≤ fuel + names.length)
    (hle : fuel ≤ fuel') :
    moreNames fuel' names s = moreNames fuel names s := by
  induction fuel generalizing fuel' names s with
  | zero => omega
  | succ fuel ih =>
    obtain ⟨fuel', rfl⟩ : ∃ n, fuel' = n + 1 := ⟨fuel' - 1, by omega⟩
    rw [moreNames, moreNames]
    cases hcomma : peekAfter (2 * names.length - 1) s with
    | error e s₁ => rw [bind_eq_of_error hcomma, bind_eq_of_error hcomma]
    | ok comma s₁ =>
      have hs₁ := hs.goes ((peekAfter_looks hs _).of_ok hcomma).toGoes
      rw [bind_eq_of_ok hcomma, bind_eq_of_ok hcomma, ite_run, ite_run]
      refine ite_congr rfl (fun _ ↦ rfl) fun _ ↦ ?_
      cases hnext : peekAfter (2 * names.length - 1 + 1) s₁ with
      | error e s₂ => rw [bind_eq_of_error hnext, bind_eq_of_error hnext]
      | ok next s₂ =>
        rw [bind_eq_of_ok hnext, bind_eq_of_ok hnext]
        cases next with
        | none => rfl
        | some next =>
          have hs₂ := hs₁.goes ((peekAfter_looks hs₁ _).of_ok hnext).toGoes
          -- the token that was seen is within reach, and so are all names up to it
          have hseen : s₁.offset + (2 * names.length - 1 + 1) ≤ bound := by
            by_contra hfar
            rw [peekAfter, get_bind_run, peek_of_far (by rw [hs₁.lookahead_eq]; omega)] at hnext
            cases hnext
          dsimp only
          rw [ite_run, ite_run]
          refine ite_congr rfl (fun _ ↦ rfl) fun _ ↦ ih hs₂ ?_ ?_ (by omega)
          · rw [List.length_cons]
            omega
          · rw [List.length_cons]
            omega

theorem isWalkCongruence_widens : IsWalkCongruence (Widens narrow F) := by
  refine ⟨isCongruence_widens, fun first ↦ ?_⟩
  -- the same fuel on both sides
  have hsame (fuel : Nat) : Widens narrow F _
      (do
        let names := (← moreNames fuel [first.text]).reverse
        return (⟨2 * names.length - 1, ", ".intercalate names,
          some (.list (names.map .str))⟩ : Stretch))
      (do
        let names := (← moreNames fuel [first.text]).reverse
        return (⟨2 * names.length - 1, ", ".intercalate names,
          some (.list (names.map .str))⟩ : Stretch)) :=
    (isCongruence_widens.moreNames fuel _).bind fun _ ↦ widens_pure _
  refine ⟨fun {s _ _} hrun ↦ (hsame (s.window.lookahead + 1)).within hrun,
    fun {s t _ _} hst hrun hwithin ↦ ?_⟩
  have hlook := hst.abreast.lookahead_le
  have hfuel : moreNames (t.window.lookahead + 1) [first.text] s =
      moreNames (s.window.lookahead + 1) [first.text] s :=
    moreNames_eq_of_le ⟨hst.abreast.firm, rfl⟩ (by simp) (by simp) (by omega)
  refine .get_bind ((hsame (t.window.lookahead + 1)).follows hst ?_ hwithin)
  rw [paramNames, get_bind_run] at hrun
  obtain ⟨names, s₁, hnames, hanswer⟩ := bind_eq_ok_iff.mp hrun
  exact bind_eq_ok_iff.mpr ⟨names, s₁, hfuel.trans hnames, hanswer⟩

end Matching

/-! ## Finding one extension -/

variable {e : Registered} {kind : ExtensionKind} {symbols : SymbolTable}

/-- What is claimed on a window is claimed on a wider one, unless a refill fails. -/
theorem Registered.claim_of_abreast {claimed : Nat × Captures} (h : v.Abreast w)
    (hclaim : e.claim symbols v = .ok (some claimed) v') :
    Ensures w.RefillFails (e.claim symbols) w fun claimed' _ ↦ claimed' = some claimed := by
  obtain ⟨hstart, -⟩ := of_claim_eq_some hclaim
  rw [Ensures, claim, h.current_eq, hstart]
  rw [claim, hstart] at hclaim
  cases helements : e.elements with
  | none =>
    rw [helements] at hclaim
    cases hclaim
    rfl
  | some elements =>
    simp only [helements, Bool.not_true, Bool.false_eq_true, if_false] at hclaim ⊢
    cases hrun : Matching.sequence ⟨e.extension, symbols⟩ e.minRequired 0 elements
      ⟨v, 0, .empty, false⟩ with
    | error error s =>
      rw [hrun] at hclaim
      cases hclaim
    | ok matched s =>
      rw [hrun] at hclaim
      dsimp only at hclaim
      cases hmatched : matched && !s.overflowed && decide (0 < s.offset) with
      | false =>
        rw [hmatched] at hclaim
        cases hclaim
      | true =>
        rw [hmatched] at hclaim
        cases hclaim
        have hwithin : s.overflowed = false := by
          rw [Bool.and_eq_true, Bool.and_eq_true, Bool.not_eq_true'] at hmatched
          exact hmatched.1.2
        have hstarts :
            Matching.Wider v.lookahead w.RefillFails ⟨v, 0, .empty, false⟩ ⟨w, 0, .empty, false⟩ :=
          ⟨h, rfl, fun _ ↦ id, rfl⟩
        have hwide :=
          (Matching.isWalkCongruence_widens.sequence ⟨e.extension, symbols⟩ e.minRequired 0
          elements).follows hstarts hrun hwithin
        cases hrun' : Matching.sequence ⟨e.extension, symbols⟩ e.minRequired 0 elements
            ⟨w, 0, .empty, false⟩ with
        | error error t => exact hwide.of_error hrun'
        | ok matched' t =>
          obtain ⟨rfl, hst⟩ := hwide.of_ok hrun'
          dsimp only
          rw [hst.rest, hmatched]
          rfl

/-- **A wider window loses no match and changes none.** If a registry of one extension finds it on a
window, then on any window at the same place that sees at least as far it finds it with the same
match; only a refill of the wider window may fail, which it does not on a source without errors. -/
theorem Registry.find_of_abreast {found : Match} {extension : Extension}
    {lexical : List LexExtension}
    (h : v.Abreast w) (hfind : find ⟨[e], lexical⟩ kind symbols v = .ok
      (some (found, extension)) v') :
    Ensures w.RefillFails (find ⟨[e], lexical⟩ kind symbols) w
        (fun found' _ ↦ found' = some (found, extension)) ∧
      (w.IsErrorFree → ∃ w', find ⟨[e], lexical⟩ kind symbols w = .ok
        (some (found, extension)) w') := by
  have hwide : Ensures w.RefillFails (find ⟨[e], lexical⟩ kind symbols) w
      fun found' _ ↦ found' = some (found, extension) := by
    rw [find, findFrom, ite_run] at hfind
    rw [find, findFrom]
    split at hfind
    · next hkind =>
      obtain ⟨claimed, v₁, hclaim, hfound⟩ := bind_eq_ok_iff.mp hfind
      rw [if_pos hkind]
      cases claimed with
      | none => cases hfound
      | some claimed =>
        cases hfound
        refine (Registered.claim_of_abreast h hclaim).bind ?_
        rintro _ w₁ rfl
        exact .pure rfl
    · cases hfind
  refine ⟨hwide, fun hfree ↦ ?_⟩
  obtain ⟨_, w', hfound, rfl⟩ := hwide.exists_ok hfree
  exact ⟨w', hfound⟩

/-- A list of two names, with comments in it. -/
def sampleNames : Lexer :=
  .ofText (.plain '#') "using a, /*1*/ /*2*/ /*3*/ /*4*/ /*5*/ /*6*/ /*7*/ b; c"

/-- An entry that takes a list of names. -/
def sampleUsing : Registered :=
  ⟨.inert "using" .statement [.text "using"] none,
    some [.leaf (.literal "using") true, .leaf (.typed "names" .paramNames) true], 2⟩

/-- The list reaches as far as the narrow window sees, and it is the same list on a wide one. -/
theorem Registry.find_of_abreast_sampleNames :
    ∃ v w, Window.ofSource sampleNames 4 = .ok v ∧ Window.ofSource sampleNames 9 =
    .ok w ∧ v.Abreast w ∧
      w.IsErrorFree ∧ ∃ found extension v' w',
        find ⟨[sampleUsing], []⟩ .statement .empty v = .ok (some (found, extension)) v' ∧
        found.count = 4 ∧
          find ⟨[sampleUsing], []⟩ .statement .empty w = .ok (some (found, extension)) w' := by
  obtain ⟨all, hall⟩ : ∃ tokens, sampleNames.tokenize = .ok tokens :=
    exists_eq_ok_of_isSome (by decide +kernel)
  have hopen : sampleNames.IsOpen := Lexer.isOpen_ofText _ _
  obtain ⟨hdelivers, hclosed⟩ : Lexer.Delivers sampleNames all ∧ Closed all :=
    Lexer.delivers_ofText_plain hall
  obtain ⟨v, w, hv, hw, habreast, hfree⟩ := Window.exists_ofSource_abreast hopen
    (Dialect.isTame_of_extensions rfl) hdelivers hclosed (show 4 ≤ 9 by decide)
  have hrun : ((Window.ofSource sampleNames 4).toOption.map fun v ↦ (outcome (fun found _ ↦
      found.any fun found ↦ found.1.count == 4)
        (find ⟨[sampleUsing], []⟩ .statement .empty v)).toOption) =
        some (some true) := by decide +kernel
  rw [hv, Except.toOption, Option.map_some, Option.some.injEq] at hrun
  cases hfind : find ⟨[sampleUsing], []⟩ .statement .empty v with
  | error e v' =>
    rw [hfind] at hrun
    cases hrun
  | ok found v' =>
    rw [hfind, outcome, Except.toOption, Option.some.injEq, Option.any_eq_true] at hrun
    obtain ⟨⟨found, extension⟩, rfl, hcount⟩ := hrun
    obtain ⟨w', hwide⟩ := (find_of_abreast habreast hfind).2 hfree
    exact ⟨v, w, hv, hw, habreast, hfree, found, extension, v', w', hfind,
      beq_iff_eq.mp hcount, hwide⟩

end ScriptFront
