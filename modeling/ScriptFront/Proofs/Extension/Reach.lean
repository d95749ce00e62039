import ScriptFront.Proofs.Extension.Independence
import ScriptFront.Proofs.Extension.Tiling

/-!
# Patterns within reach

A pattern whose leaves take single tokens takes no more tokens than it has leaves one behind the
other. If these are no more than a window can show, no walk along the pattern looks too far, so that
it only refills the window and comes to an end there, unless the lexer fails. Then an extension
claims exactly what the path of its pattern says of the tokens to come, whether they were held
before or not.
-/

namespace ScriptFront

open Window (Firm Refilled)

/-- The leaf takes a single token, or only looks at one. -/
def Leaf.isSingle : Leaf → Bool
  | .typed _ type => type != .paramNames && type != .time
  | _ => true

namespace Element

mutual

/-- All leaves take single tokens. -/
def isSingle : Element → Bool
  | .leaf l _ => l.isSingle
  | .group elements _ => areSingle elements
  | .either left right _ => left.isSingle && right.isSingle

/-- All leaves of some elements take single tokens. -/
def areSingle : List Element → Bool
  | [] => true
  | e :: rest => e.isSingle && areSingle rest

end

mutual

/-- How many tokens an element may take if its leaves take single ones; it looks at one at least. -/
def span : Element → Nat
  | .leaf _ _ => 1
  | .group elements _ => spans elements + 1
  | .either left right _ => max left.span right.span

/-- How many tokens some elements may take. -/
def spans : List Element → Nat
  | [] => 0
  | e :: rest => e.span + spans rest

end

theorem one_le_span (e : Element) : 1 ≤ e.span := by
  cases e with
  | leaf l required => exact Nat.le_refl 1
  | group elements required => exact Nat.le_add_left 1 _
  | either left right required => exact Nat.le_trans left.one_le_span (Nat.le_max_left _ _)

end Element

namespace Matching

variable {bound n m : Nat} {s s₁ s₂ : State} {c : Consult} {captures : Captures}

/-- A part of a walk that passes at most `n` tokens and stays within reach. -/
structure Stays (n : Nat) (s s' : State) : Prop where
  /-- The window is refilled. -/
  refilled : Refilled s.window s'.window
  /-- The walk does not come to the end of the reach. -/
  overflowed_eq : s'.overflowed = s.overflowed
  /-- At most so many tokens are passed. -/
  offset_le : s'.offset ≤ s.offset + n

theorem Stays.mono (h : Stays n s s₁) (hn : n ≤ m) : Stays m s s₁ :=
  ⟨h.refilled, h.overflowed_eq, Nat.le_trans h.offset_le (Nat.add_le_add_left hn _)⟩

theorem Stays.trans (h : Stays n s s₁) (h' : Stays m s₁ s₂) : Stays (n + m) s s₂ := by
  refine ⟨h.refilled.trans h'.refilled, h'.overflowed_eq.trans h.overflowed_eq, ?_⟩
  have hfirst := h.offset_le
  have hsecond := h'.offset_le
  omega

theorem Steady.stays (hs : Steady bound s) (h : Stays n s s₁) : Steady bound s₁ :=
  ⟨hs.firm.refilled h.refilled, (h.refilled.lookahead_eq hs.firm).trans hs.lookahead_eq⟩

/-- What an element that fails has matched and recorded is taken back. -/
theorem Stays.restored (h : Stays n s s₁) : ∃ s₂, restore s s₁ = .ok ⟨⟩ s₂ ∧ Stays 0 s s₂ :=
  ⟨_, rfl, h.refilled, h.overflowed_eq, Nat.le_refl _⟩

/-! ## One token -/

/-- A look within reach changes the window only. -/
theorem peekAfter_stays (hs : Steady bound s) (hreach : s.offset + n ≤ bound) :
    Ensures ScriptError.IsOfLexer (peekAfter n) s fun _ s' ↦ Stays 0 s s' := by
  refine .get_bind ?_
  have hrefills := hs.firm.peek_refills (hs.lookahead_eq ▸ hreach) false
  cases hpeek : Window.peek (s.offset + n) false s.window with
  | error e w =>
    rw [Ensures, peek_of_error (hrefills.of_error hpeek).1 hpeek]
    exact (hrefills.of_error hpeek).1
  | ok t w => exact .known (peek_of_ok hpeek) ⟨(hrefills.of_ok hpeek).1, rfl, Nat.le_refl _⟩

theorem expressionEnds_stays (hs : Steady bound s) (hreach : s.offset ≤ bound) :
    Ensures ScriptError.IsOfLexer expressionEnds s fun _ s' ↦ Stays 0 s s' :=
  (peekAfter_stays hs hreach).bind fun _ _ h ↦ .pure h

/-- A typed leaf for a single token looks no further. -/
theorem exists_typed_eq {type : LeafType} (hnames : type ≠ .paramNames)
    (htime : type ≠ .time) (c : Consult)
    (first : Token) (s : State) :
    ∃ found, typed c type first s = .ok found s ∧ ∀ stretch ∈ found, stretch.count = 1 := by
  have hmap {α : Type} {found : Option α} {value : α → Option Value} :
      ∀ stretch ∈ found.map fun a ↦ Stretch.one first (value a), stretch.count = 1 := by
    intro stretch hstretch
    obtain ⟨_, -, rfl⟩ := Option.map_eq_some_iff.mp hstretch
    rfl
  have hite {p : Prop} [Decidable p] {value : Option Value} :
      ∀ stretch ∈ (if p then some (Stretch.one first value) else none), stretch.count = 1 := by
    intro stretch hstretch
    split at hstretch
    · obtain rfl := Option.some.inj hstretch
      rfl
    · cases hstretch
  cases type with
  | number => exact ⟨_, rfl, hmap⟩
  | word => exact ⟨_, rfl, hite⟩
  | bool => exact ⟨_, rfl, hmap⟩
  | uri => exact ⟨_, rfl, hmap⟩
  | startToken => exact ⟨_, rfl, hite⟩
  | identSymbol => exact ⟨_, rfl, hite⟩
  | singularSymbol => exact ⟨_, rfl, hite⟩
  | tokenMap1 => exact ⟨_, rfl, hmap⟩
  | tokenMap2 => exact ⟨_, rfl, hmap⟩
  | exprTerminators => exact ⟨none, rfl, by simp⟩
  | paramNames => exact absurd rfl hnames
  | time => exact absurd rfl htime

theorem leaf_stays (hs : Steady bound s) (c : Consult) {l : Leaf} (hsingle : l.isSingle = true)
    (hreach : s.offset ≤ bound) :
    Ensures ScriptError.IsOfLexer (leaf c l) s fun _ s' ↦ Stays 1 s s' := by
  refine (peekAfter_stays (n := 0) hs hreach).bind fun first s₁ h₁ ↦ ?_
  have hstay : Stays 1 s s₁ := h₁.mono (Nat.zero_le 1)
  -- whatever is passed and recorded, it is one token
  have hpassed (captures : Captures) : Stays 1 s { s₁ with offset := s₁.offset + 1, captures } :=
    ⟨h₁.refilled, h₁.overflowed_eq, Nat.add_le_add_right h₁.offset_le 1⟩
  cases first with
  | none => exact .pure hstay
  | some first =>
    dsimp only
    split
    · exact .branch (fun _ ↦ .modify_bind (.pure ⟨h₁.refilled, h₁.overflowed_eq, hstay.offset_le⟩))
        fun _ ↦ .pure hstay
    · refine .branch (fun _ ↦ .pure hstay) fun _ ↦ ?_
      cases l with
      | literal text => exact .branch (fun _ ↦ .modify_bind (.pure (hpassed _))) fun _ ↦ .pure hstay
      | oneOf name values =>
        exact .branch (fun _ ↦ .modify_bind (.modify_bind (.pure (hpassed _)))) fun _ ↦ .pure hstay
      | sameAs name =>
        refine .get_bind ?_
        cases s₁.captures.text? name with
        | none => exact .modify_bind (.modify_bind (.pure (hpassed _)))
        | some text =>
          exact .branch (fun _ ↦ .pure hstay) fun _ ↦
            .modify_bind (.modify_bind (.pure (hpassed _)))
      | typed name type =>
        rw [Leaf.isSingle, Bool.and_eq_true, bne_iff_ne, bne_iff_ne] at hsingle
        obtain ⟨found, htyped, hcount⟩ := exists_typed_eq hsingle.1 hsingle.2 c first s₁
        refine .ask htyped ?_
        cases found with
        | none => exact .pure hstay
        | some stretch =>
          refine .known (takeStretch_eq name type stretch s₁) ?_
          rw [hcount stretch rfl]
          exact hpassed _

/-! ## Elements -/

mutual

/-- **Walks within reach.** An element that spans no more tokens than the window can show from here
never looks further than that. -/
theorem element_stays (c : Consult) : ∀ (e : Element) {s}, e.isSingle = true → Steady bound s →
    s.offset + e.span ≤ bound + 1 →
    Ensures ScriptError.IsOfLexer (element c e) s fun _ s' ↦ Stays e.span s s'
  | .leaf l _, s, hsingle, hs, hspan => by
    rw [element]
    exact leaf_stays hs c hsingle (Nat.le_of_succ_le_succ hspan)
  | .group elements _, s, hsingle, hs, hspan => by
    rw [element]
    have hspans : s.offset + Element.spans elements ≤ bound + 1 := Nat.le_of_succ_le hspan
    exact (sequence_stays c _ 0 elements hsingle hs hspans).mono fun _ _ h ↦ h.mono (Nat.le_succ _)
  | .either left right _, s, hsingle, hs, hspan => by
    rw [element]
    rw [Element.isSingle, Bool.and_eq_true] at hsingle
    rw [Element.span] at hspan ⊢
    refine .get_bind ((element_stays c left hsingle.1 hs (by omega)).bind fun found s₁ h₁ ↦
      .branch (fun _ ↦ .pure (h₁.mono (Nat.le_max_left _ _))) fun _ ↦ ?_)
    obtain ⟨s₂, hrestore, h₂⟩ := h₁.restored
    refine .ask hrestore (.get_bind (.branch (fun _ ↦ .pure (h₂.mono (Nat.zero_le _))) fun _ ↦ ?_))
    have hoffset := h₂.offset_le
    refine (element_stays c right hsingle.2 (hs.stays h₂) (by omega)).mono fun _ _ h₃ ↦ ?_
    exact (h₂.trans h₃).mono (by omega)

theorem sequence_stays (c : Consult) (minRequired matched : Nat) : ∀ (elements : List Element) {s},
    Element.areSingle elements = true → Steady bound s →
    s.offset + Element.spans elements ≤ bound + 1 →
    Ensures ScriptError.IsOfLexer (sequence c minRequired matched elements) s fun _ s' ↦
      Stays (Element.spans elements) s s'
  | [], s, _, _, _ => by
    rw [sequence]
    exact .pure ⟨.refl, rfl, Nat.le_refl _⟩
  | e :: rest, s, hsingle, hs, hspan => by
    rw [sequence]
    rw [Element.areSingle, Bool.and_eq_true] at hsingle
    rw [Element.spans] at hspan ⊢
    refine .get_bind ((element_stays c e hsingle.1 hs (by omega)).bind fun found s₁ h₁ ↦
      .branch (fun _ ↦ ?_) fun _ ↦ ?_)
    · have hoffset := h₁.offset_le
      exact (sequence_stays c minRequired _ rest hsingle.2 (hs.stays h₁) (by omega)).mono
        fun _ _ h₂ ↦ h₁.trans h₂
    · obtain ⟨s₂, hrestore, h₂⟩ := h₁.restored
      have hoffset := h₂.offset_le
      refine .ask hrestore (.get_bind (.branch (fun _ ↦ .pure (h₂.mono (Nat.zero_le _))) fun _ ↦
        .branch (fun _ ↦ ?_) fun _ ↦ .branch (fun _ ↦ ?_) fun _ ↦ .pure (h₂.mono (Nat.zero_le _))))
      · exact (sequence_stays c minRequired matched rest hsingle.2 (hs.stays h₂) (by omega)).mono
          fun _ _ h₃ ↦ (h₂.trans h₃).mono (by omega)
      · have hlook := e.one_le_span
        exact (expressionEnds_stays (hs.stays h₂) (by omega)).mono fun _ _ h₃ ↦
          (h₂.trans h₃).mono (by omega)

end

/-- What a claim makes of a path: the number of its tokens, if there are any, and what it
recorded. -/
def claimOf? (tiles : List Tile) : Option (Nat × Captures) :=
  if tokensOf tiles = [] then none
  else some ((tokensOf tiles).length, Captures.empty.insertAll (recordsOf tiles))

end Matching

/-! ## Claims -/

section

variable {w w' : Window Lexer} {e : Registered} {symbols : SymbolTable} {elements : List Element}
  {tokens : List Token} {path : Option (List Matching.Tile)} {kind : ExtensionKind}
  {index : Nat} {earlier rest : List Registered}

/-- The first of the tokens to come is current. -/
theorem Window.Awaits.current_eq {t : Token} {more : List Token} (hw : Firm ScriptError.IsOfLexer w)
    (h : w.Awaits tokens) (hseen : Window.seen tokens = t :: more) : w.current = t := by
  obtain ⟨v, hv, more', hahead⟩ := h
  cases tokens with
  | nil => cases hseen
  | cons first rest =>
    obtain rfl : first = t := (List.cons.inj hseen).1
    rw [← hv.current_eq hw, Window.current, ← hahead]
    rfl

/-- After refills the tokens to come are held, or further refills bring them, with those that are in
sight first. -/
theorem Window.Awaits.exists_sight (hw : Firm ScriptError.IsOfLexer w) (h : w.Awaits tokens)
    (hrefilled : Refilled w w') : ∃ next, w'.inSight <+: next ∧ Window.seen tokens <+: next := by
  obtain ⟨v, hv, htokens⟩ := h
  rcases hrefilled.total hv with hle | hle
  · exact ⟨v.inSight, Window.seen_isPrefix (hle.holds (hw.refilled hrefilled)).ahead,
      Window.seen_isPrefix htokens⟩
  · exact ⟨w'.inSight, List.prefix_refl _,
      Window.seen_isPrefix (htokens.trans (hle.holds (hw.refilled hv)).ahead)⟩

/-- **Claims within reach.** If the tokens to come decide the path of a pattern, and a window can
show as many tokens as the pattern spans, the extension claims what the path says, and only refills
the window. It fails only if the lexer does. -/
theorem Registered.claim_ensures_path (hw : Firm ScriptError.IsOfLexer w)
    (helements : e.elements = some elements) (hmay : e.mayStart w.current symbols = true)
    (hsingle : Element.areSingle elements = true)
    (hspan : Element.spans elements ≤ w.lookahead + 1) (hawaits : w.Awaits tokens)
    (hpath : ∀ next, Window.seen tokens <+: next →
      Matching.pathAlong? ⟨e.extension, symbols⟩ e.minRequired 0 .empty next elements = path) :
    Ensures ScriptError.IsOfLexer (e.claim symbols) w fun claimed w' ↦
      Refilled w w' ∧ claimed = path.bind Matching.claimOf? := by
  have hs : Matching.Steady w.lookahead ⟨w, 0, .empty, false⟩ := ⟨hw, rfl⟩
  have hgoes := Matching.sequence_goes ⟨e.extension, symbols⟩ e.minRequired 0 elements hs
  have hstays := Matching.sequence_stays ⟨e.extension, symbols⟩ e.minRequired 0 elements hsingle hs
    ((Nat.zero_add _).trans_le hspan)
  unfold Ensures claim
  simp only [hmay, helements, Bool.not_true, Bool.false_eq_true, if_false]
  cases hrun :
      Matching.sequence ⟨e.extension, symbols⟩ e.minRequired 0 elements ⟨w, 0, .empty, false⟩ with
  | error error s => exact hgoes.of_error hrun
  | ok matched s =>
    have hrefilled : Refilled w s.window := (hstays.of_ok hrun).refilled
    have hwithin : s.overflowed = false := (hstays.of_ok hrun).overflowed_eq
    obtain ⟨next, hsight, htokens⟩ := hawaits.exists_sight hw hrefilled
    have hfollows :=
      (hgoes.of_ok hrun).told hwithin (show s.window.inSight <+: [] ++ next from hsight) rfl
      (by simp)
    rw [hpath next htokens] at hfollows
    cases path with
    | none =>
      obtain rfl : matched = false := hfollows
      exact ⟨hrefilled, rfl⟩
    | some tiles =>
      obtain ⟨rfl, hoffset, hcaptures, -⟩ := hfollows
      rw [Nat.zero_add] at hoffset
      simp only [hwithin, Bool.not_false, Bool.and_self, Bool.true_and, hoffset,
        List.length_pos_iff, decide_eq_true_eq, Option.bind_some, Matching.claimOf?]
      by_cases hnil : Matching.tokensOf tiles = []
      · rw [if_neg (not_not_intro hnil), if_pos hnil]
        exact ⟨hrefilled, rfl⟩
      · rw [if_pos hnil, if_neg hnil, hcaptures]
        exact ⟨hrefilled, rfl⟩

/-- Entries that may not start at the current token are passed by. -/
theorem Registry.findFrom_append (hearlier : ∀ e ∈ earlier, e.extension.kind = kind →
      e.mayStart w.current symbols = false) :
    findFrom kind symbols index (earlier ++ rest) w =
      findFrom kind symbols (index + earlier.length) rest w := by
  induction earlier generalizing index with
  | nil => rfl
  | cons e earlier ih =>
    obtain ⟨he, hearlier⟩ := List.forall_mem_cons.mp hearlier
    have hnext : findFrom kind symbols (index + 1) (earlier ++ rest) w =
        findFrom kind symbols (index + (e :: earlier).length) rest w := by
      rw [ih hearlier, List.length_cons, Nat.add_right_comm, Nat.add_assoc]
    rw [List.cons_append, findFrom, ite_run]
    split
    · next hkind =>
      have hclaim : e.claim symbols w = .ok none w := by
        rw [Registered.claim, he hkind]
        rfl
      rw [bind_eq_of_ok hclaim]
      exact hnext
    · exact hnext

/-- An extension whose path the tokens to come decide is found, if no earlier one may start. -/
theorem Registry.find_ensures_path {registry : Registry} {tiles : List Matching.Tile}
    (hentries : registry.entries = earlier ++ e :: rest)
    (hearlier : ∀ e ∈ earlier, e.extension.kind = kind → e.mayStart w.current symbols = false)
    (hkind : e.extension.kind = kind)
    (hclaim : Ensures ScriptError.IsOfLexer (e.claim symbols) w fun claimed w' ↦
      Refilled w w' ∧ claimed = Matching.claimOf? tiles) (hne : Matching.tokensOf tiles ≠ []) :
    Ensures ScriptError.IsOfLexer (registry.find kind symbols) w fun found w' ↦ Refilled w w' ∧
      found = some
        (⟨(Matching.tokensOf tiles).length, Captures.empty.insertAll (Matching.recordsOf tiles),
        earlier.length⟩, e.extension) := by
  have hrun :
      registry.find kind symbols w = findFrom kind symbols earlier.length (e :: rest) w := by
    rw [find, hentries, findFrom_append hearlier, Nat.zero_add]
  rw [Ensures, hrun, ← Ensures, findFrom, if_pos hkind]
  refine hclaim.bind fun claimed w' hclaimed ↦ ?_
  obtain ⟨hrefilled, rfl⟩ := hclaimed
  rw [Matching.claimOf?, if_neg hne]
  exact .pure ⟨hrefilled, rfl⟩

end

end ScriptFront
