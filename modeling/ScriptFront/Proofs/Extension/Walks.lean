import Mathlib.Data.List.Infix
import ScriptFront.Proofs.Extension.Matching
import ScriptFront.Proofs.Extension.Paths
import ScriptFront.Proofs.Window.Sight

/-!
# Walks and paths

A walk through a pattern moves one place on and back, and pulls tokens into sight as it looks ahead.
What it finds is what `Matching.path?` says of the tokens in sight: it never looks past the end, so
that places count tokens in sight, and whatever it took back leaves no trace. This holds of every
walk that stays within reach of its window; one that does not is no match, whatever it has come to.

`Matching.Goes` collects what a part of a walk tells of the tokens that follow. What is told must
hold however the tokens in sight go on, since the walk may still pull more of them.
-/

namespace ScriptFront

open Window (Firm Holds)

namespace Matching

variable {R R' : List Token → Prop} {s s' s₁ s₂ : State} {bound : Nat} {c : Consult}

/-! ## Walks within reach -/

/-- The walk stands in a firm window of this reach. -/
structure Steady (bound : Nat) (s : State) : Prop where
  /-- The window is firm. -/
  firm : Firm ScriptError.IsOfLexer s.window
  /-- So far one may look ahead. -/
  lookahead_eq : s.window.lookahead = bound

/-- A part of a walk. If it stays within reach, it tells `R` of the tokens that follow those matched
before. -/
structure Goes (R : List Token → Prop) (s s' : State) : Prop where
  /-- No token is passed in the window. -/
  holds : Holds True s.window s'.window
  /-- A walk that once went too far never counts as one within reach. -/
  within : s'.overflowed = false → s.overflowed = false
  /-- What is told holds however the tokens in sight go on. -/
  told : s'.overflowed = false → ∀ {passed next}, s'.window.inSight <+: passed ++ next →
    passed.length = s.offset → (∀ t ∈ passed, t.isEnd = false) → R next

/-- A part of a walk that looks ahead only. -/
structure Looks (R : List Token → Prop) (s s' : State) : Prop extends Goes R s s' where
  /-- No token is matched. -/
  offset_eq : s'.offset = s.offset
  /-- Nothing is recorded. -/
  captures_eq : s'.captures = s.captures

theorem Steady.goes (hs : Steady bound s) (h : Goes R s s') : Steady bound s' :=
  ⟨h.holds.leads.firm hs.firm, (h.holds.leads.lookahead_eq hs.firm).trans hs.lookahead_eq⟩

theorem Goes.mono (h : Goes R s s') (hR : ∀ next, R next → R' next) : Goes R' s s' :=
  ⟨h.holds, h.within, fun hwithin _ _ hsight hlength hfree ↦
    hR _ (h.told hwithin hsight hlength hfree)⟩

theorem Looks.mono (h : Looks R s s') (hR : ∀ next, R next → R' next) : Looks R' s s' :=
  ⟨h.toGoes.mono hR, h.offset_eq, h.captures_eq⟩

theorem Looks.refl (h : ∀ next, R next) : Looks R s s :=
  ⟨⟨.refl, id, fun _ _ next _ _ _ ↦ h next⟩, rfl, rfl⟩

/-- A walk goes on from where its first part has come to. -/
theorem Goes.trans (h : Goes R s s₁) (h' : Goes R' s₁ s₂)
    (hlie : ∀ next, R next → ∃ taken, Lie taken next ∧ s₁.offset = s.offset + taken.length) :
    Goes (fun next ↦ R next ∧ R' (next.drop (s₁.offset - s.offset))) s s₂ := by
  refine ⟨h.holds.trans h'.holds, fun hwithin ↦ h.within (h'.within hwithin), ?_⟩
  intro hwithin passed next hsight hlength hfree
  have hsight₁ : s₁.window.inSight <+: passed ++ next :=
    (Window.seen_isPrefix h'.holds.ahead).trans hsight
  have hR := h.told (h'.within hwithin) hsight₁ hlength hfree
  obtain ⟨taken, htaken, hoffset⟩ := hlie next hR
  obtain ⟨rest, rfl⟩ := htaken.isPrefix
  have hdrop : s₁.offset - s.offset = taken.length := by omega
  refine ⟨hR, ?_⟩
  rw [hdrop, List.drop_left]
  rw [← List.append_assoc] at hsight
  refine h'.told hwithin hsight (by rw [List.length_append, hlength, hoffset]) fun t ht ↦ ?_
  rcases List.mem_append.mp ht with ht | ht
  · exact hfree t ht
  · exact (htaken.isMatchable t ht).1

/-- A walk goes on from where it stood. -/
theorem Goes.trans_stay (h : Goes R s s₁) (h' : Goes R' s₁ s₂) (hoffset : s₁.offset = s.offset) :
    Goes (fun next ↦ R next ∧ R' next) s s₂ := by
  refine (h.trans h' fun next _ ↦ ⟨[], lie_nil, by simp [hoffset]⟩).mono fun next hnext ↦ ?_
  simpa [hoffset] using hnext

theorem Looks.trans (h : Looks R s s₁) (h' : Looks R' s₁ s₂) :
    Looks (fun next ↦ R next ∧ R' next) s s₂ :=
  ⟨h.toGoes.trans_stay h'.toGoes h.offset_eq, h'.offset_eq.trans h.offset_eq,
    h'.captures_eq.trans h.captures_eq⟩

/-- What is kept beside the window may change. -/
theorem Goes.beside (h : Goes R s s₁) (hwindow : s'.window = s₁.window)
    (hoverflowed : s'.overflowed = s₁.overflowed) : Goes R s s' := by
  refine ⟨hwindow ▸ h.holds, hoverflowed ▸ h.within, fun hwithin _ _ hsight ↦ ?_⟩
  rw [hoverflowed] at hwithin
  rw [hwindow] at hsight
  exact h.told hwithin hsight

/-- The token so many places on is shown, if it is within reach and no end stands before it. -/
def Shows (bound offset n : Nat) (found : Option Token) (next : List Token) : Prop :=
  offset + n ≤ bound ∧ ((∀ t ∈ next.take n, t.isEnd = false) → ∃ t, found = some t ∧
    next[n]? = some t)

theorem peekAfter_looks (hs : Steady bound s) (n : Nat) :
    Ensures ScriptError.IsOfLexer (peekAfter n) s fun found s' ↦
      Looks (Shows bound s.offset n found) s s' := by
  refine .get_bind ?_
  by_cases hfar : s.window.lookahead < s.offset + n
  · exact .known (peek_of_far hfar) ⟨⟨.refl, fun h ↦ (nomatch h), fun h ↦ (nomatch h)⟩, rfl, rfl⟩
  · have hrun := hs.firm.peek_ensures (s.offset + n) false fun h ↦ absurd h hfar
    cases hpeek : Window.peek (s.offset + n) false s.window with
    | error e w =>
      rw [Ensures, peek_of_error (hrun.of_error hpeek) hpeek]
      exact hrun.of_error hpeek
    | ok t w =>
      obtain ⟨hholds, place, hwalk, ht⟩ := hrun.of_ok hpeek
      refine .known (peek_of_ok hpeek) ⟨⟨hholds, id, ?_⟩, rfl, rfl⟩
      intro _ passed next hsight hlength hfree
      refine ⟨hs.lookahead_eq ▸ Nat.le_of_not_lt hfar, fun hnext ↦ ⟨t, rfl, ?_⟩⟩
      -- the tokens in sight begin with those passed, so the walk has come past no end
      have hseen := hwalk.getElem?_seen fun u hu ↦ by
        have hmem := (hsight.take (s.offset + n)).subset hu
        rw [List.take_append, ← hlength, Nat.add_sub_cancel_left, List.mem_append] at hmem
        rcases hmem with hmem | hmem
        · exact hfree u (List.mem_of_mem_take hmem)
        · exact hnext u hmem
      rw [ht] at hseen
      have hplace := Window.getElem?_of_isPrefix hsight hseen
      rwa [List.getElem?_append_right (by omega), ← hlength, Nat.add_sub_cancel_left] at hplace

/-! ## Runs of tokens -/

/-- Of the tokens that follow, a run is found as the pattern says, and all of it is within reach. -/
def Finds (bound offset : Nat) (first : Token) (at? : List Token → Option Stretch)
    (found : Option Stretch)
    (next : List Token) : Prop :=
  ∀ rest, next = first :: rest → IsMatchable first → offset ≤ bound →
    found = at? rest ∧ ∀ stretch ∈ found, offset + stretch.count ≤ bound + 1

variable {first : Token} {rest next : List Token} {offset n : Nat} {found : Option Token}

/-- What is shown behind tokens that may be matched. -/
theorem Shows.of_canTake (h : Shows bound offset n found next) (htake : CanTake n next) :
    ∃ t, found = some t ∧ next[n]? = some t :=
  h.2 fun t ht ↦ (htake.isMatchable t ht).1

/-- What a walk does about the half of the day, written without the walk. -/
theorem halve_eq (hours minutes : Nat) (text : String) (count : Nat) (t : Option Token) :
    (do
      let mut hours := hours
      let mut text := text
      let mut count := count
      if let some t := t then
        let half := lowerText t.text
        if t.kind == .ident && (half == "am" || half == "pm") then
          let some h := hourOf? half hours | return none
          hours := h
          text := text ++ half
          count := count + 1
      if 23 < hours || 59 < minutes then return none
      return some ⟨count, text, some (.time (hours * 3600 + minutes * 60))⟩ :
        MatchM (Option Stretch)) =
      pure (halvedOf? hours minutes text count t) := by
  have hend (hours count : Nat) (text : String) :
      (if 23 < hours || 59 < minutes then pure none
        else pure (some ⟨count, text, some (.time (hours * 3600 + minutes * 60))⟩) :
            MatchM (Option Stretch)) =
        pure (stretchOf? hours minutes text count) := (apply_ite pure _ _ _).symm
  cases t with
  | none => exact hend hours count text
  | some t =>
    rw [halvedOf?, Option.bind_some, halfOf?]
    dsimp only
    split
    · dsimp only
      cases hourOf? (lowerText t.text) hours with
      | none => rfl
      | some hours => exact hend _ _ _
    · exact hend hours count text

/-- The half of the day is looked for last. -/
theorem half_looks (hs : Steady bound s) {hours minutes count : Nat} {text : String}
    {answer : Option Token → MatchM (Option Stretch)}
    (hanswer : ∀ t, answer t = pure (halvedOf? hours minutes text count t)) :
    Ensures ScriptError.IsOfLexer (peekAfter count >>= answer) s fun found s' ↦
      Looks (fun next ↦ CanTake count next →
        found = halvedOf? hours minutes text count next[count]? ∧
        ∀ stretch ∈ found, s.offset + stretch.count ≤ bound + 1) s s' := by
  refine (peekAfter_looks hs count).bind fun t s₁ h ↦ ?_
  rw [hanswer]
  refine .pure (h.mono fun next hnext htake ↦ ?_)
  obtain ⟨u, rfl, hu⟩ := hnext.of_canTake htake
  refine ⟨by rw [hu], fun stretch hstretch ↦ ?_⟩
  rw [Option.mem_def, halvedOf?] at hstretch
  have hreach := hnext.1
  split at hstretch
  · rw [count_of_stretchOf? hstretch]
    omega
  · obtain ⟨hours, -, hstretch⟩ := Option.bind_eq_some_iff.mp hstretch
    rw [count_of_stretchOf? hstretch]
    omega

/-- The half of the day behind the hours and minutes that the tokens begin with. -/
theorem finds_time {hours minutes count : Nat} {text : String} {found : Option Stretch}
    (hkind : (first.kind != .number) = false)
    (hclock : clockAt? first rest = some (hours, minutes, text, count)) (hfirst : IsMatchable first)
    (hfound : CanTake count (first :: rest) →
      found = halvedOf? hours minutes text count (first :: rest)[count]? ∧
        ∀ stretch ∈ found, offset + stretch.count ≤ bound + 1) :
    found = timeAt? first rest ∧ ∀ stretch ∈ found, offset + stretch.count ≤ bound + 1 := by
  rw [timeAt?, if_neg (by simp [hkind]), hclock]
  exact hfound (canTake_of_clockAt? hfirst hclock)

/-- A walk gives up where the pattern finds nothing. -/
theorem Looks.gives_up {at? : List Token → Option Stretch} (h : Looks R s s₁)
    (hnone : ∀ rest, R (first :: rest) → IsMatchable first → at? rest = none) :
    Looks (Finds bound s.offset first at? none) s s₁ :=
  h.mono fun _ hnext rest hrest hfirst _ ↦
    ⟨(hnone rest (hrest ▸ hnext) hfirst).symm, by simp⟩

/-- Having found the hours and minutes, a walk finds the time. -/
theorem clocked_looks (hs : Steady bound s) {hours minutes count : Nat} {text : String}
    {answer : Option Token → MatchM (Option Stretch)} (h : Looks R s s₁)
    (hanswer : ∀ t, answer t = pure (halvedOf? hours minutes text count t))
    (hkind : (first.kind != .number) = false)
    (hclock : ∀ rest, R (first :: rest) → IsMatchable first →
      clockAt? first rest = some (hours, minutes, text, count)) :
    Ensures ScriptError.IsOfLexer (peekAfter count >>= answer) s₁ fun found s' ↦
      Looks (Finds bound s.offset first (timeAt? first) found) s s' := by
  refine (half_looks (hs.goes h.toGoes) hanswer).mono fun found s₂ h₂ ↦ ?_
  have h₂ := h.trans h₂
  rw [h.offset_eq] at h₂
  refine h₂.mono fun next hnext rest hrest hfirst _ ↦ ?_
  subst hrest
  exact finds_time hkind (hclock rest hnext.1 hfirst) hfirst hnext.2

/-- Behind a colon the pattern finds the minutes in the token that a walk was shown. -/
theorem clockAt?_of_shows {hours minutes : Nat} {colon written : Option Token}
    (hclock : clockOf? first.text = some (hours, minutes, false))
    (hcolon : colon.any (·.is ":") = true) (h : Shows bound offset 1 colon (first :: rest))
    (h' : Shows bound offset 2 written (first :: rest)) (hfirst : IsMatchable first) :
    clockAt? first rest = written.bind fun t ↦
      if t.kind != .number || t.text.utf8ByteSize != 2 then none
      else (natural? maxWord t.text.toList).map fun minutes ↦
        (hours, minutes, first.text ++ ":" ++ t.text, 3) := by
  obtain ⟨u, rfl, hu⟩ := h.of_canTake (canTake_one hfirst)
  have hone := (canTake_one hfirst).succ hu (isMatchable_of_is hcolon (by decide) (by decide))
  obtain ⟨t, rfl, ht⟩ := h'.of_canTake hone
  rw [List.getElem?_cons_succ] at hu ht
  rw [clockAt?, hclock]
  simp only [Bool.not_false, hu, hcolon, Bool.and_self, if_true, ht, Option.bind_some]

theorem time_looks (hs : Steady bound s) (first : Token) :
    Ensures ScriptError.IsOfLexer (time first) s fun found s' ↦
      Looks (Finds bound s.offset first (timeAt? first) found) s s' := by
  have hstays : Looks (fun _ ↦ True) s s := .refl fun _ ↦ trivial
  unfold time
  refine .branch (fun hkind ↦ .pure (hstays.gives_up fun rest _ _ ↦ ?_)) fun hkind ↦ ?_
  · rw [timeAt?, if_pos hkind]
  rw [Bool.not_eq_true] at hkind
  have hnone {rest : List Token} (h : clockAt? first rest = none) : timeAt? first rest = none := by
    rw [timeAt?, if_neg (by simp [hkind]), h]
    rfl
  cases hclock : clockOf? first.text with
  | none =>
    refine .pure (hstays.gives_up fun rest _ _ ↦ hnone ?_)
    rw [clockAt?, hclock]
  | some clock =>
    obtain ⟨hours, minutes, pointed⟩ := clock
    cases pointed with
    | true =>
      refine clocked_looks hs hstays (fun t ↦ halve_eq hours minutes _ 1 t) hkind fun rest _ _ ↦ ?_
      rw [clockAt?, hclock]
      simp
    | false =>
      refine (peekAfter_looks hs 1).bind fun colon s₁ h₁ ↦ .branch (fun hcolon ↦ ?_) fun hcolon ↦ ?_
      · -- minutes behind a colon
        refine (peekAfter_looks (hs.goes h₁.toGoes) 2).bind fun written s₂ h₂ ↦ ?_
        have h₂ := h₁.trans h₂
        rw [h₁.offset_eq] at h₂
        cases written with
        | none =>
          exact .pure (h₂.gives_up fun rest hnext hfirst ↦
            hnone (clockAt?_of_shows hclock hcolon hnext.1 hnext.2 hfirst))
        | some t =>
          refine .branch (fun hbad ↦ .pure (h₂.gives_up fun rest hnext hfirst ↦ hnone ?_))
            fun hgood ↦ ?_
          · rw [clockAt?_of_shows hclock hcolon hnext.1 hnext.2 hfirst, Option.bind_some,
              if_pos hbad]
          dsimp only
          cases hminutes : natural? maxWord t.text.toList with
          | none =>
            refine .pure (h₂.gives_up fun rest hnext hfirst ↦ hnone ?_)
            rw [clockAt?_of_shows hclock hcolon hnext.1 hnext.2 hfirst, Option.bind_some,
              if_neg hgood, hminutes]
            rfl
          | some minutes =>
            refine clocked_looks hs h₂ (fun t ↦ halve_eq hours minutes _ 3 t) hkind
              fun rest hnext hfirst ↦ ?_
            rw [clockAt?_of_shows hclock hcolon hnext.1 hnext.2 hfirst, Option.bind_some,
              if_neg hgood, hminutes]
            rfl
      · -- no minutes
        refine clocked_looks hs h₁ (fun t ↦ halve_eq hours minutes _ 1 t) hkind
          fun rest hnext hfirst ↦ ?_
        obtain ⟨u, rfl, hu⟩ := hnext.of_canTake (canTake_one hfirst)
        rw [List.getElem?_cons_succ] at hu
        rw [clockAt?, hclock]
        simp only [hu, hcolon, Bool.and_false, Bool.false_eq_true, if_false]

/-- Without a comma no names follow. -/
theorem namesAt_of_not_is {t : Token} (h : t.is "," = false) : namesAt (t :: rest) = [] := by
  cases rest with
  | nil => rfl
  | cons next rest => rw [namesAt, h, Bool.false_and, if_neg Bool.false_ne_true]

/-- The list of names ends at a place where the walk is shown no comma, or no name behind it. -/
theorem namesAt_drop_of_shows {tokens : List Token} {comma next : Option Token}
    (htake : CanTake n tokens) (hcomma : Shows bound offset n comma tokens)
    (hnext : comma.any (·.is ",") = true →
      Shows bound offset (n + 1) next tokens ∧ next.any (·.kind == .ident) = false) :
    namesAt (tokens.drop n) = [] := by
  obtain ⟨u, rfl, hu⟩ := hcomma.of_canTake htake
  rw [Window.drop_eq_of_getElem? hu]
  cases hmark : u.is "," with
  | false => exact namesAt_of_not_is hmark
  | true =>
    obtain ⟨hnext, hkind⟩ := hnext hmark
    obtain ⟨v, rfl, hv⟩ :=
      hnext.of_canTake (htake.succ hu (isMatchable_of_is hmark (by decide) (by decide)))
    rw [Window.drop_eq_of_getElem? hv, namesAt, if_neg (by simpa [hmark] using hkind)]

/-- The list of names goes on where the walk is shown a comma and a name. -/
theorem namesAt_drop_cons {tokens : List Token} {comma : Option Token} {name : Token}
    (htake : CanTake n tokens) (hcomma : Shows bound offset n comma tokens)
    (hmark : comma.any (·.is ",") = true) (hname : Shows bound offset (n + 1) (some name) tokens)
    (hkind : name.kind = .ident) :
    CanTake (n + 1 + 1) tokens ∧
      namesAt (tokens.drop n) = name.text :: namesAt (tokens.drop (n + 1 + 1)) := by
  obtain ⟨u, rfl, hu⟩ := hcomma.of_canTake htake
  have hone := htake.succ hu (isMatchable_of_is hmark (by decide) (by decide))
  obtain ⟨v, hv, hplace⟩ := hname.of_canTake hone
  obtain rfl := Option.some.inj hv
  refine ⟨hone.succ hplace (isMatchable_of_kind hkind (by decide) (by decide)), ?_⟩
  have hcomma : u.is "," = true := hmark
  rw [Window.drop_eq_of_getElem? hu, Window.drop_eq_of_getElem? hplace, namesAt,
    if_pos (by simp [hcomma, hkind])]

/-- Names are listed as the pattern says. -/
theorem moreNames_looks {fuel : Nat} {names : List String} (hs : Steady bound s) (hne : names ≠ [])
    (hfuel : bound + 2 ≤ names.length + fuel) :
    Ensures ScriptError.IsOfLexer (moreNames fuel names) s fun found s' ↦
      Looks (fun next ↦ CanTake (2 * names.length - 1) next →
        s.offset + 2 * (names.length - 1) ≤ bound →
        found.reverse = names.reverse ++ namesAt (next.drop (2 * names.length - 1)) ∧
          s.offset + 2 * (found.length - 1) ≤ bound) s s' := by
  induction fuel generalizing s names with
  | zero =>
    refine .pure (.refl fun next _ hreach ↦ ?_)
    omega
  | succ fuel ih =>
    have hlength := List.length_pos_iff.mpr hne
    obtain ⟨count, hcount⟩ : ∃ count, 2 * names.length - 1 = count := ⟨_, rfl⟩
    rw [moreNames, hcount]
    -- the list ends here
    have hend {s' : State} {comma next : Option Token} (h : Looks (fun tokens ↦
        Shows bound s.offset count comma tokens ∧ (comma.any (·.is ",") = true →
          Shows bound s.offset (count + 1) next tokens ∧ next.any (·.kind == .ident) = false)) s
            s') :
        Looks (fun tokens ↦ CanTake count tokens → s.offset + 2 * (names.length - 1) ≤ bound →
          names.reverse = names.reverse ++ namesAt (tokens.drop count) ∧
            s.offset + 2 * (names.length - 1) ≤ bound) s s' := by
      refine h.mono fun tokens hshown htake hreach ↦ ⟨?_, hreach⟩
      rw [namesAt_drop_of_shows htake hshown.1 hshown.2, List.append_nil]
    refine (peekAfter_looks hs count).bind fun comma s₁ h₁ ↦
      .branch (fun hcomma ↦ .pure ?_) fun hcomma ↦ ?_
    · exact @hend _ _ none (h₁.mono fun tokens h ↦ ⟨h, fun hyes ↦ by simp [hyes] at hcomma⟩)
    rw [Bool.not_eq_true, Bool.not_eq_false'] at hcomma
    refine (peekAfter_looks (hs.goes h₁.toGoes) (count + 1)).bind fun next s₂ h₂ ↦ ?_
    have h₂ := h₁.trans h₂
    rw [h₁.offset_eq] at h₂
    cases next with
    | none => exact .pure (hend (h₂.mono fun tokens h ↦ ⟨h.1, fun _ ↦ ⟨h.2, rfl⟩⟩))
    | some next =>
      refine .branch (fun hkind ↦ .pure (hend (h₂.mono fun tokens h ↦
        ⟨h.1, fun _ ↦ ⟨h.2, by simpa using hkind⟩⟩))) fun hkind ↦ ?_
      have hname : next.kind = .ident := by simpa using hkind
      refine (ih (hs.goes h₂.toGoes) (List.cons_ne_nil _ _) ?_).mono fun found s₃ h₃ ↦ ?_
      · rw [List.length_cons]
        omega
      have h₃ := h₂.trans h₃
      rw [h₂.offset_eq] at h₃
      refine h₃.mono fun tokens hshows htake hreach ↦ ?_
      obtain ⟨⟨hshown, hnext⟩, hfound⟩ := hshows
      obtain ⟨htwo, hlist⟩ := namesAt_drop_cons htake hshown hcomma hnext hname
      have hmore : 2 * (next.text :: names).length - 1 = count + 1 + 1 := by
        rw [List.length_cons]
        omega
      rw [hmore] at hfound
      obtain ⟨hnames, hreach⟩ := hfound htwo (by rw [List.length_cons]; have := hnext.1; omega)
      refine ⟨?_, hreach⟩
      rw [hnames, hlist, List.reverse_cons, List.append_assoc, List.singleton_append]

theorem paramNames_looks (hs : Steady bound s) (first : Token) :
    Ensures ScriptError.IsOfLexer (paramNames first) s fun stretch s' ↦
      Looks (Finds bound s.offset first
        (fun rest ↦ some (namesStretch (first.text :: namesAt rest)))
        (some stretch)) s s' := by
  refine .get_bind ?_
  rw [hs.lookahead_eq]
  refine (moreNames_looks hs (List.cons_ne_nil _ _) (by rw [List.length_singleton]; omega)).bind
    fun names s₁ h ↦ .pure (h.mono fun next hnext rest hrest hfirst hreach ↦ ?_)
  subst hrest
  obtain ⟨hnames, hlength⟩ := hnext (canTake_one hfirst) (by simpa using hreach)
  rw [List.reverse_singleton, List.singleton_append] at hnames
  refine ⟨by rw [hnames]; rfl, ?_⟩
  rintro _ ⟨⟩
  dsimp only
  rw [List.length_reverse]
  omega

theorem typed_looks (hs : Steady bound s) (c : Consult) (type : LeafType) (first : Token) :
    Ensures ScriptError.IsOfLexer (typed c type first) s fun found s' ↦
      Looks (Finds bound s.offset first (stretchAt? c first · type) found) s s' := by
  -- a leaf of one token looks no further
  have hone {found : Option Stretch} (hfound : ∀ rest, found = stretchAt? c first rest type)
      (hcount : ∀ stretch ∈ found, stretch.count = 1) :
      Looks (Finds bound s.offset first (stretchAt? c first · type) found) s s :=
    .refl fun next rest _ _ hreach ↦ ⟨hfound rest, fun stretch hstretch ↦ by
      rw [hcount stretch hstretch]
      omega⟩
  have hmap {α : Type} {found : Option α} {value : α → Option Value} :
      ∀ stretch ∈ found.map fun a ↦ Stretch.one first (value a), stretch.count = 1 := by
    intro stretch hstretch
    obtain ⟨_, -, rfl⟩ := Option.map_eq_some_iff.mp hstretch
    rfl
  have hite {p : Prop} [Decidable p] {value : Option Value} :
      ∀ stretch ∈ (if p then some (Stretch.one first value) else none), stretch.count = 1 := by
    intro stretch hstretch
    split at hstretch
    · cases hstretch
      rfl
    · cases hstretch
  unfold typed
  cases type with
  | number => exact .pure (hone (fun _ ↦ rfl) hmap)
  | word => exact .pure (hone (fun _ ↦ rfl) hite)
  | bool => exact .pure (hone (fun _ ↦ rfl) hmap)
  | uri => exact .pure (hone (fun _ ↦ rfl) hmap)
  | startToken => exact .pure (hone (fun _ ↦ rfl) hite)
  | identSymbol => exact .pure (hone (fun _ ↦ rfl) hite)
  | singularSymbol => exact .pure (hone (fun _ ↦ rfl) hite)
  | tokenMap1 => exact .pure (hone (fun _ ↦ rfl) hmap)
  | tokenMap2 => exact .pure (hone (fun _ ↦ rfl) hmap)
  | paramNames =>
    refine .branch (fun hident ↦ ?_) fun hident ↦ .pure (hone (fun rest ↦ ?_) (by simp))
    · refine (paramNames_looks hs first).bind fun stretch s₁ h ↦
        .pure (h.mono fun next hnext rest hrest hfirst hreach ↦ ?_)
      dsimp only
      rw [stretchAt?, if_pos hident]
      exact hnext rest hrest hfirst hreach
    · rw [stretchAt?, if_neg hident]
  | time => exact time_looks hs first
  | exprTerminators => exact .pure (hone (fun _ ↦ rfl) (by simp))

/-! ## Walks are paths -/

/-- A part of a walk has come to the end of a path, or there is none. -/
def Follows (bound : Nat) (s : State) (path : Option (List Tile)) (found : Bool) (s' : State) :
    Prop :=
  match path with
  | none => found = false
  | some tiles => found = true ∧ s'.offset = s.offset + (tokensOf tiles).length ∧
      s'.captures = s.captures.insertAll (recordsOf tiles) ∧
      (s.offset ≤ bound + 1 → s'.offset ≤ bound + 1)

variable {path : Option (List Tile)} {yes : Bool}

theorem Follows.exists_tiles (h : Follows bound s path true s') :
    ∃ tiles, path = some tiles ∧ s'.offset = s.offset + (tokensOf tiles).length := by
  cases path with
  | none => cases h
  | some tiles => exact ⟨tiles, rfl, h.2.1⟩

theorem Follows.eq_none (h : Follows bound s path false s') : path = none := by
  cases path with
  | none => rfl
  | some tiles => cases h.1

/-- A path may be followed by another one. -/
theorem Follows.append {tiles : List Tile} (h : Follows bound s (some tiles) true s₁)
    (h' : Follows bound s₁ path yes s₂) : Follows bound s (path.map (tiles ++ ·)) yes s₂ := by
  obtain ⟨-, hoffset, hcaptures, hreach⟩ := h
  cases path with
  | none => exact h'
  | some more =>
    obtain ⟨hyes, hoffset', hcaptures', hreach'⟩ := h'
    refine ⟨hyes, ?_, ?_, hreach' ∘ hreach⟩
    · rw [hoffset', hoffset, tokensOf_append, List.length_append, Nat.add_assoc]
    · rw [hcaptures', hcaptures, recordsOf_append, Captures.insertAll_append]

theorem Looks.follows_iff (h : Looks R s s₁) :
    Follows bound s₁ path yes s' ↔ Follows bound s path yes s' := by
  cases path with
  | none => exact Iff.rfl
  | some tiles => rw [Follows, Follows, h.offset_eq, h.captures_eq]

/-- The next token is the first of those that follow. -/
theorem Shows.exists_cons (h : Shows bound offset 0 found next) :
    ∃ t rest, found = some t ∧ next = t :: rest := by
  obtain ⟨t, ht, hhead⟩ := h.of_canTake canTake_zero
  obtain ⟨rest, hrest⟩ : ∃ rest, next = t :: rest :=
    List.head?_eq_some_iff.mp (by rwa [List.head?_eq_getElem?])
  exact ⟨t, rest, ht, hrest⟩

/-- Pass the tokens of a stretch and record it. -/
def takeStretch (name : String) (type : LeafType) (stretch : Stretch) : MatchM Bool := do
  passStretch stretch
  if let some value := stretch.value then
    if type.hasValue then record (Captures.valueName name) value
  record name (.str stretch.text)
  return true

theorem takeStretch_eq (name : String) (type : LeafType) (stretch : Stretch) (s : State) :
    takeStretch name type stretch s = .ok true { s with
      offset := s.offset + stretch.count
      captures := s.captures.insertAll (recordsFor name type stretch) } := by
  obtain ⟨count, text, value⟩ := stretch
  unfold takeStretch recordsFor
  cases value with
  | none => cases type.hasValue <;> rfl
  | some value => cases type.hasValue <;> rfl

/-- A run of tokens is passed and recorded as a whole. -/
theorem typedLeaf_goes (hs : Steady bound s) (c : Consult) (name : String) (type : LeafType)
    (first : Token) :
    Ensures ScriptError.IsOfLexer
      (do
        let some stretch ← typed c type first | return false
        takeStretch name type stretch) s
      fun found s' ↦ Goes (fun next ↦ ∀ rest, next = first :: rest → IsMatchable first →
        s.offset ≤ bound →
        Follows bound s ((stretchAt? c first rest type).map fun stretch ↦
          [⟨next.take stretch.count, recordsFor name type stretch⟩]) found s') s s' := by
  refine (typed_looks hs c type first).bind fun stretch s₁ h ↦ ?_
  cases stretch with
  | none =>
    refine .pure (h.toGoes.mono fun next hnext rest hrest hfirst hreach ↦ ?_)
    have hfound : none = stretchAt? c first rest type := (hnext rest hrest hfirst hreach).1
    rw [← hfound]
    rfl
  | some stretch =>
    refine .known (takeStretch_eq name type stretch s₁) ?_
    refine .mono (h.toGoes.beside rfl rfl) ?_
    intro next hnext rest hrest hfirst hreach
    obtain ⟨hfound, hcount⟩ := hnext rest hrest hfirst hreach
    dsimp only at hfound
    have htake := canTake_of_stretchAt? hfirst hfound.symm
    rw [← hfound, Option.map_some, Follows, tokensOf_singleton, recordsOf_singleton, hrest,
      List.length_take, Nat.min_eq_left htake.le_length, h.offset_eq, h.captures_eq]
    exact ⟨rfl, rfl, rfl, fun _ ↦ hcount stretch rfl⟩

/-- A leaf that has no tile at the next token gives up. -/
theorem Goes.leaf_fails {l : Leaf} (h : Goes (Shows bound s.offset 0 (some first)) s s')
    (hnone : ∀ rest, tile? c s.captures (first :: rest) l = none) :
    Goes (fun next ↦ Follows bound s ((tile? c s.captures next l).map ([·])) false s') s s' := by
  refine h.mono fun next hshown ↦ ?_
  obtain ⟨t, rest, ht, rfl⟩ := hshown.exists_cons
  obtain rfl := Option.some.inj ht
  rw [hnone]
  rfl

/-- A leaf takes its first token, or looks at it only. -/
theorem Looks.leaf_takes {l : Leaf} (h : Looks (Shows bound s.offset 0 (some first)) s s₁)
    (tile : Tile) (hlength : tile.tokens.length ≤ 1)
    (hsome : ∀ rest, tile? c s.captures (first :: rest) l = some tile)
    (hwindow : s'.window = s₁.window) (hoverflowed : s'.overflowed = s₁.overflowed)
    (hoffset : s'.offset = s₁.offset + tile.tokens.length)
    (hcaptures : s'.captures = s₁.captures.insertAll tile.records) :
    Goes (fun next ↦ Follows bound s ((tile? c s.captures next l).map ([·])) true s') s s' := by
  rw [h.offset_eq] at hoffset
  rw [h.captures_eq] at hcaptures
  refine (h.toGoes.beside hwindow hoverflowed).mono fun next hshown ↦ ?_
  have hreach := hshown.1
  obtain ⟨t, rest, ht, rfl⟩ := hshown.exists_cons
  obtain rfl := Option.some.inj ht
  rw [hsome, Option.map_some, Follows, tokensOf_singleton, recordsOf_singleton]
  exact ⟨rfl, hoffset, hcaptures, fun _ ↦ by omega⟩

/-- A repeated name takes a token spelled as the one that was recorded for it. -/
theorem sameAs_goes (h : Looks (Shows bound s.offset 0 (some first)) s s₁) (c : Consult)
    (name : String) (hopen : isBarred first = false) :
    Ensures ScriptError.IsOfLexer
      (do
        match (← get).captures.text? name with
        | some text => if !first.is text then return false
        | none => pure ()
        passStretch (.one first none)
        record name (.str first.text)
        return true) s₁
      fun found s' ↦ Goes (fun next ↦
        Follows bound s ((tile? c s.captures next (.sameAs name)).map ([·])) found s') s s' := by
  have hpass (hall : (s.captures.text? name).all first.is = true) :
      Ensures ScriptError.IsOfLexer
        (do passStretch (.one first none); record name (.str first.text); return true) s₁
        fun found s' ↦ Goes (fun next ↦
          Follows bound s ((tile? c s.captures next (.sameAs name)).map ([·])) found s') s s' :=
    .modify_bind (.modify_bind (.pure (h.leaf_takes ⟨[first], [(name, .str first.text)]⟩
      (Nat.le_refl 1) (fun rest ↦ by rw [tile?, hopen, hall]; rfl) rfl rfl rfl rfl)))
  refine .get_bind ?_
  rw [h.captures_eq]
  cases hearlier : s.captures.text? name with
  | none => exact hpass (by rw [hearlier]; rfl)
  | some text =>
    refine .branch (fun hno ↦ .pure (h.toGoes.leaf_fails fun rest ↦ ?_)) fun hyes ↦ hpass ?_
    · rw [tile?, hearlier, if_neg (by simpa using fun _ ↦ hno)]
    · rw [hearlier]
      simpa using hyes

/-- Behind the look at the first token, a run of tokens is passed and recorded as the tile says. -/
theorem Looks.typedLeaf_goes (h : Looks (Shows bound s.offset 0 (some first)) s s₁)
    (hs : Steady bound s) (c : Consult) (name : String) (type : LeafType)
    (htype : type ≠ .exprTerminators) (hopen : isBarred first = false) :
    Ensures ScriptError.IsOfLexer
      (do
        let some stretch ← typed c type first | return false
        takeStretch name type stretch) s₁
      fun found s' ↦ Goes (fun next ↦
        Follows bound s ((tile? c s.captures next (.typed name type)).map ([·])) found s')
          s s' := by
  have htile (rest : List Token) :
      (tile? c s.captures (first :: rest) (.typed name type)).map ([·]) =
        (stretchAt? c first rest type).map fun stretch ↦
          [⟨(first :: rest).take stretch.count, recordsFor name type stretch⟩] := by
    rw [tile?, if_neg htype, hopen, if_neg Bool.false_ne_true, Option.map_map]
    rfl
  refine (Matching.typedLeaf_goes (hs.goes h.toGoes) c name type first).mono fun found s₂ h₂ ↦ ?_
  refine (h.toGoes.trans_stay h₂ h.offset_eq).mono fun next hnext ↦ ?_
  obtain ⟨hshown, hfollows⟩ := hnext
  have hreach := hshown.1
  obtain ⟨t, rest, ht, rfl⟩ := hshown.exists_cons
  obtain rfl := Option.some.inj ht
  rw [htile]
  exact h.follows_iff.mp (hfollows rest rfl (isMatchable_of_not_isBarred hopen)
    (by rwa [h.offset_eq]))

theorem leaf_goes (hs : Steady bound s) (c : Consult) (l : Leaf) :
    Ensures ScriptError.IsOfLexer (leaf c l) s fun found s' ↦
      Goes (fun next ↦ Follows bound s ((tile? c s.captures next l).map ([·])) found s') s s' := by
  refine (peekAfter_looks hs 0).bind fun first s₁ h ↦ ?_
  cases first with
  | none =>
    refine .pure (h.toGoes.mono fun next h ↦ ?_)
    obtain ⟨t, rest, ht, -⟩ := h.exists_cons
    cases ht
  | some first =>
    dsimp only
    split
    · next name =>
      refine .branch (fun hends ↦ .modify_bind (.pure ?_)) fun hends ↦ .pure ?_
      · rw [hends]
        refine h.leaf_takes ⟨[], [(name, .str first.text)]⟩ (Nat.zero_le 1) (fun rest ↦ ?_) rfl rfl
          rfl rfl
        rw [tile?, if_pos rfl, if_pos hends]
      · rw [Bool.not_eq_true] at hends
        rw [hends]
        refine h.toGoes.leaf_fails fun rest ↦ ?_
        rw [tile?, if_pos rfl, hends, if_neg Bool.false_ne_true]
    · next hterminator =>
      have htype {name : String} {type : LeafType} (hl : l = .typed name type) :
          type ≠ .exprTerminators := fun heq ↦ hterminator name (by rw [hl, heq])
      refine .branch (fun hbarred ↦ .pure (h.toGoes.leaf_fails fun rest ↦ ?_)) fun hbarred ↦ ?_
      · have hclosed : isBarred first = true := hbarred
        cases l with
        | literal text => rw [tile?, hclosed]; rfl
        | oneOf name values => rw [tile?, hclosed]; rfl
        | sameAs name => rw [tile?, hclosed]; rfl
        | typed name type => rw [tile?, if_neg (htype rfl), if_pos hclosed]
      have hopen : isBarred first = false := by simpa [isBarred] using hbarred
      cases l with
      | literal text =>
        refine .branch (fun hyes ↦ .modify_bind (.pure ?_)) fun hno ↦
          .pure (h.toGoes.leaf_fails fun rest ↦ ?_)
        · exact h.leaf_takes ⟨[first], []⟩ (Nat.le_refl 1)
            (fun rest ↦ by rw [tile?, hopen, hyes]; rfl) rfl rfl rfl rfl
        · rw [tile?, if_neg (by simp [hno])]
      | oneOf name values =>
        refine .branch (fun hyes ↦ .modify_bind (.modify_bind (.pure ?_))) fun hno ↦
          .pure (h.toGoes.leaf_fails fun rest ↦ ?_)
        · exact h.leaf_takes ⟨[first], [(name, .str first.text)]⟩ (Nat.le_refl 1)
            (fun rest ↦ by rw [tile?, hopen, hyes]; rfl) rfl rfl rfl rfl
        · rw [tile?, if_neg (by simp [hno])]
      | sameAs name => exact sameAs_goes h c name hopen
      | typed name type => exact h.typedLeaf_goes hs c name type (htype rfl) hopen

/-- What was matched and recorded by an element that fails is taken back. -/
theorem Goes.restored (h : Goes R s s₁) :
    ∃ s', restore s s₁ = .ok ⟨⟩ s' ∧ Looks R s s' ∧ s'.overflowed = s₁.overflowed :=
  ⟨_, rfl, ⟨h.beside rfl rfl, rfl, rfl⟩, rfl⟩

/-- A walk that went too far tells nothing. -/
theorem Goes.of_overflowed (h : Goes R s s') (hover : s'.overflowed = true) : Goes R' s s' :=
  ⟨h.holds, h.within, fun hwithin ↦ by simp [hover] at hwithin⟩

/-- The next token closes an expression, or it does not. -/
theorem expressionEnds_looks (hs : Steady bound s) :
    Ensures ScriptError.IsOfLexer expressionEnds s fun ends s' ↦
      Looks (fun next ↦ (next.head?.any fun t ↦ t.lexeme.closesExpression) = ends) s s' := by
  refine (peekAfter_looks hs 0).bind fun first s₁ h ↦ .pure (h.mono fun next hnext ↦ ?_)
  obtain ⟨t, rest, rfl, rfl⟩ := hnext.exists_cons
  rfl

mutual

/-- **A walk is a path.** Within reach, an element is matched as the path through it says. The walk
of the program takes back what the path never had. -/
theorem element_goes (c : Consult) : ∀ (e : Element) {s}, Steady bound s →
    Ensures ScriptError.IsOfLexer (element c e) s fun found s' ↦
      Goes (fun next ↦ Follows bound s (path? c s.captures next e) found s') s s'
  | .leaf l _, s, hs => by
    rw [element]
    simp only [path?]
    exact leaf_goes hs c l
  | .group elements _, s, hs => by
    rw [element]
    simp only [path?]
    exact sequence_goes c _ 0 elements hs
  | .either left right _, s, hs => by
    rw [element]
    refine .get_bind ((element_goes c left hs).bind fun found s₁ h₁ ↦
      .branch (fun hfound ↦ ?_) fun hfound ↦ ?_)
    · refine .pure (h₁.mono fun next hnext ↦ ?_)
      rw [hfound] at hnext
      obtain ⟨tiles, hleft, -⟩ := hnext.exists_tiles
      rw [path?, hleft]
      rwa [hleft] at hnext
    · obtain ⟨s₂, hrestore, h₂, hover⟩ := h₁.restored
      refine .ask hrestore
        (.get_bind (.branch (fun hover ↦ .pure (h₂.toGoes.of_overflowed hover)) fun _ ↦ ?_))
      refine (element_goes c right (hs.goes h₂.toGoes)).mono fun found' s₃ h₃ ↦ ?_
      refine (h₂.toGoes.trans_stay h₃ h₂.offset_eq).mono fun next hnext ↦ ?_
      rw [h₂.captures_eq, h₂.follows_iff] at hnext
      obtain ⟨hleft, hright⟩ := hnext
      rw [Bool.not_eq_true] at hfound
      rw [hfound] at hleft
      rw [path?, hleft.eq_none]
      exact hright

theorem sequence_goes (c : Consult) (minRequired matched : Nat) : ∀ (elements : List Element) {s},
    Steady bound s → Ensures ScriptError.IsOfLexer (sequence c minRequired matched elements) s
      fun found s' ↦ Goes (fun next ↦
        Follows bound s (pathAlong? c minRequired matched s.captures next elements) found s') s s'
  | [], s, hs => by
    rw [sequence]
    simp only [pathAlong?]
    exact .pure ⟨.refl, id, fun _ _ _ _ _ _ ↦ ⟨rfl, rfl, rfl, id⟩⟩
  | e :: rest, s, hs => by
    rw [sequence]
    refine .get_bind ((element_goes c e hs).bind fun found s₁ h₁ ↦
      .branch (fun hfound ↦ ?_) fun hfound ↦ ?_)
    · rw [hfound] at h₁
      refine (sequence_goes c minRequired _ rest (hs.goes h₁)).mono fun found' s₂ h₂ ↦ ?_
      have hlie (next : List Token) (hnext : Follows bound s (path? c s.captures next e) true s₁) :
          ∃ taken, Lie taken next ∧ s₁.offset = s.offset + taken.length := by
        obtain ⟨tiles, hpath, hoffset⟩ := hnext.exists_tiles
        exact ⟨tokensOf tiles, lie_of_path? e hpath, hoffset⟩
      refine (h₁.trans h₂ hlie).mono fun next ⟨hfirst, hmore⟩ ↦ ?_
      obtain ⟨tiles, hpath, hoffset⟩ := hfirst.exists_tiles
      rw [hpath] at hfirst
      rw [hoffset, Nat.add_sub_cancel_left, hfirst.2.2.1] at hmore
      rw [pathAlong?, hpath]
      exact hfirst.append hmore
    · rw [Bool.not_eq_true] at hfound
      rw [hfound] at h₁
      obtain ⟨s₂, hrestore, h₂, hover⟩ := h₁.restored
      refine .ask hrestore
        (.get_bind (.branch (fun hover ↦ .pure (h₂.toGoes.of_overflowed hover)) fun _ ↦ ?_))
      refine .branch (fun hoptional ↦ ?_) fun hrequired ↦
        .branch (fun henough ↦ ?_) fun hfew ↦ .pure ?_
      · refine (sequence_goes c minRequired matched rest (hs.goes h₂.toGoes)).mono
          fun found' s₃ h₃ ↦ ?_
        refine (h₂.toGoes.trans_stay h₃ h₂.offset_eq).mono fun next ⟨hfirst, hmore⟩ ↦ ?_
        rw [h₂.captures_eq, h₂.follows_iff] at hmore
        rw [pathAlong?, hfirst.eq_none]
        dsimp only
        rwa [if_pos hoptional]
      · refine (expressionEnds_looks (hs.goes h₂.toGoes)).mono fun ends s₃ h₃ ↦ ?_
        have h₃ := h₂.trans h₃
        refine h₃.toGoes.mono fun next ⟨hfirst, hends⟩ ↦ ?_
        rw [pathAlong?, hfirst.eq_none]
        dsimp only
        rw [if_neg hrequired, hends]
        cases ends with
        | false =>
          rw [if_neg fun h ↦ Bool.false_ne_true h.2]
          rfl
        | true =>
          rw [if_pos ⟨henough, rfl⟩]
          exact ⟨rfl, h₃.offset_eq, h₃.captures_eq, fun h ↦ h₃.offset_eq ▸ h⟩
      · refine h₂.toGoes.mono fun next hfirst ↦ ?_
        rw [pathAlong?, hfirst.eq_none]
        dsimp only
        rw [if_neg hrequired, if_neg fun h ↦ hfew h.1]
        rfl

end

end Matching

end ScriptFront
