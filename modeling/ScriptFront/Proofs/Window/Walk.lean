import Mathlib.Data.List.TakeWhile
import ScriptFront.Proofs.Window.Moves

/-!
# Looking ahead

A window looks ahead by walking over the tokens it holds, and pulls more of them on its way. Where
the walk ends depends on the tokens alone. `Window.Walk` describes it as a relation on lists, which
holds of every longer list as soon as it holds of one that is long enough, so what was seen once is
seen again however much is pulled in between.
-/

namespace ScriptFront.Window

/-- From the first token of the list, the token `count` significant ones further on, or the first
end, is the one at this place. -/
inductive Walk (passNewLine : Bool) : List Token → (count place : Nat) → Prop
  /-- No further token is wanted. -/
  | here {t : Token} {rest : List Token} : Walk passNewLine (t :: rest) 0 0
  /-- The end is not left. -/
  | ended {t : Token} {rest : List Token} {count : Nat} (ht : t.isEnd = true) :
      Walk passNewLine (t :: rest) count 0
  /-- The next token is not counted if it is passed over. -/
  | on {t next : Token} {rest : List Token} {count place : Nat} (ht : t.isEnd = false)
      (h : Walk passNewLine (next :: rest)
        (if isPassedOver passNewLine next then count + 1 else count) place) :
      Walk passNewLine (t :: next :: rest) (count + 1) (place + 1)

variable {passNewLine : Bool} {tokens more : List Token} {count place : Nat}

/-- A walk is not disturbed by further tokens. -/
theorem Walk.append (h : Walk passNewLine tokens count place) (more : List Token) :
    Walk passNewLine (tokens ++ more) count place := by
  induction h with
  | here => exact .here
  | ended ht => exact .ended ht
  | on ht _ ih => exact .on ht ih

theorem Walk.mono {tokens' : List Token} (h : Walk passNewLine tokens count place)
    (hle : tokens <+: tokens') : Walk passNewLine tokens' count place := by
  obtain ⟨more, rfl⟩ := hle
  exact h.append more

/-- A walk ends at one place only. -/
theorem Walk.unique {place' : Nat} (h : Walk passNewLine tokens count place)
    (h' : Walk passNewLine tokens count place') : place = place' := by
  induction h generalizing place' with
  | here =>
    cases h' with
    | here => rfl
    | ended _ => rfl
  | ended ht =>
    cases h' with
    | here => rfl
    | ended _ => rfl
    | on ht' _ => exact absurd (ht.symm.trans ht') (by simp)
  | on ht _ ih =>
    cases h' with
    | ended ht' => exact absurd (ht.symm.trans ht') (by simp)
    | on _ h' => rw [ih h']

theorem Walk.lt_length (h : Walk passNewLine tokens count place) : place < tokens.length := by
  induction h with
  | here => simp
  | ended _ => simp
  | on _ _ ih => simpa using ih

/-- The token one place ahead is the first that is not passed over. -/
theorem Walk.eq_next {t u next : Token} {passed rest : List Token}
    (h : Walk passNewLine (u :: (passed ++ next :: rest)) 1 place) (hu : u.isEnd = false)
    (hpassed : ∀ v ∈ passed, isPassedOver passNewLine v = true)
    (hnext : isPassedOver passNewLine next = false)
    (ht : (u :: (passed ++ next :: rest))[place]? = some t) : t = next := by
  induction passed generalizing u place with
  | nil =>
    cases h with
    | ended hend => exact absurd (hu.symm.trans hend) (by simp)
    | on _ h =>
      rw [hnext, if_neg (by simp)] at h
      cases h with
      | here => exact (Option.some.inj ht).symm
      | ended _ => exact (Option.some.inj ht).symm
  | cons v passed ih =>
    have hv := hpassed v (List.mem_cons_self ..)
    cases h with
    | ended hend => exact absurd (hu.symm.trans hend) (by simp)
    | on _ h =>
      rw [hv, if_pos rfl] at h
      exact ih h (isEnd_of_isPassedOver hv) (fun w hw ↦ hpassed w (List.mem_cons_of_mem _ hw)) ht

/-- The token so many significant ones ahead, counted without what is passed over. -/
theorem Walk.getElem?_eq {t : Token} {rest : List Token}
    (h : Walk passNewLine (t :: rest) count place)
    (hclosed : Closed (t :: rest))
    (hcount : count ≤ (rest.filter fun t ↦ !isPassedOver passNewLine t).length) :
    (t :: rest)[place]? = (t :: rest.filter fun t ↦ !isPassedOver passNewLine t)[count]? := by
  generalize hl : t :: rest = l at h
  induction h generalizing t rest with
  | here =>
    obtain ⟨rfl, rfl⟩ := List.cons.inj hl
    rfl
  | @ended u more count hu =>
    obtain ⟨rfl, rfl⟩ := List.cons.inj hl
    rcases closed_cons_iff.mp hclosed with ⟨-, rfl⟩ | ⟨hend, -⟩
    · obtain rfl := Nat.le_zero.mp hcount
      rfl
    · exact absurd (hu.symm.trans hend) (by simp)
  | @on u next more count place hu _ ih =>
    obtain ⟨rfl, rfl⟩ := List.cons.inj hl
    have hclosed' : Closed (next :: more) :=
      ((closed_cons_iff.mp hclosed).resolve_left fun h ↦ absurd (hu.symm.trans h.1) (by simp)).2
    rw [List.getElem?_cons_succ, List.getElem?_cons_succ]
    cases hnext : isPassedOver passNewLine next with
    | true =>
      rw [hnext, if_pos rfl] at ih
      rw [List.filter_cons_of_neg (by simp [hnext])] at hcount ⊢
      exact (ih hclosed' hcount rfl).trans List.getElem?_cons_succ
    | false =>
      rw [hnext, if_neg (by simp)] at ih
      rw [List.filter_cons_of_pos (by simp [hnext])] at hcount ⊢
      exact ih hclosed' (Nat.le_of_succ_le_succ hcount) rfl

theorem drop_eq_of_getElem? {t : Token} {n : Nat} (h : tokens[n]? = some t) :
    tokens.drop n = t :: tokens.drop (n + 1) := by
  obtain ⟨hlt, hget⟩ := List.getElem?_eq_some_iff.mp h
  rw [List.drop_eq_getElem_cons hlt, hget]

theorem getElem?_of_isPrefix {tokens' : List Token} {t : Token} {n : Nat}
    (hle : tokens <+: tokens') (h : tokens[n]? = some t) : tokens'[n]? = some t := by
  obtain ⟨more, rfl⟩ := hle
  rw [List.getElem?_append_left (List.getElem?_eq_some_iff.mp h).1, h]

theorem held_eq_of_getElem? {σ : Type} {w : Window σ} {t : Token} {n : Nat}
    (h : w.ahead[n]? = some t) : w.held n = t := by
  rw [held, List.getD_eq_getElem?_getD, h]
  rfl

/-! ## Windows on a lexer -/

section Sound

variable {plain : Prop} {E : ScriptError → Prop} {w : Window Lexer}

/-- The walk from a held token on. Each round moves to the next held token, and the window never
holds more tokens than it states. -/
theorem Firm.reach_ensures {fuel n : Nat} (h : Firm E w) (hn : n < w.ahead.length)
    (hfuel : w.tokensLeft ≤ fuel + n) :
    Ensures E (reach passNewLine fuel count n) w fun m w' ↦
      Holds True w w' ∧ ∃ place, m = n + place ∧
      Walk passNewLine (w'.ahead.drop n) count place := by
  induction fuel generalizing w count n with
  | zero =>
    rw [tokensLeft] at hfuel
    omega
  | succ fuel ih =>
    obtain ⟨t, ht⟩ : ∃ t, w.ahead[n]? = some t := ⟨_, List.getElem?_eq_getElem hn⟩
    have hdrop := drop_eq_of_getElem? ht
    cases count with
    | zero => exact .pure ⟨.refl, 0, rfl, hdrop ▸ .here⟩
    | succ count =>
      rw [reach]
      refine .get_bind ?_
      rw [held_eq_of_getElem? ht]
      by_cases hend : t.isEnd = true
      · rw [if_pos hend]
        exact .pure ⟨.refl, 0, rfl, hdrop ▸ .ended hend⟩
      · rw [if_neg hend]
        rw [Bool.not_eq_true] at hend
        refine (h.hold_ensures ht hend).bind ?_
        rintro _ w₁ ⟨hholds, hlength⟩
        refine .get_bind ?_
        have hleft := hholds.leads.length_le_of_firm h
        rw [List.length_nil, Nat.zero_add] at hleft
        refine (ih (hholds.leads.firm h) hlength (by omega)).mono ?_
        rintro m w₂ ⟨hholds₂, place, rfl, hwalk⟩
        refine ⟨hholds.trans hholds₂, place + 1, by omega, ?_⟩
        -- the walk on goes from the token behind the present one
        obtain ⟨next, hnext⟩ : ∃ next, w₁.ahead[n + 1]? = some next :=
          ⟨_, List.getElem?_eq_getElem hlength⟩
        have hnext₂ := getElem?_of_isPrefix hholds₂.ahead hnext
        rw [drop_eq_of_getElem? (getElem?_of_isPrefix (hholds.trans hholds₂).ahead ht),
          drop_eq_of_getElem? hnext₂]
        rw [drop_eq_of_getElem? hnext₂, held_eq_of_getElem? hnext] at hwalk
        exact .on hend hwalk

/-- The place of a token ahead, or a failure because it is too far ahead. -/
theorem Firm.locate_ensures (h : Firm E w) (count : Nat) (passNewLine : Bool)
    (hfar : w.lookahead < count → E (w.error (.lookaheadExceeded count w.lookahead))) :
    Ensures E (locate count passNewLine) w fun m w' ↦
      Holds True w w' ∧ Walk passNewLine w'.ahead count m := by
  unfold Ensures locate
  by_cases hsight : w.lookahead < count
  · rw [if_pos hsight]
    exact hfar hsight
  · rw [if_neg hsight]
    by_cases hcount : count = 0
    · rw [if_pos hcount, hcount]
      obtain ⟨rest, hcons⟩ := h.exists_cons
      exact ⟨.refl, hcons ▸ .here⟩
    · rw [if_neg hcount]
      have hpos := List.length_pos_iff.mpr h.held
      refine (h.reach_ensures hpos (Nat.le_refl _)).mono ?_
      rintro m w' ⟨hholds, place, rfl, hwalk⟩
      rw [Nat.zero_add]
      exact ⟨hholds, hwalk⟩

/-- The token seen is the one at the end of the walk. -/
theorem Firm.peek_ensures (h : Firm E w) (count : Nat) (passNewLine : Bool)
    (hfar : w.lookahead < count → E (w.error (.lookaheadExceeded count w.lookahead))) :
    Ensures E (peek count passNewLine) w fun t w' ↦
      Holds True w w' ∧ ∃ place, Walk passNewLine w'.ahead count place ∧
      w'.ahead[place]? = some t := by
  refine (h.locate_ensures count passNewLine hfar).bind fun m w' ⟨hholds, hwalk⟩ ↦ .get_bind ?_
  obtain ⟨t, ht⟩ : ∃ t, w'.ahead[m]? = some t := ⟨_, List.getElem?_eq_getElem hwalk.lt_length⟩
  rw [held_eq_of_getElem? ht]
  exact .pure ⟨hholds, m, hwalk, ht⟩

/-- A failure to look ahead is no lack of fuel. -/
theorem withinFuel_error_lookahead (w : Window Lexer) (count : Nat) :
    (w.error (.lookaheadExceeded count w.lookahead)).WithinFuel := by
  simp [ScriptError.WithinFuel, error, ScriptError.ofCause]

theorem Sound.firm_withinFuel (h : Sound plain w) : Firm ScriptError.WithinFuel w :=
  h.firm.loosen fun _ he ↦ he.withinFuel

theorem Sound.locate_ensures (h : Sound plain w) (count : Nat) (passNewLine : Bool) :
    Ensures ScriptError.WithinFuel (locate count passNewLine) w fun m w' ↦
      Holds plain w w' ∧ Walk passNewLine w'.ahead count m :=
  (h.firm_withinFuel.locate_ensures count passNewLine fun _ ↦
    withinFuel_error_lookahead w count).mono
    fun _ _ h ↦ ⟨h.1.weaken, h.2⟩

theorem Sound.peek_ensures (h : Sound plain w) (count : Nat) (passNewLine : Bool) :
    Ensures ScriptError.WithinFuel (peek count passNewLine) w fun t w' ↦
      Holds plain w w' ∧ ∃ place, Walk passNewLine w'.ahead count place ∧
      w'.ahead[place]? = some t :=
  (h.firm_withinFuel.peek_ensures count passNewLine fun _ ↦ withinFuel_error_lookahead w count).mono
    fun _ _ h ↦ ⟨h.1.weaken, h.2⟩

/-- Tokens that were seen not to reach the end can be replaced. -/
theorem Sound.replace_ensures {count place : Nat} {t : Token} {lexeme : Lexeme} (h : Sound plain w)
    (hplain : ¬ plain)
    (hwalk : Walk false w.ahead (max count 1 - 1) place) (ht : w.ahead[place]? = some t)
    (hend : t.isEnd = false) (hlexeme : lexeme.kind ≠ .endOfInput) :
    Ensures ScriptError.WithinFuel (replace count lexeme) w fun _ w' ↦ Leads plain w [] w' := by
  refine (h.locate_ensures _ false).bind fun m w₁ ⟨hholds, hwalk₁⟩ ↦ ?_
  obtain rfl := (hwalk.mono hholds.ahead).unique hwalk₁
  have ht₁ : w₁.ahead[place]? = some t := getElem?_of_isPrefix hholds.ahead ht
  exact hholds.leads.trans_nil (Move.replace lexeme hplain ht₁ hend hlexeme).leads

end Sound

/-! ## Windows with known tokens to come -/

section Streams

variable {σ : Type} [TokenSupply σ] {w : Window σ}

theorem Streams.ahead_prefix (h : w.Streams tokens) : w.ahead <+: tokens := by
  obtain ⟨later, rfl, -⟩ := h.split
  exact List.prefix_append _ _

theorem Streams.reach {fuel n : Nat} (h : w.Streams tokens) (hn : n < w.ahead.length)
    (hfuel : tokens.length ≤ fuel + n) :
    ∃ place w', Window.reach passNewLine fuel count n w = .ok (n + place) w' ∧ w'.Streams tokens ∧
      Walk passNewLine (tokens.drop n) count place ∧ n + place < w'.ahead.length ∧
      w'.lookahead = w.lookahead := by
  induction fuel generalizing w count n with
  | zero =>
    have := h.ahead_prefix.length_le
    omega
  | succ fuel ih =>
    have hlength : n < tokens.length := Nat.lt_of_lt_of_le hn h.ahead_prefix.length_le
    obtain ⟨t, ht⟩ : ∃ t, w.ahead[n]? = some t := ⟨_, List.getElem?_eq_getElem hn⟩
    have hdrop := drop_eq_of_getElem? (getElem?_of_isPrefix h.ahead_prefix ht)
    cases count with
    | zero => exact ⟨0, w, rfl, h, hdrop ▸ .here, hn, rfl⟩
    | succ count =>
      simp only [Window.reach, get_bind_run, held_eq_of_getElem? ht]
      by_cases hend : t.isEnd = true
      · rw [if_pos hend]
        exact ⟨0, w, rfl, h, hdrop ▸ .ended hend, hn, rfl⟩
      · rw [if_neg hend]
        rw [Bool.not_eq_true] at hend
        -- the end is last, so a token follows this one
        have hnext : n + 1 < tokens.length := by
          obtain ⟨body, last, hsplit, hlast, -⟩ := h.closed
          refine Nat.lt_of_le_of_ne hlength fun heq ↦ ?_
          have hplace := getElem?_of_isPrefix h.ahead_prefix ht
          rw [hsplit, show n = body.length by simp [hsplit] at heq; omega] at hplace
          simp only [List.getElem?_concat_length, Option.some.injEq] at hplace
          rw [hplace, hend] at hlast
          exact absurd hlast (by simp)
        obtain ⟨w₁, hhold, hstreams, hlook, hheld⟩ := h.hold hn hnext
        obtain ⟨place, w₂, hreach, hstreams₂, hwalk, hheld₂, hlook₂⟩ :=
          ih hstreams hheld (by omega)
        refine ⟨place + 1, w₂, ?_, hstreams₂, ?_, by omega, hlook₂.trans hlook⟩
        · rw [bind_eq_of_ok hhold, get_bind_run, hreach, Nat.succ_add_eq_add_succ]
        · obtain ⟨next, hplace⟩ : ∃ next, w₁.ahead[n + 1]? = some next :=
            ⟨_, List.getElem?_eq_getElem hheld⟩
          have hdrop₁ := drop_eq_of_getElem? (getElem?_of_isPrefix hstreams.ahead_prefix hplace)
          rw [hdrop, hdrop₁]
          rw [hdrop₁, held_eq_of_getElem? hplace] at hwalk
          exact .on hend hwalk

/-- The place of a token ahead depends on the tokens to come only. -/
theorem Streams.locate (h : w.Streams tokens) (hheld : w.ahead ≠ []) (passNewLine : Bool)
    (hcount : count ≤ w.lookahead) :
    ∃ place w', Window.locate count passNewLine w = .ok place w' ∧ w'.Streams tokens ∧
      Walk passNewLine tokens count place ∧ place < w'.ahead.length ∧
      w'.lookahead = w.lookahead := by
  have hpos := List.length_pos_iff.mpr hheld
  unfold Window.locate
  rw [if_neg (by omega)]
  by_cases hzero : count = 0
  · obtain ⟨t, rest, hcons⟩ := List.exists_cons_of_ne_nil h.closed.ne_nil
    rw [if_pos hzero, hzero]
    exact ⟨0, w, rfl, h, hcons ▸ .here, hpos, rfl⟩
  · rw [if_neg hzero]
    obtain ⟨place, w', hreach, hstreams, hwalk, hlength, hlook⟩ :=
      h.reach hpos
        (show tokens.length ≤ w.tokensLeft + 0 from h.length_le_tokensLeft)
    rw [Nat.zero_add] at hreach hlength
    exact ⟨place, w', hreach, hstreams, hwalk, hlength, hlook⟩

/-- The token seen ahead depends on the tokens to come only. -/
theorem Streams.peek (h : w.Streams tokens) (hheld : w.ahead ≠ []) (passNewLine : Bool)
    (hcount : count ≤ w.lookahead) :
    ∃ t place w', Window.peek count passNewLine w = .ok t w' ∧ w'.Streams tokens ∧
      w'.ahead ≠ [] ∧ Walk passNewLine tokens count place ∧ tokens[place]? = some t ∧
      w'.lookahead = w.lookahead := by
  obtain ⟨place, w', hlocate, hstreams, hwalk, hlength, hlook⟩ := h.locate hheld passNewLine hcount
  obtain ⟨t, ht⟩ : ∃ t, w'.ahead[place]? = some t := ⟨_, List.getElem?_eq_getElem hlength⟩
  refine ⟨t, place, w', ?_, hstreams, ?_, hwalk, getElem?_of_isPrefix hstreams.ahead_prefix ht,
    hlook⟩
  · rw [Window.peek, bind_eq_of_ok hlocate, get_bind_run, held_eq_of_getElem? ht]
    rfl
  · exact List.ne_nil_of_length_pos (Nat.lt_of_le_of_lt (Nat.zero_le _) hlength)

end Streams

/-! ## Among the significant tokens -/

section Shows

variable {σ : Type} [TokenSupply σ] {w : Window σ} {t : Token}

theorem Shows.isSignificant_of_mem (h : w.Shows tokens) (ht : t ∈ tokens) :
    isSignificant t = true := by
  obtain ⟨raw, -, rfl⟩ := h.streams
  exact (List.mem_filter.mp ht).2

/-- What is seen ahead, counted without what is passed over. -/
theorem Shows.peek {first : Token} {rest : List Token} (h : w.Shows (first :: rest))
    (hcount : count ≤ minLookahead)
    (ht : (first :: rest.filter fun t ↦ !isPassedOver passNewLine t)[count]? = some t) :
    ∃ w', Window.peek count passNewLine w = .ok t w' ∧ w'.Shows (first :: rest) := by
  obtain ⟨raw, hstreams, rfl⟩ := h.streams_cons
  obtain ⟨seen, place, w', hrun, hstreams', hheld, hwalk, hseen, -⟩ :=
    hstreams.peek h.held passNewLine (Nat.le_trans hcount hstreams.sight)
  have hfilter : (raw.filter isSignificant).filter (fun t ↦ !isPassedOver passNewLine t) =
      raw.filter fun t ↦ !isPassedOver passNewLine t := by
    rw [List.filter_filter]
    refine List.filter_congr fun u _ ↦ ?_
    rw [isSignificant, isPassedOver]
    cases u.lexeme.isTrivia <;> simp
  rw [hfilter] at ht
  have hlength : count ≤ (raw.filter fun t ↦ !isPassedOver passNewLine t).length :=
    Nat.le_of_lt_succ (List.getElem?_eq_some_iff.mp ht).1
  rw [hwalk.getElem?_eq hstreams.closed hlength, ht] at hseen
  obtain rfl := Option.some.inj hseen
  have hsig := h.current_significant
  rw [h.current_eq] at hsig
  refine ⟨w', hrun, ⟨⟨_, hstreams', List.filter_cons_of_pos hsig⟩, hheld, ?_⟩⟩
  rwa [Window.current_eq hstreams' hheld]

/-- The significant token so many places ahead. -/
theorem Shows.peek_stay (h : w.Shows tokens) (hcount : count ≤ minLookahead)
    (ht : tokens[count]? = some t) :
    ∃ w', Window.peek count false w = .ok t w' ∧ w'.Shows tokens := by
  obtain ⟨first, rest, rfl⟩ := List.exists_cons_of_ne_nil h.closed.ne_nil
  refine h.peek hcount ?_
  have hall : rest.filter (fun t ↦ !isPassedOver false t) = rest := by
    refine List.filter_eq_self.mpr fun u hu ↦ ?_
    simpa [isPassedOver, isSignificant] using h.isSignificant_of_mem (List.mem_cons_of_mem _ hu)
  rwa [hall]

/-- The token behind the line breaks ahead. -/
theorem Shows.peek_pass {first : Token} {rest : List Token} (h : w.Shows (first :: rest))
    (ht : (rest.dropWhile isNewLine).head? = some t) :
    ∃ w', Window.peek 1 true w = .ok t w' ∧ w'.Shows (first :: rest) := by
  refine h.peek (by decide) ?_
  have hall : rest.filter (fun t ↦ !isPassedOver true t) = rest.filter fun t ↦ !isNewLine t := by
    refine List.filter_congr fun u hu ↦ ?_
    have hsig := h.isSignificant_of_mem (List.mem_cons_of_mem _ hu)
    rw [isSignificant, Bool.not_eq_true'] at hsig
    simp [isPassedOver, isNewLine, hsig]
  rw [hall, List.getElem?_cons_succ, ← List.head?_eq_getElem?, List.head?_filter,
    List.find?_not_eq_head?_dropWhile, ht]

end Shows

end ScriptFront.Window
