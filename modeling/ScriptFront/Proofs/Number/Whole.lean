import Mathlib.Algebra.Group.Nat.Defs
import ScriptFront.Number.Reading
import ScriptFront.Proofs.Number.Numerals

/-!
# Whole numbers are read exactly

Digits without a point denote a natural, and the number they are read as is the nearest one there
is. Below `2 ^ 53` this is the natural itself: the logarithm tells how far its mantissa has to be
shifted to have its full width, and nothing is rounded away. From there on naturals may be rounded,
and very large ones are not finite, but none comes out less than `2 ^ 53`. So a bound below that
tells the same of the number as of the digits.
-/

namespace ScriptFront.Number

variable {v max : Nat} {ds : List Char}

/-! ## Shifts -/

theorem scaled_natCast (num den k : Nat) : scaled num den (k : Int) = (num, den * 2 ^ k) := by
  rw [scaled, if_neg (Int.not_lt.mpr (Int.natCast_nonneg k)), Int.toNat_natCast]
  rfl

theorem scaled_neg_natCast (num den k : Nat) :
    scaled num den (-(k : Int)) = (num * 2 ^ k, den) := by
  cases k with
  | zero => simp [scaled]
  | succ k =>
    rw [scaled, if_pos (by omega), Int.neg_neg, Int.toNat_natCast]
    rfl

theorem le_mul_two_pow_sub_log2 (hv : v ≠ 0) {n : Nat} (hn : v.log2 ≤ n) :
    2 ^ n ≤ v * 2 ^ (n - v.log2) := by
  calc 2 ^ n = 2 ^ v.log2 * 2 ^ (n - v.log2) := by rw [← Nat.pow_add, Nat.add_sub_cancel' hn]
    _ ≤ v * 2 ^ (n - v.log2) := Nat.mul_le_mul_right _ (Nat.log2_self_le hv)

theorem le_div_two_pow_log2_sub (hv : v ≠ 0) {n : Nat} (hn : n ≤ v.log2) :
    2 ^ n ≤ v / 2 ^ (v.log2 - n) := by
  rw [Nat.le_div_iff_mul_le (Nat.two_pow_pos _), ← Nat.pow_add, Nat.add_sub_cancel' hn]
  exact Nat.log2_self_le hv

/-- The logarithm of a natural is the place of its leading digit, so the second candidate counts. -/
theorem scaleOf_one (hv : v ≠ 0) : scaleOf v 1 = (v.log2 : Int) - 52 := by
  have hguess :
      max ((v.log2 : Int) - (Nat.log2 1 : Nat) - 53) leastExponent = (v.log2 : Int) - 53 := by
    rw [show Nat.log2 1 = 0 from rfl, leastExponent]
    omega
  have hfull :
      ¬ (scaled v 1 ((v.log2 : Int) - 53)).1 / (scaled v 1 ((v.log2 : Int) - 53)).2 <
      mantissaBound := by
    rw [Nat.not_lt, mantissaBound, Nat.pow_eq]
    by_cases hsmall : v.log2 ≤ 53
    · rw [show
        (v.log2 : Int) - 53 =
        -((53 - v.log2 : Nat) : Int) by omega, scaled_neg_natCast, Nat.div_one]
      exact le_mul_two_pow_sub_log2 hv hsmall
    · rw [show
        (v.log2 : Int) - 53 = ((v.log2 - 53 : Nat) : Int) by omega, scaled_natCast, Nat.one_mul]
      exact le_div_two_pow_log2_sub hv (by omega)
  rw [scaleOf]
  simp only [hguess, if_neg hfull]
  omega

theorem roundHalfEven_one (n : Nat) : roundHalfEven n 1 = n := by
  simp [roundHalfEven, Nat.mod_one]

theorem div_le_roundHalfEven (num den : Nat) : num / den ≤ roundHalfEven num den := by
  rw [roundHalfEven]
  split
  · exact Nat.le_refl _
  · split
    · exact Nat.le_succ _
    · split
      · exact Nat.le_refl _
      · exact Nat.le_succ _

/-! ## Naturals as numbers -/

theorem ofRatio_eq {negative : Bool} {num den n d : Nat} {scale : Int} (hnum : num ≠ 0)
    (hscale : scaleOf num den = scale) (hscaled : scaled num den scale = (n, d)) :
    ofRatio negative num den =
      if roundHalfEven n d = mantissaBound then
        if greatestExponent < scale + 1 then .infinite negative
        else .finite negative (mantissaBound / 2) (scale + 1)
      else if greatestExponent < scale then .infinite negative
      else .finite negative (roundHalfEven n d) scale := by
  rw [ofRatio, if_neg hnum]
  simp only [hscale, hscaled]
  split <;> rfl

/-- A natural below the bound of mantissas is shifted to its full width. -/
theorem ofRatio_of_lt (hv : v ≠ 0) (hlt : v < mantissaBound) :
    ofRatio false v 1 = .finite false (v * 2 ^ (52 - v.log2)) (-((52 - v.log2 : Nat) : Int)) := by
  have hlog : v.log2 < 53 := (Nat.log2_lt hv).mpr hlt
  have hwidth : v * 2 ^ (52 - v.log2) ≠ mantissaBound := by
    refine Nat.ne_of_lt ?_
    calc v * 2 ^ (52 - v.log2) < 2 ^ (v.log2 + 1) * 2 ^ (52 - v.log2) :=
          Nat.mul_lt_mul_of_pos_right Nat.lt_log2_self (Nat.two_pow_pos _)
      _ = 2 ^ 53 := by rw [← Nat.pow_add]; congr 1; omega
  have hscale : scaleOf v 1 = -((52 - v.log2 : Nat) : Int) := by
    rw [scaleOf_one hv]
    omega
  rw [ofRatio_eq hv hscale (scaled_neg_natCast _ _ _), roundHalfEven_one, if_neg hwidth,
    if_neg (by rw [greatestExponent]; omega)]

/-- A natural from the bound of mantissas on is not rounded to one below it. -/
theorem ofRatio_of_le (hle : mantissaBound ≤ v) :
    ofRatio false v 1 = .infinite false ∨
      ∃ m k : Nat, ofRatio false v 1 = .finite false m k ∧ mantissaBound ≤ m * 2 ^ k := by
  have hv : v ≠ 0 := Nat.ne_of_gt (Nat.lt_of_lt_of_le (by decide) hle)
  have hlog : 53 ≤ v.log2 := (Nat.le_log2 hv).mpr hle
  have hmantissa : 2 ^ 52 ≤ roundHalfEven v (2 ^ (v.log2 - 52)) :=
    Nat.le_trans (le_div_two_pow_log2_sub hv (by omega)) (div_le_roundHalfEven _ _)
  have hpow {k : Nat} (hk : 1 ≤ k) : 2 ≤ 2 ^ k := Nat.pow_le_pow_right (n := 2) (by decide) hk
  have hscale : scaleOf v 1 = ((v.log2 - 52 : Nat) : Int) := by
    rw [scaleOf_one hv]
    omega
  rw [ofRatio_eq hv hscale (scaled_natCast _ _ _), Nat.one_mul]
  split
  · split
    · exact .inl rfl
    · refine .inr ⟨_, v.log2 - 52 + 1, rfl, ?_⟩
      exact Nat.mul_le_mul (Nat.le_refl (2 ^ 52)) (hpow (by omega))
  · split
    · exact .inl rfl
    · refine .inr ⟨_, v.log2 - 52, rfl, ?_⟩
      exact Nat.mul_le_mul hmantissa (hpow (by omega))

/-- A natural is read back from its number, if it is at most a bound below that of mantissas. -/
theorem whole?_ofRatio (hmax : max < mantissaBound) (v : Nat) :
    (ofRatio false v 1).whole? max = if v ≤ max then some v else none := by
  by_cases hv : v = 0
  · subst hv
    obtain ⟨k, hk⟩ : ∃ k : Nat, -leastExponent = k := ⟨1074, rfl⟩
    rw [if_pos (Nat.zero_le _), ofRatio, if_pos rfl, zero, whole?, hk, scaled_natCast]
    simp
  by_cases hlt : v < mantissaBound
  · rw [ofRatio_of_lt hv hlt, whole?, Int.neg_neg, scaled_natCast, Nat.one_mul]
    have hpos : 0 < 2 ^ (52 - v.log2) := Nat.two_pow_pos _
    simp [Nat.mul_div_cancel _ hpos, Nat.mul_le_mul_right_iff hpos, hpos]
  · rw [if_neg (by omega)]
    rcases ofRatio_of_le (Nat.le_of_not_lt hlt) with hinfinite | ⟨m, k, hfinite, hle⟩
    · rw [hinfinite]
      rfl
    · rw [hfinite, whole?, scaled_neg_natCast]
      have hfar : ¬ m * 2 ^ k ≤ max := by omega
      simp [hfar]

/-! ## Digits -/

theorem ofDigits_cons_zero (ds : List Char) : ofDigits ('0' :: ds) = ofDigits ds := rfl

theorem ofDigits_dropWhile_zero (ds : List Char) :
    ofDigits (ds.dropWhile (· == '0')) = ofDigits ds := by
  induction ds with
  | nil => rfl
  | cons d ds ih =>
    by_cases hd : d = '0'
    · rw [hd, List.dropWhile_cons_of_pos rfl, ih, ofDigits_cons_zero]
    · rw [List.dropWhile_cons_of_neg (by simpa using hd)]

/-- Digits behind a natural move it to the left. -/
theorem mul_ten_pow_le_foldl (ds : List Char) (n : Nat) :
    n * 10 ^ ds.length ≤ ds.foldl (fun n d ↦ 10 * n + (d.toNat - '0'.toNat)) n := by
  induction ds generalizing n with
  | nil => simp
  | cons d ds ih =>
    rw [List.foldl_cons, List.length_cons]
    refine Nat.le_trans ?_ (ih _)
    rw [Nat.pow_succ, ← Nat.mul_assoc, Nat.mul_right_comm]
    exact Nat.mul_le_mul_right _ (by omega)

/-- A leading digit other than zero makes a natural as great as the number of digits says. -/
theorem ten_pow_le_ofDigits {d : Char} (hd : d.isDigit = true) (hne : d ≠ '0') (ds : List Char) :
    10 ^ ds.length ≤ ofDigits (d :: ds) := by
  have hpos : 1 ≤ d.toNat - '0'.toNat := by
    rw [Char.isDigit, Bool.and_eq_true, decide_eq_true_eq, decide_eq_true_eq] at hd
    have hlow : 48 ≤ d.toNat := hd.1
    have hzero : d.toNat ≠ '0'.toNat := fun h ↦ hne (Char.toNat_inj.mp h)
    have : '0'.toNat = 48 := rfl
    omega
  rw [ofDigits, List.foldl_cons]
  refine Nat.le_trans ?_ (mul_ten_pow_le_foldl ds _)
  exact Nat.le_mul_of_pos_left _ (by omega)

/-- Digits without a point or a power are a natural. -/
theorem whole?_ofDecimal (hmax : max < mantissaBound) (hds : ∀ d ∈ ds, d.isDigit = true) :
    (ofDecimal false ds 0).whole? max = if ofDigits ds ≤ max then some (ofDigits ds) else none := by
  rw [← ofDigits_dropWhile_zero ds, ofDecimal]
  have hdigits : ∀ d ∈ ds.dropWhile (· == '0'), d.isDigit = true :=
    fun d hd ↦ hds d ((List.dropWhile_suffix _).mem hd)
  have hleading : ∀ d ∈ (ds.dropWhile (· == '0')).head?, d ≠ '0' := by
    intro d hd
    have := List.head?_dropWhile_not (· == '0') ds
    rw [Option.mem_def.mp hd] at this
    simpa using this
  generalize ds.dropWhile (· == '0') = digits at hdigits hleading
  cases digits with
  | nil => exact whole?_ofRatio hmax 0
  | cons d rest =>
    have hgreat : 10 ^ rest.length ≤ ofDigits (d :: rest) :=
      ten_pow_le_ofDigits (hdigits d List.mem_cons_self) (hleading d rfl) rest
    rw [if_neg (by simp; omega)]
    by_cases hlong : 400 < ((d :: rest).length : Int) + 0
    · rw [if_pos hlong]
      have hfar : mantissaBound ≤ 10 ^ rest.length := by
        rw [List.length_cons] at hlong
        calc mantissaBound ≤ 10 ^ 16 := by decide
          _ ≤ 10 ^ rest.length := Nat.pow_le_pow_right (by decide) (by omega)
      rw [if_neg (by omega)]
      rfl
    · rw [if_neg hlong, if_neg (by decide)]
      simpa using whole?_ofRatio hmax (ofDigits (d :: rest))

/-! ## Texts -/

theorem toLower_of_isDigit {d : Char} (hd : d.isDigit = true) : d.toLower = d := by
  rw [Char.isDigit, Bool.and_eq_true, decide_eq_true_eq, decide_eq_true_eq] at hd
  exact dif_neg fun hupper ↦ absurd (UInt32.le_trans hupper.1 hd.2) (by decide)

/-- Digits have no sign in front. -/
theorem takeSign_of_isDigit {d : Char} (hd : d.isDigit = true) (rest : List Char) :
    takeSign (d :: rest) = (false, d :: rest) := by
  rw [takeSign.eq_def]
  split
  · next heq =>
    cases heq
    exact absurd hd (by decide)
  · next heq =>
    cases heq
    exact absurd hd (by decide)
  · rfl

theorem ofText?_digits (hne : ds ≠ []) (hds : ∀ d ∈ ds, d.isDigit = true) :
    ofText? (String.ofList ds) = some (ofDecimal false ds 0) := by
  obtain ⟨d, rest, rfl⟩ := List.exists_cons_of_ne_nil hne
  have hd : d.isDigit = true := hds d List.mem_cons_self
  -- the words for what is not finite begin with letters
  have hword {c : Char} {more : List Char} (hc : c.isDigit = false) :
      String.ofList ((d :: rest).map Char.toLower) ≠ String.ofList (c :: more) := by
    intro heq
    have hlower : d.toLower = c := by simpa using congrArg (·.toList.head?) heq
    rw [← hlower, toLower_of_isDigit hd, hd] at hc
    cases hc
  have htake := takeWhile_digits hds (show ∀ c ∈ ([] : List Char).head?, c.isDigit = false by simp)
  rw [List.append_nil] at htake
  rw [ofText?, String.toList_ofList, takeSign_of_isDigit hd]
  dsimp only
  split
  · exact absurd ‹_› (hword (c := 'i') (by decide))
  · exact absurd ‹_› (hword (c := 'i') (by decide))
  · exact absurd ‹_› (hword (c := 'n') (by decide))
  · rw [readUnsigned?, htake.1, htake.2]
    simp [readPower?]

/-- **Whole numbers are read exactly.** What digits are read as is the natural that they denote, as
far as that is at most a bound below `2 ^ 53`. -/
theorem whole?_ofText? (hmax : max < mantissaBound) (hne : ds ≠ [])
    (hds : ∀ d ∈ ds, d.isDigit = true) :
    ((ofText? (String.ofList ds)).getD (.zero false)).whole? max =
      if ofDigits ds ≤ max then some (ofDigits ds) else none := by
  rw [ofText?_digits hne hds, Option.getD_some, whole?_ofDecimal hmax hds]

end ScriptFront.Number
