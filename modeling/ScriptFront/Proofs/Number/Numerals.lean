import ScriptFront.Cursor.Scan
import ScriptFront.Number.Style

/-!
# Written numbers are numerals

In script text every finite number is written positionally, so apart from its sign it is a numeral:
digits, and possibly a point with further digits behind it. A lexer reads a numeral to its end if no
digit follows, and no point with a digit behind it.
-/

namespace ScriptFront

/-- Digits, or digits on both sides of a point. -/
inductive IsNumeral : List Char → Prop
  | whole {ds : List Char} (hne : ds ≠ []) (hds : ∀ d ∈ ds, d.isDigit = true) : IsNumeral ds
  | point {ds es : List Char} (hne : ds ≠ []) (hds : ∀ d ∈ ds, d.isDigit = true) (hne' : es ≠ [])
    (hes : ∀ d ∈ es, d.isDigit = true) : IsNumeral (ds ++ '.' :: es)

theorem IsNumeral.exists_digit {cs : List Char} (h : IsNumeral cs) :
    ∃ d rest, cs = d :: rest ∧ d.isDigit = true := by
  cases h with
  | whole hne hds =>
    obtain ⟨d, rest, rfl⟩ := List.exists_cons_of_ne_nil hne
    exact ⟨d, rest, rfl, hds d List.mem_cons_self⟩
  | point hne hds =>
    obtain ⟨d, rest, rfl⟩ := List.exists_cons_of_ne_nil hne
    exact ⟨d, _, rfl, hds d List.mem_cons_self⟩

/-! ## Writing -/

namespace Number

theorem isNumeral_positional {digits : List Char} (hne : digits ≠ [])
    (hdigits : ∀ d ∈ digits, d.isDigit = true) (power : Int) :
    IsNumeral (positional .script digits power) := by
  have hzeros : ∀ n, ∀ d ∈ List.replicate n '0', d.isDigit = true := by
    intro n d hd
    rw [List.eq_of_mem_replicate hd]
    rfl
  rw [positional]
  by_cases hpower : 0 ≤ power
  · rw [if_pos hpower, if_neg (by decide), List.append_nil]
    refine .whole (by simp [hne]) fun d hd ↦ ?_
    rcases List.mem_append.mp hd with hd | hd
    · exact hdigits d hd
    · exact hzeros _ d hd
  rw [if_neg hpower]
  by_cases hwhole : (digits.length : Int) + power ≤ 0
  · rw [if_pos hwhole]
    refine IsNumeral.point (List.cons_ne_nil '0' []) (by simp) (by simp [hne]) fun d hd ↦ ?_
    rcases List.mem_append.mp hd with hd | hd
    · exact hzeros _ d hd
    · exact hdigits d hd
  · -- the point stands inside the digits, so there are some on both sides
    rw [if_neg hwhole]
    refine .point ?_ (fun d hd ↦ hdigits d (List.mem_of_mem_take hd)) ?_
      fun d hd ↦ hdigits d (List.mem_of_mem_drop hd)
    · rw [ne_eq, List.take_eq_nil_iff, not_or]
      exact ⟨by omega, hne⟩
    · rw [ne_eq, List.drop_eq_nil_iff]
      omega

theorem isNumeral_text (mantissa : Nat) (exponent : Int) :
    IsNumeral (text (.finite false mantissa exponent)).toList := by
  have htext : (text (.finite false mantissa exponent)).toList =
      if mantissa = 0 then positional .script ['0'] 0
      else positional .script (Nat.toDigits 10 (shortest .up mantissa exponent).digits)
        (shortest .up mantissa exponent).power := by
    rw [text, render]
    simp [NumberStyle.isPositional, NumberStyle.script]
  rw [htext]
  split
  · exact isNumeral_positional (by simp) (by simp) 0
  · exact isNumeral_positional Nat.toDigits_ne_nil
      (fun d hd ↦ Nat.isDigit_of_mem_toDigits (by decide) (by decide) hd) _

/-- The text of a negative number is a minus sign and the text of its opposite. -/
theorem toList_text_negate (mantissa : Nat) (exponent : Int) :
    (text (.finite true mantissa exponent)).toList =
      '-' :: (text (.finite false mantissa exponent)).toList := by
  simp [text, render]

end Number

/-! ## Reading -/

theorem takeWhile_digits {ds rest : List Char} (hds : ∀ d ∈ ds, d.isDigit = true)
    (hrest : ∀ c ∈ rest.head?, c.isDigit = false) :
    (ds ++ rest).takeWhile Char.isDigit = ds ∧ (ds ++ rest).dropWhile Char.isDigit = rest := by
  rw [List.takeWhile_append_of_pos hds, List.dropWhile_append_of_pos hds]
  cases rest with
  | nil => simp
  | cons c rest => simp [hrest c rfl]

/-- A numeral is read to its end. -/
theorem IsNumeral.numberRun_eq {cs rest : List Char} (h : IsNumeral cs)
    (hrest : ∀ c ∈ rest.head?, c.isDigit = false)
    (hpoint : ∀ c more, rest = '.' :: c :: more → c.isDigit = false) :
    Cursor.numberRun (cs ++ rest) = cs := by
  cases h with
  | whole hne hds =>
    obtain ⟨htake, hdrop⟩ := takeWhile_digits hds hrest
    rw [Cursor.numberRun, htake, hdrop]
    split
    · next more =>
      have hnone : more.takeWhile Char.isDigit = [] := by
        cases more with
        | nil => rfl
        | cons c more => simp [hpoint c more rfl]
      simp [hnone]
    · rfl
  | @point ds es hne hds hne' hes =>
    have hsplit : ds ++ '.' :: es ++ rest = ds ++ '.' :: (es ++ rest) := by simp
    obtain ⟨htake, hdrop⟩ :=
      takeWhile_digits hds (show ∀ c ∈ ('.' :: (es ++ rest)).head?, c.isDigit = false by simp)
    rw [hsplit, Cursor.numberRun, htake, hdrop]
    simp [(takeWhile_digits hes hrest).1, hne']

end ScriptFront
