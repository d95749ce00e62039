import Mathlib.Data.List.Forall2
import ScriptFront.Lexer.Basic
import ScriptFront.Proofs.Computation
import ScriptFront.Proofs.Cursor.Motion

/-!
# What a string is made of

Between the quotes of a double-quoted string, a reader takes a character, a backslash and what it
protects, or a whole section, and so on up to the closing quote. `Lexer.Contents` is this grammar as
a relation between the lexer in front of the content and the lexer behind the closing quote. The
reader computes it: what `Lexer.readParts` yields is related, and what is related it yields, as soon
as its fuel is enough for the characters that are left.

## What the relation is for

The reader goes by fuel, tests one thing after the other, and can fail in every branch. A statement
about strings needs none of this. By induction on the relation it has four cases, one for each thing
that can come next, and each case says by `Lexer.Passed` what was moved over. This is how it is
shown that a string is the same in front of other characters, in another place, or with other line
ends; the fuel and the order of the tests occur in this module only.
-/

namespace ScriptFront.Lexer

/-! ## Moving over a spelling -/

/-- The lexer was moved over `spelling`, which it had in front of it, and not changed otherwise. -/
structure Passed (lx : Lexer) (spelling : List Char) (lx' : Lexer) : Prop where
  /-- The characters to come begin with the spelling. -/
  ahead : spelling <+: lx.cursor.rest
  /-- Only the cursor has moved. -/
  moved : lx' = { lx with cursor := lx.cursor.advance spelling.length }

theorem passed_take {lx : Lexer} {n : Nat} (h : n ≤ lx.cursor.rest.length) :
    Passed lx (lx.cursor.rest.take n) { lx with cursor := lx.cursor.advance n } :=
  ⟨List.take_prefix _ _, by rw [List.length_take, Nat.min_eq_left h]⟩

theorem passed_append {lx : Lexer} {spelling rest : List Char}
    (h : lx.cursor.rest = spelling ++ rest) :
    Passed lx spelling { lx with cursor := lx.cursor.advance spelling.length } :=
  ⟨h ▸ List.prefix_append _ _, rfl⟩

theorem Passed.rest_eq {lx lx' : Lexer} {spelling : List Char} (h : Passed lx spelling lx') :
    lx.cursor.rest = spelling ++ lx'.cursor.rest := by
  obtain ⟨rest, hrest⟩ := h.ahead
  rw [h.moved, Cursor.rest_advance, ← hrest, List.drop_left]

theorem Passed.dialect_eq {lx lx' : Lexer} {spelling : List Char} (h : Passed lx spelling lx') :
    lx'.dialect = lx.dialect := by
  rw [h.moved]

theorem Passed.levels_eq {lx lx' : Lexer} {spelling : List Char} (h : Passed lx spelling lx') :
    lx'.levels = lx.levels := by
  rw [h.moved]

/-- Between two lexers stands one spelling. -/
theorem Passed.unique {lx lx' : Lexer} {spelling spelling' : List Char}
    (h : Passed lx spelling lx') (h' : Passed lx spelling' lx') : spelling = spelling' :=
  List.append_cancel_right (h.rest_eq.symm.trans h'.rest_eq)

/-- What was passed is what `Cursor.since` yields. -/
theorem Passed.since_eq {lx lx' : Lexer} {spelling : List Char} (h : Passed lx spelling lx') :
    lx'.cursor.since lx.cursor.pos = String.ofList spelling := by
  have hlen : spelling.length ≤ lx.cursor.rest.length := h.ahead.length_le
  rw [h.moved, Cursor.since_advance hlen, ← List.prefix_iff_eq_take.mp h.ahead]

theorem Passed.trans {lx lx₁ lx₂ : Lexer} {first second : List Char} (h₁ : Passed lx first lx₁)
    (h₂ : Passed lx₁ second lx₂) : Passed lx (first ++ second) lx₂ := by
  refine ⟨?_, ?_⟩
  · rw [h₁.rest_eq]
    exact (List.prefix_append_right_inj first).mpr h₂.ahead
  · rw [h₂.moved, h₁.moved, List.length_append, Cursor.advance_add]

/-- What stands behind the spelling is in front of the lexer then. -/
theorem Passed.behind {lx lx' : Lexer} {spelling more : List Char} (h : Passed lx spelling lx')
    (hrest : lx.cursor.rest = spelling ++ more) : lx'.cursor.rest = more :=
  List.append_cancel_left (h.rest_eq.symm.trans hrest)

/-- What is in front of the lexer can be passed. -/
theorem exists_passed {lx : Lexer} {spelling more : List Char}
    (h : lx.cursor.rest = spelling ++ more) :
    ∃ lx₁, Passed lx spelling lx₁ ∧ lx₁.cursor.rest = more :=
  ⟨_, passed_append h, (passed_append h).behind h⟩

/-- Of what was passed, the front was passed first. -/
theorem Passed.of_append {lx lx' : Lexer} {front later : List Char}
    (h : Passed lx (front ++ later) lx') :
    Passed { lx with cursor := lx.cursor.advance front.length } later lx' := by
  have hfront : Passed lx front { lx with cursor := lx.cursor.advance front.length } :=
    passed_append (h.rest_eq.trans (List.append_assoc ..))
  refine ⟨⟨lx'.cursor.rest, ?_⟩, ?_⟩
  · exact (hfront.behind (h.rest_eq.trans (List.append_assoc ..))).symm
  · rw [h.moved, List.length_append, Cursor.advance_add]

/-! ## The computations lexers are made of -/

@[simp] theorem scan_run {α : Type} (f : Cursor → α × Cursor) (lx : Lexer) :
    scan f lx = .ok (f lx.cursor).1 { lx with cursor := (f lx.cursor).2 } := rfl

@[simp] theorem scan_bind_run {α β : Type} (f : Cursor → α × Cursor) (k : α → LexM β)
    (lx : Lexer) :
    (scan f >>= k) lx = k (f lx.cursor).1 { lx with cursor := (f lx.cursor).2 } := rfl

@[simp] theorem pass_bind_run {β : Type} (n : Nat) (k : Unit → LexM β) (lx : Lexer) :
    (pass n >>= k) lx = k () { lx with cursor := lx.cursor.advance n } := rfl

@[simp] theorem fail_run {α : Type} (p : Position) (cause : Cause) (lx : Lexer) :
    (fail p cause : LexM α) lx = .error (.ofCause p cause) lx := rfl

/-! ## Sections -/

/-- The brace that closes a section is where its length says, whatever follows it. -/
theorem exists_eq_append_of_sectionLength? {quote : Option Char} {depth count n : Nat}
    {cs : List Char}
    (h : sectionLength? quote depth count cs = some n) :
    ∃ body more, cs = body ++ '\x7d' :: more ∧ n = count + body.length ∧
      ∀ more', sectionLength? quote depth count (body ++ '\x7d' :: more') = some n := by
  fun_induction sectionLength? quote depth count cs with
  | case1 => simp at h
  | case2 => simp at h
  | case3 depth count q d rest ih =>
    obtain ⟨body, more, rfl, rfl, hall⟩ := ih h
    refine ⟨'\\' :: d :: body, more, rfl, by simp only [List.length_cons]; omega, fun more' ↦ ?_⟩
    simpa [sectionLength?] using hall more'
  | case4 depth count c rest q hmark ih =>
    obtain ⟨body, more, rfl, rfl, hall⟩ := ih h
    refine ⟨c :: body, more, rfl, by simp only [List.length_cons]; omega, fun more' ↦ ?_⟩
    rw [List.cons_append, sectionLength?.eq_def]
    simpa [hmark] using hall more'
  | case5 depth count rest ih =>
    obtain ⟨body, more, rfl, rfl, hall⟩ := ih h
    refine ⟨'\x7b' :: body, more, rfl, by simp only [List.length_cons]; omega, fun more' ↦ ?_⟩
    simpa [sectionLength?] using hall more'
  | case6 depth count rest hle =>
    obtain rfl : count = n := by simpa using h
    exact ⟨[], rest, rfl, rfl, fun more' ↦ by simp [sectionLength?, hle]⟩
  | case7 depth count rest hle _ ih =>
    obtain ⟨body, more, rfl, rfl, hall⟩ := ih h
    refine ⟨'\x7d' :: body, more, rfl, by simp only [List.length_cons]; omega, fun more' ↦ ?_⟩
    simpa [sectionLength?, hle] using hall more'
  | case8 depth count c rest hopen hclose ih =>
    obtain ⟨body, more, rfl, rfl, hall⟩ := ih h
    refine ⟨c :: body, more, rfl, by simp only [List.length_cons]; omega, fun more' ↦ ?_⟩
    simpa [sectionLength?, hopen, hclose] using hall more'

theorem sectionLength?_append {quote : Option Char} {depth count n : Nat} {cs tail : List Char}
    (h : sectionLength? quote depth count cs = some n) :
    sectionLength? quote depth count (cs ++ tail) = some n := by
  obtain ⟨body, more, rfl, -, hall⟩ := exists_eq_append_of_sectionLength? h
  rw [List.append_assoc]
  exact hall (more ++ tail)

/-- A lexer for a text that stands `n` characters ahead, one level deeper. -/
def sectionAt (lx : Lexer) (n : Nat) (body : String) : Lexer :=
  lx.forSection (lx.cursor.advance n).position (lx.base + (lx.cursor.advance n).pos) body

section

variable {inner : Lexer → Except ScriptError (List Token)} {opening : Position} {body : String}
  {more : List Char} {lx lx' lx₁ lx₂ : Lexer}

/-- Reading a section moves over its text and the brace that closes it. -/
theorem readSection_eq_ok (h : readSection opening lx = .ok body lx') :
    Passed lx (body.toList ++ ['\x7d']) lx' ∧
      sectionLength? none 1 0 (body.toList ++ ['\x7d']) = some body.length := by
  rw [readSection, get_bind_run] at h
  cases hlength : sectionLength? none 1 0 lx.cursor.rest with
  | none =>
    simp only [hlength] at h
    cases h
  | some n =>
    simp only [hlength] at h
    obtain ⟨found, more, hrest, hn, hall⟩ := exists_eq_append_of_sectionLength? hlength
    obtain rfl : n = found.length := by rw [hn, Nat.zero_add]
    rw [pass_bind_run, hrest, List.take_left] at h
    cases h
    have hlist : (String.ofList found).toList = found := String.toList_ofList
    refine ⟨?_, ?_⟩
    · have hsplit : lx.cursor.rest = (found ++ ['\x7d']) ++ more := by
        rw [hrest, List.append_assoc]; rfl
      have hpassed := passed_append hsplit
      rw [List.length_append] at hpassed
      rwa [hlist]
    · rw [hlist, hall [], String.length_ofList]

/-- A section is read, whatever follows the brace that closes it. -/
theorem Passed.readSection (h : Passed lx (body.toList ++ ['\x7d']) lx')
    (hbody : sectionLength? none 1 0 (body.toList ++ ['\x7d']) = some body.length) :
    readSection opening lx = .ok body lx' := by
  rw [Lexer.readSection, get_bind_run, h.rest_eq, sectionLength?_append hbody, h.moved]
  simp [pass_bind_run, String.length_toList]

/-! ## The grammar of the content -/

/-- **What is read between quotes**, when the text and the parts before it were read already, both
last one first. The result is the text and the parts in the end. -/
inductive Contents (inner : Lexer → Except ScriptError (List Token)) :
    List Char → List Section → Lexer → List Char × List Section → Lexer → Prop
  /-- The closing quote. -/
  | close {text : List Char} {parts : List Section} {lx lx₁ : Lexer} (h : Passed lx ['"'] lx₁) :
      Contents inner text parts lx (text, parts) lx₁
  /-- A backslash and the character it protects. -/
  | escape {text : List Char} {parts : List Section} {lx lx₁ lx₂ : Lexer}
      {found : List Char × List Section} {d : Char} (h : Passed lx ['\\', d] lx₁)
      (hrest : Contents inner (Text.unescape d :: text) parts lx₁ found lx₂) :
      Contents inner text parts lx found lx₂
  /-- A section, which lexers that stand in it cut into tokens. -/
  | embedded {text : List Char} {parts : List Section} {lx lx₁ lx₂ : Lexer}
      {found : List Char × List Section} {body : String} {tokens : List Token}
      (h : Passed lx (lx.dialect.marker :: '\x7b' :: (body.toList ++ ['\x7d'])) lx₁)
      (hslash : lx.dialect.marker ≠ '\\') (hquote : lx.dialect.marker ≠ '"')
      (hlevels : 0 < lx.levels)
      (hbody : sectionLength? none 1 0 (body.toList ++ ['\x7d']) = some body.length)
      (hcut : inner (lx.sectionAt 2 body) = .ok tokens)
      (hrest : Contents inner [] (.tokens tokens :: closeText text parts) lx₁ found lx₂) :
      Contents inner text parts lx found lx₂
  /-- A character that stands for itself. -/
  | char {text : List Char} {parts : List Section} {lx lx₁ lx₂ : Lexer}
      {found : List Char × List Section} {c : Char} (h : Passed lx [c] lx₁) (hslash : c ≠ '\\')
      (hquote : c ≠ '"')
      (hsection : ¬ (c = lx.dialect.marker ∧ lx₁.cursor.rest.head? = some '\x7b'))
      (hrest : Contents inner (c :: text) parts lx₁ found lx₂) :
      Contents inner text parts lx found lx₂

variable {fuel : Nat} {text : List Char} {parts : List Section} {found : List Char × List Section}

/-- What the reader yields is derived. -/
theorem contents_of_readParts (h : readParts inner opening fuel text parts lx = .ok found lx₁) :
    Contents inner text parts lx found lx₁ := by
  induction fuel generalizing text parts lx with
  | zero => cases h
  | succ fuel ih =>
    rw [readParts, get_bind_run] at h
    cases hcs : lx.cursor.rest with
    | nil =>
      simp only [hcs] at h
      cases h
    | cons c rest =>
      have hone : Passed lx [c] { lx with cursor := lx.cursor.advance 1 } := passed_append hcs
      simp only [hcs] at h
      split_ifs at h with hslash hquote hsection hlevels
      · obtain rfl := hslash
        cases rest with
        | nil => cases h
        | cons d rest => exact .escape (passed_append (show _ = ['\\', d] ++ rest from hcs)) (ih h)
      · obtain rfl := hquote
        cases h
        exact .close hone
      · cases h
      · obtain ⟨rfl, hbrace⟩ := hsection
        obtain ⟨rest, rfl⟩ := List.head?_eq_some_iff.mp hbrace
        rw [pass_bind_run, get_bind_run] at h
        obtain ⟨body, lx₂, hsection, h⟩ := bind_eq_ok_iff.mp h
        obtain ⟨hpassed, hlength⟩ := readSection_eq_ok hsection
        have hopening := passed_append (show _ = [lx.dialect.marker, '\x7b'] ++ rest from hcs)
        generalize hcut : inner _ = cut at h
        cases cut with
        | error e => cases h
        | ok tokens =>
          exact .embedded (hopening.trans hpassed) hslash hquote (Nat.pos_of_ne_zero hlevels)
            hlength hcut (ih h)
      · refine .char hone hslash hquote ?_ (ih h)
        rwa [hone.behind hcs]

/-- A reader that has passed something has less fuel left than it had, and still enough. -/
theorem Passed.exists_fuel {spelling : List Char} (h : Passed lx spelling lx₁)
    (hne : spelling ≠ []) (hfuel : lx.cursor.rest.length ≤ fuel) :
    ∃ less, fuel = less + 1 ∧ lx₁.cursor.rest.length ≤ less := by
  have hone := List.length_pos_iff.mpr hne
  rw [h.rest_eq, List.length_append] at hfuel
  exact ⟨fuel - 1, by omega, by omega⟩

/-- What is derived is what the reader yields, given fuel for the characters that are left. -/
theorem Contents.readParts (h : Contents inner text parts lx found lx₁) (opening : Position)
    (hfuel : lx.cursor.rest.length ≤ fuel) :
    readParts inner opening fuel text parts lx = .ok found lx₁ := by
  induction h generalizing fuel with
  | close h =>
    obtain ⟨fuel, rfl, -⟩ := h.exists_fuel (by simp) hfuel
    rw [Lexer.readParts, get_bind_run, h.rest_eq, h.moved]
    rfl
  | escape h _ ih =>
    obtain ⟨fuel, rfl, hless⟩ := h.exists_fuel (by simp) hfuel
    rw [Lexer.readParts, get_bind_run, h.rest_eq, ← ih hless, h.moved]
    rfl
  | @embedded _ _ lx lx₁ _ _ body _ h hslash hquote hlevels hbody hcut _ ih =>
    obtain ⟨fuel, rfl, hless⟩ := h.exists_fuel (by simp) hfuel
    have hsection : readSection opening { lx with cursor := lx.cursor.advance 2 } = .ok body lx₁ :=
      Passed.readSection (Passed.of_append (show Passed lx ([_, _] ++ _) lx₁ from h)) hbody
    rw [Lexer.readParts, get_bind_run, h.rest_eq]
    dsimp only [List.cons_append]
    rw [if_neg hslash, if_neg hquote, if_pos ⟨rfl, rfl⟩, if_neg (Nat.ne_of_gt hlevels),
      pass_bind_run, get_bind_run, bind_eq_of_ok hsection]
    rw [sectionAt] at hcut
    dsimp only
    rw [hcut]
    exact ih hless
  | char h hslash hquote hsection _ ih =>
    obtain ⟨fuel, rfl, hless⟩ := h.exists_fuel (by simp) hfuel
    rw [Lexer.readParts, get_bind_run, h.rest_eq, ← ih hless]
    dsimp only [List.cons_append, List.nil_append]
    rw [if_neg hslash, if_neg hquote, if_neg hsection, h.moved]
    rfl

/-- The content is passed, and its closing quote at least. -/
theorem Contents.exists_passed (h : Contents inner text parts lx found lx₁) :
    ∃ spelling, Passed lx spelling lx₁ ∧ spelling ≠ [] := by
  induction h with
  | close h => exact ⟨_, h, List.cons_ne_nil _ _⟩
  | escape h _ ih | embedded h _ _ _ _ _ _ ih | char h _ _ _ _ ih =>
    obtain ⟨spelling, hpassed, -⟩ := ih
    exact ⟨_, h.trans hpassed, List.cons_ne_nil _ _⟩

/-- Parts that are related stay related, when the text that was read is put in front of them. -/
theorem forall₂_closeText {R : Section → Section → Prop}
    (htext : ∀ value, R (.text value) (.text value)) (text : List Char)
    {parts parts' : List Section} (h : List.Forall₂ R parts parts') :
    List.Forall₂ R (closeText text parts) (closeText text parts') := by
  rw [closeText, closeText]
  split
  · exact h
  · exact .cons (htext _) h

/-! ## Strings -/

/-- The literal written as `raw`, of the content that was found in it. -/
def literalOf (raw : String) (found : List Char × List Section) : Lexeme :=
  if found.2.isEmpty then .str raw (String.ofList found.1.reverse)
  else .interpolated raw (closeText found.1 found.2).reverse

theorem text_literalOf (raw : String) (found : List Char × List Section) :
    (literalOf raw found).text = raw := by
  rw [literalOf]
  split <;> rfl

theorem kind_literalOf (raw : String) (found : List Char × List Section) :
    (literalOf raw found).kind = .str ∨ (literalOf raw found).kind = .interpolated := by
  rw [literalOf]
  split
  · exact .inl rfl
  · exact .inr rfl

/-- Literals of related parts are related as literals with sections are, if they have any. -/
theorem literalOf_related {R : Section → Section → Prop} {S : Lexeme → Lexeme → Prop}
    (htext : ∀ value, R (.text value) (.text value)) (hplain : ∀ raw s, S (.str raw s) (.str raw s))
    (hsections : ∀ raw {parts parts' : List Section}, List.Forall₂ R parts parts' →
      S (.interpolated raw parts) (.interpolated raw parts'))
    (raw : String) (text : List Char) {parts parts' : List Section}
    (h : List.Forall₂ R parts parts') :
    S (literalOf raw (text, parts)) (literalOf raw (text, parts')) := by
  cases h with
  | nil => exact hplain _ _
  | cons hpart hparts =>
    refine hsections raw ?_
    rw [List.forall₂_reverse_iff]
    exact forall₂_closeText htext text (.cons hpart hparts)

/-- A string is its content between quotes. -/
theorem readString_eq_ok_iff {l : Lexeme} :
    readString inner lx = .ok l lx₁ ↔
      ∃ found, Contents inner [] [] { lx with cursor := lx.cursor.advance 1 } found lx₁ ∧
        l = literalOf (lx₁.cursor.since lx.cursor.pos) found := by
  simp only [readString, get_bind_run, pass_bind_run]
  refine bind_eq_ok_iff.trans ⟨?_, ?_⟩
  · rintro ⟨⟨text, parts⟩, lx₂, hparts, h⟩
    refine ⟨(text, parts), ?_⟩
    rw [literalOf]
    dsimp only [get_bind_run] at h ⊢
    split_ifs at h ⊢ <;> cases h <;> exact ⟨contents_of_readParts hparts, rfl⟩
  · rintro ⟨⟨text, parts⟩, hcontents, rfl⟩
    refine ⟨(text, parts), lx₁, hcontents.readParts _ ?_, ?_⟩
    · rw [Cursor.left_eq_length, Cursor.rest_advance, List.length_drop]
      exact Nat.sub_le _ _
    · rw [literalOf]
      dsimp only [get_bind_run]
      split_ifs <;> rfl

end

end ScriptFront.Lexer
