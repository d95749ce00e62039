import ScriptFront.Proofs.Pattern.Leaves

/-!
# Pieces of a pattern

A pattern is a row of pieces: blanks, parentheses, bars, question marks and leaves. `Cut` cuts
pieces off the front of a text.

A question mark ends whatever stands in front of it, and so does a blank. So the pieces in front of
either do not depend on what follows, which is how a question mark that is an operator is told from
one that is not: it is an operator if the text in front of it is cut into whole pieces.
-/

namespace ScriptFront.Pattern

variable {c : Char} {cs rest written : List Char} {l : Leaf}

/-! ## Pieces -/

/-- A piece of a pattern. -/
inductive Piece where
  /-- A blank character. -/
  | blank
  /-- The parenthesis that opens a group. -/
  | opening
  /-- The parenthesis that closes a group. -/
  | closing
  /-- The bar between two choices. -/
  | bar
  /-- The question mark behind an element. -/
  | mark
  /-- A leaf. -/
  | leaf (l : Leaf)
deriving DecidableEq

/-- The character of a piece that is always the same one. -/
def Piece.sign? : Piece → Option Char
  | .opening => some '('
  | .closing => some ')'
  | .bar => some '|'
  | .mark => some '?'
  | .blank | .leaf _ => none

/-- Pieces are cut off the front of a text, and the last list is what remains. -/
inductive Cut : List Char → List Piece → List Char → Prop
  /-- No piece. -/
  | nil (rest : List Char) : Cut rest [] rest
  /-- A blank. -/
  | blank {c : Char} {cs rest : List Char} {ps : List Piece} (hc : Text.isBlank c = true)
      (h : Cut cs ps rest) :
    Cut (c :: cs) (.blank :: ps) rest
  /-- A mark of the pattern language. -/
  | sign {p : Piece} {c : Char} {cs rest : List Char} {ps : List Piece} (hp : p.sign? = some c)
    (h : Cut cs ps rest) : Cut (c :: cs) (p :: ps) rest
  /-- A leaf, with nothing behind it that would go on with it. -/
  | leaf {l : Leaf} {written cs rest : List Char} {ps : List Piece} (hl : Spells written l)
      (hstops : Stops l cs)
    (h : Cut cs ps rest) : Cut (written ++ cs) (.leaf l :: ps) rest

/-- A question mark, or a blank. -/
def Separates (cs : List Char) : Prop := ∀ c ∈ cs.head?, c = '?' ∨ Text.isBlank c = true

variable {p : Piece} {ps qs : List Piece} {tail : List Char}

theorem Piece.eq_of_sign {q : Piece} (hp : p.sign? = some c) (hq : q.sign? = some c) : p = q := by
  have hsame : q.sign? = p.sign? := hq.trans hp.symm
  have hsome : p.sign?.isSome = true := by rw [hp]; rfl
  clear hp hq
  cases p <;> cases q <;> simp_all [sign?]

theorem endsWord_of_sign (h : p.sign? = some c) : endsWord c = true := by
  cases p <;> cases h <;> decide

theorem endsWord_of_isBlank (h : Text.isBlank c = true) : endsWord c = true := by
  simp [endsWord, h]

theorem not_isBlank_of_sign (h : p.sign? = some c) : Text.isBlank c = false := by
  cases p <;> cases h <;> decide

theorem Separates.endsWord (h : Separates cs) : ∀ c ∈ cs.head?, endsWord c = true := by
  intro c hc
  rcases h c hc with rfl | hblank
  · decide
  · exact endsWord_of_isBlank hblank

/-- No leaf goes on with a question mark or a blank. -/
theorem stops_separates (h : Separates cs) : Stops l cs := by
  have hname : ∀ c ∈ cs.head?, Text.isNameChar c = false := fun c hc ↦
    isNameChar_of_endsWord (h.endsWord c hc)
  cases l with
  | literal => exact h.endsWord
  | oneOf => trivial
  | sameAs => exact hname
  | typed =>
    intro c hc
    rw [isTypeChar, hname c hc, Bool.false_or, beq_eq_false_iff_ne]
    rintro rfl
    rcases h _ hc with hmark | hblank
    · revert hmark
      decide
    · revert hblank
      decide

theorem stops_append (h : Stops l cs) (htail : Separates tail) : Stops l (cs ++ tail) := by
  cases cs with
  | nil => exact stops_separates htail
  | cons c cs => cases l <;> exact h

namespace Cut

theorem append (h : Cut cs ps tail) (htail : Cut tail qs rest) : Cut cs (ps ++ qs) rest := by
  induction h with
  | nil => exact htail
  | blank hc _ ih => exact .blank hc (ih htail)
  | sign hp _ ih => exact .sign hp (ih htail)
  | leaf hl hstops _ ih => exact .leaf hl hstops (ih htail)

/-- Whatever follows, if it is a question mark or a blank first, the pieces in front of it are the
same. -/
theorem extend (h : Cut cs ps rest) (htail : Separates tail) :
    Cut (cs ++ tail) ps (rest ++ tail) := by
  induction h with
  | nil => exact .nil _
  | blank hc _ ih => exact .blank hc ih
  | sign hp _ ih => exact .sign hp ih
  | leaf hl hstops _ ih =>
    rw [List.append_assoc]
    exact .leaf hl (stops_append hstops htail) ih

theorem blanks {blanks : List Char} (hblanks : ∀ c ∈ blanks, Text.isBlank c = true) :
    Cut (blanks ++ rest) (List.replicate blanks.length .blank) rest := by
  induction blanks with
  | nil => exact .nil rest
  | cons c blanks ih =>
    obtain ⟨hc, hblanks⟩ := List.forall_mem_cons.mp hblanks
    exact .blank hc (ih hblanks)

theorem cons_blank_inv (h : Cut (c :: cs) ps []) (hc : Text.isBlank c = true) :
    ∃ qs, ps = .blank :: qs ∧ Cut cs qs [] := by
  generalize hall : c :: cs = all at h
  generalize hrest : ([] : List Char) = rest at h
  cases h with
  | nil => simp [← hrest] at hall
  | blank _ h =>
    obtain ⟨-, rfl⟩ := List.cons.inj hall
    exact ⟨_, rfl, hrest ▸ h⟩
  | sign hp =>
    obtain ⟨rfl, -⟩ := List.cons.inj hall
    exact absurd (hc.symm.trans (not_isBlank_of_sign hp)) (by simp)
  | leaf hl =>
    obtain ⟨d, more, rfl, hd⟩ := hl.exists_cons
    obtain ⟨rfl, -⟩ := List.cons.inj hall
    exact absurd (hd.symm.trans (endsWord_of_isBlank hc)) (by simp)

theorem cons_sign_inv (h : Cut (c :: cs) ps []) (hp : p.sign? = some c) :
    ∃ qs, ps = p :: qs ∧ Cut cs qs [] := by
  generalize hall : c :: cs = all at h
  generalize hrest : ([] : List Char) = rest at h
  cases h with
  | nil => simp [← hrest] at hall
  | blank hc =>
    obtain ⟨rfl, -⟩ := List.cons.inj hall
    exact absurd (hc.symm.trans (not_isBlank_of_sign hp)) (by simp)
  | @sign q d _ _ _ hq h =>
    obtain ⟨rfl, rfl⟩ := List.cons.inj hall
    obtain rfl := Piece.eq_of_sign hq hp
    exact ⟨_, rfl, hrest ▸ h⟩
  | leaf hl =>
    obtain ⟨d, more, rfl, hd⟩ := hl.exists_cons
    obtain ⟨rfl, -⟩ := List.cons.inj hall
    exact absurd (hd.symm.trans (endsWord_of_sign hp)) (by simp)

theorem leaf_inv (h : Cut (written ++ cs) ps []) (hl : Spells written l) (hstops : Stops l cs) :
    ∃ qs, ps = .leaf l :: qs ∧ Cut cs qs [] := by
  obtain ⟨d, more, rfl, hd⟩ := hl.exists_cons
  generalize hall : d :: more ++ cs = all at h
  generalize hrest : ([] : List Char) = rest at h
  cases h with
  | nil => simp [← hrest] at hall
  | blank hc =>
    obtain ⟨rfl, -⟩ := List.cons.inj hall
    exact absurd (hd.symm.trans (endsWord_of_isBlank hc)) (by simp)
  | sign hp =>
    obtain ⟨rfl, -⟩ := List.cons.inj hall
    exact absurd (hd.symm.trans (endsWord_of_sign hp)) (by simp)
  | leaf hl' hstops' h =>
    obtain ⟨rfl, rfl⟩ := hl.unique hstops hl' hstops' hall
    exact ⟨_, rfl, hrest ▸ h⟩

/-- A text is cut in one way only. -/
theorem unique (h : Cut cs ps tail) (hall : Cut cs qs []) :
    ∃ rs, qs = ps ++ rs ∧ Cut tail rs [] := by
  induction h generalizing qs with
  | nil => exact ⟨qs, rfl, hall⟩
  | blank hc _ ih =>
    obtain ⟨qs, rfl, hmore⟩ := hall.cons_blank_inv hc
    obtain ⟨rs, rfl, hrest⟩ := ih hmore
    exact ⟨rs, rfl, hrest⟩
  | sign hp _ ih =>
    obtain ⟨qs, rfl, hmore⟩ := hall.cons_sign_inv hp
    obtain ⟨rs, rfl, hrest⟩ := ih hmore
    exact ⟨rs, rfl, hrest⟩
  | leaf hl hstops _ ih =>
    obtain ⟨qs, rfl, hmore⟩ := hall.leaf_inv hl hstops
    obtain ⟨rs, rfl, hrest⟩ := ih hmore
    exact ⟨rs, rfl, hrest⟩

end Cut

end ScriptFront.Pattern
