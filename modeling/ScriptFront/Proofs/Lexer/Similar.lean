import Mathlib.Data.List.Forall2
import ScriptFront.Proofs.Window.Stream

/-!
# The same tokens in another place

Characters that stand in two places, of one text or of two, are cut into tokens that differ in
nothing but these places. Such tokens are *similar*. A section embedded in a string numbers its own
tokens, and all that is kept of their numbers is that they go up. How a line break is written makes
no difference either: at the seam of two texts one carriage return may have to share its line break
with the line feed that comes next.
-/

namespace ScriptFront

/-- The ways to write a line break. -/
def Lexeme.lineBreaks : List String := ["\n", "\r", "\r\n"]

/-- The tokens have increasing numbers. -/
def InOrder (tokens : List Token) : Prop := tokens.Pairwise fun t u ↦ t.index < u.index

mutual

/-- The lexemes differ in the places of embedded tokens and in how line breaks are written. -/
inductive Lexeme.Similar : Lexeme → Lexeme → Prop
  /-- Other lexemes do not differ at all. -/
  | same {l : Lexeme} (hbreak : l.kind ≠ .newLine) (hparts : l.kind ≠ .interpolated) :
      Lexeme.Similar l l
  /-- Line breaks. -/
  | newLine {a b : String} (ha : a ∈ Lexeme.lineBreaks) (hb : b ∈ Lexeme.lineBreaks) :
      Lexeme.Similar (.newLine a) (.newLine b)
  /-- Strings with embedded sections. -/
  | interpolated (raw : String) {parts parts' : List Section}
      (h : List.Forall₂ Section.Similar parts parts') :
      Lexeme.Similar (.interpolated raw parts) (.interpolated raw parts')

/-- The parts of a string differ in the places of embedded tokens. -/
inductive Section.Similar : Section → Section → Prop
  /-- Literal text. -/
  | text (value : String) : Section.Similar (.text value) (.text value)
  /-- A section. -/
  | tokens {list list' : List Token} (hclosed : Closed list) (horder : InOrder list')
      (h : List.Forall₂ Token.Similar list list') :
      Section.Similar (.tokens list) (.tokens list')

/-- The tokens differ in their places. -/
inductive Token.Similar : Token → Token → Prop
  /-- Their lexemes are similar. -/
  | mk {l l' : Lexeme} {position position' : Position} {offset offset' index index' : Nat}
      (h : Lexeme.Similar l l') :
      Token.Similar (.mk l position offset index) (.mk l' position' offset' index')

end

variable {l l' : Lexeme} {t t' : Token} {list list' : List Token} {text : String}

/-! ## What similar lexemes have in common -/

theorem Lexeme.Similar.kind_eq (h : l.Similar l') : l'.kind = l.kind := by
  cases h <;> rfl

/-- Spelled neither like the end of the text nor like a line break. -/
def Lexeme.IsMark (text : String) : Prop := text ∉ "" :: Lexeme.lineBreaks

instance (text : String) : Decidable (Lexeme.IsMark text) :=
  inferInstanceAs (Decidable (text ∉ "" :: Lexeme.lineBreaks))

/-- A line break with one of its spellings. -/
def Lexeme.IsLineBreak (l : Lexeme) : Prop := ∃ text ∈ Lexeme.lineBreaks, l = .newLine text

theorem Lexeme.IsLineBreak.kind_eq (h : l.IsLineBreak) : l.kind = .newLine := by
  obtain ⟨text, -, rfl⟩ := h
  rfl

theorem Lexeme.IsMark.not_mem (h : IsMark text) : text ∉ lineBreaks :=
  fun hmem ↦ h (List.mem_cons_of_mem _ hmem)

theorem Lexeme.IsMark.is_lineBreak (h : IsMark text) (hl : l.IsLineBreak) : l.is text = false := by
  obtain ⟨spelling, hspelling, rfl⟩ := hl
  have hne : spelling ≠ text := by
    rintro rfl
    exact h.not_mem hspelling
  simpa [Lexeme.is, Lexeme.text] using hne

theorem Lexeme.IsMark.is_end (h : IsMark text) : Lexeme.endOfInput.is text = false := by
  have hne : "" ≠ text := by
    rintro rfl
    exact h (List.mem_cons_self ..)
  simpa [Lexeme.is, Lexeme.text] using hne

theorem Lexeme.Similar.isLineBreak (h : l.Similar l') (hl : l.kind = .newLine) :
    l.IsLineBreak ∧ l'.IsLineBreak := by
  cases h with
  | same hbreak => exact absurd hl hbreak
  | newLine ha hb => exact ⟨⟨_, ha, rfl⟩, _, hb, rfl⟩
  | interpolated => cases hl

theorem Lexeme.Similar.is_eq (h : l.Similar l') (htext : IsMark text) : l'.is text = l.is text := by
  cases h with
  | same => rfl
  | newLine ha hb => rw [htext.is_lineBreak ⟨_, ha, rfl⟩, htext.is_lineBreak ⟨_, hb, rfl⟩]
  | interpolated => rfl

theorem Lexeme.Similar.text_eq (h : l.Similar l') (hl : l.kind ≠ .newLine) : l'.text = l.text := by
  cases h with
  | same => rfl
  | newLine => exact absurd rfl hl
  | interpolated => rfl

/-! ## Similar tokens -/

namespace Token.Similar

theorem lexeme (h : Similar t t') : Lexeme.Similar t.lexeme t'.lexeme := by
  obtain ⟨hl⟩ := h
  exact hl

theorem kind_eq (h : Similar t t') : t'.kind = t.kind := h.lexeme.kind_eq

theorem isEnd_eq (h : Similar t t') : t'.isEnd = t.isEnd := by
  rw [isEnd, isEnd, h.kind_eq]

theorem isNewLine_eq (h : Similar t t') : Window.isNewLine t' = Window.isNewLine t := by
  rw [Window.isNewLine, Window.isNewLine, h.kind_eq]

theorem isSignificant_eq (h : Similar t t') : Window.isSignificant t' = Window.isSignificant t := by
  have hkind : t'.lexeme.kind = t.lexeme.kind := h.kind_eq
  rw [Window.isSignificant, Window.isSignificant, Lexeme.isTrivia, Lexeme.isTrivia, hkind]

theorem is_eq (h : Similar t t') (htext : Lexeme.IsMark text) : t'.is text = t.is text :=
  h.lexeme.is_eq htext

end Token.Similar

theorem forall₂_closed (h : List.Forall₂ Token.Similar list list') (hclosed : Closed list) :
    Closed list' := by
  induction h with
  | nil => exact absurd rfl hclosed.ne_nil
  | cons ht hrest ih =>
    refine closed_cons_iff.mpr ?_
    rw [ht.isEnd_eq]
    refine (closed_cons_iff.mp hclosed).imp (And.imp_right fun hnil ↦ ?_) (And.imp_right ih)
    exact List.forall₂_nil_left_iff.mp (hnil ▸ hrest)

/-- Blanks and comments may be left out on both sides. -/
theorem forall₂_filter (h : List.Forall₂ Token.Similar list list') :
    List.Forall₂ Token.Similar (list.filter Window.isSignificant)
      (list'.filter Window.isSignificant) :=
  List.rel_filter (fun _ _ ht ↦ iff_of_eq (congrArg (· = true) ht.isSignificant_eq.symm)) h

end ScriptFront
