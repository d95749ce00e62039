import Mathlib.Data.List.Forall2
import ScriptFront.Parse.Operand

/-!
# Lexemes that decide alike

A parser asks little of a token: of which kind it is, how it is spelled, and what a literal stands
for. Comments and line breaks are never asked for their spelling, and the tokens of an embedded
section are asked for on their own. So two lexemes *match* if they are equal except for these two
things; the relation between embedded tokens is left open.
-/

namespace ScriptFront

namespace Lexeme

/-- The first characters of comments and line breaks. -/
def gapMarks : List Char := ['/', '\n', '\r']

/-- A comment or a line break, spelled as such. -/
structure IsGap (l : Lexeme) : Prop where
  /-- It is of one of the two kinds. -/
  kind : l.kind = .comment ∨ l.kind = .newLine
  /-- The spelling shows it. -/
  spelled : ∃ mark ∈ l.text.toList.head?, mark ∈ gapMarks

/-- Not spelled like a comment or a line break. -/
def IsAsked (text : String) : Prop := ∀ mark ∈ text.toList.head?, mark ∉ gapMarks

instance (text : String) : Decidable (IsAsked text) :=
  Option.decidableForallMem text.toList.head?

theorem IsGap.cases {l : Lexeme} (h : l.IsGap) :
    (∃ text, l = .comment text) ∨ ∃ text, l = .newLine text := by
  rcases h.kind with hkind | hkind
  · cases l with
    | comment text => exact .inl ⟨text, rfl⟩
    | _ => cases hkind
  · cases l with
    | newLine text => exact .inr ⟨text, rfl⟩
    | _ => cases hkind

theorem IsGap.is_eq_false {l : Lexeme} {text : String} (h : l.IsGap) (htext : IsAsked text) :
    l.is text = false := by
  obtain ⟨mark, hmark, hmem⟩ := h.spelled
  refine beq_eq_false_iff_ne.mpr ?_
  rintro rfl
  exact htext mark hmark hmem

end Lexeme

/-- The parts of a string differ in their tokens, which are related. -/
inductive Section.Matches (T : Token → Token → Prop) : Section → Section → Prop
  /-- Literal text. -/
  | text (value : String) : Section.Matches T (.text value) (.text value)
  /-- A section. -/
  | tokens {list list' : List Token} (h : List.Forall₂ T list list') :
      Section.Matches T (.tokens list) (.tokens list')

/-- The lexemes differ in the spelling of a comment or a line break, or in embedded tokens, which
are related. -/
inductive Lexeme.Matches (T : Token → Token → Prop) : Lexeme → Lexeme → Prop
  /-- Other lexemes do not differ at all. -/
  | same {l : Lexeme} (h : l.kind ≠ .interpolated) : Lexeme.Matches T l l
  /-- Comments and line breaks. -/
  | gap {l l' : Lexeme} (hkind : l'.kind = l.kind) (h : l.IsGap) (h' : l'.IsGap) :
      Lexeme.Matches T l l'
  /-- Strings with embedded sections. -/
  | interpolated (raw : String) {parts parts' : List Section}
      (h : List.Forall₂ (Section.Matches T) parts parts') :
      Lexeme.Matches T (.interpolated raw parts) (.interpolated raw parts')

variable {T T' : Token → Token → Prop} {l l' : Lexeme} {t u : Token} {text : String}

namespace Lexeme.Matches

/-- Tokens that are related to themselves make up lexemes that match themselves. -/
theorem refl (hT : ∀ t, T t t) (l : Lexeme) : Matches T l l := by
  cases l with
  | interpolated raw parts =>
    refine .interpolated raw (List.forall₂_same.mpr fun part _ ↦ ?_)
    cases part with
    | text value => exact .text value
    | tokens list => exact .tokens (List.forall₂_same.mpr fun t _ ↦ hT t)
  | _ => exact .same (by simp [kind])

/-- A lexeme that matches itself does so token by token. -/
theorem diagonal (h : Matches T l l) : Matches (fun t u ↦ u = t ∧ T t u) l l := by
  cases l with
  | interpolated raw parts =>
    cases h with
    | same hkind => exact absurd rfl hkind
    | gap _ hgap => exact absurd hgap.kind (by simp [kind])
    | interpolated _ hparts =>
      refine .interpolated raw (List.forall₂_same.mpr fun part hpart ↦ ?_)
      cases List.forall₂_same.mp hparts part hpart with
      | text value => exact .text value
      | tokens hlist =>
        exact .tokens (List.forall₂_same.mpr fun t ht ↦ ⟨rfl, List.forall₂_same.mp hlist t ht⟩)
  | _ => exact .same (by simp [kind])

theorem kind_eq (h : Matches T l l') : l'.kind = l.kind := by
  cases h with
  | same => rfl
  | gap hkind => exact hkind
  | interpolated => rfl

/-- Lexemes of other kinds are equal. -/
theorem eq_of_kind (h : Matches T l l') (hgap : ¬ (l.kind = .comment ∨ l.kind = .newLine))
    (hparts : l.kind ≠ .interpolated) : l' = l := by
  cases h with
  | same => rfl
  | gap _ h => exact absurd h.kind hgap
  | interpolated => exact absurd rfl hparts

theorem is_eq (h : Matches T l l') (htext : IsAsked text) : l'.is text = l.is text := by
  cases h with
  | same => rfl
  | gap _ h h' => rw [h.is_eq_false htext, h'.is_eq_false htext]
  | interpolated => rfl

theorem number?_eq (h : Matches T l l') : l'.number? = l.number? := by
  have hnone {l : Lexeme} (h : l.IsGap) : l.number? = none := by
    rcases h.cases with ⟨text, rfl⟩ | ⟨text, rfl⟩ <;> rfl
  cases h with
  | same => rfl
  | gap _ h h' => rw [hnone h, hnone h']
  | interpolated => rfl

end Lexeme.Matches

/-! ## Tokens -/

/-- The lexemes of the tokens match. -/
abbrev Token.Matches (T : Token → Token → Prop) (t u : Token) : Prop :=
  Lexeme.Matches T t.lexeme u.lexeme

namespace Token.Matches

theorem kind_eq (h : Token.Matches T t u) : u.kind = t.kind := Lexeme.Matches.kind_eq h

theorem is_eq (h : Token.Matches T t u) (htext : Lexeme.IsAsked text) : u.is text = t.is text :=
  Lexeme.Matches.is_eq h htext

theorem isSymbol_eq (h : Token.Matches T t u) (htext : Lexeme.IsAsked text) :
    u.isSymbol text = t.isSymbol text := by
  rw [Token.isSymbol, Token.isSymbol, h.kind_eq, h.is_eq htext]

theorem text_eq_of_symbol (h : Token.Matches T t u) (ht : t.kind = .symbol) : u.text = t.text := by
  have hkind : t.lexeme.kind = .symbol := ht
  have hsame : u.lexeme = t.lexeme :=
    Lexeme.Matches.eq_of_kind h (by simp [hkind]) (by simp [hkind])
  rw [Token.text, Token.text, hsame]

theorem opensOperand_eq (h : Token.Matches T t u) :
    Parse.opensOperand u = Parse.opensOperand t := by
  have hliteral : u.lexeme.isLiteral = t.lexeme.isLiteral := by
    rw [Lexeme.isLiteral, Lexeme.isLiteral, Lexeme.Matches.kind_eq h]
  rw [Parse.opensOperand, Parse.opensOperand, hliteral, h.kind_eq, h.isSymbol_eq (by decide),
    h.isSymbol_eq (by decide)]

end Token.Matches

/-- The tokens stand at the same position, a place of `P`, and their lexemes match, the tokens
embedded in them being related in the same way. -/
inductive Token.Placed (P : Position → Prop) : Token → Token → Prop
  /-- Offsets and numbers are left aside. -/
  | mk {l l' : Lexeme} {position : Position} {offset offset' index index' : Nat}
      (hplace : P position)
      (h : Lexeme.Matches (Token.Placed P) l l') :
      Token.Placed P (.mk l position offset index) (.mk l' position offset' index')

namespace Token.Placed

variable {P : Position → Prop}

theorem lexeme (h : Token.Placed P t u) : Token.Matches (Token.Placed P) t u := by
  obtain ⟨-, hl⟩ := h
  exact hl

theorem position_eq (h : Token.Placed P t u) : u.position = t.position := by
  cases h
  rfl

theorem place (h : Token.Placed P t u) : P t.position := by
  obtain ⟨hplace, -⟩ := h
  exact hplace

end Token.Placed

end ScriptFront
