import ScriptFront.Proofs.Tree.Precedence

/-!
# Laid out expressions

The expressions of the precedence grammar as they are written: a sequence of factors with infix
operators between them, and line breaks where the grammar allows them. A phrase knows nothing of the
strengths of its operators. Its tree is obtained by pushing its operators and atoms on a spine, from
left to right; it is grouped, and its reading is the phrase without the line breaks.

A phrase also says how deep it is nested, in parentheses and in operands, since both are bounded
while parsing. A group that stands between operators does not open an operand, whereas one behind a
negation does.
-/

namespace ScriptFront

mutual

/-- Factors with infix operators between them. -/
inductive Phrase where
  /-- One factor. -/
  | single (factor : Factor)
  /-- A phrase, line breaks, an operator, line breaks, and a last factor. -/
  | more (init : Phrase) (before : List String) (op : Operator) (after : List String)
    (last : Factor)

/-- What stands between operators. -/
inductive Factor where
  /-- A name. -/
  | name (text : String)
  /-- A negated factor. -/
  | not (factor : Factor)
  /-- A phrase in parentheses, with line breaks around it. -/
  | group (before : List String) (phrase : Phrase) (after : List String)

end

/-- Line breaks with the given spellings. -/
def breaks (spellings : List String) : List Lexeme := spellings.map .newLine

mutual

/-- The phrase as it is written. -/
def Phrase.lexemes : Phrase → List Lexeme
  | .single factor => factor.lexemes
  | .more init before op after last =>
    init.lexemes ++ (breaks before ++ .symbol op.symbol :: (breaks after ++ last.lexemes))

/-- The factor as it is written. -/
def Factor.lexemes : Factor → List Lexeme
  | .name text => [.ident text]
  | .not factor => .symbol "!" :: factor.lexemes
  | .group before phrase after =>
    .symbol "(" :: (breaks before ++ (phrase.lexemes ++ (breaks after ++ [.symbol ")"])))

end

mutual

/-- A line break stands before an operator only if parentheses are open. -/
def Phrase.LaidOut (grouped : Bool) : Phrase → Prop
  | .single factor => factor.LaidOut
  | .more init before _ _ last =>
    init.LaidOut grouped ∧ (grouped = false → before = []) ∧ last.LaidOut

/-- The phrases in parentheses are laid out. -/
def Factor.LaidOut : Factor → Prop
  | .name _ => True
  | .not factor => factor.LaidOut
  | .group _ phrase _ => phrase.LaidOut true

end

mutual

/-- How many parentheses are open at once. -/
def Phrase.parens : Phrase → Nat
  | .single factor => factor.parens
  | .more init _ _ _ last => max init.parens last.parens

/-- How many parentheses are open at once. -/
def Factor.parens : Factor → Nat
  | .name _ => 0
  | .not factor => factor.parens
  | .group _ phrase _ => 1 + phrase.parens

end

mutual

/-- How many operands are open at once. -/
def Phrase.depth : Phrase → Nat
  | .single factor => factor.depth
  | .more init _ _ _ last => max init.depth last.depth

/-- How many operands are open at once in a factor between operators. -/
def Factor.depth : Factor → Nat
  | .name _ => 1
  | .not factor => 1 + factor.operandDepth
  | .group _ phrase _ => phrase.depth

/-- How many operands are open at once in a factor behind a negation. -/
def Factor.operandDepth : Factor → Nat
  | .name _ => 1
  | .not factor => 1 + factor.operandDepth
  | .group _ phrase _ => 1 + phrase.depth

end

mutual

/-- The spine after the last factor. -/
def Phrase.spine : Phrase → Spine
  | .single factor => ⟨[], .leaf factor.atom⟩
  | .more init _ op _ last => init.spine.push op last.atom

/-- The factor as an atom. -/
def Factor.atom : Factor → Atom
  | .name text => .name text
  | .not factor => .not factor.atom
  | .group _ phrase _ => .group phrase.spine.tree

end

/-- The tree of a phrase. -/
def Phrase.tree (e : Phrase) : OperatorTree := e.spine.tree

/-! ## Depths -/

mutual

theorem Phrase.depth_pos : ∀ e : Phrase, 1 ≤ e.depth
  | .single factor => factor.depth_pos
  | .more _ _ _ _ last => Nat.le_trans last.depth_pos (Nat.le_max_right _ _)

theorem Factor.depth_pos : ∀ factor : Factor, 1 ≤ factor.depth
  | .name _ => Nat.le_refl 1
  | .not _ => Nat.le_add_right 1 _
  | .group _ phrase _ => phrase.depth_pos

end

/-! ## The tree of a phrase -/

theorem Phrase.exists_top_eq_leaf (e : Phrase) : ∃ last, e.spine.top = .leaf last := by
  cases e with
  | single factor => exact ⟨factor.atom, rfl⟩
  | more init before op after last => exact ⟨last.atom, rfl⟩

mutual

theorem Phrase.grouped_tree : ∀ e : Phrase, e.spine.tree.Grouped
  | .single factor => factor.grouped_atom
  | .more init _ _ _ last =>
    Spine.grouped_push init.grouped_tree init.exists_top_eq_leaf last.grouped_atom

theorem Factor.grouped_atom : ∀ factor : Factor, factor.atom.Grouped
  | .name _ => trivial
  | .not factor => factor.grouped_atom
  | .group _ phrase _ => phrase.grouped_tree

end

/-- Everything but line breaks. -/
def Lexeme.isSolid (l : Lexeme) : Bool := l.kind != .newLine

theorem filter_isSolid_breaks (spellings : List String) :
    (breaks spellings).filter Lexeme.isSolid = [] := by
  induction spellings with
  | nil => rfl
  | cons spelling spellings ih => exact ih

theorem filter_isSolid_symbol (text : String) (rest : List Lexeme) :
    (.symbol text :: rest).filter Lexeme.isSolid = .symbol text :: rest.filter Lexeme.isSolid :=
  List.filter_cons_of_pos rfl

mutual

theorem Phrase.reading_tree : ∀ e : Phrase,
    e.spine.tree.reading = e.lexemes.filter Lexeme.isSolid
  | .single factor => factor.reading_atom
  | .more init before op after last => by
    rw [Phrase.spine, Spine.reading_push, init.reading_tree, last.reading_atom, Phrase.lexemes,
      List.filter_append, List.filter_append, filter_isSolid_breaks, filter_isSolid_symbol,
      List.filter_append, filter_isSolid_breaks, List.nil_append, List.nil_append]

theorem Factor.reading_atom : ∀ factor : Factor,
    factor.atom.reading = factor.lexemes.filter Lexeme.isSolid
  | .name _ => rfl
  | .not factor => by
    rw [Factor.atom, Atom.reading, factor.reading_atom, Factor.lexemes, filter_isSolid_symbol]
  | .group before phrase after => by
    rw [Factor.atom, Atom.reading, phrase.reading_tree, Factor.lexemes, filter_isSolid_symbol,
      List.filter_append, filter_isSolid_breaks, List.filter_append, List.filter_append,
      filter_isSolid_breaks, filter_isSolid_symbol, List.nil_append, List.nil_append,
      List.filter_nil]

end

end ScriptFront
