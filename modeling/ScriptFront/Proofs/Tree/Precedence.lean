import ScriptFront.Token.Basic
import ScriptFront.Tree.Basic

/-!
# The precedence grammar

Infix operations over atoms, where an atom is a name, a negated atom, or a group in parentheses. A
tree of operations is *grouped* if its shape is the one that the strengths of the operators ask for:
a left operand that is itself an operation binds at least as tight as the operator above it, a right
operand tighter.

The main statement is that the reading of a tree from left to right determines it, as long as it is
grouped. The tree is recovered by keeping the operations whose right operand is not complete on a
*spine*, and closing them as soon as an operator comes that binds no tighter. This is the idea of
the parser too, but here it works on trees alone.
-/

namespace ScriptFront

mutual

/-- Infix operations over atoms. -/
inductive OperatorTree where
  /-- An atom by itself. -/
  | leaf (atom : Atom)
  /-- An operation. -/
  | node (op : Operator) (left right : OperatorTree)

/-- What infix operators combine. -/
inductive Atom where
  /-- A name. -/
  | name (text : String)
  /-- The logical negation of an atom. -/
  | not (atom : Atom)
  /-- A tree in parentheses. -/
  | group (tree : OperatorTree)

end

mutual

/-- The tokens of a tree from left to right. -/
def OperatorTree.reading : OperatorTree → List Lexeme
  | .leaf atom => atom.reading
  | .node op left right => left.reading ++ .symbol op.symbol :: right.reading

/-- The tokens of an atom. -/
def Atom.reading : Atom → List Lexeme
  | .name text => [.ident text]
  | .not atom => .symbol "!" :: atom.reading
  | .group tree => .symbol "(" :: (tree.reading ++ [.symbol ")"])

end

/-- If the tree is an operation, its operator binds with strength `n` at least. -/
def OperatorTree.BindsAtLeast (n : Nat) : OperatorTree → Prop
  | .leaf _ => True
  | .node op _ _ => n ≤ op.precedence

mutual

/-- Left operands bind at least as tight as the operator above them, right operands tighter. -/
def OperatorTree.Grouped : OperatorTree → Prop
  | .leaf atom => atom.Grouped
  | .node op left right =>
    left.BindsAtLeast op.precedence ∧ right.BindsAtLeast (op.precedence + 1) ∧
      left.Grouped ∧ right.Grouped

/-- The tree in every group is grouped. -/
def Atom.Grouped : Atom → Prop
  | .name _ => True
  | .not atom => atom.Grouped
  | .group tree => tree.Grouped

end

mutual

/-- The syntax tree of a tree of operations, all nodes in one scope; parentheses leave no trace. -/
def OperatorTree.expr (scope : ScopeId) : OperatorTree → Expr
  | .leaf atom => atom.expr scope
  | .node op left right => .operation op (left.expr scope) (right.expr scope)

/-- The syntax tree of an atom. -/
def Atom.expr (scope : ScopeId) : Atom → Expr
  | .name text => .mk (.var text) .start scope
  | .not atom => .mk (.unary .not (atom.expr scope)) .start scope
  | .group tree => tree.expr scope

end

namespace OperatorTree

/-! ## A tree as a sequence -/

/-- The leftmost atom. -/
def first : OperatorTree → Atom
  | .leaf atom => atom
  | .node _ left _ => left.first

/-- The other atoms from left to right, each with the operator before it. -/
def links : OperatorTree → List (Operator × Atom)
  | .leaf _ => []
  | .node op left right => left.links ++ (op, right.first) :: right.links

/-- The tokens of operators and the atoms behind them. -/
def linkReading (links : List (Operator × Atom)) : List Lexeme :=
  links.flatMap fun (op, atom) ↦ .symbol op.symbol :: atom.reading

theorem linkReading_cons (op : Operator) (atom : Atom) (links : List (Operator × Atom)) :
    linkReading ((op, atom) :: links) =
      .symbol op.symbol :: (atom.reading ++ linkReading links) := rfl

theorem linkReading_append (a b : List (Operator × Atom)) :
    linkReading (a ++ b) = linkReading a ++ linkReading b := List.flatMap_append

theorem reading_eq : ∀ t : OperatorTree, t.reading = t.first.reading ++ linkReading t.links
  | .leaf atom => by simp [reading, first, links, linkReading]
  | .node op left right => by
    rw [reading, reading_eq left, reading_eq right, first, links, linkReading_append,
      linkReading_cons, List.append_assoc]

theorem Grouped.first : ∀ {t : OperatorTree}, t.Grouped → t.first.Grouped
  | .leaf _, h => h
  | .node _ left _, h => Grouped.first (t := left) h.2.2.1

theorem Grouped.links : ∀ {t : OperatorTree}, t.Grouped → ∀ link ∈ t.links, link.2.Grouped
  | .leaf _, _, _, hlink => by simp [OperatorTree.links] at hlink
  | .node op left right, h, link, hlink => by
    rw [OperatorTree.links, List.mem_append, List.mem_cons] at hlink
    rcases hlink with hleft | rfl | hright
    · exact Grouped.links (t := left) h.2.2.1 link hleft
    · exact h.2.2.2.first
    · exact Grouped.links (t := right) h.2.2.2 link hright

theorem BindsAtLeast.mono {m n : Nat} {t : OperatorTree} (h : t.BindsAtLeast n) (hmn : m ≤ n) :
    t.BindsAtLeast m := by
  cases t with
  | leaf atom => trivial
  | node op left right => exact Nat.le_trans hmn h

end OperatorTree

open OperatorTree

/-! ## The spine -/

/-- A tree whose last operand is `top`: the operations that are still open, innermost first, each
with its left operand. -/
structure Spine where
  /-- The open operations, innermost first. -/
  frames : List (OperatorTree × Operator)
  /-- The last operand. -/
  top : OperatorTree

namespace Spine

/-- Close all open operations. -/
def plug (frames : List (OperatorTree × Operator)) (top : OperatorTree) : OperatorTree :=
  frames.foldl (fun tree frame ↦ .node frame.2 frame.1 tree) top

/-- Close the open operations down to the first whose operator `waits`. -/
def settle (waits : Operator → Bool) : List (OperatorTree × Operator) → OperatorTree → Spine
  | [], top => ⟨[], top⟩
  | (left, inner) :: frames, top =>
    if waits inner then ⟨(left, inner) :: frames, top⟩
    else settle waits frames (.node inner left top)

/-- Whether an open operation stays open when the operator `op` comes: it binds less tight. -/
def waitsFor (op inner : Operator) : Bool := inner.precedence < op.precedence

/-- One more operator and the atom behind it. -/
def push (s : Spine) (op : Operator) (atom : Atom) : Spine :=
  let settled := settle (waitsFor op) s.frames s.top
  ⟨(settled.top, op) :: settled.frames, .leaf atom⟩

/-- The tree of a spine. -/
def tree (s : Spine) : OperatorTree := plug s.frames s.top

variable {frames : List (OperatorTree × Operator)} {top top' : OperatorTree} {op : Operator}

theorem plug_cons (left top : OperatorTree) (op : Operator)
    (frames : List (OperatorTree × Operator)) :
    plug ((left, op) :: frames) top = plug frames (.node op left top) := rfl

theorem plug_append (inner outer : List (OperatorTree × Operator)) (top : OperatorTree) :
    plug (inner ++ outer) top = plug outer (plug inner top) := List.foldl_append

/-- Closing operations early does not change the tree. -/
theorem tree_settle (waits : Operator → Bool) (frames : List (OperatorTree × Operator))
    (top : OperatorTree) : (settle waits frames top).tree = plug frames top := by
  induction frames generalizing top with
  | nil => rfl
  | cons frame frames ih =>
    obtain ⟨left, inner⟩ := frame
    rw [settle]
    split
    · rfl
    · rw [ih, plug_cons]

/-- If no operator waits, all operations are closed. -/
theorem settle_all (frames : List (OperatorTree × Operator)) (top : OperatorTree) :
    settle (fun _ ↦ false) frames top = ⟨[], plug frames top⟩ := by
  induction frames generalizing top with
  | nil => rfl
  | cons frame frames ih => exact ih _

/-- What was closed binds at least as tight as the operator that closed it. -/
theorem bindsAtLeast_settle (h : top.BindsAtLeast op.precedence) :
    (settle (waitsFor op) frames top).top.BindsAtLeast op.precedence := by
  induction frames generalizing top with
  | nil => exact h
  | cons frame frames ih =>
    obtain ⟨left, inner⟩ := frame
    rw [settle]
    split
    · exact h
    · next hwaits => exact ih (Nat.le_of_not_lt (by simpa [waitsFor] using hwaits))

/-- What stays open binds less tight. -/
theorem lt_of_mem_head_settle :
    ∀ frame ∈ (settle (waitsFor op) frames top).frames.head?,
      frame.2.precedence < op.precedence := by
  induction frames generalizing top with
  | nil => simp [settle]
  | cons frame frames ih =>
    obtain ⟨left, inner⟩ := frame
    rw [settle]
    split
    · next hwaits =>
      intro frame hframe
      obtain rfl : (left, inner) = frame := by simpa using hframe
      simpa [waitsFor] using hwaits
    · exact ih

theorem grouped_of_plug (h : (plug frames top).Grouped) : top.Grouped := by
  induction frames generalizing top with
  | nil => exact h
  | cons frame frames ih => exact (ih h).2.2.2

/-- In a grouped tree the last operand can be exchanged for one that binds tight enough. -/
theorem grouped_plug_of_plug (h : (plug frames top).Grouped) (htop : top'.Grouped)
    (hbinds : ∀ frame ∈ frames.head?, top'.BindsAtLeast (frame.2.precedence + 1)) :
    (plug frames top').Grouped := by
  induction frames generalizing top top' with
  | nil => exact htop
  | cons frame frames ih =>
    obtain ⟨left, op⟩ := frame
    rw [plug_cons] at h ⊢
    have hnode : (OperatorTree.node op left top).Grouped := grouped_of_plug h
    refine ih h ⟨hnode.1, hbinds (left, op) (by simp), hnode.2.2.1, htop⟩ ?_
    intro outer houter
    -- the exchange leaves the operator of this operation as it is
    cases frames with
    | nil => simp at houter
    | cons next frames =>
      obtain rfl : next = outer := by simpa using houter
      have hnext : (plug frames (.node next.2 next.1 (.node op left top))).Grouped := h
      exact (grouped_of_plug hnext).2.1

/-- **A spine stays grouped** when an operator and an atom are pushed on it. -/
theorem grouped_push {s : Spine} {atom : Atom} (h : s.tree.Grouped)
    (htop : ∃ last, s.top = .leaf last) (hatom : atom.Grouped) :
    (s.push op atom).tree.Grouped := by
  have hsettled : (settle (waitsFor op) s.frames s.top).tree.Grouped := by rwa [tree_settle]
  have hbinds : (settle (waitsFor op) s.frames s.top).top.BindsAtLeast op.precedence := by
    obtain ⟨last, hlast⟩ := htop
    exact bindsAtLeast_settle (by rw [hlast]; trivial)
  rw [tree, push, plug_cons]
  refine grouped_plug_of_plug hsettled ⟨hbinds, trivial, grouped_of_plug hsettled, hatom⟩ ?_
  intro frame hframe
  exact lt_of_mem_head_settle frame hframe

/-- Growing the last operand at its right end grows the tree there. -/
theorem sequence_plug {more : List (Operator × Atom)} (hfirst : top'.first = top.first)
    (hlinks : top'.links = top.links ++ more) :
    (plug frames top').first = (plug frames top).first ∧
      (plug frames top').links = (plug frames top).links ++ more := by
  induction frames generalizing top top' with
  | nil => exact ⟨hfirst, hlinks⟩
  | cons frame frames ih =>
    refine ih rfl ?_
    rw [links, links, hfirst, hlinks, List.append_assoc, List.cons_append]

theorem sequence_push (s : Spine) (op : Operator) (atom : Atom) :
    (s.push op atom).tree.first = s.tree.first ∧
      (s.push op atom).tree.links = s.tree.links ++ [(op, atom)] := by
  rw [← show (settle (waitsFor op) s.frames s.top).tree = s.tree from tree_settle _ _ _, tree, tree,
    push, plug_cons]
  generalize settle (waitsFor op) s.frames s.top = settled
  exact sequence_plug (show (node op settled.top (.leaf atom)).first = settled.top.first from rfl)
    rfl

/-- Pushing an operator and an atom adds them to the reading. -/
theorem reading_push (s : Spine) (op : Operator) (atom : Atom) :
    (s.push op atom).tree.reading = s.tree.reading ++ .symbol op.symbol :: atom.reading := by
  obtain ⟨hfirst, hlinks⟩ := sequence_push s op atom
  rw [reading_eq, reading_eq s.tree, hfirst, hlinks, linkReading_append, List.append_assoc,
    linkReading_cons, show linkReading [] = [] from rfl, List.append_nil]

/-! ## Recovering a tree from its sequence -/

/-- The spine after a sequence of operators and atoms. -/
def pushAll (s : Spine) (links : List (Operator × Atom)) : Spine :=
  links.foldl (fun s link ↦ s.push link.1 link.2) s

theorem pushAll_append (s : Spine) (a b : List (Operator × Atom)) :
    s.pushAll (a ++ b) = (s.pushAll a).pushAll b := List.foldl_append

/-- Operations that bind at least as tight as the new operator are closed, the others stay. -/
theorem settle_append {inner outer : List (OperatorTree × Operator)}
    (hinner : ∀ frame ∈ inner, op.precedence ≤ frame.2.precedence)
    (houter : ∀ frame ∈ outer.head?, frame.2.precedence < op.precedence) :
    settle (waitsFor op) (inner ++ outer) top = ⟨outer, plug inner top⟩ := by
  induction inner generalizing top with
  | nil =>
    cases outer with
    | nil => rfl
    | cons frame outer =>
      have hlt : waitsFor op frame.2 = true := by simpa [waitsFor] using houter
      rw [List.nil_append, settle, if_pos hlt]
      rfl
  | cons frame inner ih =>
    have hle : ¬ waitsFor op frame.2 = true := by
      simpa [waitsFor] using hinner frame (by simp)
    rw [List.cons_append, settle, if_neg hle]
    exact ih fun frame hframe ↦ hinner frame (by simp [hframe])

/-- Pushing the sequence of a grouped tree on operations that bind less tight opens the operations
of the tree and closes none of the others. -/
theorem exists_pushAll_links : ∀ {t : OperatorTree}, t.Grouped →
    ∀ {outer : List (OperatorTree × Operator)},
      (∀ frame ∈ outer.head?, t.BindsAtLeast (frame.2.precedence + 1)) →
      ∃ inner top, pushAll ⟨outer, .leaf t.first⟩ t.links = ⟨inner ++ outer, top⟩ ∧
        plug inner top = t ∧
        ∀ n, t.BindsAtLeast n → ∀ frame ∈ inner, n ≤ frame.2.precedence
  | .leaf atom, _, outer, _ => ⟨[], .leaf atom, rfl, rfl, by simp⟩
  | .node op left right, h, outer, houter => by
    obtain ⟨hleft, hright, hleftGrouped, hrightGrouped⟩ := h
    obtain ⟨innerLeft, topLeft, hpushLeft, hplugLeft, htightLeft⟩ :=
      exists_pushAll_links hleftGrouped fun frame hframe ↦ hleft.mono (houter frame hframe)
    obtain ⟨innerRight, topRight, hpushRight, hplugRight, htightRight⟩ :=
      exists_pushAll_links hrightGrouped
        (show ∀ frame ∈ ((left, op) :: outer).head?, _ by simpa using hright)
    refine ⟨innerRight ++ [(left, op)], topRight, ?_, ?_, ?_⟩
    · have hop : push ⟨innerLeft ++ outer, topLeft⟩ op right.first =
          ⟨(left, op) :: outer, .leaf right.first⟩ := by
        rw [push, settle_append (htightLeft _ hleft) houter, hplugLeft]
      rw [first, links, pushAll_append, hpushLeft, pushAll, List.foldl_cons, hop, ← pushAll,
        hpushRight, List.append_assoc]
      rfl
    · rw [plug_append, hplugRight]
      rfl
    · intro n hn frame hframe
      rcases List.mem_append.mp hframe with hmem | hmem
      · exact htightRight n (hright.mono (Nat.le_succ_of_le hn)) frame hmem
      · obtain rfl : frame = (left, op) := by simpa using hmem
        exact hn

/-- A grouped tree is recovered from its atoms and operators. -/
theorem tree_pushAll {t : OperatorTree} (h : t.Grouped) :
    (pushAll ⟨[], .leaf t.first⟩ t.links).tree = t := by
  have houter : ∀ frame ∈ ([] : List (OperatorTree × Operator)).head?,
      t.BindsAtLeast (frame.2.precedence + 1) := by simp
  obtain ⟨inner, top, hpush, hplug, -⟩ := exists_pushAll_links h houter
  rw [hpush, List.append_nil]
  exact hplug

end Spine

/-! ## Unique readability -/

/-- An atom whose reading is told apart from those of other atoms, whatever follows. -/
def Atom.IsReadable (a : Atom) : Prop :=
  ∀ {a' : Atom} {rest rest' : List Lexeme}, a'.Grouped →
    a.reading ++ rest = a'.reading ++ rest' → a = a' ∧ rest = rest'

/-- No operator stands first. -/
def StartsNoOperator (lexemes : List Lexeme) : Prop :=
  ∀ op : Operator, lexemes.head? ≠ some (.symbol op.symbol)

theorem symbol_injective {op op' : Operator} (h : op.symbol = op'.symbol) : op = op' := by
  have hsome : some op = some op' := by
    rw [← Operator.ofSymbol?_symbol, h, Operator.ofSymbol?_symbol]
  exact Option.some.inj hsome

namespace OperatorTree

theorem links_unique {links links' : List (Operator × Atom)} {rest rest' : List Lexeme}
    (h : ∀ link ∈ links, link.2.IsReadable) (h' : ∀ link ∈ links', link.2.Grouped)
    (hrest : StartsNoOperator rest) (hrest' : StartsNoOperator rest')
    (heq : linkReading links ++ rest = linkReading links' ++ rest') :
    links = links' ∧ rest = rest' := by
  induction links generalizing links' with
  | nil =>
    cases links' with
    | nil => exact ⟨rfl, heq⟩
    | cons link' links' =>
      exact absurd (by rw [show rest = _ from heq]; rfl) (hrest link'.1)
  | cons link links ih =>
    cases links' with
    | nil => exact absurd (by rw [show rest' = _ from heq.symm]; rfl) (hrest' link.1)
    | cons link' links' =>
      obtain ⟨op, atom⟩ := link
      obtain ⟨op', atom'⟩ := link'
      rw [linkReading_cons, linkReading_cons, List.cons_append, List.cons_append,
        List.cons.injEq, List.append_assoc, List.append_assoc] at heq
      obtain rfl := symbol_injective (Lexeme.symbol.inj heq.1)
      obtain ⟨rfl, hlinks⟩ := h (op, atom) (by simp) (h' (op, atom') (by simp)) heq.2
      obtain ⟨rfl, hrests⟩ := ih (fun link hlink ↦ h link (by simp [hlink]))
        (fun link hlink ↦ h' link (by simp [hlink])) hlinks
      exact ⟨rfl, hrests⟩

theorem tree_unique {t t' : OperatorTree} {rest rest' : List Lexeme}
    (hfirst : t.first.IsReadable) (hlinks : ∀ link ∈ t.links, link.2.IsReadable)
    (ht : t.Grouped) (ht' : t'.Grouped) (hrest : StartsNoOperator rest)
    (hrest' : StartsNoOperator rest') (heq : t.reading ++ rest = t'.reading ++ rest') :
    t = t' ∧ rest = rest' := by
  rw [reading_eq t, reading_eq t', List.append_assoc, List.append_assoc] at heq
  obtain ⟨hsame, heq⟩ := hfirst ht'.first heq
  obtain ⟨hsameLinks, hrests⟩ := links_unique hlinks ht'.links hrest hrest' heq
  -- both trees are recovered from the same sequence
  refine ⟨?_, hrests⟩
  rw [← Spine.tree_pushAll ht, ← Spine.tree_pushAll ht', hsame, hsameLinks]

theorem length_reading_first_le (t : OperatorTree) :
    t.first.reading.length ≤ t.reading.length := by
  rw [reading_eq t, List.length_append]
  exact Nat.le_add_right _ _

theorem length_reading_link_le {t : OperatorTree} {link : Operator × Atom} (h : link ∈ t.links) :
    link.2.reading.length ≤ t.reading.length := by
  have hinfix : link.2.reading.Sublist (linkReading t.links) := by
    obtain ⟨before, after, hsplit⟩ := List.append_of_mem h
    rw [hsplit, linkReading_append, linkReading_cons]
    exact (List.sublist_append_left _ _).trans
      ((List.sublist_cons_self _ _).trans (List.sublist_append_right _ _))
  rw [reading_eq t, List.length_append]
  exact Nat.le_add_left_of_le hinfix.length_le

end OperatorTree

theorem startsNoOperator_closing (rest : List Lexeme) :
    StartsNoOperator (.symbol ")" :: rest) := by
  intro op hop
  have hsymbol : ")" = op.symbol := by simpa using hop
  have hnone : some op = none := by
    rw [← Operator.ofSymbol?_symbol, ← hsymbol]
    decide
  exact absurd hnone (by simp)

theorem Atom.isReadable_of_length_le {n : Nat} {a : Atom} (ha : a.Grouped)
    (hlength : a.reading.length ≤ n) : a.IsReadable := by
  induction n generalizing a with
  | zero => cases a <;> simp [Atom.reading] at hlength
  | succ n ih =>
    intro a' rest rest' ha' heq
    cases a with
    | name text =>
      cases a' with
      | name text' => simpa [Atom.reading] using heq
      | not a' => simp [Atom.reading] at heq
      | group t' => simp [Atom.reading] at heq
    | not a =>
      cases a' with
      | name text' => simp [Atom.reading] at heq
      | not a' =>
        rw [Atom.reading, Atom.reading, List.cons_append, List.cons_append,
          List.cons.injEq] at heq
        have hshort : a.reading.length ≤ n := by simpa [Atom.reading] using hlength
        have hgrouped : a.Grouped := ha
        have hgrouped' : a'.Grouped := ha'
        obtain ⟨rfl, hrests⟩ := ih hgrouped hshort hgrouped' heq.2
        exact ⟨rfl, hrests⟩
      | group t' => simp [Atom.reading] at heq
    | group t =>
      cases a' with
      | name text' => simp [Atom.reading] at heq
      | not a' => simp [Atom.reading] at heq
      | group t' =>
        have hshort : t.reading.length ≤ n := by
          simp only [Atom.reading, List.length_cons, List.length_append, List.length_nil] at hlength
          omega
        have hgrouped : t.Grouped := ha
        rw [Atom.reading, Atom.reading, List.cons_append, List.cons_append, List.cons.injEq,
          List.append_assoc, List.append_assoc] at heq
        obtain ⟨rfl, hrests⟩ := tree_unique
          (ih hgrouped.first (Nat.le_trans t.length_reading_first_le hshort))
          (fun link hlink ↦ ih (hgrouped.links link hlink)
            (Nat.le_trans (length_reading_link_le hlink) hshort))
          hgrouped ha' (startsNoOperator_closing rest) (startsNoOperator_closing rest') heq.2
        exact ⟨rfl, by simpa using hrests⟩

/-- **Unique readability**: grouped trees with the same reading are the same. -/
theorem OperatorTree.Grouped.eq_of_reading_eq {t t' : OperatorTree} (h : t.Grouped)
    (h' : t'.Grouped) (heq : t.reading = t'.reading) : t = t' := by
  have hnil : StartsNoOperator [] := fun op ↦ by simp
  have hreadable : ∀ link ∈ t.links, link.2.IsReadable := fun link hlink ↦
    Atom.isReadable_of_length_le (h.links link hlink) (Nat.le_refl _)
  exact (tree_unique (Atom.isReadable_of_length_le h.first (Nat.le_refl _)) hreadable h h' hnil hnil
    (by rw [heq])).1

end ScriptFront
