import ScriptFront.Proofs.Tree.Nodes
import ScriptFront.Proofs.Tree.Places

/-!
# How deep trees are

The depth of a tree is the number of nodes on its longest way down. Whoever walks a tree by
recursion needs that much of a stack.

Operators of equal strength group to the left, so a flat chain of operations is a tree that leans to
the left. The *nesting* of a tree does not count the way from an operation to its left operand. What
a tree has of depth beyond its nesting, it owes to such chains: if the longest of them has `n`
operations, the depth is at most `n + 1` times the nesting.
-/

namespace ScriptFront

/-! ## Recursion over nodes -/

section Fold

variable {α : Type} (step : Expr → List α → α)

mutual

/-- The value of a tree, where the value of each node comes from those of its children. -/
def Expr.fold (e : Expr) : α := step e (foldEach e.children)
termination_by (e.size, 0)
decreasing_by exact lex_children e

/-- The values of several trees. -/
def foldEach : List Expr → List α
  | [] => []
  | e :: rest => e.fold :: foldEach rest
termination_by es => (listSize es, 1)
decreasing_by
  · exact lex_first e rest
  · exact lex_rest e rest

end

theorem foldEach_eq_map (es : List Expr) : foldEach step es = es.map (Expr.fold step) := by
  induction es with
  | nil => rw [foldEach, List.map_nil]
  | cons e rest ih => rw [foldEach, ih, List.map_cons]

theorem Expr.fold_eq (e : Expr) : e.fold step = step e (e.children.map (Expr.fold step)) := by
  rw [Expr.fold, foldEach_eq_map]

end Fold

/-- What is below a node is smaller. -/
theorem Expr.size_lt_of_mem_children {e child : Expr} (h : child ∈ e.children) :
    child.size < e.size := by
  refine Nat.lt_of_le_of_lt ?_ e.listSize_children_lt
  generalize e.children = es at h
  induction es with
  | nil => cases h
  | cons first rest ih =>
    rw [listSize]
    rcases List.mem_cons.mp h with rfl | h
    · exact Nat.le_add_right _ _
    · exact Nat.le_trans (ih h) (Nat.le_add_left _ _)

/-- What holds of a node if it holds of those right below it, holds of all. -/
theorem Expr.childrenInduction {motive : Expr → Prop}
    (node : ∀ e, (∀ child ∈ e.children, motive child) → motive e) (e : Expr) : motive e :=
  node e fun child _ ↦ childrenInduction node child
termination_by e.size
decreasing_by exact size_lt_of_mem_children ‹_›

/-! ## Depth -/

/-- The greatest of some numbers, or zero. -/
def greatest (ns : List Nat) : Nat := ns.foldr max 0

theorem le_greatest {n : Nat} {ns : List Nat} (h : n ∈ ns) : n ≤ greatest ns := by
  induction ns with
  | nil => cases h
  | cons first rest ih =>
    rw [greatest, List.foldr_cons]
    rcases List.mem_cons.mp h with rfl | h
    · exact Nat.le_max_left _ _
    · exact Nat.le_trans (ih h) (Nat.le_max_right _ _)

theorem greatest_le {b : Nat} {ns : List Nat} (h : ∀ n ∈ ns, n ≤ b) : greatest ns ≤ b := by
  induction ns with
  | nil => exact Nat.zero_le b
  | cons first rest ih =>
    rw [List.forall_mem_cons] at h
    exact Nat.max_le.mpr ⟨h.1, ih h.2⟩

namespace Expr

variable {e left right child : Expr} {op : Operator}

/-- Whether a node is an infix operation. -/
def isOperation (e : Expr) : Bool :=
  match e.form with
  | .binary .. | .compare .. | .condition .. => true
  | _ => false

/-- How many nodes there are on the longest way down. -/
def depth : Expr → Nat := fold fun _ below ↦ greatest below + 1

/-- How many operations there are from a node on to the left. -/
def leftRun : Expr → Nat :=
  fold fun e below ↦ if e.isOperation then below.headD 0 + 1 else 0

/-- How many operations there are in the longest chain to the left. -/
def longestRun : Expr → Nat :=
  fold fun e below ↦ max e.leftRun (greatest below)

/-- The depth of a tree, where the way from an operation to its left operand does not count. -/
def nesting : Expr → Nat :=
  fold fun e below ↦
    if e.isOperation then max (below.headD 0) (greatest below.tail + 1) else greatest below + 1

theorem depth_eq (e : Expr) : e.depth = greatest (e.children.map depth) + 1 := fold_eq _ e

theorem leftRun_eq (e : Expr) :
    e.leftRun = if e.isOperation then (e.children.map leftRun).headD 0 + 1 else 0 := fold_eq _ e

theorem longestRun_eq (e : Expr) :
    e.longestRun = max e.leftRun (greatest (e.children.map longestRun)) := fold_eq _ e

theorem nesting_eq (e : Expr) :
    e.nesting = if e.isOperation then
        max ((e.children.map nesting).headD 0) (greatest (e.children.map nesting).tail + 1)
      else greatest (e.children.map nesting) + 1 := fold_eq _ e

theorem leftRun_le_longestRun (e : Expr) : e.leftRun ≤ e.longestRun := by
  rw [longestRun_eq]
  exact Nat.le_max_left _ _

theorem longestRun_le_of_mem_children (h : child ∈ e.children) :
    child.longestRun ≤ e.longestRun := by
  rw [e.longestRun_eq]
  exact Nat.le_trans (le_greatest (List.mem_map_of_mem h)) (Nat.le_max_right _ _)

theorem depth_lt_of_mem_children (h : child ∈ e.children) : child.depth < e.depth := by
  rw [e.depth_eq]
  exact Nat.lt_succ_of_le (le_greatest (List.mem_map_of_mem h))

theorem nesting_pos (e : Expr) : 1 ≤ e.nesting := by
  rw [nesting_eq]
  split
  · exact Nat.le_trans (Nat.le_add_left 1 _) (Nat.le_max_right _ _)
  · exact Nat.le_add_left 1 _

/-- The bound for the children of a node that is no operation. -/
theorem nesting_le_of_children {b : Nat} (he : e.isOperation = false)
    (h : ∀ child ∈ e.children, child.nesting ≤ b) : e.nesting ≤ b + 1 := by
  rw [nesting_eq, if_neg (by simp [he])]
  exact Nat.add_le_add_right (greatest_le (List.forall_mem_map.mpr h)) 1

/-- An operation is nested as deep as its left operand, and deeper than its right one. -/
theorem nesting_of_operands (he : e.isOperation = true) (hchildren : e.children = [left, right]) :
    e.nesting = max left.nesting (right.nesting + 1) := by
  rw [nesting_eq, if_pos he, hchildren]
  simp [greatest]

theorem leftRun_of_operands (he : e.isOperation = true) (hchildren : e.children = [left, right]) :
    e.leftRun = left.leftRun + 1 := by
  rw [leftRun_eq, if_pos he, hchildren]
  rfl

theorem leftRun_of_not_isOperation (he : e.isOperation = false) : e.leftRun = 0 := by
  rw [leftRun_eq, if_neg (by simp [he])]

theorem isOperation_operation (op : Operator) (left right : Expr) :
    (operation op left right).isOperation = true := by
  cases op <;> rfl

theorem children_operation (op : Operator) (left right : Expr) :
    (operation op left right).children = [left, right] := by
  cases op <;> rfl

theorem exists_children_eq (he : e.isOperation = true) :
    ∃ left right, e.children = [left, right] := by
  obtain ⟨form, position, scope⟩ := e
  cases form <;> first | exact ⟨_, _, rfl⟩ | cases he

/-- A chain that is as long as can be, and more for every level of nesting. -/
theorem depth_le_leftRun_add {n : Nat} (e : Expr) (hrun : e.longestRun ≤ n) :
    e.depth ≤ e.leftRun + 1 + (e.nesting - 1) * (n + 1) := by
  induction e using childrenInduction with
  | node e ih =>
    -- the chain at a child costs no more than one level
    have hchild {child : Expr} (h : child ∈ e.children) :
        child.depth ≤ child.nesting * (n + 1) := by
      have hlongest := Nat.le_trans (longestRun_le_of_mem_children h) hrun
      have hleft := Nat.le_trans child.leftRun_le_longestRun hlongest
      calc child.depth ≤ child.leftRun + 1 + (child.nesting - 1) * (n + 1) := ih child h hlongest
        _ ≤ n + 1 + (child.nesting - 1) * (n + 1) := by omega
        _ = (child.nesting - 1 + 1) * (n + 1) := by rw [Nat.succ_mul, Nat.add_comm]
        _ = child.nesting * (n + 1) := by rw [Nat.sub_add_cancel child.nesting_pos]
    by_cases he : e.isOperation = true
    · obtain ⟨left, right, hchildren⟩ := exists_children_eq he
      have hleft : left ∈ e.children := hchildren ▸ List.mem_cons_self
      have hright : right ∈ e.children := hchildren ▸ List.mem_cons_of_mem _ List.mem_cons_self
      have hnesting := nesting_of_operands he hchildren
      have hleftDepth := ih left hleft (Nat.le_trans (longestRun_le_of_mem_children hleft) hrun)
      have hleftMul : (left.nesting - 1) * (n + 1) ≤ (e.nesting - 1) * (n + 1) :=
        Nat.mul_le_mul_right _ (by omega)
      have hrightMul : right.nesting * (n + 1) ≤ (e.nesting - 1) * (n + 1) :=
        Nat.mul_le_mul_right _ (by omega)
      have hrightDepth := hchild hright
      have hdepth : e.depth = max left.depth right.depth + 1 := by
        rw [depth_eq, hchildren]
        simp [greatest]
      rw [hdepth, leftRun_of_operands he hchildren]
      omega
    · have hother : e.isOperation = false := Bool.eq_false_iff.mpr he
      rw [leftRun_of_not_isOperation hother, depth_eq, nesting_eq, if_neg he, Nat.add_sub_cancel,
        Nat.zero_add, Nat.add_comm 1]
      refine Nat.add_le_add_right (greatest_le (List.forall_mem_map.mpr fun child h ↦ ?_)) 1
      exact Nat.le_trans (hchild h)
        (Nat.mul_le_mul_right _ (le_greatest (List.mem_map_of_mem h)))

/-- **Depth beyond nesting comes from chains of operations.** -/
theorem depth_le_nesting_mul (e : Expr) : e.depth ≤ e.nesting * (e.longestRun + 1) := by
  have hleft := e.leftRun_le_longestRun
  calc e.depth ≤ e.leftRun + 1 + (e.nesting - 1) * (e.longestRun + 1) :=
        e.depth_le_leftRun_add (Nat.le_refl _)
    _ ≤ e.longestRun + 1 + (e.nesting - 1) * (e.longestRun + 1) := by omega
    _ = (e.nesting - 1 + 1) * (e.longestRun + 1) := by rw [Nat.succ_mul, Nat.add_comm]
    _ = e.nesting * (e.longestRun + 1) := by rw [Nat.sub_add_cancel e.nesting_pos]

/-! ## Depth and places -/

/-- The children of a moved node are those of the node, moved. -/
theorem children_relocate (f : Position → Position) (g : ScopeId → ScopeId) (e : Expr) :
    (e.relocate f g).children = e.children.map (relocate f g) := by
  obtain ⟨form, position, scope⟩ := e
  have hoption (value : Option Expr) :
      (relocateOption f g value).toList = value.toList.map (relocate f g) := by
    cases value <;> rfl
  have hcallee (callee : Callee) : (callee.relocate f g).target?.toList =
      callee.target?.toList.map (relocate f g) := by
    cases callee <;> rfl
  have hentries (entries : List MapEntry) : (relocateEntries f g entries).map MapEntry.value =
      (entries.map MapEntry.value).map (relocate f g) := by
    induction entries with
    | nil => rfl
    | cons entry rest ih =>
      obtain ⟨key, value⟩ := entry
      simp [relocateEntries, ih, MapEntry.value]
  have hbody (decl : FunctionDecl) :
      (decl.relocate f g).body = decl.body.map (relocate f g) := by
    obtain ⟨signature, body, scope, position⟩ := decl
    exact relocateList_eq_map body
  rw [relocate, children, children, Expr.form, Expr.form]
  cases form <;>
    simp [Form.relocate, Form.children, relocateList_eq_map, hoption, hcallee, hentries, hbody]

/-- The depth of a tree does not depend on places. -/
theorem depth_relocate (f : Position → Position) (g : ScopeId → ScopeId) (e : Expr) :
    (e.relocate f g).depth = e.depth := by
  induction e using childrenInduction with
  | node e ih =>
    rw [depth_eq, depth_eq, children_relocate, List.map_map]
    congr 2
    exact List.map_congr_left ih

/-- Nor does the nesting depend on the place of the node. -/
theorem nesting_moveTo (e : Expr) (position : Position) :
    (e.moveTo position).nesting = e.nesting := by
  rw [nesting_eq, nesting_eq]
  rfl

end Expr

end ScriptFront
