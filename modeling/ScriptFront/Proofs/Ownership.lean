import ScriptFront.Proofs.Parse.Derived

/-!
# Every scope belongs to a node

A script opens scopes for its blocks, its counting loops and its functions, and a node records the
scope that was current when it was made. Nodes are made before, between and after the opening and
closing of scopes, so it is not obvious that what they record fits the tree.

It does: the scopes are numbered in the order in which the nodes that own them begin in the text,
none is left out and none belongs to two nodes, the parent of a scope is the scope around its node,
and every other node records the scope around it.

`OwnsScopes` is the invariant on derivations. It speaks of two tables, the one before some trees and
the one behind them, and it is composed as trees are: trees in a row number their scopes one after
the other, and a node that opens a scope takes the first number and hands the rest on to what is
below it.
-/

namespace ScriptFront

open SymbolTable (Extends Grows)

/-- Some trees own the scopes that were added to a table while they were read. -/
structure OwnsScopes (t : SymbolTable) (es : List Expr) (t' : SymbolTable) : Prop where
  /-- The table has grown. -/
  grows : t.Grows t'
  /-- The scopes added are numbered in the order of their nodes. -/
  numbers : (nodesList t.current es).filterMap (fun n ↦ n.1.opens?) =
    List.range' t.scopes.size (t'.scopes.size - t.scopes.size)
  /-- The parent of a scope is the one around its node. -/
  parents : ∀ n ∈ nodesList t.current es, ∀ id, n.1.opens? = some id →
    ∃ s, t'.scopes[id]? = some s ∧ s.parent = some n.2
  /-- A node that does not record its own scope records the one around it. -/
  records : ∀ n ∈ nodesList t.current es, n.1.recordsOwn = false → n.1.scope = n.2

/-- If the current scope is there, the trees own the scopes that were added. -/
def Owns (t : SymbolTable) (es : List Expr) (t' : SymbolTable) : Prop :=
  t.current < t.scopes.size → OwnsScopes t es t'

namespace Owns

variable {t t₁ t₂ t' : SymbolTable} {es more : List Expr} {e : Expr} {form : Form}
  {position : Position} {kind : ScopeKind} {names : List String} {outer : ScopeId}

/-- No scope was added. -/
theorem nil (h : t.Grows t') (hsize : t'.scopes.size = t.scopes.size) : Owns t [] t' := by
  intro _
  refine ⟨h, ?_, ?_, ?_⟩
  · rw [hsize, Nat.sub_self, nodesList]
    rfl
  · rintro n hn
    simp [nodesList] at hn
  · rintro n hn
    simp [nodesList] at hn

/-- Trees in a row own what each of them does. -/
theorem append (h : Owns t es t₁) (h' : Owns t₁ more t₂) : Owns t (es ++ more) t₂ := by
  intro hcurrent
  have hes := h hcurrent
  have hmore : OwnsScopes t₁ more t₂ := by
    refine h' ?_
    rw [hes.grows.current]
    exact Nat.lt_of_lt_of_le hcurrent hes.grows.size
  have hsame := hes.grows.current
  refine ⟨hes.grows.trans hmore.grows, ?_, ?_, ?_⟩
  · have hnumbers := hmore.numbers
    rw [hsame] at hnumbers
    rw [nodesList_append, List.filterMap_append, hes.numbers, hnumbers]
    have hle := hes.grows.size
    have hle' := hmore.grows.size
    have hfirst : t₁.scopes.size = t.scopes.size + (t₁.scopes.size - t.scopes.size) := by omega
    have hrest : t₂.scopes.size - t.scopes.size =
      (t₁.scopes.size - t.scopes.size) + (t₂.scopes.size - t₁.scopes.size) := by omega
    rw [hrest, ← List.range'_append_1, ← hfirst]
  · rw [nodesList_append]
    intro n hn id hid
    rcases List.mem_append.mp hn with hn | hn
    · obtain ⟨s, hs, hparent⟩ := hes.parents n hn id hid
      obtain ⟨s', hs', hparent'⟩ := hmore.grows.parent_eq hs
      exact ⟨s', hs', hparent'.trans hparent⟩
    · exact hmore.parents n (hsame ▸ hn) id hid
  · rw [nodesList_append]
    intro n hn hother
    rcases List.mem_append.mp hn with hn | hn
    · exact hes.records n hn hother
    · exact hmore.records n (hsame ▸ hn) hother

/-- A node that opens no scope owns what is below it. -/
theorem node (hform : ∀ position scope,
      (Expr.mk form position scope).opens? = none ∧
      (Expr.mk form position scope).recordsOwn = false)
    (h : Owns t form.children t') : Owns t [.mk form position t'.current] t' := by
  intro hcurrent
  have hbelow := h hcurrent
  have hnodes : nodesList t.current [.mk form position t'.current] =
      (.mk form position t'.current, t.current) :: nodesList t.current form.children := by
    rw [nodesList_singleton, Expr.nodes, (hform _ _).1]
    rfl
  refine ⟨hbelow.grows, ?_, ?_, ?_⟩
  · rw [hnodes, List.filterMap_cons]
    dsimp only
    rw [(hform _ _).1]
    exact hbelow.numbers
  · rw [hnodes]
    intro n hn id hid
    rcases List.mem_cons.mp hn with rfl | hn
    · rw [(hform _ _).1] at hid
      cases hid
    · exact hbelow.parents n hn id hid
  · rw [hnodes]
    intro n hn hother
    rcases List.mem_cons.mp hn with rfl | hn
    · exact hbelow.grows.current
    · exact hbelow.records n hn hother

/-- A node that opens a scope owns it, and what is below the node is inside it. -/
theorem opening (hopens : e.opens? = some t.scopes.size)
    (hrecords : e.recordsOwn = false → e.scope = t₂.current)
    (h : Owns (t.opened kind names) e.children t₁) (hpop : t₁.pop = .ok (outer, t₂)) :
    Owns t [e] t₂ := by
  intro _
  have hinside : OwnsScopes (t.opened kind names) e.children t₁ := by
    refine h ?_
    rw [SymbolTable.current_opened, SymbolTable.size_opened]
    exact Nat.lt_succ_self _
  rw [hinside.grows.pop_inside] at hpop
  cases hpop
  have hnodes : nodesList t.current [e] =
      (e, t.current) :: nodesList t.scopes.size e.children := by
    rw [nodesList_singleton, Expr.nodes, hopens]
    rfl
  have hcurrent := SymbolTable.current_opened t kind names
  refine ⟨hinside.grows.inside, ?_, ?_, ?_⟩
  · have hnumbers := hinside.numbers
    rw [hcurrent, SymbolTable.size_opened] at hnumbers
    rw [hnodes, List.filterMap_cons]
    dsimp only
    rw [hopens, hnumbers]
    have hle := hinside.grows.size
    rw [SymbolTable.size_opened] at hle
    have hone : (t₁.backTo t.current).scopes.size - t.scopes.size =
        t₁.scopes.size - (t.scopes.size + 1) + 1 := by
      rw [SymbolTable.backTo]
      dsimp only
      omega
    rw [hone, List.range'_succ]
  · rw [hnodes]
    intro n hn id hid
    rcases List.mem_cons.mp hn with rfl | hn
    · rw [hopens] at hid
      cases hid
      obtain ⟨symbols, hscope⟩ := hinside.grows.parent_inside
      exact ⟨_, hscope, rfl⟩
    · exact hinside.parents n (hcurrent ▸ hn) id hid
  · rw [hnodes]
    intro n hn hother
    rcases List.mem_cons.mp hn with rfl | hn
    · exact hrecords hother
    · exact hinside.records n (hcurrent ▸ hn) hother

/-- Defining names before or behind some trees adds no scope. -/
theorem defining (hbefore : t.Grows t₁) (hsize : t₁.scopes.size = t.scopes.size)
    (h : Owns t₁ es t') :
    Owns t es t' := by
  simpa using (nil hbefore hsize).append h

theorem defined (h : Owns t es t₁) (hbehind : t₁.Grows t')
    (hsize : t'.scopes.size = t₁.scopes.size) :
    Owns t es t' := by
  simpa using h.append (nil hbehind hsize)

/-- The place of a node plays no part. -/
theorem moved (h : Owns t [e] t') : Owns t [e.moveTo position] t' := by
  obtain ⟨form, place, scope⟩ := e
  have hopens : (Expr.mk form position scope).opens? = (Expr.mk form place scope).opens? := by
    cases form <;> rfl
  have hown : (Expr.mk form position scope).recordsOwn = (Expr.mk form place scope).recordsOwn := by
    cases form <;> rfl
  have hnodes : ∃ rest, nodesList t.current [.mk form place scope] =
        (.mk form place scope, t.current) :: rest ∧
      nodesList t.current [.mk form position scope] = (.mk form position scope,
        t.current) :: rest := by
    rw [nodesList_singleton, nodesList_singleton, Expr.nodes, Expr.nodes, hopens]
    exact ⟨_, rfl, rfl⟩
  obtain ⟨rest, hplace, hposition⟩ := hnodes
  intro hcurrent
  have hmoved := h hcurrent
  have hnumbers := hmoved.numbers
  have hparents := hmoved.parents
  have hrecords := hmoved.records
  rw [hplace, List.filterMap_cons] at hnumbers
  rw [hplace, List.forall_mem_cons] at hparents hrecords
  refine ⟨hmoved.grows, ?_, ?_, ?_⟩
  · rw [Expr.moveTo, Expr.form, Expr.scope, hposition, List.filterMap_cons]
    dsimp only at hnumbers ⊢
    rw [hopens]
    exact hnumbers
  · rw [Expr.moveTo, Expr.form, Expr.scope, hposition, List.forall_mem_cons]
    refine ⟨fun id hid ↦ hparents.1 id ?_, hparents.2⟩
    rw [← hopens]
    exact hid
  · rw [Expr.moveTo, Expr.form, Expr.scope, hposition, List.forall_mem_cons]
    refine ⟨fun hother ↦ hrecords.1 ?_, hrecords.2⟩
    rw [← hown]
    exact hother

end Owns

namespace Derives

variable {limits : Limits} {r : Role} {d : Openings} {t t' : SymbolTable} {es : List Expr}

/-- No expression is a block or a loop. -/
theorem recordsOwn_eq_false (h : Derives limits r d t es t') (hr : r.isExpression = true) :
    ∀ e ∈ es, e.recordsOwn = false := by
  induction h with
  | nil => simp
  | append _ _ ih ih' =>
    intro e he
    rcases List.mem_append.mp he with he | he
    · exact ih hr e he
    · exact ih' hr e he
  | parens _ _ ih | group _ _ ih | links _ ih | atom _ _ ih | single _ ih => exact ih rfl
  | @operation d t t₁ t₂ left right op least _ _ _ _ _ =>
    intro e he
    rw [List.mem_singleton.mp he]
    cases op <;> rfl
  | constant | var | array _ _ | member _ _ _ | index _ _ _ _ _ | callComputed _ _ _ _ _
  | callQualified _ _ _ | postChange _ _ | callLoose _ _ | prefixed _ _ | map _ _ | interpolated _ _
  | lambda _ _ _ _ =>
    intro e he
    rw [List.mem_singleton.mp he]
    rfl
  | _ => cases hr

/-- **The nodes of a derivation own the scopes that it opens.** -/
theorem owns (h : Derives limits r d t es t') : Owns t es t' := by
  induction h with
  | nil => exact .nil .refl rfl
  | append _ _ ih ih' => exact ih.append ih'
  | constant | var | partConstant | breakLoop | continueLoop =>
    exact .node (fun _ _ ↦ ⟨rfl, rfl⟩) (.nil .refl rfl)
  | array _ ih | member _ _ ih | callQualified _ _ ih | postChange _ ih | callLoose _ ih
  | prefixed _ ih | map _ ih | interpolated _ ih | declarations _ ih | returning _ ih
  | throwing _ ih => exact .node (fun _ _ ↦ ⟨rfl, rfl⟩) ih
  | parens _ _ ih | group _ _ ih | links _ ih | atom _ _ ih | single _ ih | partExpression _ ih
  | simpleExpression _ ih | chained _ _ ih | alternativeBlock _ ih | simple _ ih | branching _ ih
  | nested _ ih => exact ih
  | index _ _ _ ih ih' | callComputed _ _ _ ih ih' | whileLoop _ _ ih ih' | forEach _ _ ih ih'
  | tryCatch _ _ ih ih' => exact .node (fun _ _ ↦ ⟨rfl, rfl⟩) (ih.append ih')
  | conditional _ _ _ ih₁ ih₂ ih₃ =>
    exact .node (fun _ _ ↦ ⟨rfl, rfl⟩) ((ih₁.append ih₂).append ih₃)
  | @operation d t t₁ t₂ left right op least hleft _ _ ih ih' =>
    intro hcurrent
    have hboth := ih.append ih'
    -- an operation is put where its left operand is, which is in the current scope
    have hscope : left.scope = t₂.current := by
      refine ((ih hcurrent).records (left, t.current) ?_ ?_).trans
        (hboth hcurrent).grows.current.symm
      · rw [nodesList_singleton, Expr.nodes]
        exact List.mem_cons_self
      · exact hleft.recordsOwn_eq_false rfl left List.mem_cons_self
    have hnode (form : Form) (hform : form.children = [left] ++ [right])
        (hkind : ∀ position scope, (Expr.mk form position scope).opens? = none ∧
          (Expr.mk form position scope).recordsOwn = false) :
        OwnsScopes t [.mk form left.position left.scope] t₂ := by
      rw [hscope]
      exact Owns.node hkind (hform ▸ hboth) hcurrent
    cases op with
    | math op => exact hnode (.binary op left right) rfl fun _ _ ↦ ⟨rfl, rfl⟩
    | compare op => exact hnode (.compare op left right) rfl fun _ _ ↦ ⟨rfl, rfl⟩
    | logical op => exact hnode (.condition op left right) rfl fun _ _ ↦ ⟨rfl, rfl⟩
  | @declaration d t t₁ name value position _ ih =>
    intro hcurrent
    have hvalue : Owns t value.toList t₁ :=
      .defining (.define name .var) (SymbolTable.size_define _ _ _) ih
    have hvar : Owns t [.mk (.var name) position t₁.current] t := by
      rw [(hvalue hcurrent).grows.current]
      exact .node (fun _ _ ↦ ⟨rfl, rfl⟩) (.nil .refl rfl)
    exact Owns.node (fun _ _ ↦ ⟨rfl, rfl⟩) (hvar.append hvalue) hcurrent
  | assignment _ _ ih ih' =>
    exact (Owns.node (fun _ _ ↦ ⟨rfl, rfl⟩) (ih.append ih')).defined
      (SymbolTable.grows_assigned _ _ _) (SymbolTable.size_assigned _ _ _)
  | declared _ ih => exact ih.moved
  | lambda _ hpop _ ih => exact .opening rfl (fun _ ↦ rfl) ih hpop
  | block _ hpop _ ih =>
    exact .opening rfl (fun hother ↦ by simp [Expr.recordsOwn] at hother) ih hpop
  | forLoop _ _ _ _ hpop ih₁ ih₂ ih₃ ih₄ =>
    exact .opening rfl (fun hother ↦ by simp [Expr.recordsOwn] at hother)
      (((ih₁.append ih₂).append ih₃).append ih₄) hpop
  | @function d t t₁ t₂ outer signature body decl position hbody hpop _ hdecl ih =>
    intro hcurrent
    subst hdecl
    have hopening : Owns (t.defineFunction signature)
        [.mk (.functionDecl (.mk signature body _ position)) position t₂.current] t₂ :=
      .opening rfl (fun _ ↦ rfl) ih hpop
    have hfunction := hopening.defining (.defineFunction signature)
      (SymbolTable.size_defineFunction _ _)
    exact hfunction.defined (SymbolTable.grows_attachDecl _ hbody.grows hpop hcurrent)
      (SymbolTable.size_attachDecl _ _ _) hcurrent

end Derives

namespace Frontend

variable {f : Frontend} {text : String} {p : Program}

/-- **Every scope belongs to one node.** At the end of a script the global scope is current. The
nodes that open scopes own, in the order of the text, the scopes from the first one behind the
global one to the last, each of them once; the parent of a scope is the one around its node; and
every node that does not record its own scope records the one around it. -/
theorem parse_ownsScopes (hf : f.registry.entries = []) (hhost : f.host.IsHost)
    (h : f.parse text = .ok p) :
    p.symbols.current = globalScope ∧
    (nodesList globalScope p.statements).filterMap (fun n ↦ n.1.opens?) =
      List.range' 1 (p.symbols.scopeCount - 1) ∧
    ∀ n ∈ nodesList globalScope p.statements,
      (∀ id, n.1.opens? = some id → ∃ s, p.symbols.scope? id = some s ∧ s.parent = some n.2) ∧
      (n.1.recordsOwn = false → n.1.scope = n.2) := by
  obtain ⟨hcurrent, hsize⟩ := hhost.shape
  have howns : OwnsScopes f.host p.statements p.symbols := by
    refine (parse_derives hf h).owns ?_
    rw [hcurrent, hsize]
    decide
  have hnumbers := howns.numbers
  have hparents := howns.parents
  have hrecords := howns.records
  rw [hcurrent, hsize] at hnumbers
  rw [hcurrent] at hparents hrecords
  exact ⟨howns.grows.current.trans hcurrent, hnumbers, fun n hn ↦ ⟨hparents n hn, hrecords n hn⟩⟩

/-- Functions, loops and blocks within each other. -/
def sampleScopes : String :=
  "function f(a) \x7b for (var i = 0; i < a; i++) " ++
  "\x7b g = function(x) \x7b return x \x7d \x7d \x7d\n" ++
  "if a then b = \"<#\x7b[function(y) \x7b y \x7d]\x7d>\" " ++
  "else for c in d \x7b try \x7b\x7d catch e \x7b\x7d \x7d"

theorem parse_ownsScopes_sampleScopes :
    ∃ p, standard.parse sampleScopes = .ok p ∧ p.symbols.current = globalScope ∧
      (nodesList globalScope p.statements).filterMap (fun n ↦ n.1.opens?) =
        List.range' 1 (p.symbols.scopeCount - 1) ∧
      ∀ n ∈ nodesList globalScope p.statements,
        (∀ id, n.1.opens? = some id → ∃ s, p.symbols.scope? id = some s ∧ s.parent = some n.2) ∧
        (n.1.recordsOwn = false → n.1.scope = n.2) := by
  obtain ⟨p, h⟩ : ∃ p, standard.parse sampleScopes = .ok p :=
    exists_eq_ok_of_isSome (by decide +kernel)
  exact ⟨p, h, parse_ownsScopes rfl .empty h⟩

end Frontend

end ScriptFront
