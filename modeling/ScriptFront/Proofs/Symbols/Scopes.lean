import Mathlib.Data.List.Basic
import ScriptFront.Symbols.Table

/-!
# How tables of symbols grow

Scopes are only added to a table, names are only defined in the current scope, and leaving a scope
brings back the one that was current when it was opened. `SymbolTable.Grows` collects what this
keeps of a table from one point of a parse to a later one at the same level: the current scope has
gained names at most, and no other scope that was there has changed.
-/

namespace ScriptFront

/-! ## Definitions in one scope -/

namespace Scope

theorem lookup_cons_eq (name key : String) (symbol : Symbol) (rest : List (String × Symbol)) :
    ((key, symbol) :: rest).lookup name = if name = key then some symbol else rest.lookup name := by
  rw [List.lookup_cons]
  by_cases h : name = key
  · simp [h]
  · simp [h, beq_eq_false_iff_ne.mpr h]

/-- What is inserted is found under its name, and nothing else changes. -/
theorem lookup_insertSorted (name other : String) (symbol : Symbol)
    (entries : List (String × Symbol)) :
    (insertSorted name symbol entries).lookup other =
      if other = name then some symbol else entries.lookup other := by
  induction entries with
  | nil => exact lookup_cons_eq other name symbol []
  | cons entry rest ih =>
    obtain ⟨key, s⟩ := entry
    rw [insertSorted]
    by_cases hlt : name < key
    · rw [if_pos hlt, lookup_cons_eq]
    by_cases heq : name = key
    · -- the entry under this name gives way
      rw [if_neg hlt, if_pos heq, lookup_cons_eq, lookup_cons_eq, ← heq]
      by_cases hname : other = name <;> simp [hname]
    · rw [if_neg hlt, if_neg heq, lookup_cons_eq, lookup_cons_eq, ih]
      by_cases hkey : other = key
      · simp [hkey, Ne.symm heq]
      · simp [hkey]

theorem contains_of_get? {s : Scope} {name : String} {symbol : Symbol}
    (h : s.get? name = some symbol) :
    s.contains name = true := by
  rw [contains, h, Option.isSome_some]

/-- The entries after an insertion are the new one and old ones. -/
theorem mem_insertSorted {name : String} {symbol : Symbol} {entry : String × Symbol}
    {entries : List (String × Symbol)} (h : entry ∈ insertSorted name symbol entries) :
    entry = (name, symbol) ∨ entry ∈ entries := by
  induction entries with
  | nil => exact .inl (by simpa [insertSorted] using h)
  | cons other rest ih =>
    obtain ⟨otherName, otherSymbol⟩ := other
    rw [insertSorted] at h
    split at h
    · simpa using h
    · split at h
      · rcases List.mem_cons.mp h with h | h
        · exact .inl h
        · exact .inr (List.mem_cons_of_mem _ h)
      · rcases List.mem_cons.mp h with h | h
        · exact .inr (h ▸ List.mem_cons_self)
        · exact (ih h).imp_right (List.mem_cons_of_mem _)

end Scope

namespace SymbolTable

variable {t t₁ t₂ : SymbolTable} {name : String} {kind : ScopeKind} {names : List String}

/-! ## Opened scopes -/

/-- The table in which a scope is opened, with some variables defined. -/
def opened (t : SymbolTable) (kind : ScopeKind) (names : List String) : SymbolTable :=
  names.foldl defineVar (t.push kind).2

/-- The table with another scope current. -/
def backTo (t : SymbolTable) (scope : ScopeId) : SymbolTable := { t with current := scope }

/-- Between two points of a parse at the same level, the table has gained scopes, and names in the
current scope. -/
structure Grows (t t' : SymbolTable) : Prop where
  /-- The same scope is current. -/
  current : t'.current = t.current
  /-- No scope is lost. -/
  size : t.scopes.size ≤ t'.scopes.size
  /-- The other scopes are as they were. -/
  elsewhere : ∀ i, i < t.scopes.size → i ≠ t.current → t'.scopes[i]? = t.scopes[i]?
  /-- The current scope has at most other names. -/
  here : ∀ s, t.scopes[t.current]? = some s →
    ∃ symbols, t'.scopes[t.current]? = some { s with symbols }

namespace Grows

theorem refl : t.Grows t := ⟨rfl, Nat.le_refl _, fun _ _ _ ↦ rfl, fun s hs ↦ ⟨s.symbols, hs⟩⟩

theorem trans (h : t.Grows t₁) (h' : t₁.Grows t₂) : t.Grows t₂ := by
  refine ⟨h'.current.trans h.current, Nat.le_trans h.size h'.size, fun i hi hne ↦ ?_, fun s hs ↦ ?_⟩
  · rw [h'.elsewhere i (Nat.lt_of_lt_of_le hi h.size) (h.current ▸ hne), h.elsewhere i hi hne]
  · obtain ⟨symbols, hs₁⟩ := h.here s hs
    rw [← h.current] at hs₁ ⊢
    obtain ⟨symbols', hs₂⟩ := h'.here _ hs₁
    exact ⟨symbols', hs₂⟩

/-- The parent of a scope stays the same. -/
theorem parent_eq {i : ScopeId} {s : Scope} (h : t.Grows t₁) (hs : t.scopes[i]? = some s) :
    ∃ s', t₁.scopes[i]? = some s' ∧ s'.parent = s.parent := by
  by_cases hcurrent : i = t.current
  · subst hcurrent
    obtain ⟨symbols, hs'⟩ := h.here s hs
    exact ⟨_, hs', rfl⟩
  · have hlt : i < t.scopes.size := (Array.getElem?_eq_some_iff.mp hs).choose
    exact ⟨s, (h.elsewhere i hlt hcurrent).trans hs, rfl⟩

theorem modify {f : Scope → Scope} (hf : ∀ s, ∃ symbols, f s = { s with symbols }) :
    t.Grows { t with scopes := t.scopes.modify t.current f } := by
  refine ⟨rfl, by simp, fun i hi hne ↦ ?_, fun s hs ↦ ?_⟩
  · rw [Array.getElem?_modify, if_neg (Ne.symm hne)]
  · obtain ⟨symbols, hsymbols⟩ := hf s
    exact ⟨symbols, by simp [Array.getElem?_modify, hs, hsymbols]⟩

theorem define (name : String) (kind : SymbolKind) : t.Grows (t.define name kind) :=
  modify fun _ ↦ ⟨_, rfl⟩

theorem defineVars (names : List String) : t.Grows (names.foldl defineVar t) := by
  induction names generalizing t with
  | nil => exact refl
  | cons name names ih => exact (define name .var).trans ih

theorem defineAliases (target : String) (names : List String) :
    t.Grows (names.foldl (fun t name ↦ t.defineAlias name target) t) := by
  induction names generalizing t with
  | nil => exact refl
  | cons name names ih => exact (define name _).trans ih

theorem defineFunction (signature : Signature) : t.Grows (t.defineFunction signature) :=
  (defineAliases signature.name signature.aliases).trans (define _ _)

end Grows

@[simp] theorem size_define (t : SymbolTable) (name : String) (kind : SymbolKind) :
    (t.define name kind).scopes.size = t.scopes.size := Array.size_modify

theorem size_defineVars (t : SymbolTable) (names : List String) :
    (names.foldl defineVar t).scopes.size = t.scopes.size := by
  induction names generalizing t with
  | nil => rfl
  | cons name names ih => rw [List.foldl_cons, ih, defineVar, size_define]

theorem size_defineFunction (t : SymbolTable) (signature : Signature) :
    (t.defineFunction signature).scopes.size = t.scopes.size := by
  have haliases (names : List String) (t : SymbolTable) :
      (names.foldl (fun t name ↦ t.defineAlias name signature.name) t).scopes.size =
        t.scopes.size := by
    induction names generalizing t with
    | nil => rfl
    | cons name names ih => rw [List.foldl_cons, ih, defineAlias, size_define]
  rw [defineFunction, size_define, haliases]

theorem size_attachDecl (t : SymbolTable) (name : String) (decl : FunctionDecl) :
    (t.attachDecl name decl).scopes.size = t.scopes.size := by
  rw [attachDecl]
  split
  · rfl
  · exact Array.size_modify

theorem size_opened (t : SymbolTable) (kind : ScopeKind) (names : List String) :
    (t.opened kind names).scopes.size = t.scopes.size + 1 := by
  rw [opened, size_defineVars, push, Array.size_push]

theorem current_opened (t : SymbolTable) (kind : ScopeKind) (names : List String) :
    (t.opened kind names).current = t.scopes.size :=
  (Grows.defineVars (t := (t.push kind).2) names).current

/-- An opened scope is in the one that was current. -/
theorem parent_opened (t : SymbolTable) (kind : ScopeKind) (names : List String) :
    ∃ symbols, (t.opened kind names).scopes[t.scopes.size]? =
      some ⟨kind, some t.current, symbols⟩ :=
  (Grows.defineVars (t := (t.push kind).2) names).here ⟨kind, some t.current, []⟩
    (by simp [push, Scope.empty])

/-- Opening a scope changes no other. -/
theorem getElem?_opened {i : ScopeId} (hi : i < t.scopes.size) :
    (t.opened kind names).scopes[i]? = t.scopes[i]? := by
  have hgrows := Grows.defineVars (t := (t.push kind).2) names
  have hsize : i < (t.push kind).2.scopes.size := by
    rw [push, Array.size_push]
    exact Nat.lt_succ_of_lt hi
  rw [opened, hgrows.elsewhere i hsize (Nat.ne_of_lt hi)]
  simp [push, Array.getElem?_push, Nat.ne_of_lt hi]

section

variable (h : (t.opened kind names).Grows t₁)

include h

/-- What happens inside an opened scope leaves those around it as they are. -/
theorem Grows.getElem?_inside {i : ScopeId} (hi : i < t.scopes.size) :
    t₁.scopes[i]? = t.scopes[i]? := by
  rw [h.elsewhere i (size_opened t kind names ▸ Nat.lt_succ_of_lt hi), getElem?_opened hi]
  rw [current_opened]
  exact Nat.ne_of_lt hi

theorem Grows.parent_inside : ∃ symbols, t₁.scopes[t.scopes.size]? =
    some ⟨kind, some t.current, symbols⟩ := by
  obtain ⟨symbols, hscope⟩ := parent_opened t kind names
  rw [← current_opened t kind names] at hscope ⊢
  exact h.here _ hscope

/-- Leaving an opened scope brings back the one around it. -/
theorem Grows.pop_inside : t₁.pop = .ok (t.current, t₁.backTo t.current) := by
  obtain ⟨symbols, hscope⟩ := h.parent_inside
  rw [pop, h.current, current_opened, hscope]
  rfl

theorem Grows.inside : t.Grows (t₁.backTo t.current) := by
  have hsize := h.size
  rw [size_opened] at hsize
  refine ⟨rfl, Nat.le_of_succ_le hsize, fun i hi _ ↦ h.getElem?_inside hi, fun s hs ↦
    ⟨s.symbols, ?_⟩⟩
  have hlt : t.current < t.scopes.size := (Array.getElem?_eq_some_iff.mp hs).choose
  exact (h.getElem?_inside hlt).trans hs

end

/-! ## Scopes that stay where they are -/

/-- The same scope is current, and no scope has got another parent. This is less than `Grows`, and
it is kept as well when a declaration is attached to a name somewhere. -/
structure Steady (t t' : SymbolTable) : Prop where
  /-- The same scope is current. -/
  current : t'.current = t.current
  /-- All scopes are where they were. -/
  parents : ∀ (i : ScopeId) (s : Scope), t.scopes[i]? = some s →
    ∃ s', t'.scopes[i]? = some s' ∧ s'.parent = s.parent

namespace Steady

theorem refl : t.Steady t := ⟨rfl, fun _ s hs ↦ ⟨s, hs, rfl⟩⟩

theorem trans (h : t.Steady t₁) (h' : t₁.Steady t₂) : t.Steady t₂ := by
  refine ⟨h'.current.trans h.current, fun i s hs ↦ ?_⟩
  obtain ⟨s₁, hs₁, hparent⟩ := h.parents i s hs
  obtain ⟨s₂, hs₂, hparent'⟩ := h'.parents i s₁ hs₁
  exact ⟨s₂, hs₂, hparent'.trans hparent⟩

theorem attachDecl (name : String) (decl : FunctionDecl) : t.Steady (t.attachDecl name decl) := by
  rw [SymbolTable.attachDecl]
  split
  · exact refl
  · refine ⟨rfl, fun i s hs ↦ ?_⟩
    rw [Array.getElem?_modify, hs]
    split
    · exact ⟨_, rfl, rfl⟩
    · exact ⟨s, rfl, rfl⟩

/-- Leaving an opened scope brings back the one around it. -/
theorem pop (h : (t.push kind).2.Steady t₁) :
    t₁.pop = .ok (t.current, t₁.backTo t.current) ∧ t.Steady (t₁.backTo t.current) := by
  have hopened : (t.push kind).2.scopes[t.scopes.size]? = some ⟨kind, some t.current, []⟩ := by
    simp [push, Scope.empty]
  obtain ⟨s, hs, hparent⟩ := h.parents _ _ hopened
  have hcurrent : t₁.current = t.scopes.size := h.current
  refine ⟨?_, rfl, fun i s hs ↦ ?_⟩
  · rw [SymbolTable.pop, hcurrent, hs, Option.bind_some, hparent]
    rfl
  · refine h.parents i s ?_
    have hi : i < t.scopes.size := (Array.getElem?_eq_some_iff.mp hs).choose
    simp [push, Array.getElem?_push, Nat.ne_of_lt hi, hs]

end Steady

theorem Grows.steady (h : t.Grows t₁) : t.Steady t₁ := ⟨h.current, fun _ _ hs ↦ h.parent_eq hs⟩

/-! ## Tables of a host -/

/-- The tables that a host can set up: it defines modules and functions, one after the other. -/
inductive IsHost : SymbolTable → Prop
  | empty : IsHost empty
  | defineModule {t : SymbolTable} (h : IsHost t) (name : String) : IsHost (t.defineModule name)
  | defineFunction {t : SymbolTable} (h : IsHost t) (signature : Signature) :
    IsHost (t.defineFunction signature)

/-- A host has no scope but the global one. -/
theorem IsHost.shape (h : t.IsHost) : t.current = globalScope ∧ t.scopes.size = 1 := by
  induction h with
  | empty => exact ⟨rfl, rfl⟩
  | defineModule _ name ih => exact ⟨ih.1, (size_define _ name .hostModule).trans ih.2⟩
  | defineFunction _ signature ih =>
    exact ⟨(Grows.defineFunction signature).current.trans ih.1,
      (size_defineFunction _ signature).trans ih.2⟩

/-! ## Names in the current scope -/

/-- The first scope in sight is the current one. -/
theorem visible_eq {s : Scope} (hs : t.scopes[t.current]? = some s) :
    ∃ more, t.visible = (t.current, s) :: more := by
  rw [visible, outward, hs]
  exact ⟨_, rfl⟩

/-- The entries of a scope, with a declaration attached to the function under a name. -/
def attachIn (name : String) (decl : FunctionDecl) (s : Scope) : Scope :=
  { s with
    symbols := s.symbols.map fun (other, symbol) ↦
      (other, if other = name then attach decl symbol else symbol) }

/-- A declaration is attached in the current scope if the name is defined there. -/
theorem attachDecl_eq {s : Scope} {decl : FunctionDecl} (hs : t.scopes[t.current]? = some s)
    (hname : s.contains name = true) :
    t.attachDecl name decl =
      { t with scopes := t.scopes.modify t.current (attachIn name decl) } := by
  obtain ⟨more, hvisible⟩ := visible_eq hs
  have hscope : t.scopeOf? name = some t.current := by
    simp [scopeOf?, hvisible, hname]
  rw [attachDecl, hscope]
  rfl

/-- What is seen is among the scopes. -/
theorem mem_scopes_of_mem_outward {fuel : Nat} {id : ScopeId} {entry : ScopeId × Scope}
    (h : entry ∈ t.outward fuel id) : entry.2 ∈ t.scopes := by
  induction fuel generalizing id with
  | zero => simp [outward] at h
  | succ fuel ih =>
    rw [outward] at h
    cases hscope : t.scopes[id]? with
    | none => simp [hscope] at h
    | some s =>
      simp only [hscope, List.mem_cons] at h
      rcases h with rfl | h
      · exact Array.mem_of_getElem? hscope
      · cases hparent : s.parent with
        | none => simp [hparent] at h
        | some parent => exact ih (by simpa [hparent] using h)

theorem current_attachDecl (t : SymbolTable) (name : String) (decl : FunctionDecl) :
    (t.attachDecl name decl).current = t.current := by
  rw [attachDecl]
  split <;> rfl

/-- What is defined is found in the current scope. -/
theorem exists_scope_define {s : Scope} {kind : SymbolKind} (hs : t.scopes[t.current]? = some s) :
    ∃ s', (t.define name kind).scopes[t.current]? = some s' ∧
      s'.get? name = some ⟨name, kind, t.current⟩ := by
  refine ⟨s.insert ⟨name, kind, t.current⟩, ?_, ?_⟩
  · rw [define, Array.getElem?_modify, if_pos rfl, hs]
    rfl
  · rw [Scope.get?, Scope.insert, Scope.lookup_insertSorted, if_pos rfl]

/-- A function is defined in the current scope. -/
theorem exists_scope_defineFunction (signature : Signature) (hcurrent : t.current < t.scopes.size) :
    ∃ s, (t.defineFunction signature).scopes[t.current]? = some s ∧
      s.get? signature.name = some ⟨signature.name, .function signature none, t.current⟩ := by
  obtain ⟨s, hs⟩ : ∃ s, t.scopes[t.current]? = some s := ⟨_, Array.getElem?_eq_getElem hcurrent⟩
  have hgrows := Grows.defineAliases (t := t) signature.name signature.aliases
  obtain ⟨symbols, hscope⟩ := hgrows.here s hs
  rw [← hgrows.current] at hscope ⊢
  exact exists_scope_define hscope

end SymbolTable

end ScriptFront
