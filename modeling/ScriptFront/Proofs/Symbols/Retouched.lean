import ScriptFront.Proofs.Symbols.Scopes

/-!
# Tables that differ in the declarations of functions

While the body of a function is parsed, its name is defined but its declaration is not known yet; it
is attached when the body is complete. Whoever goes over the finished tree knows the declaration
from the start. The two tables differ until then, in scopes around the current one.

A *retouch* changes scopes by number without changing where a name is found, and leaves the current
scope and all later ones alone. Whatever happens at the current scope commutes with it. Attaching a
declaration is a retouch as soon as another scope is current, and comes to the same as defining the
function with its declaration, since a scope has only one entry for a name.
-/

namespace ScriptFront

/-! ## Entries in order -/

namespace Scope

/-- The entries of a scope are in order of their names, so that there is one for each name. -/
def IsSorted (s : Scope) : Prop := s.symbols.Pairwise fun entry other ↦ entry.1 < other.1

/-- A name in front of all entries stays in front when a later one is inserted. -/
theorem lt_of_mem_insertSorted {name other : String} {symbol : Symbol}
    {entries : List (String × Symbol)} (hname : other < name)
    (h : ∀ entry ∈ entries, other < entry.1) :
    ∀ entry ∈ insertSorted name symbol entries, other < entry.1 := by
  intro entry hentry
  rcases mem_insertSorted hentry with rfl | hentry
  · exact hname
  · exact h entry hentry

theorem IsSorted.insert {s : Scope} (h : s.IsSorted) (symbol : Symbol) :
    (s.insert symbol).IsSorted := by
  obtain ⟨kind, parent, entries⟩ := s
  rw [IsSorted, Scope.insert]
  rw [IsSorted] at h
  dsimp only at h ⊢
  induction entries with
  | nil => exact List.pairwise_singleton _ _
  | cons entry rest ih =>
    obtain ⟨key, other⟩ := entry
    rw [List.pairwise_cons] at h
    rw [insertSorted]
    split
    · rename_i hlt
      refine List.pairwise_cons.mpr ⟨?_, List.pairwise_cons.mpr h⟩
      exact List.forall_mem_cons.mpr ⟨hlt, fun entry he ↦ String.lt_trans hlt (h.1 entry he)⟩
    split
    · rename_i heq
      exact List.pairwise_cons.mpr ⟨heq ▸ h.1, h.2⟩
    · rename_i hlt hne
      -- names that are not less and not equal are greater
      have hgt : key < symbol.name := Std.lt_of_le_of_ne (String.not_lt.mp hlt) (Ne.symm hne)
      exact List.pairwise_cons.mpr ⟨lt_of_mem_insertSorted hgt h.1, ih h.2⟩

end Scope

namespace SymbolTable

variable {t t₁ t₂ : SymbolTable} {name : String} {decl : FunctionDecl} {F : ScopeId → Scope → Scope}

/-- Entries under other names are not touched by a declaration. -/
theorem map_attach_eq_self {entries : List (String × Symbol)}
    (h : ∀ entry ∈ entries, entry.1 ≠ name) :
    entries.map (fun (other, symbol) ↦
      (other, if other = name then attach decl symbol else symbol)) = entries := by
  induction entries with
  | nil => rfl
  | cons entry rest ih =>
    rw [List.forall_mem_cons] at h
    rw [List.map_cons, ih h.2]
    dsimp only
    rw [if_neg h.1]

/-- Attaching a declaration to a function comes to the same as defining it with its declaration. -/
theorem attachIn_insert {s : Scope} (h : s.IsSorted) (signature : Signature) (scope : ScopeId) :
    attachIn name decl (s.insert ⟨name, .function signature none, scope⟩) =
      s.insert ⟨name, .function signature (some decl), scope⟩ := by
  obtain ⟨kind, parent, entries⟩ := s
  rw [attachIn, Scope.insert, Scope.insert]
  rw [Scope.IsSorted] at h
  dsimp only at h ⊢
  congr 1
  -- only one entry has the name, and those behind it are greater
  have hbehind {key : String} {rest : List (String × Symbol)} (hlt : ∀ entry ∈ rest, key < entry.1)
      {entry : String × Symbol} (he : entry ∈ rest) : entry.1 ≠ key := by
    rintro rfl
    exact String.lt_irrefl _ (hlt entry he)
  induction entries with
  | nil => simp [Scope.insertSorted, attach]
  | cons entry rest ih =>
    obtain ⟨key, other⟩ := entry
    rw [List.pairwise_cons] at h
    by_cases hlt : name < key
    · have hrest : ∀ entry ∈ (key, other) :: rest, name < entry.1 :=
        List.forall_mem_cons.mpr ⟨hlt, fun entry he ↦ String.lt_trans hlt (h.1 entry he)⟩
      rw [Scope.insertSorted, Scope.insertSorted, if_pos hlt, if_pos hlt, List.map_cons,
        map_attach_eq_self fun entry he ↦ hbehind hrest he, if_pos rfl]
      rfl
    by_cases heq : name = key
    · subst heq
      rw [Scope.insertSorted, Scope.insertSorted, if_neg hlt, if_neg hlt, if_pos rfl, if_pos rfl,
        List.map_cons, map_attach_eq_self fun entry he ↦ hbehind h.1 he, if_pos rfl]
      rfl
    · rw [Scope.insertSorted, Scope.insertSorted, if_neg hlt, if_neg hlt, if_neg heq, if_neg heq,
        List.map_cons, if_neg (Ne.symm heq), ih h.2]

theorem contains_attachIn (s : Scope) (other : String) :
    (attachIn name decl s).contains other = s.contains other := by
  obtain ⟨kind, parent, entries⟩ := s
  rw [Scope.contains, Scope.contains, Scope.get?, Scope.get?, attachIn]
  dsimp only
  induction entries with
  | nil => rfl
  | cons entry rest ih =>
    obtain ⟨key, symbol⟩ := entry
    rw [List.map_cons, Scope.lookup_cons_eq, Scope.lookup_cons_eq]
    by_cases h : other = key
    · rw [if_pos h, if_pos h]
      rfl
    · rw [if_neg h, if_neg h, ih]

/-- All scopes of a table are sorted. -/
def IsSorted (t : SymbolTable) : Prop :=
  ∀ (i : ScopeId) (s : Scope), t.scopes[i]? = some s → s.IsSorted

namespace IsSorted

theorem modify (h : t.IsSorted) (id : ScopeId) {f : Scope → Scope}
    (hf : ∀ s : Scope, s.IsSorted → (f s).IsSorted) :
    IsSorted { t with scopes := t.scopes.modify id f } := by
  intro i s hs
  rw [Array.getElem?_modify] at hs
  split at hs
  · obtain ⟨s₀, hs₀, rfl⟩ := Option.map_eq_some_iff.mp hs
    exact hf s₀ (h i s₀ hs₀)
  · exact h i s hs

theorem define (h : t.IsSorted) (name : String) (kind : SymbolKind) :
    (t.define name kind).IsSorted :=
  h.modify _ fun _ hs ↦ hs.insert _

theorem defineAliases (h : t.IsSorted) (target : String) (names : List String) :
    (names.foldl (fun t name ↦ t.defineAlias name target) t).IsSorted := by
  induction names generalizing t with
  | nil => exact h
  | cons name names ih => exact ih (h.define name _)

theorem defineFunction (h : t.IsSorted) (signature : Signature) :
    (t.defineFunction signature).IsSorted :=
  (h.defineAliases signature.name signature.aliases).define _ _

theorem opened (h : t.IsSorted) (kind : ScopeKind) (names : List String) :
    (t.opened kind names).IsSorted := by
  have hpush : (t.push kind).2.IsSorted := by
    intro i s hs
    rw [push, Array.getElem?_push] at hs
    split at hs
    · cases hs
      exact List.Pairwise.nil
    · exact h i s hs
  rw [SymbolTable.opened]
  generalize (t.push kind).2 = t at hpush
  induction names generalizing t with
  | nil => exact hpush
  | cons name names ih => exact ih _ (hpush.define name .var)

theorem pop {outer : ScopeId} (h : t.IsSorted) (hpop : t.pop = .ok (outer, t₁)) : t₁.IsSorted := by
  rw [SymbolTable.pop] at hpop
  split at hpop
  · cases hpop
  · cases hpop
    exact h

theorem attachDecl (h : t.IsSorted) (name : String) (decl : FunctionDecl) :
    (t.attachDecl name decl).IsSorted := by
  rw [SymbolTable.attachDecl]
  split
  · exact h
  · exact h.modify _ fun s hs ↦ List.pairwise_map.mpr hs

end IsSorted

theorem IsHost.isSorted (h : t.IsHost) : t.IsSorted := by
  induction h with
  | empty =>
    intro i s hs
    obtain ⟨hi, rfl⟩ := Array.getElem?_eq_some_iff.mp hs
    have hzero : i = 0 := Nat.lt_one_iff.mp hi
    subst hzero
    exact List.Pairwise.nil
  | defineModule _ name ih => exact ih.define name _
  | defineFunction _ signature ih => exact ih.defineFunction signature

/-! ## Retouched tables -/

/-- The table with each scope changed according to its number. -/
def mapped (t : SymbolTable) (F : ScopeId → Scope → Scope) : SymbolTable :=
  { t with scopes := t.scopes.mapIdx F }

theorem mapped_id (t : SymbolTable) : t.mapped (fun _ ↦ id) = t := by
  rw [mapped]
  congr 1
  refine Array.ext_getElem? fun i ↦ ?_
  rw [Array.getElem?_mapIdx, Option.map_id]
  rfl

/-- A change to the scopes before the current one that leaves open where names are found. -/
structure Retouches (F : ScopeId → Scope → Scope) (t : SymbolTable) : Prop where
  /-- Parents stay the same. -/
  parent : ∀ i s, (F i s).parent = s.parent
  /-- Names stay the same. -/
  contains : ∀ i s name, (F i s).contains name = s.contains name
  /-- The current scope is left alone. -/
  here : F t.current = id
  /-- So are the scopes still to be opened. -/
  later : ∀ i, t.scopes.size ≤ i → F i = id

namespace Retouches

theorem grows (hF : Retouches F t) (h : t.Grows t₁) : Retouches F t₁ :=
  ⟨hF.parent, hF.contains, h.current ▸ hF.here, fun i hi ↦ hF.later i (Nat.le_trans h.size hi)⟩

theorem opened (hF : Retouches F t) (kind : ScopeKind) (names : List String) :
    Retouches F (t.opened kind names) := by
  refine ⟨hF.parent, hF.contains, ?_, fun i hi ↦ ?_⟩
  · rw [current_opened]
    exact hF.later _ (Nat.le_refl _)
  · rw [size_opened] at hi
    exact hF.later i (Nat.le_of_succ_le hi)

/-- Once another scope is open, a declaration can be attached in the one around it. -/
theorem attaching (hF : Retouches F t) (hcurrent : t.current < t.scopes.size) (kind : ScopeKind)
    (names : List String) (name : String) (decl : FunctionDecl) :
    Retouches (fun i ↦ if i = t.current then attachIn name decl else F i)
      (t.opened kind names) := by
  refine ⟨fun i s ↦ ?_, fun i s other ↦ ?_, ?_, fun i hi ↦ ?_⟩
  · split
    · rfl
    · exact hF.parent i s
  · split
    · exact contains_attachIn s other
    · exact hF.contains i s other
  · rw [current_opened, if_neg (Nat.ne_of_gt hcurrent)]
    exact hF.later _ (Nat.le_refl _)
  · rw [size_opened] at hi
    have hle : t.scopes.size ≤ i := Nat.le_of_succ_le hi
    rw [if_neg (Nat.ne_of_gt (Nat.lt_of_lt_of_le hcurrent hle))]
    exact hF.later i hle

/-- What happens in the current scope commutes with a retouch. -/
theorem modify (hF : Retouches F t) (f : Scope → Scope) :
    mapped { t with scopes := t.scopes.modify t.current f } F =
      { t.mapped F with scopes := (t.mapped F).scopes.modify t.current f } := by
  rw [mapped, mapped]
  dsimp only
  congr 1
  refine Array.ext_getElem? fun i ↦ ?_
  rw [Array.getElem?_mapIdx, Array.getElem?_modify, Array.getElem?_modify, Array.getElem?_mapIdx]
  by_cases hi : t.current = i
  · subst hi
    rw [if_pos rfl, if_pos rfl, hF.here, Option.map_id]
    rfl
  · rw [if_neg hi, if_neg hi]

theorem define (hF : Retouches F t) (name : String) (kind : SymbolKind) :
    (t.define name kind).mapped F = (t.mapped F).define name kind := hF.modify _

theorem defineAliases (hF : Retouches F t) (target : String) (names : List String) :
    (names.foldl (fun t name ↦ t.defineAlias name target) t).mapped F =
      names.foldl (fun t name ↦ t.defineAlias name target) (t.mapped F) := by
  induction names generalizing t with
  | nil => rfl
  | cons name names ih =>
    have hnext : Retouches F (t.defineAlias name target) := hF.grows (.define name _)
    rw [List.foldl_cons, List.foldl_cons, ih hnext, defineAlias, hF.define name _]
    rfl

/-- Defining a function and attaching its declaration comes to the same as defining it with the
declaration. -/
theorem define_attaching (hF : Retouches F t) (hsorted : t.IsSorted) (name : String)
    (signature : Signature) (decl : FunctionDecl) :
    (t.define name (.function signature none)).mapped
        (fun i ↦ if i = t.current then attachIn name decl else F i) =
      (t.mapped F).define name (.function signature (some decl)) := by
  rw [SymbolTable.define, SymbolTable.define, mapped, mapped]
  dsimp only
  congr 1
  refine Array.ext_getElem? fun i ↦ ?_
  rw [Array.getElem?_mapIdx, Array.getElem?_modify, Array.getElem?_modify, Array.getElem?_mapIdx]
  by_cases hi : t.current = i
  · subst hi
    rw [if_pos rfl, if_pos rfl, if_pos rfl, hF.here, Option.map_id]
    cases hs : t.scopes[t.current]? with
    | none => rfl
    | some s => exact congrArg some (attachIn_insert (hsorted _ _ hs) signature _)
  · rw [if_neg hi, if_neg hi, if_neg (Ne.symm hi)]

/-- Attaching a declaration behind a retouch is part of a retouch. -/
theorem mapped_attach (hF : Retouches F t) (name : String) (decl : FunctionDecl) :
    mapped { t with scopes := t.scopes.modify t.current (attachIn name decl) } F =
      t.mapped fun i ↦ if i = t.current then attachIn name decl else F i := by
  rw [mapped, mapped]
  dsimp only
  congr 1
  refine Array.ext_getElem? fun i ↦ ?_
  rw [Array.getElem?_mapIdx, Array.getElem?_modify, Array.getElem?_mapIdx]
  by_cases hi : t.current = i
  · subst hi
    rw [if_pos rfl, if_pos rfl, hF.here, Option.map_id]
    rfl
  · rw [if_neg hi, if_neg (Ne.symm hi)]

theorem mapped_opened {kind : ScopeKind} {names : List String}
    (hF : Retouches F (t.opened kind names)) :
    (t.opened kind names).mapped F = (t.mapped F).opened kind names := by
  have hsize : F t.scopes.size = id := current_opened t kind names ▸ hF.here
  have hpush : (t.push kind).2.mapped F = ((t.mapped F).push kind).2 := by
    rw [push, push, mapped, mapped]
    dsimp only
    rw [Array.mapIdx_push, Array.size_mapIdx, hsize]
    rfl
  have hopened : Retouches F (t.push kind).2 := by
    refine ⟨hF.parent, hF.contains, hsize, fun i hi ↦ hF.later i ?_⟩
    rw [size_opened]
    rw [push, Array.size_push] at hi
    exact hi
  rw [SymbolTable.opened, SymbolTable.opened, ← hpush]
  generalize (t.push kind).2 = t at hopened
  clear hF hpush hsize
  induction names generalizing t with
  | nil => rfl
  | cons name names ih =>
    have hnext : Retouches F (t.defineVar name) := hopened.grows (.define name .var)
    rw [List.foldl_cons, List.foldl_cons, ih _ hnext, defineVar, hopened.define name .var]
    rfl

/-- Scopes are seen where they were before. -/
theorem outward (hF : Retouches F t) (fuel : Nat) (id : ScopeId) :
    (t.mapped F).outward fuel id = (t.outward fuel id).map fun (i, s) ↦ (i, F i s) := by
  induction fuel generalizing id with
  | zero => rfl
  | succ fuel ih =>
    rw [SymbolTable.outward, SymbolTable.outward, mapped, Array.getElem?_mapIdx]
    cases hs : t.scopes[id]? with
    | none => rfl
    | some s =>
      rw [Option.map_some]
      dsimp only
      rw [hF.parent]
      cases s.parent with
      | none => rfl
      | some parent => exact congrArg _ (ih parent)

/-- So are names. -/
theorem contains_mapped (hF : Retouches F t) (name : String) :
    (t.mapped F).contains name = t.contains name := by
  have hany (t : SymbolTable) :
      t.contains name = t.visible.any fun (_, s) ↦ s.contains name := by
    rw [SymbolTable.contains, symbol?, List.isSome_findSome?]
    rfl
  have hvisible : (t.mapped F).visible = t.visible.map fun (i, s) ↦ (i, F i s) := hF.outward _ _
  rw [hany, hany, hvisible, List.any_map]
  congr 1
  funext ⟨i, s⟩
  exact hF.contains i s name

end Retouches

end SymbolTable

end ScriptFront
