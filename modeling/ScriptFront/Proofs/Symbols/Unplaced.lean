import ScriptFront.Proofs.Symbols.Scopes
import ScriptFront.Proofs.Tree.Places

/-!
# Tables up to positions

A table of symbols holds the declarations of functions, and with them the positions of all nodes in
their bodies. Nothing that a parser asks of a table or does to it depends on these positions: every
question has the same answer when they are forgotten, and every change commutes with forgetting
them.
-/

namespace ScriptFront

/-! ## Forgetting positions -/

/-- The form with all positions forgotten. -/
def Form.unplaced (form : Form) : Form := form.relocate (fun _ ↦ .start) id

/-- The declaration with all positions forgotten. -/
def FunctionDecl.unplaced (decl : FunctionDecl) : FunctionDecl := decl.relocate (fun _ ↦ .start) id

/-- What a name stands for, with all positions forgotten. -/
def SymbolKind.unplaced : SymbolKind → SymbolKind
  | .function signature decl => .function signature (decl.map FunctionDecl.unplaced)
  | kind => kind

/-- The symbol with all positions forgotten. -/
def Symbol.unplaced (s : Symbol) : Symbol := { s with kind := s.kind.unplaced }

/-- The scope with all positions forgotten. -/
def Scope.unplaced (s : Scope) : Scope :=
  { s with symbols := s.symbols.map fun entry ↦ (entry.1, entry.2.unplaced) }

/-- The table with all positions forgotten. -/
def SymbolTable.unplaced (t : SymbolTable) : SymbolTable :=
  { t with scopes := t.scopes.map Scope.unplaced }

/-! ## One scope -/

namespace Scope

variable (s : Scope)

@[simp] theorem parent_unplaced : s.unplaced.parent = s.parent := rfl

theorem unplaced_empty (kind : ScopeKind) (parent : Option ScopeId) :
    (empty kind parent).unplaced = empty kind parent := rfl

theorem get?_unplaced (name : String) :
    s.unplaced.get? name = (s.get? name).map Symbol.unplaced := by
  obtain ⟨kind, parent, entries⟩ := s
  rw [get?, get?, unplaced]
  dsimp only
  induction entries with
  | nil => rfl
  | cons entry rest ih =>
    obtain ⟨key, symbol⟩ := entry
    rw [List.map_cons, lookup_cons_eq, lookup_cons_eq, ih]
    split <;> rfl

theorem contains_unplaced (name : String) : s.unplaced.contains name = s.contains name := by
  rw [contains, contains, get?_unplaced, Option.isSome_map]

theorem unplaced_insert (symbol : Symbol) :
    (s.insert symbol).unplaced = s.unplaced.insert symbol.unplaced := by
  obtain ⟨kind, parent, entries⟩ := s
  rw [insert, insert, unplaced, unplaced]
  congr 1
  dsimp only
  induction entries with
  | nil => rfl
  | cons entry rest ih =>
    obtain ⟨key, other⟩ := entry
    rw [List.map_cons, insertSorted, insertSorted, show symbol.unplaced.name = symbol.name from rfl]
    split
    · rfl
    split
    · rfl
    · exact congrArg _ ih

end Scope

namespace Symbol

theorem function?_unplaced (s : Symbol) : s.unplaced.function? = s.function? := by
  obtain ⟨name, kind, scope⟩ := s
  cases kind <;> rfl

end Symbol

namespace SymbolTable

variable (t : SymbolTable)

@[simp] theorem current_unplaced : t.unplaced.current = t.current := rfl

theorem getElem?_unplaced (id : ScopeId) :
    t.unplaced.scopes[id]? = (t.scopes[id]?).map Scope.unplaced :=
  Array.getElem?_map

/-! ## Changes -/

theorem push_unplaced (kind : ScopeKind) :
    t.unplaced.push kind = ((t.push kind).1, (t.push kind).2.unplaced) := by
  rw [push, push, unplaced, unplaced]
  simp [Scope.unplaced_empty]

theorem pop_unplaced :
    t.unplaced.pop = (t.pop).map fun popped ↦ (popped.1, popped.2.unplaced) := by
  rw [pop, pop, current_unplaced, getElem?_unplaced]
  cases t.scopes[t.current]? with
  | none => rfl
  | some s =>
    rw [Option.map_some, Option.bind_some, Option.bind_some, Scope.parent_unplaced]
    cases s.parent <;> rfl

theorem unplaced_modify (id : ScopeId) {f g : Scope → Scope}
    (h : ∀ s : Scope, (f s).unplaced = g s.unplaced) :
    unplaced { t with scopes := t.scopes.modify id f } =
      { t.unplaced with scopes := t.unplaced.scopes.modify id g } := by
  rw [unplaced, unplaced]
  congr 1
  refine Array.ext_getElem? fun i ↦ ?_
  simp only [Array.getElem?_map, Array.getElem?_modify]
  split
  · cases t.scopes[i]? with
    | none => rfl
    | some s => exact congrArg some (h s)
  · rfl

theorem unplaced_define (name : String) (kind : SymbolKind) :
    (t.define name kind).unplaced = t.unplaced.define name kind.unplaced :=
  t.unplaced_modify _ fun s ↦ s.unplaced_insert _

theorem unplaced_defineVar (name : String) :
    (t.defineVar name).unplaced = t.unplaced.defineVar name :=
  t.unplaced_define name .var

theorem unplaced_defineVars (names : List String) :
    (names.foldl defineVar t).unplaced = names.foldl defineVar t.unplaced := by
  induction names generalizing t with
  | nil => rfl
  | cons name names ih => rw [List.foldl_cons, List.foldl_cons, ih, unplaced_defineVar]

theorem unplaced_defineFunction (signature : Signature) :
    (t.defineFunction signature).unplaced = t.unplaced.defineFunction signature := by
  have haliases (names : List String) (t : SymbolTable) :
      (names.foldl (fun t name ↦ t.defineAlias name signature.name) t).unplaced =
        names.foldl (fun t name ↦ t.defineAlias name signature.name) t.unplaced := by
    induction names generalizing t with
    | nil => rfl
    | cons name names ih =>
      have hstep : (t.defineAlias name signature.name).unplaced =
          t.unplaced.defineAlias name signature.name := t.unplaced_define name _
      rw [List.foldl_cons, List.foldl_cons, ih, hstep]
  rw [defineFunction, defineFunction, unplaced_define, haliases]
  rfl

/-! ## Questions -/

theorem outward_unplaced (fuel : Nat) (id : ScopeId) :
    t.unplaced.outward fuel id = (t.outward fuel id).map fun entry ↦
      (entry.1, entry.2.unplaced) := by
  induction fuel generalizing id with
  | zero => rfl
  | succ fuel ih =>
    rw [outward, outward, getElem?_unplaced]
    cases t.scopes[id]? with
    | none => rfl
    | some s =>
      rw [Option.map_some]
      dsimp only
      rw [Scope.parent_unplaced]
      cases s.parent with
      | none => rfl
      | some parent => exact congrArg _ (ih parent)

theorem visible_unplaced :
    t.unplaced.visible = t.visible.map fun entry ↦ (entry.1, entry.2.unplaced) :=
  t.outward_unplaced _ _

theorem scopeOf?_unplaced (name : String) : t.unplaced.scopeOf? name = t.scopeOf? name := by
  rw [scopeOf?, scopeOf?, visible_unplaced, List.find?_map, Option.map_map]
  congr 1
  refine congrArg (List.find? · t.visible) (funext fun entry ↦ ?_)
  exact entry.2.contains_unplaced name

theorem symbol?_unplaced (name : String) :
    t.unplaced.symbol? name = (t.symbol? name).map Symbol.unplaced := by
  rw [symbol?, symbol?, visible_unplaced, List.findSome?_map, List.map_findSome?]
  refine congrArg (List.findSome? · t.visible) (funext fun entry ↦ ?_)
  exact entry.2.get?_unplaced name

theorem contains_unplaced (name : String) : t.unplaced.contains name = t.contains name := by
  rw [contains, contains, symbol?_unplaced, Option.isSome_map]

theorem isModule_unplaced (name : String) : t.unplaced.isModule name = t.isModule name := by
  rw [isModule, isModule, symbol?_unplaced]
  cases t.symbol? name with
  | none => rfl
  | some symbol =>
    obtain ⟨name, kind, scope⟩ := symbol
    cases kind <;> rfl

theorem wildcard?_unplaced (name : String) : t.unplaced.wildcard? name = t.wildcard? name := by
  rw [wildcard?, wildcard?, visible_unplaced, List.flatMap_map]
  have hentries (entry : ScopeId × Scope) : entry.2.unplaced.symbols =
      entry.2.symbols.map fun entry ↦ (entry.1, entry.2.unplaced) := rfl
  simp only [hentries, ← List.map_flatMap, List.findSome?_map]
  refine congrArg (List.findSome? · _) (funext fun entry ↦ ?_)
  exact congrArg (Option.filter _) entry.2.function?_unplaced

theorem function?_unplaced (name : String) : t.unplaced.function? name = t.function? name := by
  rw [function?, function?, symbol?_unplaced, wildcard?_unplaced]
  cases t.symbol? name with
  | none => rfl
  | some symbol =>
    obtain ⟨name, kind, scope⟩ := symbol
    rcases kind with _ | ⟨signature, decl⟩ | _ | target
    · rfl
    · rfl
    · rfl
    · -- the function that another name stands for
      change (t.unplaced.symbol? target).bind Symbol.function? =
        (t.symbol? target).bind Symbol.function?
      rw [symbol?_unplaced]
      cases t.symbol? target with
      | none => rfl
      | some symbol => exact symbol.function?_unplaced

theorem isFunction_unplaced (name : String) : t.unplaced.isFunction name = t.isFunction name := by
  rw [isFunction, isFunction, function?_unplaced]

/-! ## Declarations -/

theorem unplaced_attach (decl : FunctionDecl) (s : Symbol) :
    (attach decl s).unplaced = attach decl.unplaced s.unplaced := by
  obtain ⟨name, kind, scope⟩ := s
  cases kind <;> rfl

theorem unplaced_attachDecl (name : String) (decl : FunctionDecl) :
    (t.attachDecl name decl).unplaced = t.unplaced.attachDecl name decl.unplaced := by
  rw [attachDecl, attachDecl, scopeOf?_unplaced]
  cases t.scopeOf? name with
  | none => rfl
  | some id =>
    refine t.unplaced_modify id fun s ↦ ?_
    rw [Scope.unplaced, Scope.unplaced]
    congr 1
    rw [List.map_map, List.map_map]
    refine List.map_congr_left fun entry _ ↦ ?_
    dsimp only [Function.comp_apply]
    split
    · rw [unplaced_attach]
    · rfl

end SymbolTable

end ScriptFront
