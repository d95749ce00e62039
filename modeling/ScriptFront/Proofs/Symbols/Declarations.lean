import ScriptFront.Proofs.Symbols.Changes

/-!
# The declarations that names reach

The declaration of the function that a name reaches is looked up in two steps: first the function,
then its own name. The steps agree as long as the function's own name is found where the function
is. They need not agree for an extension of a name: a nearer scope may define another function under
the name of the one found, and if that does not admit extensions, the first step passes over it and
the second stops at it.

`SymbolTable.Declared` are the tables in which only functions of the current scope get declarations,
and only their own.
-/

namespace ScriptFront

/-- A scope has one entry for a name. -/
theorem Scope.IsSorted.get?_eq_of_mem {s : Scope} (h : s.IsSorted) {name : String} {symbol : Symbol}
    (hmem : (name, symbol) ∈ s.symbols) : s.get? name = some symbol := by
  obtain ⟨before, after, hsplit⟩ := List.append_of_mem hmem
  refine List.lookup_eq_some_iff.mpr ⟨before, after, hsplit, fun entry hentry ↦ ?_⟩
  rw [IsSorted, hsplit, List.pairwise_append] at h
  have hlt : entry.1 < name := h.2.2 entry hentry (name, symbol) List.mem_cons_self
  exact bne_iff_ne.mpr (Std.ne_of_lt hlt).symm

namespace SymbolTable

variable {t t' : SymbolTable} {name : String}

/-! ## Declared functions -/

/-- The current scope defines the name, and no other function under it than the one with this
signature. -/
def DefinesHere (t : SymbolTable) (name : String) (signature : Signature) : Prop :=
  ∃ s symbol, t.scopes[t.current]? = some s ∧ s.get? name = some symbol ∧
    ∀ other decl, symbol.kind = .function other decl → other = signature

/-- The tables in which declarations are attached to the functions they declare, in the scope that
defines them. -/
inductive Declared : SymbolTable → Prop
  | empty : Declared empty
  | push {t : SymbolTable} (h : Declared t) (kind : ScopeKind) : Declared (t.push kind).2
  | pop {t t' : SymbolTable} {outer : ScopeId} (h : Declared t) (hpop : t.pop = .ok (outer, t')) :
    Declared t'
  | defineVar {t : SymbolTable} (h : Declared t) (name : String) : Declared (t.defineVar name)
  | defineModule {t : SymbolTable} (h : Declared t) (name : String) : Declared (t.defineModule name)
  | defineFunction {t : SymbolTable} (h : Declared t) (signature : Signature) :
    Declared (t.defineFunction signature)
  | attachDecl {t : SymbolTable} (h : Declared t) {name : String} (decl : FunctionDecl)
    (hname : t.DefinesHere name decl.signature) : Declared (t.attachDecl name decl)

/-- A function that was just defined is the one its declaration can be attached to. -/
theorem definesHere_defineFunction (hcurrent : t.current < t.scopes.size) (signature : Signature) :
    (t.defineFunction signature).DefinesHere signature.name signature := by
  obtain ⟨s, hs, hget⟩ := exists_scope_defineFunction signature hcurrent
  rw [← (Grows.defineFunction (t := t) signature).current] at hs
  refine ⟨s, _, hs, hget, fun other decl hkind ↦ ?_⟩
  cases hkind
  rfl

/-- A declaration in an entry is one of the function there. -/
def DeclFits (_ : ScopeId) (entry : String × Symbol) : Prop :=
  ∀ signature decl, entry.2.kind = .function signature (some decl) → decl.signature = signature

namespace Declared

theorem wellFormed (h : t.Declared) : t.WellFormed := by
  induction h with
  | empty => exact wellFormed_empty
  | push _ kind ih => exact ih.push kind
  | pop _ hpop ih => exact ih.pop hpop
  | defineVar _ name ih => exact ih.define fun _ _ hkind ↦ by cases hkind
  | defineModule _ name ih => exact ih.define fun _ _ hkind ↦ by cases hkind
  | defineFunction _ signature ih => exact ih.defineFunction signature
  | attachDecl _ decl _ ih => exact ih.attachDecl _ decl

theorem isSorted (h : t.Declared) : t.IsSorted := by
  induction h with
  | empty => exact IsHost.empty.isSorted
  | push _ kind ih => exact ih.opened kind []
  | pop _ hpop ih => exact ih.pop hpop
  | defineVar _ name ih => exact ih.define name .var
  | defineModule _ name ih => exact ih.define name .hostModule
  | defineFunction _ signature ih => exact ih.defineFunction signature
  | attachDecl _ decl _ ih => exact ih.attachDecl _ decl

theorem declFits (h : t.Declared) : t.AllEntries DeclFits := by
  induction h with
  | empty => exact .empty
  | push _ kind ih => exact ih.push kind
  | pop _ hpop ih =>
    rw [SymbolTable.pop] at hpop
    split at hpop
    · cases hpop
    · cases hpop
      exact ih
  | defineVar _ name ih => exact ih.define fun _ _ hkind ↦ by cases hkind
  | defineModule _ name ih => exact ih.define fun _ _ hkind ↦ by cases hkind
  | defineFunction _ signature ih =>
    exact ih.defineFunction (fun _ _ hkind ↦ by cases hkind) fun _ _ _ hkind ↦ by cases hkind
  | @attachDecl _ htable name decl hname ih =>
    obtain ⟨s, symbol, hs, hget, hkind⟩ := hname
    rw [attachDecl_eq hs (Scope.contains_of_get? hget)]
    refine ih.modify fun s₀ hs₀ entry hentry ↦ ?_
    obtain rfl : s₀ = s := Option.some.inj (hs₀.symm.trans hs)
    obtain ⟨⟨key, old⟩, hmem, rfl⟩ := List.mem_map.mp hentry
    dsimp only
    by_cases hkey : key = name
    · -- the entry under the name is the one the table finds
      subst hkey
      have hold := (htable.isSorted _ _ hs).get?_eq_of_mem hmem
      obtain rfl : old = symbol := Option.some.inj (hold.symm.trans hget)
      intro signature new hnew
      rw [if_pos rfl, attach] at hnew
      split at hnew
      · have hsignature := hkind _ _ ‹_›
        cases hnew
        exact hsignature.symm
      · exact ih _ _ hs _ hmem signature new hnew
    · rw [if_neg hkey]
      exact ih _ _ hs _ hmem

end Declared

/-! ## The two steps -/

theorem EntryFits.name_eq {id : ScopeId} {entry : String × Symbol} {signature : Signature}
    (h : EntryFits id entry) (hfunction : entry.2.function? = some signature) :
    signature.name = entry.1 := by
  rw [Symbol.function?] at hfunction
  split at hfunction
  · cases hfunction
    exact h.signature _ _ ‹_›
  · cases hfunction

theorem AllEntries.exists_of_visible {P : ScopeId → String × Symbol → Prop} (h : t.AllEntries P)
    {seen : ScopeId × Scope} (hseen : seen ∈ t.visible) {entry : String × Symbol}
    (hentry : entry ∈ seen.2.symbols) : ∃ id, P id entry := by
  obtain ⟨i, hi, hs⟩ := Array.mem_iff_getElem.mp (mem_scopes_of_mem_outward hseen)
  exact ⟨i, h i seen.2 ((Array.getElem?_eq_getElem hi).trans (congrArg some hs)) entry hentry⟩

theorem AllEntries.exists_of_symbol? {P : ScopeId → String × Symbol → Prop} (h : t.AllEntries P)
    {symbol : Symbol} (hsymbol : t.symbol? name = some symbol) : ∃ id, P id (name, symbol) := by
  obtain ⟨seen, hseen, hget⟩ := List.exists_of_findSome?_eq_some hsymbol
  obtain ⟨before, after, hsplit, -⟩ := List.lookup_eq_some_iff.mp hget
  exact h.exists_of_visible hseen (hsplit ▸ List.mem_append_right _ List.mem_cons_self)

theorem WellFormed.name_eq_of_symbol? (h : t.WellFormed) {symbol : Symbol} {signature : Signature}
    (hsymbol : t.symbol? name = some symbol) (hfunction : symbol.function? = some signature) :
    signature.name = name := by
  obtain ⟨id, hfits⟩ := h.entries.exists_of_symbol? hsymbol
  exact hfits.name_eq hfunction

/-- The function that a defined name reaches is found again under its own name. -/
theorem WellFormed.symbol?_of_function? (h : t.WellFormed) {found : Signature}
    (hcontains : t.contains name = true) (hfound : t.function? name = some found) :
    ∃ symbol, t.symbol? found.name = some symbol ∧ symbol.function? = some found := by
  obtain ⟨symbol, hsymbol⟩ := Option.isSome_iff_exists.mp hcontains
  rw [function?, hsymbol] at hfound
  dsimp only at hfound
  split at hfound
  · rename_i signature decl hkind
    cases hfound
    have hfunction : symbol.function? = some found := by rw [Symbol.function?, hkind]
    exact ⟨symbol, (h.name_eq_of_symbol? hsymbol hfunction).symm ▸ hsymbol, hfunction⟩
  · rename_i target _
    obtain ⟨other, hother, hfunction⟩ := Option.bind_eq_some_iff.mp hfound
    exact ⟨other, (h.name_eq_of_symbol? hother hfunction).symm ▸ hother, hfunction⟩
  · cases hfound

/-- The function of an entry, if it answers to a name. -/
def answering (name : String) (entry : String × Symbol) : Option Signature :=
  entry.2.function?.filter (·.covers name)

/-- In the scope where a function answers to a name, the function is found under its own name. -/
theorem Declared.exists_get?_of_answering (h : t.Declared) {seen : ScopeId × Scope}
    (hseen : seen ∈ t.visible) {entry : String × Symbol} (hentry : entry ∈ seen.2.symbols)
    {found : Signature} (hanswer : answering name entry = some found) :
    ∃ symbol, seen.2.get? found.name = some symbol ∧ symbol.function? = some found := by
  have hfunction : entry.2.function? = some found := (Option.filter_eq_some_iff.mp hanswer).1
  obtain ⟨id, hfits⟩ := h.wellFormed.entries.exists_of_visible hseen hentry
  have hsorted : seen.2.IsSorted := by
    obtain ⟨i, hi, hs⟩ := Array.mem_iff_getElem.mp (mem_scopes_of_mem_outward hseen)
    exact h.isSorted i seen.2 ((Array.getElem?_eq_getElem hi).trans (congrArg some hs))
  refine ⟨entry.2, hsorted.get?_eq_of_mem ?_, hfunction⟩
  rw [hfits.name_eq hfunction]
  exact hentry

/-- The first function in sight that answers to a name is found under its own name, if what is found
there answers to the name as well. -/
theorem Declared.eq_of_covers (h : t.Declared) {found signature : Signature} {symbol : Symbol}
    (hfound : t.wildcard? name = some found) (hsymbol : t.symbol? found.name = some symbol)
    (hfunction : symbol.function? = some signature) (hcovers : signature.covers name = true) :
    found = signature := by
  obtain ⟨before, id, s, after, hsplit, hbefore, hget⟩ := symbol?_eq_some_iff.mp hsymbol
  have hfirst : (t.visible.flatMap (·.2.symbols)).findSome? (answering name) = some found := hfound
  rw [hsplit, List.flatMap_append, List.flatMap_cons, List.findSome?_append, List.findSome?_append]
    at hfirst
  -- a scope nearer than this one does not define the name of the function
  have hnear : (before.flatMap (·.2.symbols)).findSome? (answering name) = none := by
    rw [Option.eq_none_iff_forall_ne_some]
    intro nearest hnear
    rw [hnear] at hfirst
    cases hfirst
    obtain ⟨entry, hentry, hanswer⟩ := List.exists_of_findSome?_eq_some hnear
    obtain ⟨seen, hseen, hentry⟩ := List.mem_flatMap.mp hentry
    have hvisible : seen ∈ t.visible := hsplit ▸ List.mem_append_left _ hseen
    obtain ⟨other, hother, -⟩ := h.exists_get?_of_answering hvisible hentry hanswer
    exact nomatch (hbefore seen hseen).symm.trans (Scope.contains_of_get? hother)
  rw [hnear, Option.none_or] at hfirst
  cases hhere : s.symbols.findSome? (answering name) with
  | none =>
    obtain ⟨_, _, hentries, -⟩ := List.lookup_eq_some_iff.mp hget
    have hmem : (found.name, symbol) ∈ s.symbols :=
      hentries ▸ List.mem_append_right _ List.mem_cons_self
    have hanswer : answering name (found.name, symbol) = some signature :=
      Option.filter_eq_some_iff.mpr ⟨hfunction, hcovers⟩
    exact nomatch hanswer.symm.trans (List.findSome?_eq_none_iff.mp hhere _ hmem)
  | some first =>
    rw [hhere] at hfirst
    cases hfirst
    obtain ⟨entry, hentry, hanswer⟩ := List.exists_of_findSome?_eq_some hhere
    have hvisible : (id, s) ∈ t.visible := hsplit ▸ List.mem_append_right _ List.mem_cons_self
    obtain ⟨other, hother, hfunction'⟩ := h.exists_get?_of_answering hvisible hentry hanswer
    obtain rfl : other = symbol := Option.some.inj (hother.symm.trans hget)
    exact Option.some.inj (hfunction'.symm.trans hfunction)

/-- **Where the function and the declaration of a name agree.** When a name reaches a declaration,
this is the one of the function that the name reaches, exactly if the name is defined, or the
function that is declared answers to it. -/
theorem Declared.functionDecl?_agrees_iff (h : t.Declared) {decl : FunctionDecl}
    (hdecl : t.functionDecl? name = some decl) :
    t.function? name = some decl.signature ↔
      t.contains name = true ∨ decl.signature.covers name = true := by
  obtain ⟨found, hfound, symbol, hsymbol, hkind⟩ : ∃ found, t.function? name = some found ∧
      ∃ symbol, t.symbol? found.name = some symbol ∧
        ∃ signature, symbol.kind = .function signature (some decl) := by
    rw [functionDecl?] at hdecl
    split at hdecl
    · rename_i symbolName signature other scope hlookup
      cases hdecl
      obtain ⟨found, hfound, hsymbol⟩ := Option.bind_eq_some_iff.mp hlookup
      exact ⟨found, hfound, _, hsymbol, signature, rfl⟩
    · cases hdecl
  obtain ⟨signature, hkind⟩ := hkind
  have hfunction : symbol.function? = some signature := by rw [Symbol.function?, hkind]
  obtain ⟨_, hfits⟩ := h.declFits.exists_of_symbol? hsymbol
  rw [hfits signature decl hkind, hfound, Option.some_inj]
  by_cases hcontains : t.contains name = true
  · obtain ⟨other, hother, hfunction'⟩ := h.wellFormed.symbol?_of_function? hcontains hfound
    obtain rfl : other = symbol := Option.some.inj (hother.symm.trans hsymbol)
    exact iff_of_true (Option.some.inj (hfunction'.symm.trans hfunction)) (.inl hcontains)
  · rw [or_iff_right hcontains]
    have hnone : t.symbol? name = none := Option.not_isSome_iff_eq_none.mp hcontains
    rw [function?, hnone] at hfound
    refine ⟨?_, h.eq_of_covers hfound hsymbol hfunction⟩
    rintro rfl
    obtain ⟨entry, -, hanswer⟩ := List.exists_of_findSome?_eq_some hfound
    exact (Option.filter_eq_some_iff.mp hanswer).2

/-- A function that admits extensions of its name, and in a scope inside another function of that
name that does not, both with their declarations. -/
def overshadowed : SymbolTable :=
  let outer := (empty.defineFunction ⟨"find", [], [], true⟩).attachDecl "find"
    (.mk ⟨"find", [], [], true⟩ [] globalScope ⟨0, 0⟩)
  ((outer.push .block).2.defineFunction (.named "find")).attachDecl "find"
  (.mk (.named "find") [] 1 ⟨0, 0⟩)

theorem declared_overshadowed : overshadowed.Declared := by
  have houter : (empty.defineFunction ⟨"find", [], [], true⟩).Declared := .defineFunction .empty _
  have hattached := houter.attachDecl (.mk ⟨"find", [], [], true⟩ [] globalScope ⟨0, 0⟩)
    (definesHere_defineFunction Nat.one_pos _)
  have hpushed := hattached.push .block
  exact (hpushed.defineFunction (.named "find")).attachDecl (.mk (.named "find") [] 1 ⟨0, 0⟩)
    (definesHere_defineFunction hpushed.wellFormed.current _)

/-- The inner function is defined under its own name. -/
theorem functionDecl?_agrees_iff_sampleInner :
    overshadowed.functionDecl? "find" = some (.mk (.named "find") [] 1 ⟨0, 0⟩) ∧
      overshadowed.function? "find" = some (.named "find") := by
  have hdecl : overshadowed.functionDecl? "find" = some (.mk (.named "find") [] 1 ⟨0, 0⟩) := rfl
  exact ⟨hdecl, (declared_overshadowed.functionDecl?_agrees_iff hdecl).mpr (.inl (by decide))⟩

/-- The inner function does not answer to the extension, but its declaration is the one reached by
it. -/
theorem not_functionDecl?_agrees : ¬ ∀ (t : SymbolTable) (name : String) (decl : FunctionDecl),
    t.Declared →
    t.functionDecl? name = some decl → t.function? name = some decl.signature := by
  intro hagrees
  have h := hagrees overshadowed "finder" _ declared_overshadowed rfl
  exact absurd h (by decide)

end SymbolTable

end ScriptFront
