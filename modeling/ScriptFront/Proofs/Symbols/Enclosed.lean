import ScriptFront.Proofs.Symbols.Changes

/-!
# What inner scopes leave behind

A scope that has been left stays in the table with all its names, and so do those opened inside it.
They are out of sight nevertheless: nothing in them is found from outside, whether a name is looked
up directly, through an alias or as an extension of another name.

From one point to another at the same level a table grows (`SymbolTable.Grows`), and what grows
inside an opened scope leaves the scopes around it alone. All lookups go over the scopes in sight,
so that tables in which the same scopes are in sight agree on all names.
-/

namespace ScriptFront

namespace SymbolTable

variable {t t' : SymbolTable}

/-! ## Lookups see what is in sight -/

/-- Every name stands for the same in both tables. -/
structure SameNames (t t' : SymbolTable) : Prop where
  /-- Names are found alike. -/
  symbol? : ∀ name, t'.symbol? name = t.symbol? name
  /-- The same names are defined. -/
  contains : ∀ name, t'.contains name = t.contains name
  /-- The same names stand for variables. -/
  isVar : ∀ name, t'.isVar name = t.isVar name
  /-- The same names stand for modules. -/
  isModule : ∀ name, t'.isModule name = t.isModule name
  /-- The same functions are reached. -/
  function? : ∀ name, t'.function? name = t.function? name
  /-- They have the same declarations. -/
  functionDecl? : ∀ name, t'.functionDecl? name = t.functionDecl? name

theorem sameNames_of_visible (h : t'.visible = t.visible) : t.SameNames t' := by
  have hsymbol (name : String) : t'.symbol? name = t.symbol? name := by
    rw [SymbolTable.symbol?, h, SymbolTable.symbol?]
  have hwildcard (name : String) : t'.wildcard? name = t.wildcard? name := by
    rw [wildcard?, h, wildcard?]
  have hfunction (name : String) : t'.function? name = t.function? name := by
    simp only [SymbolTable.function?, hsymbol, hwildcard]
  refine ⟨hsymbol, fun name ↦ ?_, fun name ↦ ?_, fun name ↦ ?_, hfunction, fun name ↦ ?_⟩
  · rw [SymbolTable.contains, hsymbol, SymbolTable.contains]
  · rw [SymbolTable.isVar, hsymbol, SymbolTable.isVar]
  · rw [SymbolTable.isModule, hsymbol, SymbolTable.isModule]
  · simp only [SymbolTable.functionDecl?, hfunction, hsymbol]

theorem WellFormed.parent_lt (h : t.WellFormed) {id outer : ScopeId} {s : Scope}
    (hs : t.scopes[id]? = some s) (hparent : s.parent = some outer) : outer < id := by
  have hne : id ≠ globalScope := by
    rintro rfl
    obtain ⟨s₀, hs₀, hnone⟩ := h.global
    obtain rfl : s₀ = s := Option.some.inj (hs₀.symm.trans hs)
    exact nomatch hnone.symm.trans hparent
  obtain ⟨parent, hlt, hsome⟩ := h.parent id s hs hne
  obtain rfl : parent = outer := Option.some.inj (hsome.symm.trans hparent)
  exact hlt

/-- A walk outward goes to smaller numbers, so that it stays among the scopes that two tables
share. -/
theorem WellFormed.outward_eq (h : t.WellFormed) {id : ScopeId}
    (hscopes : ∀ i ≤ id, t'.scopes[i]? = t.scopes[i]?) (fuel : Nat) :
    t'.outward fuel id = t.outward fuel id := by
  induction fuel generalizing id with
  | zero => rfl
  | succ fuel ih =>
    cases hs : t.scopes[id]? with
    | none => rw [outward, outward, (hscopes id (Nat.le_refl _)).trans hs, hs]
    | some s =>
      rw [outward_succ hs, outward_succ ((hscopes id (Nat.le_refl _)).trans hs)]
      cases hparent : s.parent with
      | none => rfl
      | some outer =>
        have hle : outer ≤ id := Nat.le_of_lt (h.parent_lt hs hparent)
        exact congrArg _ (ih fun i hi ↦ hscopes i (Nat.le_trans hi hle))

theorem WellFormed.visible_eq_of_scopes (h : t.WellFormed) (hcurrent : t'.current = t.current)
    (hscopes : ∀ i < t.scopes.size, t'.scopes[i]? = t.scopes[i]?) : t'.visible = t.visible := by
  rw [visible, hcurrent, h.outward_eq (fun i hi ↦ hscopes i (Nat.lt_of_le_of_lt hi h.current)),
    visible]

/-! ## Changes that stay in their scope -/

/-- The change defines names. -/
inductive Change.IsDefinition : Change → Prop
  | defineVar (name : String) : IsDefinition (.defineVar name)
  | defineModule (name : String) : IsDefinition (.defineModule name)
  | defineAlias (name target : String) : IsDefinition (.defineAlias name target)
  | defineFunction (signature : Signature) : IsDefinition (.defineFunction signature)

/-- Definitions, and scopes that are left again. -/
inductive WellNested : List Change → Prop
  | nil : WellNested []
  | definition {change : Change} {rest : List Change} (hchange : change.IsDefinition)
    (hrest : WellNested rest) : WellNested (change :: rest)
  | scope (kind : ScopeKind) {inner rest : List Change} (hinner : WellNested inner)
    (hrest : WellNested rest) : WellNested (.push kind :: (inner ++ .pop :: rest))

/-- The table after several changes, if none is refused. -/
def performAll (t : SymbolTable) (changes : List Change) : Except Cause SymbolTable :=
  changes.foldlM perform t

theorem performAll_cons {change : Change} {rest : List Change} (h : t.perform change = .ok t') :
    t.performAll (change :: rest) = t'.performAll rest := by
  rw [performAll, List.foldlM_cons, h]
  rfl

theorem performAll_append {changes rest : List Change} (h : t.performAll changes = .ok t') :
    t.performAll (changes ++ rest) = t'.performAll rest := by
  rw [performAll] at h
  rw [performAll, List.foldlM_append, h]
  rfl

theorem Grows.perform {change : Change} (h : change.IsDefinition) :
    ∃ t', t.perform change = .ok t' ∧ t.Grows t' := by
  cases h with
  | defineVar name => exact ⟨_, rfl, .define name .var⟩
  | defineModule name => exact ⟨_, rfl, .define name .hostModule⟩
  | defineAlias name target => exact ⟨_, rfl, .define name (.alias target)⟩
  | defineFunction signature => exact ⟨_, rfl, .defineFunction signature⟩

/-- What happens in a scope that is opened and left again: nothing of it is refused, and the scope
that was current is so again. -/
theorem performAll_scope {kind : ScopeKind} {inner rest : List Change} {t₁ : SymbolTable}
    (hinner : (t.opened kind []).performAll inner = .ok t₁) (hgrows : (t.opened kind []).Grows t₁) :
    t.performAll (.push kind :: (inner ++ .pop :: rest)) =
    (t₁.backTo t.current).performAll rest := by
  have hpop : t₁.perform .pop = .ok (t₁.backTo t.current) := by
    rw [perform, hgrows.pop_inside]
    rfl
  have hpush : t.perform (.push kind) = .ok (t.opened kind []) := rfl
  rw [performAll_cons hpush, performAll_append hinner, performAll_cons hpop]

/-- Well-nested changes are not refused, and they stay in the current scope. -/
theorem WellNested.exists_grows {changes : List Change} (h : WellNested changes) (t : SymbolTable) :
    ∃ t', t.performAll changes = .ok t' ∧ t.Grows t' := by
  induction h generalizing t with
  | nil => exact ⟨t, rfl, .refl⟩
  | definition hchange _ ih =>
    obtain ⟨t₁, hperform, hgrows⟩ := Grows.perform (t := t) hchange
    obtain ⟨t₂, hrest, hgrows'⟩ := ih t₁
    exact ⟨t₂, (performAll_cons hperform).trans hrest, hgrows.trans hgrows'⟩
  | scope kind _ _ ihinner ihrest =>
    obtain ⟨t₁, hinner, hgrows⟩ := ihinner (t.opened kind [])
    obtain ⟨t₂, hrest, hgrows'⟩ := ihrest (t₁.backTo t.current)
    exact ⟨t₂, (performAll_scope hinner hgrows).trans hrest, hgrows.inside.trans hgrows'⟩

/-- **Inner scopes leave no trace.** Whatever table was reached: when a scope is entered, names are
defined in it and in scopes that are entered and left inside it, and it is left again, the current
scope is the one from before, no scope of the table has changed, and every name stands for what it
did. -/
theorem exists_performAll_enclosed (changes : List Change) (kind : ScopeKind) {inner : List Change}
    (hinner : WellNested inner) :
    ∃ t', (changed changes).performAll (.push kind :: (inner ++ [.pop])) = .ok t' ∧
      t'.current = (changed changes).current ∧
      (∀ i < (changed changes).scopes.size, t'.scopes[i]? = (changed changes).scopes[i]?) ∧
      (changed changes).SameNames t' := by
  have hwf : (changed changes).WellFormed := .changed changes
  generalize changed changes = t at hwf
  obtain ⟨t₁, hperform, hgrows⟩ := hinner.exists_grows (t.opened kind [])
  have hscopes : ∀ i < t.scopes.size, (t₁.backTo t.current).scopes[i]? = t.scopes[i]? :=
    fun i hi ↦ hgrows.getElem?_inside hi
  exact ⟨t₁.backTo t.current, performAll_scope hperform hgrows, rfl, hscopes,
    sameNames_of_visible (hwf.visible_eq_of_scopes rfl hscopes)⟩

/-- A function is shadowed, and a wildcard defined, in a scope that is left. -/
theorem exists_performAll_enclosed_sampleShadow :
    WellNested [.defineVar "f", .push .block, .defineFunction ⟨"g", [], ["f"], true⟩, .pop] ∧
      ∃ t', (changed [.defineFunction (.named "f")]).performAll
          [.push .function, .defineVar "f", .push .block,
            .defineFunction ⟨"g", [], ["f"], true⟩, .pop, .pop] = .ok t' ∧
        t'.function? "f" = some (.named "f") ∧ t'.function? "gap" = none := by
  have hinner : WellNested
      [.defineVar "f", .push .block, .defineFunction ⟨"g", [], ["f"], true⟩, .pop] :=
    .definition (.defineVar "f") (.scope .block (.definition (.defineFunction _) .nil) .nil)
  obtain ⟨t', hperform, -, -, hnames⟩ :=
    exists_performAll_enclosed [.defineFunction (.named "f")] .function hinner
  refine ⟨hinner, t', hperform, ?_, ?_⟩
  · rw [hnames.function?]
    decide
  · rw [hnames.function?]
    decide

end SymbolTable

end ScriptFront
