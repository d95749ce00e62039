import ScriptFront.Parse.Basic
import ScriptFront.Proofs.Computation
import ScriptFront.Proofs.Symbols.Retouched

/-!
# What all tables of symbols have in common

A table starts with an empty global scope. From then on scopes are entered and left, names are
defined, and declarations are attached, in any order; leaving the global scope is refused.
`SymbolTable.WellFormed` is what all tables reached in this way have in common. It is kept by every
single change, and so by any number of them.

Walks outward are defined with a bound on their length. `SymbolTable.ParentChain` is the chain of
parents without a bound. A parent has a smaller number than its child, so that in a well-formed
table the chain exists, ends at the global scope, and is what a walk goes along.
-/

namespace ScriptFront

namespace SymbolTable

variable {t t' : SymbolTable}

/-! ## Changes -/

/-- A change to a table of symbols. -/
inductive Change where
  /-- A scope is entered. -/
  | push (kind : ScopeKind)
  /-- The current scope is left. -/
  | pop
  /-- A variable is defined. -/
  | defineVar (name : String)
  /-- A module of the host is defined. -/
  | defineModule (name : String)
  /-- Another name for `target` is defined. -/
  | defineAlias (name target : String)
  /-- A function is defined, with its aliases. -/
  | defineFunction (signature : Signature)
  /-- A declaration is attached to the nearest function of that name. -/
  | attachDecl (name : String) (decl : FunctionDecl)

/-- The table after a change. Leaving a scope can be refused. -/
def perform (t : SymbolTable) : Change → Except Cause SymbolTable
  | .push kind => .ok (t.push kind).2
  | .pop => t.pop.map (·.2)
  | .defineVar name => .ok (t.defineVar name)
  | .defineModule name => .ok (t.defineModule name)
  | .defineAlias name target => .ok (t.defineAlias name target)
  | .defineFunction signature => .ok (t.defineFunction signature)
  | .attachDecl name decl => .ok (t.attachDecl name decl)

/-- The table after an attempt at a change. -/
def after (t : SymbolTable) (change : Change) : SymbolTable := (t.perform change).toOption.getD t

/-- The table that some changes lead to, one after the other. -/
def changed (changes : List Change) : SymbolTable := changes.foldl after empty

/-- What holds at first and is kept by every change that is not refused holds in the end. -/
theorem changed_induction {P : SymbolTable → Prop} (hempty : P empty)
    (hperform : ∀ t change t', P t → t.perform change = .ok t' → P t') (changes : List Change) :
    P (changed changes) := by
  have hafter (t : SymbolTable) (change : Change) (ht : P t) : P (t.after change) := by
    rw [after]
    cases hchange : t.perform change with
    | ok t' => exact hperform t change t' ht hchange
    | error cause => exact ht
  rw [changed]
  generalize empty = t at hempty
  induction changes generalizing t with
  | nil => exact hempty
  | cons change changes ih => exact ih (t.after change) (hafter t change hempty)

/-! ## Entries -/

/-- All entries have a property, which may depend on the number of their scope. -/
def AllEntries (P : ScopeId → String × Symbol → Prop) (t : SymbolTable) : Prop :=
  ∀ i s, t.scopes[i]? = some s → ∀ entry ∈ s.symbols, P i entry

theorem getElem?_push {kind : ScopeKind} {i : ScopeId} {s : Scope}
    (hs : (t.push kind).2.scopes[i]? = some s) :
    (i = t.scopes.size ∧ s = .empty kind (some t.current)) ∨ t.scopes[i]? = some s := by
  rw [push, Array.getElem?_push] at hs
  split at hs
  · exact .inl ⟨‹_›, (Option.some.inj hs).symm⟩
  · exact .inr hs

namespace AllEntries

variable {P : ScopeId → String × Symbol → Prop}

theorem empty : empty.AllEntries P := by
  intro i s hs
  obtain ⟨hi, rfl⟩ := Array.getElem?_eq_some_iff.mp hs
  obtain rfl : i = 0 := Nat.lt_one_iff.mp hi
  exact fun _ hentry ↦ by cases hentry

theorem push (h : t.AllEntries P) (kind : ScopeKind) : (t.push kind).2.AllEntries P := by
  intro i s hs
  rcases getElem?_push hs with ⟨-, rfl⟩ | hs
  · exact fun _ hentry ↦ by cases hentry
  · exact h i s hs

theorem modify (h : t.AllEntries P) {id : ScopeId} {f : Scope → Scope}
    (hf : ∀ s, t.scopes[id]? = some s → ∀ entry ∈ (f s).symbols, P id entry) :
    AllEntries P { t with scopes := t.scopes.modify id f } := by
  intro i s hs
  rw [Array.getElem?_modify] at hs
  split at hs
  · subst_vars
    obtain ⟨s₀, hs₀, rfl⟩ := Option.map_eq_some_iff.mp hs
    exact hf s₀ hs₀
  · exact h i s hs

theorem define (h : t.AllEntries P) {name : String} {kind : SymbolKind}
    (hnew : P t.current (name, ⟨name, kind, t.current⟩)) : (t.define name kind).AllEntries P := by
  refine h.modify fun s hs entry hentry ↦ ?_
  rcases Scope.mem_insertSorted hentry with rfl | hentry
  · exact hnew
  · exact h _ s hs entry hentry

theorem defineFunction (h : t.AllEntries P) {signature : Signature}
    (hname : P t.current (signature.name, ⟨signature.name, .function signature none, t.current⟩))
    (haliases : ∀ name, P t.current (name, ⟨name, .alias signature.name, t.current⟩)) :
    (t.defineFunction signature).AllEntries P := by
  rw [SymbolTable.defineFunction]
  generalize signature.aliases = names
  induction names generalizing t with
  | nil => exact h.define hname
  | cons name names ih => exact ih (h.define (haliases name)) hname haliases

end AllEntries

/-! ## Well-formed tables -/

/-- An entry of the scope with number `id` is about itself: its symbol has the name it is found
under and the scope it is in, and so does the signature of a function. -/
structure EntryFits (id : ScopeId) (entry : String × Symbol) : Prop where
  /-- The symbol has the name. -/
  name : entry.2.name = entry.1
  /-- The symbol is defined in the scope. -/
  scope : entry.2.scope = id
  /-- A function has the name. -/
  signature : ∀ signature decl, entry.2.kind = .function signature decl → signature.name = entry.1

/-- What the tables have in common that changes lead to. -/
structure WellFormed (t : SymbolTable) : Prop where
  /-- There is a current scope. -/
  current : t.current < t.scopes.size
  /-- The global scope is in no other. -/
  global : ∃ s, t.scopes[globalScope]? = some s ∧ s.parent = none
  /-- Every other scope is in one that was opened before it. -/
  parent : ∀ i s, t.scopes[i]? = some s → i ≠ globalScope → ∃ outer < i, s.parent = some outer
  /-- All entries are where they belong. -/
  entries : t.AllEntries EntryFits

theorem wellFormed_empty : empty.WellFormed := by
  refine ⟨Nat.one_pos, ⟨.empty .global none, rfl, rfl⟩, fun i s hs hne ↦ ?_, .empty⟩
  have hi : i < 1 := (Array.getElem?_eq_some_iff.mp hs).choose
  exact absurd (Nat.lt_one_iff.mp hi) hne

namespace WellFormed

theorem push (h : t.WellFormed) (kind : ScopeKind) : (t.push kind).2.WellFormed := by
  refine ⟨?_, ?_, fun i s hs hne ↦ ?_, h.entries.push kind⟩
  · rw [SymbolTable.push, Array.size_push]
    exact Nat.lt_succ_self _
  · obtain ⟨s, hs, hparent⟩ := h.global
    have hi : globalScope < t.scopes.size := (Array.getElem?_eq_some_iff.mp hs).choose
    have hopened : (t.opened kind []).scopes[globalScope]? = t.scopes[globalScope]? :=
      getElem?_opened hi
    exact ⟨s, hopened.trans hs, hparent⟩
  · rcases getElem?_push hs with ⟨rfl, rfl⟩ | hs
    · exact ⟨t.current, h.current, rfl⟩
    · exact h.parent i s hs hne

/-- Leaving a scope is refused at the global scope only. -/
theorem pop_eq (h : t.WellFormed) :
    (t.current = globalScope ∧ t.pop = .error .scopeUnderflow) ∨
      ∃ outer < t.current, t.pop = .ok (outer, t.backTo outer) := by
  rw [SymbolTable.pop]
  by_cases hcurrent : t.current = globalScope
  · obtain ⟨s, hs, hparent⟩ := h.global
    refine .inl ⟨hcurrent, ?_⟩
    rw [hcurrent, hs, Option.bind_some, hparent]
  · obtain ⟨s, hs⟩ : ∃ s, t.scopes[t.current]? = some s := ⟨_, Array.getElem?_eq_getElem h.current⟩
    obtain ⟨outer, hlt, hparent⟩ := h.parent _ _ hs hcurrent
    refine .inr ⟨outer, hlt, ?_⟩
    rw [hs, Option.bind_some, hparent]
    rfl

theorem backTo (h : t.WellFormed) {scope : ScopeId} (hlt : scope < t.scopes.size) :
    (t.backTo scope).WellFormed := ⟨hlt, h.global, h.parent, h.entries⟩

theorem pop {outer : ScopeId} (h : t.WellFormed) (hpop : t.pop = .ok (outer, t')) :
    t'.WellFormed := by
  rcases h.pop_eq with ⟨-, herror⟩ | ⟨scope, hlt, hok⟩
  · rw [herror] at hpop
    cases hpop
  · rw [hok] at hpop
    cases hpop
    exact h.backTo (Nat.lt_trans hlt h.current)

/-- A change to one scope that keeps its parent. -/
theorem modify (h : t.WellFormed) {id : ScopeId} {f : Scope → Scope}
    (hparent : ∀ s, (f s).parent = s.parent)
    (hentries : AllEntries EntryFits { t with scopes := t.scopes.modify id f }) :
    WellFormed { t with scopes := t.scopes.modify id f } := by
  refine ⟨?_, ?_, fun i s hs hne ↦ ?_, hentries⟩
  · rw [Array.size_modify]
    exact h.current
  · obtain ⟨s, hs, hnone⟩ := h.global
    dsimp only
    rw [Array.getElem?_modify, hs]
    split
    · exact ⟨f s, rfl, (hparent s).trans hnone⟩
    · exact ⟨s, rfl, hnone⟩
  · dsimp only at hs
    rw [Array.getElem?_modify] at hs
    split at hs
    · obtain ⟨s₀, hs₀, rfl⟩ := Option.map_eq_some_iff.mp hs
      rw [hparent]
      exact h.parent i s₀ hs₀ hne
    · exact h.parent i s hs hne

theorem define (h : t.WellFormed) {name : String} {kind : SymbolKind}
    (hkind : ∀ signature decl, kind = .function signature decl → signature.name = name) :
    (t.define name kind).WellFormed :=
  h.modify (fun _ ↦ rfl) (h.entries.define ⟨rfl, rfl, hkind⟩)

theorem defineFunction (h : t.WellFormed) (signature : Signature) :
    (t.defineFunction signature).WellFormed := by
  rw [SymbolTable.defineFunction]
  generalize signature.aliases = names
  induction names generalizing t with
  | nil =>
    refine h.define fun other decl hkind ↦ ?_
    cases hkind
    rfl
  | cons name names ih => exact ih (h.define fun _ _ hkind ↦ by cases hkind)

/-- A declaration is attached to a function without another name for it. -/
theorem attachDecl (h : t.WellFormed) (name : String) (decl : FunctionDecl) :
    (t.attachDecl name decl).WellFormed := by
  rw [SymbolTable.attachDecl]
  split
  · exact h
  · refine h.modify (fun _ ↦ rfl) (h.entries.modify fun s hs entry hentry ↦ ?_)
    obtain ⟨⟨key, symbol⟩, hmem, rfl⟩ := List.mem_map.mp hentry
    have hfits := h.entries _ s hs _ hmem
    dsimp only
    split
    · rw [attach]
      split
      · rename_i signature old hkind
        refine ⟨hfits.name, hfits.scope, fun other new hnew ↦ ?_⟩
        cases hnew
        exact hfits.signature signature old hkind
      · exact hfits
    · exact hfits

theorem perform (h : t.WellFormed) {change : Change} (hchange : t.perform change = .ok t') :
    t'.WellFormed := by
  cases change with
  | push kind =>
    cases hchange
    exact h.push kind
  | pop =>
    rw [SymbolTable.perform] at hchange
    cases hpop : t.pop with
    | error cause => exact nomatch hpop ▸ hchange
    | ok found =>
      rw [hpop] at hchange
      cases hchange
      exact h.pop hpop
  | defineVar name =>
    cases hchange
    exact h.define fun _ _ hkind ↦ by cases hkind
  | defineModule name =>
    cases hchange
    exact h.define fun _ _ hkind ↦ by cases hkind
  | defineAlias name target =>
    cases hchange
    exact h.define fun _ _ hkind ↦ by cases hkind
  | defineFunction signature =>
    cases hchange
    exact h.defineFunction signature
  | attachDecl name decl =>
    cases hchange
    exact h.attachDecl name decl

theorem changed (changes : List Change) : (changed changes).WellFormed :=
  changed_induction wellFormed_empty (fun _ _ _ h ↦ h.perform) changes

end WellFormed

/-! ## Walks outward -/

/-- The scopes from `id` outward along the parents, up to one that is in no other. -/
inductive ParentChain (t : SymbolTable) : ScopeId → List (ScopeId × Scope) → Prop
  | outermost {id : ScopeId} {s : Scope} (hs : t.scopes[id]? = some s) (hparent : s.parent = none) :
    ParentChain t id [(id, s)]
  | inside {id outer : ScopeId} {s : Scope} {chain : List (ScopeId × Scope)}
    (hs : t.scopes[id]? = some s) (hparent : s.parent = some outer)
    (hrest : ParentChain t outer chain) :
    ParentChain t id ((id, s) :: chain)

namespace ParentChain

variable {id : ScopeId} {chain : List (ScopeId × Scope)}

theorem ne_nil (h : t.ParentChain id chain) : chain ≠ [] := by
  cases h <;> exact List.cons_ne_nil _ _

/-- In a well-formed table, the chain ends at the global scope. -/
theorem getLast?_eq (h : t.ParentChain id chain) (hwf : t.WellFormed) :
    ∃ s, chain.getLast? = some (globalScope, s) := by
  induction h with
  | @outermost id s hs hparent =>
    by_cases hid : id = globalScope
    · exact ⟨s, hid ▸ rfl⟩
    · obtain ⟨outer, -, hsome⟩ := hwf.parent id s hs hid
      exact nomatch hsome.symm.trans hparent
  | inside _ _ hrest ih =>
    obtain ⟨s, hlast⟩ := ih
    exact ⟨s, by rw [List.getLast?_cons_of_ne_nil hrest.ne_nil, hlast]⟩

end ParentChain

theorem outward_succ {id : ScopeId} {s : Scope} {fuel : Nat} (hs : t.scopes[id]? = some s) :
    t.outward (fuel + 1) id =
      (id, s) :: match s.parent with
        | none => []
        | some outer => t.outward fuel outer := by
  cases hparent : s.parent <;> simp [outward, hs, hparent]

/-- From any scope a walk outward goes along the parents, however much further it might go. -/
theorem WellFormed.exists_chain (h : t.WellFormed) {id : ScopeId} (hid : id < t.scopes.size) :
    ∃ chain, t.ParentChain id chain ∧ ∀ fuel, id < fuel → t.outward fuel id = chain := by
  induction id using Nat.strongRecOn with
  | ind id ih =>
    obtain ⟨s, hs⟩ : ∃ s, t.scopes[id]? = some s := ⟨_, Array.getElem?_eq_getElem hid⟩
    by_cases hglobal : id = globalScope
    · obtain ⟨s₀, hs₀, hparent⟩ := h.global
      obtain rfl : s₀ = s := Option.some.inj (hs₀.symm.trans (hglobal ▸ hs))
      refine ⟨[(id, s₀)], .outermost hs hparent, fun fuel hlt ↦ ?_⟩
      obtain ⟨fuel, rfl⟩ := Nat.exists_eq_succ_of_ne_zero (Nat.ne_of_gt (Nat.zero_lt_of_lt hlt))
      rw [outward_succ hs, hparent]
    · obtain ⟨outer, hlt, hparent⟩ := h.parent id s hs hglobal
      obtain ⟨chain, hchain, houtward⟩ := ih outer hlt (Nat.lt_trans hlt hid)
      refine ⟨(id, s) :: chain, .inside hs hparent hchain, fun fuel hfuel ↦ ?_⟩
      obtain ⟨fuel, rfl⟩ := Nat.exists_eq_succ_of_ne_zero (Nat.ne_of_gt (Nat.zero_lt_of_lt hfuel))
      rw [outward_succ hs, hparent]
      exact congrArg _ (houtward fuel (Nat.lt_of_lt_of_le hlt (Nat.le_of_lt_succ hfuel)))

theorem WellFormed.chain_visible (h : t.WellFormed) : t.ParentChain t.current t.visible := by
  obtain ⟨chain, hchain, houtward⟩ := h.exists_chain h.current
  rw [visible, houtward _ (Nat.lt_succ_self _)]
  exact hchain

/-- The symbol under a name in the first of some scopes that defines it. -/
def FirstIn (chain : List (ScopeId × Scope)) (name : String) (symbol : Symbol) : Prop :=
  ∃ before id s after, chain = before ++ (id, s) :: after ∧
    (∀ nearer ∈ before, nearer.2.contains name = false) ∧ s.get? name = some symbol

theorem symbol?_eq_some_iff {name : String} {symbol : Symbol} :
    t.symbol? name = some symbol ↔ FirstIn t.visible name symbol := by
  rw [symbol?, List.findSome?_eq_some_iff]
  constructor
  · rintro ⟨before, ⟨id, s⟩, after, hsplit, hget, hbefore⟩
    refine ⟨before, id, s, after, hsplit, fun nearer hnearer ↦ ?_, hget⟩
    have hnone : nearer.2.get? name = none := hbefore nearer hnearer
    rw [Scope.contains, hnone]
    rfl
  · rintro ⟨before, id, s, after, hsplit, hbefore, hget⟩
    refine ⟨before, (id, s), after, hsplit, hget, fun nearer hnearer ↦ ?_⟩
    exact Option.isNone_iff_eq_none.mp (Option.isSome_eq_false_iff.mp (hbefore nearer hnearer))

/-- **Every table that changes lead to is well-formed.** Whatever the changes are, with attempts to
leave the global scope among them: the current scope exists, parents have smaller numbers, entries
belong to where they are. Leaving a scope fails at the global scope only, and then changes nothing.
The walk outward from the current scope is the chain of its parents up to the global scope, the
depth counts the scopes on it, and a name stands for the entry of the first scope on it that has
one. -/
theorem wellFormed_changed (changes : List Change) :
    let t := changed changes
    t.WellFormed ∧
      (∀ cause, t.pop = .error cause ↔ t.current = globalScope ∧ cause = .scopeUnderflow) ∧
      (t.current = globalScope → t.after .pop = t ∧ ∀ s : ParserState, s.symbols = t →
        ∃ e, Parse.popScope s = .error e s ∧ e.cause = .scopeUnderflow) ∧
      ∃ chain, t.ParentChain t.current chain ∧ (∃ s, chain.getLast? = some (globalScope, s)) ∧
        t.visible = chain ∧ t.depth + 1 = chain.length ∧
        ∀ name symbol, t.symbol? name = some symbol ↔ FirstIn chain name symbol := by
  intro t
  have hwf : t.WellFormed := .changed changes
  have herror : t.current = globalScope → t.pop = .error .scopeUnderflow := by
    intro hcurrent
    rcases hwf.pop_eq with ⟨-, herror⟩ | ⟨outer, hlt, -⟩
    · exact herror
    · exact absurd hlt (hcurrent ▸ Nat.not_lt_zero outer)
  refine ⟨hwf, fun cause ↦ ⟨fun hpop ↦ ?_, ?_⟩, fun hcurrent ↦ ⟨?_, fun s hs ↦ ?_⟩, ?_⟩
  · rcases hwf.pop_eq with ⟨hcurrent, hunderflow⟩ | ⟨outer, -, hok⟩
    · exact ⟨hcurrent, Except.error.inj (hpop.symm.trans hunderflow)⟩
    · exact nomatch hok.symm.trans hpop
  · rintro ⟨hcurrent, rfl⟩
    exact herror hcurrent
  · rw [after, perform, herror hcurrent]
    rfl
  · rw [Parse.popScope, get_bind_run, hs, herror hcurrent]
    exact ⟨_, rfl, rfl⟩
  · have hchain := hwf.chain_visible
    refine ⟨t.visible, hchain, hchain.getLast?_eq hwf, rfl, ?_, fun _ _ ↦ symbol?_eq_some_iff⟩
    rw [depth, Nat.sub_add_cancel (List.length_pos_iff.mpr hchain.ne_nil)]

end SymbolTable

end ScriptFront
