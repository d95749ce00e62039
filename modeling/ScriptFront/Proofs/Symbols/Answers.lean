import Mathlib.Data.List.Induction
import ScriptFront.Proofs.Symbols.Declarations
import ScriptFront.Proofs.Symbols.Enclosed

/-!
# Functions that answer to the names they are reached by

The other names of a function are kept twice: its signature lists them, and each of them is an entry
of its own, which holds no more than the name of the function. What such an entry leads to is
whatever function bears that name when it is looked up. So a name may lead to a function that does
not list it.

`SymbolTable.Misleads` are the changes that bring such a name about: a function is defined under the
name that an entry in sight leads to, and does not list the name of the entry, or another name is
defined for a function that does not list it. `SymbolTable.answers_changed_iff` says that these are
all. Leaving a scope brings back what was in sight around it, so the invariant that shows this is
about all scopes in sight, from each of them outward.
-/

namespace ScriptFront

/-- The name that a symbol is another name for. -/
def Symbol.alias? (s : Symbol) : Option String :=
  match s.kind with
  | .alias target => some target
  | _ => none

theorem Signature.covers_name (signature : Signature) : signature.covers signature.name = true := by
  simp [covers]

theorem Signature.covers_of_mem_aliases {signature : Signature} {name : String}
    (h : name ∈ signature.aliases) : signature.covers name = true := by
  simp [covers, h]

namespace SymbolTable

variable {t t' : SymbolTable} {name target : String} {signature : Signature}

/-- Every name that reaches a function is one that the function answers to. -/
def Answers (t : SymbolTable) : Prop :=
  ∀ name signature, t.function? name = some signature → signature.covers name = true

/-- The name is another name for `target`. -/
def AliasOf (t : SymbolTable) (name target : String) : Prop :=
  (t.symbol? name).bind Symbol.alias? = some target

/-- The change makes a name lead to a function that does not answer to it. -/
def Misleads (t : SymbolTable) : Change → Prop
  | .defineFunction signature =>
    ∃ name, t.AliasOf name signature.name ∧ signature.covers name = false
  | .defineAlias name target => name ≠ target ∧
    ∃ signature, (t.symbol? target).bind Symbol.function? = some signature ∧
    signature.covers name = false
  | _ => False

/-! ## What a name reaches -/

theorem function?_of_aliasOf (h : t.AliasOf name target) :
    t.function? name = (t.symbol? target).bind Symbol.function? := by
  obtain ⟨symbol, hsymbol, halias⟩ := Option.bind_eq_some_iff.mp h
  rw [Symbol.alias?] at halias
  split at halias
  · rename_i hkind
    cases halias
    simp only [function?, hsymbol, hkind]
  · cases halias

/-- A function that does not answer to the name it is reached by is reached by another name for
it. -/
theorem WellFormed.covers_or_aliasOf (h : t.WellFormed)
    (hfound : t.function? name = some signature) :
    signature.covers name = true ∨
      t.AliasOf name signature.name ∧ (t.symbol? signature.name).bind Symbol.function? =
      some signature := by
  rw [function?] at hfound
  split at hfound
  · rename_i symbol hsymbol
    split at hfound
    · rename_i found decl hkind
      cases hfound
      have hname : signature.name = name :=
        h.name_eq_of_symbol? hsymbol (by rw [Symbol.function?, hkind])
      exact .inl (hname ▸ signature.covers_name)
    · rename_i target hkind
      obtain ⟨other, hother, hfunction⟩ := Option.bind_eq_some_iff.mp hfound
      obtain rfl : signature.name = target := h.name_eq_of_symbol? hother hfunction
      refine .inr ⟨?_, hfound⟩
      rw [AliasOf, hsymbol, Option.bind_some, Symbol.alias?, hkind]
    · cases hfound
  · obtain ⟨entry, -, hanswer⟩ := List.exists_of_findSome?_eq_some hfound
    exact .inl (Option.filter_eq_some_iff.mp hanswer).2

/-- With these names defined, a function answers to all other names for it. -/
def AliasesFit (find : String → Option Symbol) : Prop :=
  ∀ name target signature, (find name).bind Symbol.alias? = some target →
    (find target).bind Symbol.function? = some signature → signature.covers name = true

theorem WellFormed.answers_iff (h : t.WellFormed) : t.Answers ↔ AliasesFit t.symbol? := by
  constructor
  · intro hanswers name target signature halias hfunction
    exact hanswers name signature ((function?_of_aliasOf halias).trans hfunction)
  · intro hfit name signature hfound
    rcases h.covers_or_aliasOf hfound with hcovers | ⟨halias, hfunction⟩
    · exact hcovers
    · exact hfit name signature.name signature halias hfunction

/-! ## What is in sight after a change -/

/-- The scopes around the current one, from the nearest outward. -/
def around (t : SymbolTable) : List (ScopeId × Scope) := t.visible.tail

theorem visible_eq_cons {s : Scope} (hs : t.scopes[t.current]? = some s) :
    t.visible = (t.current, s) :: t.around := by
  obtain ⟨more, hmore⟩ := visible_eq hs
  rw [around, hmore, List.tail_cons]

theorem around_eq {s : Scope} (hs : t.scopes[t.current]? = some s) :
    t.around = match s.parent with
      | none => []
      | some outer => t.outward t.current outer := congrArg List.tail (outward_succ hs)

theorem WellFormed.outward_current (h : t.WellFormed) {fuel : Nat} (hfuel : t.current < fuel) :
    t.outward fuel t.current = t.visible := by
  obtain ⟨chain, -, houtward⟩ := h.exists_chain h.current
  rw [houtward fuel hfuel, visible, houtward _ (Nat.lt_succ_self _)]

theorem WellFormed.visible_push (h : t.WellFormed) (kind : ScopeKind) :
    (t.push kind).2.visible = (t.scopes.size, .empty kind (some t.current)) :: t.visible := by
  have hs :
      (t.push kind).2.scopes[(t.push kind).2.current]? = some (.empty kind (some t.current)) :=
    Array.getElem?_push_size
  have hscopes (i : ScopeId) (hi : i ≤ t.current) : (t.opened kind []).scopes[i]? = t.scopes[i]? :=
    getElem?_opened (Nat.lt_of_le_of_lt hi h.current)
  have houter :
      (t.push kind).2.outward t.scopes.size t.current = t.outward t.scopes.size t.current :=
    h.outward_eq hscopes _
  rw [visible_eq_cons hs, around_eq hs, ← h.outward_current h.current, ← houter]
  rfl

theorem WellFormed.visible_pop (h : t.WellFormed) {outer : ScopeId}
    (hpop : t.pop = .ok (outer, t')) :
    t'.visible = t.around := by
  have hwf : t'.WellFormed := h.pop hpop
  rw [SymbolTable.pop] at hpop
  split at hpop
  · cases hpop
  · rename_i hparent
    cases hpop
    obtain ⟨s, hs, hparent⟩ := Option.bind_eq_some_iff.mp hparent
    have hscopes : ∀ i ≤ outer, (t.backTo outer).scopes[i]? = t.scopes[i]? := fun _ _ ↦ rfl
    have houter : (t.backTo outer).outward t.current outer = t.outward t.current outer :=
      h.outward_eq hscopes _
    rw [around_eq hs, hparent, ← hwf.outward_current (h.parent_lt hs hparent)]
    exact houter

/-- What happens in the current scope leaves those around it alone. -/
theorem Grows.around_eq (hgrows : t.Grows t') (h : t.WellFormed) : t'.around = t.around := by
  obtain ⟨s, hs⟩ : ∃ s, t.scopes[t.current]? = some s := ⟨_, Array.getElem?_eq_getElem h.current⟩
  obtain ⟨symbols, hs'⟩ := hgrows.here s hs
  rw [← hgrows.current] at hs'
  rw [SymbolTable.around_eq hs', SymbolTable.around_eq hs, hgrows.current]
  dsimp only
  cases hparent : s.parent with
  | none => rfl
  | some outer =>
    have hlt : outer < t.current := h.parent_lt hs hparent
    refine h.outward_eq (fun i hi ↦ ?_) _
    have hi : i < t.current := Nat.lt_of_le_of_lt hi hlt
    exact hgrows.elsewhere i (Nat.lt_trans hi h.current) (Nat.ne_of_lt hi)

/-- A change to one scope changes it where it is seen. -/
theorem outward_modify {place : ScopeId} {f : Scope → Scope} (hf : ∀ s, (f s).parent = s.parent)
    (fuel : Nat) (id : ScopeId) :
    outward { t with scopes := t.scopes.modify place f } fuel id =
      (t.outward fuel id).map fun (i, s) ↦ (i, if place = i then f s else s) := by
  induction fuel generalizing id with
  | zero => rfl
  | succ fuel ih =>
    rw [outward, outward, Array.getElem?_modify]
    cases hs : t.scopes[id]? with
    | none => simp
    | some s =>
      by_cases hid : place = id
      · subst hid
        cases hparent : s.parent <;> simp [hf, hparent, ih]
      · cases hparent : s.parent <;> simp [hid, hparent, ih]

/-! ## Lookups after a change -/

/-- The symbol that a walk over some scopes finds under a name. -/
def symbolIn (chain : List (ScopeId × Scope)) (name : String) : Option Symbol :=
  chain.findSome? fun (_, s) ↦ s.get? name

theorem symbolIn_visible (t : SymbolTable) : symbolIn t.visible = t.symbol? := rfl

theorem symbolIn_cons (id : ScopeId) (s : Scope) (chain : List (ScopeId × Scope)) (name : String) :
    symbolIn ((id, s) :: chain) name = (s.get? name).or (symbolIn chain name) := by
  rw [symbolIn, List.findSome?_cons]
  dsimp only
  cases s.get? name <;> rfl

theorem symbol?_define (h : t.WellFormed) (name : String) (kind : SymbolKind) (other : String) :
    (t.define name kind).symbol? other =
      if other = name then some ⟨name, kind, t.current⟩ else t.symbol? other := by
  obtain ⟨s, hs⟩ : ∃ s, t.scopes[t.current]? = some s := ⟨_, Array.getElem?_eq_getElem h.current⟩
  have hs' : (t.define name kind).scopes[(t.define name kind).current]? =
      some (s.insert ⟨name, kind, t.current⟩) := by
    rw [define, Array.getElem?_modify, if_pos rfl, hs, Option.map_some]
  rw [← symbolIn_visible, ← symbolIn_visible, visible_eq_cons hs', visible_eq_cons hs,
    symbolIn_cons, symbolIn_cons, (Grows.define name kind).around_eq h, Scope.get?, Scope.insert,
    Scope.lookup_insertSorted]
  by_cases hother : other = name
  · rw [if_pos hother, if_pos hother, Option.some_or]
  · rw [if_neg hother, if_neg hother]
    rfl

theorem symbol?_defineAliases (h : t.WellFormed) (target : String) (names : List String)
    (other : String) :
    (names.foldl (fun t name ↦ t.defineAlias name target) t).symbol? other =
      if other ∈ names then some ⟨other, .alias target, t.current⟩ else t.symbol? other := by
  induction names generalizing t with
  | nil => rfl
  | cons name names ih =>
    have hnext : (t.defineAlias name target).WellFormed := h.define fun _ _ hkind ↦ by cases hkind
    rw [List.foldl_cons, ih hnext, defineAlias, symbol?_define h]
    by_cases hmem : other ∈ names
    · rw [if_pos hmem, if_pos (List.mem_cons_of_mem _ hmem)]
      rfl
    by_cases hname : other = name
    · rw [if_neg hmem, if_pos hname, if_pos (hname ▸ List.mem_cons_self), hname]
    · rw [if_neg hmem, if_neg hname, if_neg (by simp [hname, hmem])]

/-- The name of a function and its other names are defined, and the name counts if it is among
them. -/
theorem symbol?_defineFunction (h : t.WellFormed) (signature : Signature) (other : String) :
    (t.defineFunction signature).symbol? other =
      if other = signature.name then some ⟨other, .function signature none, t.current⟩
      else if other ∈ signature.aliases then some ⟨other, .alias signature.name, t.current⟩
      else t.symbol? other := by
  have hwf :
      (signature.aliases.foldl (fun t name ↦ t.defineAlias name signature.name) t).WellFormed := by
    generalize signature.aliases = names
    induction names generalizing t with
    | nil => exact h
    | cons name names ih => exact ih (h.define fun _ _ hkind ↦ by cases hkind)
  rw [defineFunction, symbol?_define hwf, symbol?_defineAliases h,
    (Grows.defineAliases _ _).current]
  by_cases hname : other = signature.name
  · rw [if_pos hname, if_pos hname, hname]
  · rw [if_neg hname, if_neg hname]

theorem get?_attachIn (name : String) (decl : FunctionDecl) (s : Scope) (other : String) :
    (attachIn name decl s).get? other =
      (s.get? other).map fun symbol ↦ if other = name then attach decl symbol else symbol := by
  obtain ⟨kind, parent, entries⟩ := s
  rw [Scope.get?, Scope.get?, attachIn]
  dsimp only
  induction entries with
  | nil => rfl
  | cons entry rest ih =>
    obtain ⟨key, symbol⟩ := entry
    rw [List.map_cons, Scope.lookup_cons_eq, Scope.lookup_cons_eq, ih]
    by_cases hother : other = key
    · rw [if_pos hother, if_pos hother, hother, Option.map_some]
    · rw [if_neg hother, if_neg hother]

theorem alias?_attach (decl : FunctionDecl) (symbol : Symbol) :
    (attach decl symbol).alias? = symbol.alias? := by
  rw [attach]
  split
  · rw [Symbol.alias?, Symbol.alias?, ‹symbol.kind = _›]
  · rfl

theorem function?_attach (decl : FunctionDecl) (symbol : Symbol) :
    (attach decl symbol).function? = symbol.function? := by
  rw [attach]
  split
  · rw [Symbol.function?, Symbol.function?, ‹symbol.kind = _›]
  · rfl

/-- Attaching a declaration somewhere matters only to who looks for declarations. -/
theorem bind_symbolIn_attach {α : Type} {read : Symbol → Option α} {decl : FunctionDecl}
    (hread : ∀ symbol, read (attach decl symbol) = read symbol) (place : ScopeId)
    (name other : String)
    (chain : List (ScopeId × Scope)) :
    (symbolIn (chain.map fun (i, s) ↦ (i, if place = i then attachIn name decl s else s))
      other).bind read =
      (symbolIn chain other).bind read := by
  induction chain with
  | nil => rfl
  | cons seen rest ih =>
    obtain ⟨i, s⟩ := seen
    rw [List.map_cons, symbolIn_cons, symbolIn_cons]
    by_cases hplace : place = i
    · rw [if_pos hplace, get?_attachIn]
      cases s.get? other with
      | none => exact ih
      | some symbol => by_cases hname : other = name <;> simp [hname, hread]
    · rw [if_neg hplace]
      cases s.get? other with
      | none => exact ih
      | some symbol => rfl

/-! ## One change -/

/-- In the scopes in sight, and in those from any of them outward, functions answer to all other
names for them. -/
def Faithful (t : SymbolTable) : Prop := ∀ chain, chain <:+ t.visible → AliasesFit (symbolIn chain)

theorem Faithful.aliasesFit (h : t.Faithful) : AliasesFit t.symbol? := h t.visible List.suffix_rfl

/-- A change in the current scope matters to what is in sight from there only. -/
theorem Faithful.of_grows (h : t.Faithful) (hwf : t.WellFormed) (hgrows : t.Grows t')
    (hfit : AliasesFit t'.symbol?) : t'.Faithful := by
  intro chain hchain
  have haround : t'.visible.tail = t.visible.tail := hgrows.around_eq hwf
  cases hvisible : t'.visible with
  | nil =>
    rw [hvisible] at hchain
    obtain rfl : chain = [] := List.suffix_nil.mp hchain
    exact h [] (List.nil_suffix)
  | cons seen rest =>
    rw [hvisible, List.suffix_cons_iff] at hchain
    rcases hchain with rfl | hchain
    · rwa [← hvisible]
    · rw [hvisible, List.tail_cons] at haround
      exact h chain ((haround ▸ hchain).trans (List.tail_suffix _))

theorem Faithful.push (h : t.Faithful) (hwf : t.WellFormed) (kind : ScopeKind) :
    (t.push kind).2.Faithful := by
  intro chain hchain
  rw [hwf.visible_push, List.suffix_cons_iff] at hchain
  rcases hchain with rfl | hchain
  · -- an empty scope defines nothing
    have hempty : symbolIn ((t.scopes.size, Scope.empty kind (some t.current)) :: t.visible) =
      t.symbol? := by
      funext name
      rw [symbolIn_cons, ← symbolIn_visible]
      rfl
    rw [hempty]
    exact h.aliasesFit
  · exact h chain hchain

theorem Faithful.pop (h : t.Faithful) (hwf : t.WellFormed) {outer : ScopeId}
    (hpop : t.pop = .ok (outer, t')) : t'.Faithful := by
  intro chain hchain
  rw [hwf.visible_pop hpop] at hchain
  exact h chain (hchain.trans (List.tail_suffix _))

/-- A name that is not one of a function is defined. -/
theorem Faithful.define (h : t.Faithful) (hwf : t.WellFormed) {kind : SymbolKind}
    (hkind : ∀ signature decl, kind ≠ .function signature decl)
    (hleads : ∀ target, kind = .alias target → ¬ t.Misleads (.defineAlias name target)) :
    (t.define name kind).Faithful := by
  refine h.of_grows hwf (.define name kind) fun other target signature halias hfunction ↦ ?_
  rw [symbol?_define hwf] at halias hfunction
  by_cases htarget : target = name
  · rw [if_pos htarget, Option.bind_some, Symbol.function?] at hfunction
    split at hfunction
    · exact absurd ‹_› (hkind _ _)
    · cases hfunction
  rw [if_neg htarget] at hfunction
  by_cases hother : other = name
  · subst hother
    rw [if_pos rfl, Option.bind_some, Symbol.alias?] at halias
    split at halias
    · rename_i hkind
      cases halias
      by_contra hcovers
      exact hleads target hkind ⟨Ne.symm htarget, signature, hfunction,
        Bool.eq_false_iff.mpr hcovers⟩
    · cases halias
  · rw [if_neg hother] at halias
    exact h.aliasesFit other target signature halias hfunction

theorem Faithful.defineFunction (h : t.Faithful) (hwf : t.WellFormed)
    (hleads : ¬ t.Misleads (.defineFunction signature)) :
    (t.defineFunction signature).Faithful := by
  refine h.of_grows hwf (.defineFunction signature) fun other target found halias hfunction ↦ ?_
  rw [symbol?_defineFunction hwf] at halias hfunction
  by_cases hname : other = signature.name
  · rw [if_pos hname] at halias
    cases halias
  rw [if_neg hname] at halias
  by_cases htarget : target = signature.name
  · -- what the name leads to now is the new function
    subst htarget
    rw [if_pos rfl] at hfunction
    obtain rfl : signature = found := Option.some.inj hfunction
    by_cases hmem : other ∈ signature.aliases
    · exact Signature.covers_of_mem_aliases hmem
    · rw [if_neg hmem] at halias
      by_contra hcovers
      exact hleads ⟨other, halias, Bool.eq_false_iff.mpr hcovers⟩
  rw [if_neg htarget] at hfunction
  by_cases hmem : other ∈ signature.aliases
  · rw [if_pos hmem] at halias
    exact absurd (Option.some.inj halias).symm htarget
  rw [if_neg hmem] at halias
  split at hfunction
  · cases hfunction
  · exact h.aliasesFit other target found halias hfunction

/-- A declaration changes neither a function nor what another name stands for. -/
theorem Faithful.attachDecl (h : t.Faithful) (name : String) (decl : FunctionDecl) :
    (t.attachDecl name decl).Faithful := by
  rw [SymbolTable.attachDecl]
  split
  · exact h
  · rename_i place _
    intro chain hchain
    replace hchain :
        chain <:+ t.visible.map fun (i, s) ↦ (i, if place = i then attachIn name decl s else s) :=
      (outward_modify (f := attachIn name decl) (fun _ ↦ rfl) (t.current + 1) t.current) ▸ hchain
    obtain ⟨old, hold, rfl⟩ := List.suffix_map_iff.mp hchain
    intro other target signature halias hfunction
    rw [bind_symbolIn_attach (alias?_attach decl)] at halias
    rw [bind_symbolIn_attach (function?_attach decl)] at hfunction
    exact h old hold other target signature halias hfunction

theorem Faithful.perform (h : t.Faithful) (hwf : t.WellFormed) {change : Change}
    (hleads : ¬ t.Misleads change) (hchange : t.perform change = .ok t') : t'.Faithful := by
  cases change with
  | push kind =>
    cases hchange
    exact h.push hwf kind
  | pop =>
    rw [SymbolTable.perform] at hchange
    cases hpop : t.pop with
    | error cause =>
      rw [hpop] at hchange
      cases hchange
    | ok found =>
      rw [hpop] at hchange
      cases hchange
      exact h.pop hwf hpop
  | defineVar name =>
    cases hchange
    exact h.define hwf (fun _ _ hkind ↦ by cases hkind) fun _ hkind ↦ by cases hkind
  | defineModule name =>
    cases hchange
    exact h.define hwf (fun _ _ hkind ↦ by cases hkind) fun _ hkind ↦ by cases hkind
  | defineAlias name target =>
    cases hchange
    exact h.define hwf (fun _ _ hkind ↦ by cases hkind) fun _ hkind ↦ by cases hkind; exact hleads
  | defineFunction signature =>
    cases hchange
    exact h.defineFunction hwf hleads
  | attachDecl name decl =>
    cases hchange
    exact h.attachDecl name decl

/-- A change that misleads does so at once. -/
theorem not_answers_of_misleads (h : t.WellFormed) {change : Change} (hleads : t.Misleads change)
    (hchange : t.perform change = .ok t') : ¬ t'.Answers := by
  cases change with
  | defineFunction signature =>
    cases hchange
    obtain ⟨name, halias, hcovers⟩ := hleads
    intro hanswers
    have hname : name ≠ signature.name := by
      rintro rfl
      exact Bool.false_ne_true (hcovers.symm.trans signature.covers_name)
    have hmem : name ∉ signature.aliases := fun hmem ↦
      Bool.false_ne_true (hcovers.symm.trans (Signature.covers_of_mem_aliases hmem))
    have halias' : (t.defineFunction signature).AliasOf name signature.name := by
      rwa [AliasOf, symbol?_defineFunction h, if_neg hname, if_neg hmem]
    have hfound : (t.defineFunction signature).function? name = some signature := by
      rw [function?_of_aliasOf halias', symbol?_defineFunction h, if_pos rfl]
      rfl
    exact Bool.false_ne_true (hcovers.symm.trans (hanswers name signature hfound))
  | defineAlias name target =>
    cases hchange
    obtain ⟨hne, signature, hfunction, hcovers⟩ := hleads
    intro hanswers
    have halias : (t.defineAlias name target).AliasOf name target := by
      rw [AliasOf, defineAlias, symbol?_define h, if_pos rfl]
      rfl
    have hfound : (t.defineAlias name target).function? name = some signature := by
      rw [function?_of_aliasOf halias, defineAlias, symbol?_define h, if_neg (Ne.symm hne),
        hfunction]
    exact Bool.false_ne_true (hcovers.symm.trans (hanswers name signature hfound))
  | push kind => exact hleads.elim
  | pop => exact hleads.elim
  | defineVar name => exact hleads.elim
  | defineModule name => exact hleads.elim
  | attachDecl name decl => exact hleads.elim

/-! ## All changes -/

theorem changed_concat (changes : List Change) (change : Change) :
    changed (changes ++ [change]) = (changed changes).after change := by
  rw [changed, List.foldl_concat]
  rfl

theorem faithful_empty : empty.Faithful := by
  intro chain hchain name target signature halias
  have hnone : symbolIn chain name = none := by
    refine List.findSome?_eq_none_iff.mpr fun seen hseen ↦ ?_
    obtain rfl : seen = (globalScope, .empty .global none) :=
      List.mem_singleton.mp (hchain.subset hseen)
    rfl
  rw [hnone] at halias
  cases halias

/-- Changes none of which misleads keep names and functions together. -/
theorem faithful_changed {changes : List Change}
    (hleads : ∀ earlier change, earlier ++ [change] <+: changes →
      ¬ (changed earlier).Misleads change) :
    (changed changes).Faithful := by
  induction changes using List.reverseRecOn with
  | nil => exact faithful_empty
  | append_singleton changes change ih =>
    have hfaithful : (changed changes).Faithful :=
      ih fun earlier other hbegins ↦ hleads earlier other (hbegins.trans (List.prefix_append _ _))
    rw [changed_concat, after]
    cases hchange : (changed changes).perform change with
    | error cause => exact hfaithful
    | ok t' =>
      exact hfaithful.perform (.changed changes) (hleads changes change List.prefix_rfl) hchange

/-- **Where functions answer to the names they are reached by.** From the empty table on, every name
that reaches a function is one that the function answers to, for as long as no change misleads and
no longer: no function is defined under the name that another name in sight leads to without listing
it, and no other name is defined for a function that does not list it. In any table, a function that
does not answer to the name it is reached by is reached through another name for it. -/
theorem answers_changed_iff (changes : List Change) :
    ((∀ reached, reached <+: changes → (changed reached).Answers) ↔
        ∀ earlier change, earlier ++ [change] <+: changes → ¬ (changed earlier).Misleads change) ∧
      ∀ name signature, (changed changes).function? name = some signature →
        signature.covers name = false → (changed changes).AliasOf name signature.name := by
  refine ⟨⟨fun hanswers earlier change hbegins hleads ↦ ?_, fun hleads reached hbegins ↦ ?_⟩, ?_⟩
  · obtain ⟨t', hchange⟩ : ∃ t', (changed earlier).perform change = .ok t' := by
      cases change with
      | pop => exact hleads.elim
      | _ => exact ⟨_, rfl⟩
    have hreached : changed (earlier ++ [change]) = t' := by
      rw [changed_concat, after, hchange]
      rfl
    exact not_answers_of_misleads (.changed earlier) hleads hchange (hreached ▸ hanswers _ hbegins)
  · have hfaithful : (changed reached).Faithful :=
      faithful_changed fun earlier change hearlier ↦ hleads earlier change (hearlier.trans hbegins)
    exact (WellFormed.changed reached).answers_iff.mpr hfaithful.aliasesFit
  · intro name signature hfound hcovers
    rcases (WellFormed.changed changes).covers_or_aliasOf hfound with htrue | ⟨halias, -⟩
    · exact absurd (hcovers.symm.trans htrue) Bool.false_ne_true
    · exact halias

/-- In a scope inside a function `sum` that is also called `add`, another function `sum` is defined,
which is not. -/
theorem not_answers_changed : ¬ (changed [.defineFunction ⟨"sum", [], ["add"], false⟩, .push .block,
    .defineFunction (.named "sum")]).Answers := by
  intro hanswers
  have hfound : (changed [.defineFunction ⟨"sum", [], ["add"], false⟩, .push .block,
    .defineFunction (.named "sum")]).function? "add" = some (.named "sum") := by decide
  exact absurd (hanswers "add" (.named "sum") hfound) (by decide)

end SymbolTable

end ScriptFront
