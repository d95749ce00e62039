import ScriptFront.Proofs.Extension.Matching
import ScriptFront.Proofs.Lexer.Endings
import ScriptFront.Proofs.Window.Refills

/-!
# Extensions do not interfere

Extensions are tried one after the other on the same window, and each attempt may refill it. Since
refills change nothing about what is seen, every attempt comes to what it would come to on the
window as it was at first. So the extension that is found is the first one that would be found if it
were registered alone, with the same match; and afterwards the same tokens are current and to come.
-/

namespace ScriptFront

open Window (Firm Refilled)

variable {E : ScriptError → Prop} {u v w w' : Window Lexer} {e : Registered} {kind : ExtensionKind}
  {symbols : SymbolTable} {index : Nat}

/-! ## One attempt -/

/-- No failure is allowed for. -/
def unfailing : Leeway := ⟨fun _ ↦ False, fun _ ↦ False, fun _ ↦ False⟩

/-- Without failures both runs succeed. -/
theorem Agree.exists_ok {σ τ α β : Type} {Q : α → β → σ → τ → Prop}
    {r : EStateM.Result ScriptError σ α}
    {r' : EStateM.Result ScriptError τ β} (h : Agree unfailing Q r r') :
    ∃ a b s t, r = .ok a s ∧ r' = .ok b t ∧ Q a b s t := by
  cases h with
  | ok h => exact ⟨_, _, _, _, rfl, rfl, h⟩
  | error h => exact h.elim
  | first h => exact h.elim
  | second h => exact h.elim

/-- The same is seen from all windows that refills lead to. -/
theorem Window.isSeen_refilled (hu : Firm E u) (hfree : u.IsErrorFree) :
    IsSeen unfailing fun v w ↦ Refilled u v ∧ Refilled u w where
  current h := (h.1.current_eq hu).trans (h.2.current_eq hu).symm
  lookahead h := (h.1.lookahead_eq hu).trans (h.2.lookahead_eq hu).symm
  failures e h := by rcases h with h | h | h <;> exact h.elim
  peek := by
    rintro v w count ⟨hv, hw⟩ hcount
    rw [hv.lookahead_eq hu] at hcount
    have hsees {v : Window Lexer} (hv : Refilled u v) :
        ∃ t v', Window.peek count false v = .ok t v' ∧ Refilled u v' := by
      obtain ⟨t, v', hpeek, hv'⟩ :=
        (Window.peek_refills (hv.lookahead_eq hu ▸ hcount) false).exists_ok (hfree.refilled hv)
      exact ⟨t, v', hpeek, hv.trans hv'⟩
    obtain ⟨t, v', hpeek, hv'⟩ := hsees hv
    obtain ⟨t', w', hpeek', hw'⟩ := hsees hw
    rw [hpeek, hpeek']
    exact .ok ⟨hv.peek_unique hu hw hcount hpeek hpeek', hv', hw'⟩

/-- After refills an extension claims what it would have claimed before them. -/
theorem Registered.exists_claim_refilled (hw : Firm E w) (hfree : w.IsErrorFree) (hv : Refilled w v)
    (e : Registered) (symbols : SymbolTable) :
    ∃ claimed v' w', e.claim symbols v = .ok claimed v' ∧ e.claim symbols w = .ok claimed w' ∧
      Refilled w v' := by
  have hpair : Refilled w v ∧ Refilled w w := ⟨hv, .refl⟩
  obtain ⟨claimed, _, v', w', hclaim, hclaim', rfl, hv', -⟩ :=
    ((Window.isSeen_refilled hw hfree).claim e symbols _ _ hpair).exists_ok
  exact ⟨claimed, v', w', hclaim, hclaim', hv'⟩

/-! ## Attempts in a row -/

/-- A registry that holds only this entry finds this. -/
def Registered.FindsAlone (e : Registered) (kind : ExtensionKind) (symbols : SymbolTable)
    (w : Window Lexer)
    (found : Option (Match × Extension)) : Prop :=
  ∃ w', Registry.find ⟨[e], []⟩ kind symbols w = .ok found w'

theorem Registered.findsAlone_of_kind_ne (h : e.extension.kind ≠ kind) :
    e.FindsAlone kind symbols w none := by
  refine ⟨w, ?_⟩
  rw [Registry.find, Registry.findFrom, if_neg h]
  rfl

theorem Registered.findsAlone_of_claim {claimed : Option (Nat × Captures)}
    (h : e.extension.kind = kind)
    (hclaim : e.claim symbols w = .ok claimed w') :
    e.FindsAlone kind symbols w (claimed.map fun claimed ↦
      (⟨claimed.1, claimed.2, 0⟩, e.extension)) := by
  refine ⟨w', ?_⟩
  rw [Registry.find, Registry.findFrom, if_pos h, bind_eq_of_ok hclaim]
  cases claimed <;> rfl

/-- Of entries numbered from `index`, the first one that is found alone decides what is found. -/
inductive Registry.FirstDecides (kind : ExtensionKind) (symbols : SymbolTable) (w : Window Lexer) :
    (index : Nat) → List Registered → Option (Match × Extension) → Prop
  /-- No entry is left. -/
  | nil {index : Nat} : FirstDecides kind symbols w index [] none
  /-- The entry is found alone. -/
  | here {index : Nat} {e : Registered} {rest : List Registered} {found : Match}
      {extension : Extension}
      (hnumber : found.extension = index) (hkind : e.extension.kind = kind)
      (halone : e.FindsAlone kind symbols w (some ({ found with extension := 0 }, extension))) :
      FirstDecides kind symbols w index (e :: rest) (some (found, extension))
  /-- The entry is not found alone, so those behind it decide. -/
  | later {index : Nat} {e : Registered} {rest : List Registered}
      {found : Option (Match × Extension)}
      (halone : e.FindsAlone kind symbols w none)
      (h : FirstDecides kind symbols w (index + 1) rest found) :
      FirstDecides kind symbols w index (e :: rest) found

namespace Registry

variable {entries : List Registered} {found : Match} {extension : Extension}

/-- If nothing is found, no entry is found alone. -/
theorem FirstDecides.of_none (h : FirstDecides kind symbols w index entries none) :
    ∀ e ∈ entries, e.FindsAlone kind symbols w none := by
  generalize hfound : (none : Option (Match × Extension)) = found at h
  induction h with
  | nil => exact fun _ he ↦ (List.not_mem_nil he).elim
  | here => cases hfound
  | later halone _ ih => exact List.forall_mem_cons.mpr ⟨hfound ▸ halone, ih hfound⟩

/-- If one is found, it is the first one that is found alone. -/
theorem FirstDecides.of_some
    (h : FirstDecides kind symbols w index entries (some (found, extension))) :
    ∃ i e, found.extension = index + i ∧ entries[i]? = some e ∧ e.extension.kind = kind ∧
      e.FindsAlone kind symbols w (some ({ found with extension := 0 }, extension)) ∧
      ∀ j e', j < i → entries[j]? = some e' → e'.FindsAlone kind symbols w none := by
  generalize hfound : some (found, extension) = result at h
  induction h with
  | nil => cases hfound
  | here hnumber hkind halone =>
    cases hfound
    exact ⟨0, _, hnumber, rfl, hkind, halone, fun j _ hj ↦ (Nat.not_lt_zero j hj).elim⟩
  | later halone _ ih =>
    obtain ⟨i, e, hnumber, hentry, hkind, hfirst, hbefore⟩ := ih hfound
    refine ⟨i + 1, e, by omega, hentry, hkind, hfirst, fun j e' hj hentry' ↦ ?_⟩
    cases j with
    | zero => exact Option.some.inj hentry' ▸ halone
    | succ j => exact hbefore j e' (Nat.lt_of_succ_lt_succ hj) hentry'

/-- Whatever was tried before, the first entry that would have been found alone decides. -/
theorem exists_findFrom_firstDecides (hw : Firm E w) (hfree : w.IsErrorFree) (hv : Refilled w v)
    (kind : ExtensionKind) (symbols : SymbolTable) (index : Nat) (entries : List Registered) :
    ∃ found v', findFrom kind symbols index entries v = .ok found v' ∧ Refilled w v' ∧
      FirstDecides kind symbols w index entries found := by
  induction entries generalizing v index with
  | nil => exact ⟨none, v, rfl, hv, .nil⟩
  | cons e rest ih =>
    rw [findFrom]
    by_cases hkind : e.extension.kind = kind
    · obtain ⟨claimed, v₁, w₁, hclaim, hclaim', hv₁⟩ := e.exists_claim_refilled hw hfree hv symbols
      have halone := Registered.findsAlone_of_claim hkind hclaim'
      rw [if_pos hkind, bind_eq_of_ok hclaim]
      cases claimed with
      | none =>
        obtain ⟨found, v', hfind, hv', hdecides⟩ := ih hv₁ (index + 1)
        exact ⟨found, v', hfind, hv', .later halone hdecides⟩
      | some claimed => exact ⟨_, v₁, rfl, hv₁, .here rfl hkind halone⟩
    · obtain ⟨found, v', hfind, hv', hdecides⟩ := ih hv (index + 1)
      rw [if_neg hkind]
      exact ⟨found, v', hfind, hv', .later (Registered.findsAlone_of_kind_ne hkind) hdecides⟩

/-- **Extensions do not interfere.** On a source without errors the lookup returns what the first
entry of the kind is found with when it is registered alone, under the number of this entry, or
nothing if no entry is found alone; and the same tokens are current and to come as before. -/
theorem exists_find_eq_first (hw : Firm ScriptError.IsOfLexer w) (hfree : w.IsErrorFree)
    (registry : Registry) (kind : ExtensionKind) (symbols : SymbolTable) :
    ∃ found w', registry.find kind symbols w = .ok found w' ∧
      (found = none → ∀ e ∈ registry.entries, e.FindsAlone kind symbols w none) ∧
      (∀ m extension, found = some (m, extension) → ∃ e, registry.entries[m.extension]? = some e ∧
        e.extension.kind = kind ∧ e.FindsAlone kind symbols w
          (some ({ m with extension := 0 }, extension)) ∧
        ∀ i e', i < m.extension → registry.entries[i]? = some e' →
        e'.FindsAlone kind symbols w none) ∧
      w'.current = w.current ∧ (∀ tokens, w'.Awaits tokens ↔ w.Awaits tokens) ∧
      ∀ tokens, w.Streams tokens → w'.Streams tokens := by
  obtain ⟨found, w', hfind, hw', hdecides⟩ :=
    exists_findFrom_firstDecides hw hfree .refl kind symbols 0 registry.entries
  refine ⟨found, w', hfind, ?_, ?_, hw'.current_eq hw, fun _ ↦ hw'.awaits_iff hw, fun _ h ↦
    h.refilled hw'⟩
  · rintro rfl
    exact hdecides.of_none
  · rintro m extension rfl
    obtain ⟨i, e, hnumber, hentry, hkind, halone, hbefore⟩ := hdecides.of_some
    obtain rfl : m.extension = i := hnumber.trans (Nat.zero_add i)
    exact ⟨e, hentry, hkind, halone, hbefore⟩

/-- Six words, with comments behind the first one that a window of the least sight does not hold at
once. -/
def sampleCommented : Lexer :=
  .ofText (.plain '#') "a /*1*/ /*2*/ /*3*/ /*4*/ /*5*/ /*6*/ /*7*/ /*8*/ b c d e f"

/-- An entry that wants all of the words, which is further than the least sight. -/
def sampleFar : Registered :=
  ⟨.inert "far" .expression [.text "a"] none,
    some (["a", "b", "c", "d", "e", "f"].map fun word ↦ .leaf (.literal word) true), 6⟩

/-- An entry that wants the first two words, whatever the second one is. -/
def sampleNear : Registered :=
  ⟨.inert "near" .expression [.text "a"] none,
    some [.leaf (.literal "a") true, .leaf (.typed "next" .word) true], 2⟩

/-- The first entry refills the window and comes to the end of its reach; the second one is found
all the same. -/
theorem exists_find_eq_first_sampleCommented :
    ∃ w, Window.ofSource sampleCommented 4 = .ok w ∧ Firm ScriptError.IsOfLexer w ∧ w.IsErrorFree ∧
      ∃ found extension w', find ⟨[sampleFar, sampleNear], []⟩ .expression .empty w =
          .ok (some (found, extension)) w' ∧
        found.extension = 1 ∧ found.count = 2 ∧ w.ahead.length < w'.ahead.length ∧
        sampleFar.FindsAlone .expression .empty w none ∧
        sampleNear.FindsAlone .expression .empty w
          (some ({ found with extension := 0 }, extension)) ∧
        w'.current = w.current ∧ ∀ tokens, w'.Awaits tokens ↔ w.Awaits tokens := by
  obtain ⟨all, hall⟩ : ∃ tokens, sampleCommented.tokenize = .ok tokens :=
    exists_eq_ok_of_isSome (by decide +kernel)
  have hopen : sampleCommented.IsOpen := Lexer.isOpen_ofText _ _
  obtain ⟨hdelivers, hclosed⟩ : Lexer.Delivers sampleCommented all ∧ Closed all :=
    Lexer.delivers_ofText_plain hall
  obtain ⟨w, hw, hstreams, -⟩ := Window.exists_ofSource_streams hdelivers.supplies hclosed 4
  have hfirm := ((Window.ofSource_ensures hopen (Dialect.isTame_of_extensions rfl) 4).1 w hw).1.firm
  have hfree := hstreams.isErrorFree
  obtain ⟨found, w', hfind, -, hsome, hcurrent, hawaits, -⟩ :=
    exists_find_eq_first hfirm hfree ⟨[sampleFar, sampleNear], []⟩ .expression .empty
  have hrun : ((Window.ofSource sampleCommented 4).toOption.map fun w ↦ (outcome (fun found w' ↦
      (found.any fun found ↦ found.1.extension == 1 && found.1.count == 2) &&
        decide (w.ahead.length < w'.ahead.length))
      (find ⟨[sampleFar, sampleNear], []⟩ .expression .empty w)).toOption) = some (some true) := by
    decide +kernel
  rw [hw, Except.toOption, Option.map_some, hfind, outcome, Except.toOption, Option.some.injEq,
    Option.some.injEq, Bool.and_eq_true, Option.any_eq_true, decide_eq_true_eq] at hrun
  obtain ⟨⟨⟨found, extension⟩, rfl, hrun⟩, hlonger⟩ := hrun
  rw [Bool.and_eq_true, beq_iff_eq, beq_iff_eq] at hrun
  obtain ⟨hnumber, hcount⟩ := hrun
  obtain ⟨e, hentry, -, halone, hbefore⟩ := hsome found extension rfl
  rw [hnumber] at hentry hbefore
  obtain rfl := Option.some.inj hentry
  exact ⟨w, hw, hfirm, hfree, found, extension, w', hfind, hnumber, hcount, hlonger,
    hbefore 0 sampleFar Nat.one_pos rfl, halone, hcurrent, hawaits⟩

end Registry

end ScriptFront
