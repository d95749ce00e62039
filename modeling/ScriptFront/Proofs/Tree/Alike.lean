import ScriptFront.Proofs.Symbols.Unplaced

/-!
# Trees that agree up to positions

The same script in another place gives trees that differ in their positions only. Two such trees are
*alike*. A node is like another one if its parts are like the parts of the other one, and a parser
that asks of a tree whether it may be assigned to, or which name it is, gets the same answer of
both.
-/

namespace ScriptFront

/-! ## Lists that agree -/

/-- The lists agree in what `f` keeps of their items. -/
def AgreeUnder {α β : Type} (f : α → β) (list list' : List α) : Prop := list'.map f = list.map f

namespace AgreeUnder

variable {α β : Type} {f : α → β} {a a' : α} {list list' : List α}

theorem nil : AgreeUnder f [] [] := rfl

theorem cons (ha : f a' = f a) (h : AgreeUnder f list list') :
    AgreeUnder f (a :: list) (a' :: list') := by
  rw [AgreeUnder, List.map_cons, List.map_cons, ha, h]

theorem reverse (h : AgreeUnder f list list') : AgreeUnder f list.reverse list'.reverse := by
  rw [AgreeUnder, List.map_reverse, List.map_reverse, h]

theorem append {more more' : List α} (h : AgreeUnder f list list')
    (hmore : AgreeUnder f more more') :
    AgreeUnder f (list ++ more) (list' ++ more') := by
  rw [AgreeUnder, List.map_append, List.map_append, h, hmore]

theorem length_eq (h : AgreeUnder f list list') : list'.length = list.length := by
  simpa using congrArg List.length h

end AgreeUnder

/-! ## Trees and forms -/

/-- The trees agree up to positions. -/
def Expr.Alike (e e' : Expr) : Prop := e'.unplaced = e.unplaced

/-- The forms agree up to positions. -/
def Form.Alike (form form' : Form) : Prop := form'.unplaced = form.unplaced

/-- The declarations agree up to positions. -/
def FunctionDecl.Alike (decl decl' : FunctionDecl) : Prop := decl'.unplaced = decl.unplaced

/-- The trees of two lists agree up to positions. -/
abbrev Alikes (list list' : List Expr) : Prop := AgreeUnder Expr.unplaced list list'

/-- The entry with all positions forgotten. -/
def MapEntry.unplaced (entry : MapEntry) : MapEntry := .mk entry.key entry.value.unplaced

theorem relocateEntries_eq_map (entries : List MapEntry) :
    relocateEntries (fun _ ↦ .start) id entries = entries.map MapEntry.unplaced := by
  induction entries with
  | nil => rfl
  | cons entry rest ih =>
    obtain ⟨key, value⟩ := entry
    rw [relocateEntries, ih]
    rfl

theorem relocateOption_eq_map (value : Option Expr) :
    relocateOption (fun _ ↦ .start) id value = value.map Expr.unplaced := by
  cases value <;> rfl

section

variable {e e' u u' v v' w w' : Expr} {list list' : List Expr}
  {value value' : Option Expr} {decl decl' : FunctionDecl} {position position' : Position}
  {scope : ScopeId}

theorem AgreeUnder.relocateList_eq (h : Alikes list list') :
    relocateList (fun _ ↦ .start) id list' = relocateList (fun _ ↦ .start) id list := by
  rw [relocateList_eq_map, relocateList_eq_map]
  exact h

theorem FunctionDecl.Alike.intro (h : Alikes list list') (signature : Signature) :
    FunctionDecl.Alike (.mk signature list scope position) (.mk signature list' scope position') :=
  congrArg (fun body ↦ FunctionDecl.mk signature body scope .start) h.relocateList_eq

namespace Form.Alike

theorem refl (form : Form) : form.Alike form := rfl

theorem node {form form' : Form} (h : form.Alike form') :
    (Expr.mk form position scope).Alike (.mk form' position' scope) :=
  congrArg (fun form ↦ Expr.mk form .start scope) h

theorem unary (op : UnaryOp) (h : e.Alike e') : Form.Alike (.unary op e) (.unary op e') :=
  congrArg (Form.unary op) h

theorem assign (op : AssignOp) (declares : Bool) (h : e.Alike e')
    (hvalue : value'.map Expr.unplaced = value.map Expr.unplaced) :
    Form.Alike (.assign e op value declares) (.assign e' op value' declares) := by
  rw [← relocateOption_eq_map, ← relocateOption_eq_map] at hvalue
  change Form.assign e'.unplaced op (relocateOption _ _ value') declares =
    .assign e.unplaced op (relocateOption _ _ value) declares
  rw [h, hvalue]

theorem multiAssign (h : Alikes list list') : Form.Alike (.multiAssign list) (.multiAssign list') :=
  congrArg Form.multiAssign h.relocateList_eq

theorem index (h : e.Alike e') (hu : u.Alike u') : Form.Alike (.index e u) (.index e' u') := by
  change Form.index e'.unplaced u'.unplaced = .index e.unplaced u.unplaced
  rw [h, hu]

theorem member (h : e.Alike e') (name : String) : Form.Alike (.member e name) (.member e' name) :=
  congrArg (Form.member · name) h

theorem call (name : String) (h : Alikes list list') :
    Form.Alike (.call (.named name) list) (.call (.named name) list') :=
  congrArg (Form.call (.named name)) h.relocateList_eq

theorem callComputed (he : e.Alike e') (h : Alikes list list') :
    Form.Alike (.call (.computed e) list) (.call (.computed e') list') := by
  change Form.call (.computed e'.unplaced) (relocateList _ _ list') =
    .call (.computed e.unplaced) (relocateList _ _ list)
  rw [he, h.relocateList_eq]

theorem array (h : Alikes list list') : Form.Alike (.array list) (.array list') :=
  congrArg Form.array h.relocateList_eq

theorem map {entries entries' : List MapEntry} (h : AgreeUnder MapEntry.unplaced entries entries') :
    Form.Alike (.map entries) (.map entries') := by
  rw [AgreeUnder, ← relocateEntries_eq_map, ← relocateEntries_eq_map] at h
  exact congrArg Form.map h

theorem block (h : Alikes list list') : Form.Alike (.block list) (.block list') :=
  congrArg Form.block h.relocateList_eq

theorem conditional (h : e.Alike e') (hu : u.Alike u')
    (hvalue : value'.map Expr.unplaced = value.map Expr.unplaced) :
    Form.Alike (.conditional e u value) (.conditional e' u' value') := by
  rw [← relocateOption_eq_map, ← relocateOption_eq_map] at hvalue
  change Form.conditional e'.unplaced u'.unplaced (relocateOption _ _ value') =
    .conditional e.unplaced u.unplaced (relocateOption _ _ value)
  rw [h, hu, hvalue]

theorem whileLoop (h : e.Alike e') (hu : u.Alike u') :
    Form.Alike (.whileLoop e u) (.whileLoop e' u') := by
  change Form.whileLoop e'.unplaced u'.unplaced = .whileLoop e.unplaced u.unplaced
  rw [h, hu]

theorem forLoop (h : e.Alike e') (hu : u.Alike u') (hv : v.Alike v') (hw : w.Alike w') :
    Form.Alike (.forLoop e u v w) (.forLoop e' u' v' w') := by
  change Form.forLoop e'.unplaced u'.unplaced v'.unplaced w'.unplaced =
    .forLoop e.unplaced u.unplaced v.unplaced w.unplaced
  rw [h, hu, hv, hw]

theorem forEach (name : String) (h : e.Alike e') (hu : u.Alike u') :
    Form.Alike (.forEach name e u) (.forEach name e' u') := by
  change Form.forEach name e'.unplaced u'.unplaced = .forEach name e.unplaced u.unplaced
  rw [h, hu]

theorem tryCatch (name : String) (h : e.Alike e') (hu : u.Alike u') :
    Form.Alike (.tryCatch e name u) (.tryCatch e' name u') := by
  change Form.tryCatch e'.unplaced name u'.unplaced = .tryCatch e.unplaced name u.unplaced
  rw [h, hu]

theorem functionDecl (h : decl.Alike decl') :
    Form.Alike (.functionDecl decl) (.functionDecl decl') :=
  congrArg Form.functionDecl h

theorem lambda (h : decl.Alike decl') : Form.Alike (.lambda decl) (.lambda decl') :=
  congrArg Form.lambda h

theorem returning (hvalue : value'.map Expr.unplaced = value.map Expr.unplaced) :
    Form.Alike (.returning value) (.returning value') := by
  rw [← relocateOption_eq_map, ← relocateOption_eq_map] at hvalue
  exact congrArg Form.returning hvalue

theorem throwing (h : e.Alike e') : Form.Alike (.throwing e) (.throwing e') :=
  congrArg Form.throwing h

theorem interpolated (h : Alikes list list') :
    Form.Alike (.interpolated list) (.interpolated list') :=
  congrArg Form.interpolated h.relocateList_eq

end Form.Alike

namespace Expr.Alike

theorem some (h : e.Alike e') :
    (Option.some e').map Expr.unplaced = (Option.some e).map Expr.unplaced :=
  congrArg Option.some h

theorem form (h : e.Alike e') : e.form.Alike e'.form := by
  obtain ⟨form, p, q⟩ := e
  obtain ⟨form', p', q'⟩ := e'
  injection h

/-- The nodes may be put into one scope, wherever they stand. -/
theorem placed (h : e.Alike e') :
    ((e.moveTo position).inScope scope).Alike ((e'.moveTo position').inScope scope) := h.form.node

theorem moved (h : e.Alike e') : (e.moveTo position).Alike (e'.moveTo position') := by
  obtain ⟨form, p, q⟩ := e
  obtain ⟨form', p', q'⟩ := e'
  injection h with hform _ hscope
  obtain rfl : q' = q := hscope
  exact Form.Alike.node hform

theorem isAssignable_eq (h : e.Alike e') : e'.isAssignable = e.isAssignable := by
  have hunplaced (e : Expr) : e.unplaced.isAssignable = e.isAssignable := by
    obtain ⟨form, position, scope⟩ := e
    cases form <;> rfl
  rw [← hunplaced, h, hunplaced]

theorem varName?_eq (h : e.Alike e') : e'.varName? = e.varName? := by
  have hunplaced (e : Expr) : e.unplaced.varName? = e.varName? := by
    obtain ⟨form, position, scope⟩ := e
    cases form <;> rfl
  rw [← hunplaced, h, hunplaced]

end Expr.Alike

end

end ScriptFront
