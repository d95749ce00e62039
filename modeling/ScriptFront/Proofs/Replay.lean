import ScriptFront.Proofs.Parse.Derived
import ScriptFront.Proofs.Symbols.Retouched

/-!
# The symbols of a tree

Names are defined in the middle of a parse, while the trees they belong to are still incomplete.
What ends up in the table is nevertheless determined by the finished trees: whoever starts from the
table of the host, goes over the statements in the order of the text, and defines names where this
module says so, has the same table in the end.

The only thing a parse does out of this order is to attach the declaration of a function to its
symbol when the body is complete. `Derives.replays` therefore compares the two tables up to a
retouch that attaches the declarations of the functions around, and extends the retouch by one
function on the way into a body.
-/

namespace ScriptFront

open SymbolTable (Extends Grows Retouches)

/-! ## Going over a tree -/

namespace SymbolTable

/-- Open a scope with some variables, do something in it, and leave it. -/
def inside (t : SymbolTable) (kind : ScopeKind) (names : List String)
    (visit : SymbolTable → SymbolTable) : SymbolTable :=
  (visit (t.opened kind names)).backTo t.current

/-- Define a function with its declaration, after its aliases. -/
def declare (t : SymbolTable) (decl : FunctionDecl) : SymbolTable :=
  let name := decl.signature.name
  let named := decl.signature.aliases.foldl (fun t other ↦ t.defineAlias other name) t
  named.define name (.function decl.signature (some decl))

end SymbolTable

namespace Form

/-- The nodes right below a form, each with the names that its scope starts out with. -/
def parts : Form → List (List String × Expr)
  | .forEach name source body => [([], source), ([name], body)]
  | .tryCatch body name handler => [([], body), ([name], handler)]
  | form => form.children.map fun e ↦ ([], e)

theorem map_parts (form : Form) : form.parts.map (·.2) = form.children := by
  cases form <;> simp [parts, children, Function.comp_def]

/-- What a node defines before anything below it does: a declared variable, or a function with its
aliases. -/
def announce (form : Form) (t : SymbolTable) : SymbolTable :=
  match form with
  | .assign target _ _ true =>
    match target.varName? with
    | some name => t.defineVar name
    | none => t
  | .functionDecl decl => t.declare decl
  | _ => t

/-- What is below a node is visited in the scope that the node opens, if it opens one. A scope of a
function starts out with the parameters, and that of a block with the names it is given. -/
def around (form : Form) (names : List String) (visit : SymbolTable → SymbolTable)
    (t : SymbolTable) :
    SymbolTable :=
  match form with
  | .block _ => t.inside .block names visit
  | .forLoop .. => t.inside .block [] visit
  | .functionDecl decl | .lambda decl => t.inside .function decl.signature.params visit
  | _ => visit t

/-- What a node defines behind everything below it: the target of a plain assignment, if it is a
name that is not in sight. -/
def settle (form : Form) (t : SymbolTable) : SymbolTable :=
  match form with
  | .assign target op _ false => t.assigned target op
  | _ => t

/-- A form that defines nothing by itself. -/
def IsSilent (form : Form) : Prop :=
  ∀ names visit t, form.settle (form.around names visit (form.announce t)) = visit t

end Form

mutual

/-- The table after a tree, whose scope starts out with some names if it is a block. -/
def Expr.replay (names : List String) (e : Expr) (t : SymbolTable) : SymbolTable :=
  e.form.settle (e.form.around names (fun t ↦ replayParts e.form.parts t) (e.form.announce t))
termination_by (e.size, 0)
decreasing_by
  rw [Form.map_parts]
  exact lex_children e

/-- The table after several trees. -/
def replayParts (parts : List (List String × Expr)) (t : SymbolTable) : SymbolTable :=
  match parts with
  | [] => t
  | (names, e) :: rest => replayParts rest (e.replay names t)
termination_by (listSize (parts.map (·.2)), 1)
decreasing_by
  · exact lex_first e _
  · exact lex_rest e _

end

/-- The table after the statements of a script. -/
def SymbolTable.replay (t : SymbolTable) (statements : List Expr) : SymbolTable :=
  replayParts (statements.map fun e ↦ ([], e)) t

theorem replayParts_append (parts more : List (List String × Expr)) (t : SymbolTable) :
    replayParts (parts ++ more) t = replayParts more (replayParts parts t) := by
  induction parts generalizing t with
  | nil => rw [List.nil_append, replayParts.eq_def []]
  | cons part rest ih =>
    obtain ⟨names, e⟩ := part
    rw [List.cons_append, replayParts, replayParts, ih]

theorem replayParts_singleton (names : List String) (e : Expr) (t : SymbolTable) :
    replayParts [(names, e)] t = e.replay names t := by
  rw [replayParts, replayParts]

/-- Neither the place nor the scope of a node plays a part. -/
theorem Expr.replay_eq_of_form {e e' : Expr} (h : e.form = e'.form) (names : List String)
    (t : SymbolTable) : e.replay names t = e'.replay names t := by
  rw [Expr.replay, Expr.replay, h]

/-! ## Replaying a parse -/

namespace SymbolTable

variable {t : SymbolTable}

theorem IsSorted.assigned (h : t.IsSorted) (target : Expr) (op : AssignOp) :
    (t.assigned target op).IsSorted := by
  rw [SymbolTable.assigned]
  split
  · split
    · split
      · exact h
      · exact h.define _ _
    · exact h
  · exact h

namespace Retouches

variable {F : ScopeId → Scope → Scope}

theorem assigned (hF : Retouches F t) (target : Expr) (op : AssignOp) :
    (t.assigned target op).mapped F = (t.mapped F).assigned target op := by
  rw [SymbolTable.assigned, SymbolTable.assigned]
  split
  · cases target.varName? with
    | none => rfl
    | some name =>
      dsimp only
      rw [hF.contains_mapped name]
      split
      · rfl
      · exact hF.define name .var
  · rfl

/-- A function is defined with its declaration if a retouch attaches it. -/
theorem declare (hF : Retouches F t) (hsorted : t.IsSorted) (signature : Signature)
    (body : List Expr) (scope : ScopeId) (position : Position) :
    let decl := FunctionDecl.mk signature body scope position
    (t.defineFunction signature).mapped
        (fun i ↦ if i = t.current then attachIn signature.name decl else F i) =
      (t.mapped F).declare decl := by
  intro decl
  have hgrows := Grows.defineAliases (t := t) signature.name signature.aliases
  have hsorted' := hsorted.defineAliases signature.name signature.aliases
  have hdefine := (hF.grows hgrows).define_attaching hsorted' signature.name signature decl
  rw [hgrows.current, hF.defineAliases] at hdefine
  exact hdefine

end Retouches

end SymbolTable

/-- The names that the scopes of the trees in a part start out with, if they are blocks. -/
def Role.names : Role → List String
  | .block names => names
  | _ => []

/-- Going over some trees changes one table into another. -/
structure ReplaysTo (t : SymbolTable) (parts : List (List String × Expr)) (t' : SymbolTable) :
    Prop where
  /-- The table has grown. -/
  grows : t.Grows t'
  /-- Scopes are still sorted. -/
  isSorted : t'.IsSorted
  /-- This holds up to any retouch. -/
  replay : ∀ F, Retouches F t → replayParts parts (t.mapped F) = t'.mapped F

/-- If the current scope is there and all are sorted, going over some trees changes one table into
another. -/
def Replays (t : SymbolTable) (parts : List (List String × Expr)) (t' : SymbolTable) : Prop :=
  t.current < t.scopes.size → t.IsSorted → ReplaysTo t parts t'

namespace Replays

variable {t t₁ t₂ t' : SymbolTable} {parts more : List (List String × Expr)}
    {e : Expr} {form : Form}
  {position : Position} {scope outer : ScopeId} {kind : ScopeKind} {names given : List String}

theorem nil : Replays t [] t := by
  intro _ hsorted
  refine ⟨.refl, hsorted, fun F _ ↦ ?_⟩
  rw [replayParts]

theorem append (h : Replays t parts t₁) (h' : Replays t₁ more t₂) :
    Replays t (parts ++ more) t₂ := by
  intro hcurrent hsorted
  have hparts := h hcurrent hsorted
  have hcurrent₁ : t₁.current < t₁.scopes.size := by
    rw [hparts.grows.current]
    exact Nat.lt_of_lt_of_le hcurrent hparts.grows.size
  have hmore := h' hcurrent₁ hparts.isSorted
  refine ⟨hparts.grows.trans hmore.grows, hmore.isSorted, fun F hF ↦ ?_⟩
  rw [replayParts_append, hparts.replay F hF, hmore.replay F (hF.grows hparts.grows)]

/-- A node that defines nothing by itself. -/
theorem node (hform : form.IsSilent) (h : Replays t form.parts t') :
    Replays t [(names, .mk form position scope)] t' := by
  intro hcurrent hsorted
  have hparts := h hcurrent hsorted
  refine ⟨hparts.grows, hparts.isSorted, fun F hF ↦ ?_⟩
  rw [replayParts_singleton, Expr.replay, Expr.form, hform]
  exact hparts.replay F hF

/-- A node that opens a scope. -/
theorem opening
    (hform : ∀ visit t, form.settle (form.around names visit (form.announce t)) =
      t.inside kind given visit)
    (h : Replays (t.opened kind given) form.parts t₁) (hpop : t₁.pop = .ok (outer, t₂)) :
    Replays t [(names, .mk form position scope)] t₂ := by
  intro _ hsorted
  have hinside : ReplaysTo (t.opened kind given) form.parts t₁ := by
    refine h ?_ (hsorted.opened _ _)
    rw [SymbolTable.current_opened, SymbolTable.size_opened]
    exact Nat.lt_succ_self _
  rw [hinside.grows.pop_inside] at hpop
  cases hpop
  refine ⟨hinside.grows.inside, hinside.isSorted, fun F hF ↦ ?_⟩
  rw [replayParts_singleton, Expr.replay, Expr.form, hform, SymbolTable.inside,
    ← (hF.opened kind given).mapped_opened, hinside.replay F (hF.opened kind given)]
  rfl

/-- A declared variable is defined before its value is visited. -/
theorem declaration {name : String} {value : Option Expr} {place : Position} {around : ScopeId}
    (h : Replays (t.defineVar name) (value.toList.map fun e ↦ ([], e)) t₁) :
    Replays t
      [(names, .mk (.assign (.mk (.var name) place around) .assign value true) position scope)]
      t₁ := by
  intro hcurrent hsorted
  have hdefine : t.Grows (t.defineVar name) := .define name .var
  have hvalue : ReplaysTo (t.defineVar name) (value.toList.map fun e ↦ ([], e)) t₁ := by
    refine h ?_ (hsorted.define _ _)
    rw [hdefine.current]
    exact Nat.lt_of_lt_of_le hcurrent hdefine.size
  refine ⟨hdefine.trans hvalue.grows, hvalue.isSorted, fun F hF ↦ ?_⟩
  have hvar (t : SymbolTable) : (Expr.mk (.var name) place around).replay [] t = t := by
    rw [Expr.replay]
    exact replayParts.eq_def [] t
  have hreplay := hvalue.replay F (hF.grows hdefine)
  rw [SymbolTable.defineVar, hF.define] at hreplay
  rw [replayParts_singleton, Expr.replay]
  change replayParts (([], .mk (.var name) place around) :: value.toList.map fun e ↦ ([], e))
    ((t.mapped F).define name .var) = t₁.mapped F
  rw [replayParts, hvar]
  exact hreplay

/-- An assignment defines its target behind its value. -/
theorem assignment {target value : Expr} {op : AssignOp}
    (h : Replays t ([([], target)] ++ [([], value)]) t₁) :
    Replays t [(names, .mk (.assign target op (some value) false) position scope)]
      (t₁.assigned target op) := by
  intro hcurrent hsorted
  have hparts := h hcurrent hsorted
  refine ⟨hparts.grows.trans (SymbolTable.grows_assigned _ _ _), hparts.isSorted.assigned _ _,
    fun F hF ↦ ?_⟩
  rw [(hF.grows hparts.grows).assigned, ← hparts.replay F hF, replayParts_singleton, Expr.replay]
  rfl

/-- A function is defined before its body is visited, and its declaration is attached behind it. -/
theorem function {signature : Signature} {body : List Expr} {around : ScopeId} {place : Position}
    (h : Replays ((t.defineFunction signature).opened .function signature.params)
      (body.map fun e ↦ ([], e)) t₁)
    (hpop : t₁.pop = .ok (outer, t₂)) :
    Replays t [(names, .mk (.functionDecl (.mk signature body around place)) position scope)]
      (t₂.attachDecl signature.name (.mk signature body around place)) := by
  intro hcurrent hsorted
  have hfunction := Grows.defineFunction (t := t) signature
  have hbody : ReplaysTo ((t.defineFunction signature).opened .function signature.params)
      (body.map fun e ↦ ([], e)) t₁ := by
    refine h ?_ ((hsorted.defineFunction signature).opened _ _)
    rw [SymbolTable.current_opened, SymbolTable.size_opened]
    exact Nat.lt_succ_self _
  have hattach := SymbolTable.attachDecl_eq_modify (.mk signature body around place)
    (fun _ ↦ hbody.grows) hpop hcurrent
  have hgrows := SymbolTable.grows_attachDecl (.mk signature body around place)
    (fun _ ↦ hbody.grows) hpop hcurrent
  have hinside := hbody.grows.inside
  have hsorted₂ : t₂.IsSorted := hbody.isSorted.pop hpop
  rw [hbody.grows.pop_inside] at hpop
  cases hpop
  have hbehind := hfunction.trans hinside
  refine ⟨hbehind.trans hgrows, hsorted₂.attachDecl _ _, fun F hF ↦ ?_⟩
  -- inside the body, the replay knows the declaration already
  have hattaching := (hF.grows hfunction).attaching (hfunction.current ▸
    Nat.lt_of_lt_of_le hcurrent hfunction.size) .function signature.params signature.name
    (.mk signature body around place)
  have hdeclare := hF.declare hsorted signature body around place
  have hreplay := hbody.replay _ hattaching
  rw [hattaching.mapped_opened, hfunction.current, hdeclare] at hreplay
  rw [hattach, (hF.grows hbehind).mapped_attach, replayParts_singleton, Expr.replay]
  change ((t.mapped F).declare _).inside .function signature.params
    (replayParts (body.map fun e ↦ ([], e))) = _
  rw [SymbolTable.inside, hreplay, ← hdeclare, hfunction.current]
  change (t₁.mapped _).backTo (t.defineFunction signature).current = _
  rw [hfunction.current]
  rfl

/-- The place of a node plays no part. -/
theorem moved (h : Replays t [(names, e)] t') : Replays t [(names, e.moveTo position)] t' := by
  intro hcurrent hsorted
  obtain ⟨hgrows, hsorted', hreplay⟩ := h hcurrent hsorted
  refine ⟨hgrows, hsorted', fun F hF ↦ ?_⟩
  rw [← hreplay F hF, replayParts_singleton, replayParts_singleton]
  have hform : (e.moveTo position).form = e.form := rfl
  exact Expr.replay_eq_of_form hform names _

end Replays

namespace Derives

variable {limits : Limits} {r : Role} {d : Openings} {t t' : SymbolTable} {es : List Expr}

/-- **Going over the trees of a derivation gives the table behind it.** -/
theorem replays (h : Derives limits r d t es t') :
    Replays t (es.map fun e ↦ (r.names, e)) t' := by
  induction h with
  | nil => exact .nil
  | append _ _ ih ih' =>
    rw [List.map_append]
    exact ih.append ih'
  | constant | var | partConstant | breakLoop | continueLoop => exact .node (fun _ _ _ ↦ rfl) .nil
  | array _ ih | member _ _ ih | callQualified _ _ ih | postChange _ ih | callLoose _ ih
  | prefixed _ ih | map _ ih | interpolated _ ih | declarations _ ih | returning _ ih
  | throwing _ ih => exact .node (fun _ _ _ ↦ rfl) ih
  | parens _ _ ih | group _ _ ih | links _ ih | atom _ _ ih | single _ ih | partExpression _ ih
  | simpleExpression _ ih | chained _ _ ih | alternativeBlock _ ih | simple _ ih | branching _ ih
  | nested _ ih => exact ih
  | index _ _ _ ih ih' | callComputed _ _ _ ih ih' | whileLoop _ _ ih ih' | forEach _ _ ih ih'
  | tryCatch _ _ ih ih' => exact .node (fun _ _ _ ↦ rfl) (ih.append ih')
  | conditional _ _ _ ih₁ ih₂ ih₃ => exact .node (fun _ _ _ ↦ rfl) ((ih₁.append ih₂).append ih₃)
  | @operation d t t₁ t₂ left right op least _ _ _ ih ih' =>
    cases op <;> exact .node (fun _ _ _ ↦ rfl) (ih.append ih')
  | declaration _ ih => exact ih.declaration
  | assignment _ _ ih ih' => exact (ih.append ih').assignment
  | declared _ ih => exact ih.moved
  | lambda _ hpop _ ih | block _ hpop _ ih => exact .opening (fun _ _ ↦ rfl) ih hpop
  | forLoop _ _ _ _ hpop ih₁ ih₂ ih₃ ih₄ =>
    exact .opening (fun _ _ ↦ rfl) (((ih₁.append ih₂).append ih₃).append ih₄) hpop
  | function _ hpop _ hdecl ih =>
    subst hdecl
    exact ih.function hpop

end Derives

namespace Frontend

variable {f : Frontend} {text : String} {p : Program}

/-- **The symbols of a script are determined by its tree.** The table at the end of an accepted
script is that of the host after its statements were gone over in order, where declared variables
are defined before their values, plain assignments define unknown names behind their values,
functions are defined with their declarations and behind their aliases before their bodies,
parameters, loop variables and caught errors when their scopes open, and nothing else is defined. -/
theorem parse_symbols_eq_replay (hf : f.registry.entries = []) (hhost : f.host.IsHost)
    (h : f.parse text = .ok p) : p.symbols = f.host.replay p.statements := by
  obtain ⟨hcurrent, hsize⟩ := hhost.shape
  have hreplay : ReplaysTo f.host (p.statements.map fun e ↦ ([], e)) p.symbols := by
    refine (parse_derives hf h).replays ?_ hhost.isSorted
    rw [hcurrent, hsize]
    decide
  have hid : Retouches (fun _ ↦ id) f.host :=
    ⟨fun _ _ ↦ rfl, fun _ _ _ ↦ rfl, rfl, fun _ _ ↦ rfl⟩
  have hsymbols := hreplay.replay _ hid
  rw [SymbolTable.mapped_id, SymbolTable.mapped_id] at hsymbols
  exact hsymbols.symm

/-- A function with an alias that calls itself, an assignment in its body, and a name that is
declared again where it is in sight. -/
def sampleDefinitions : String :=
  "function f, g(a) \x7b b = f(a); function h \x7b g(b) \x7d \x7d\n" ++
  "var x = y, z = function(c) \x7b x = c \x7d\nfor e in z \x7b w = e; x = w \x7d"

theorem parse_symbols_eq_replay_sampleDefinitions :
    ∃ p, standard.parse sampleDefinitions = .ok p ∧
      p.symbols = standard.host.replay p.statements := by
  obtain ⟨p, h⟩ : ∃ p, standard.parse sampleDefinitions = .ok p :=
    exists_eq_ok_of_isSome (by decide +kernel)
  exact ⟨p, h, parse_symbols_eq_replay rfl .empty h⟩

end Frontend

end ScriptFront
