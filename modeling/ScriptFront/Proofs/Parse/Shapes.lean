import ScriptFront.Proofs.Lexer.Sections
import ScriptFront.Proofs.Operands
import ScriptFront.Proofs.Parse.Derived
import ScriptFront.Proofs.Parse.Stacks
import ScriptFront.Proofs.Tree.Shape

/-!
# The shape of accepted trees

Every tree that the parser makes is of the right shape: only expressions stand for values, bodies
are blocks, and what is changed can be changed. None of this depends on names, counters or on what
was read before, so a production is described by what it gives in every state, and the statement
about a goal, `Parse.Shaped`, is once more the invariant of the recursion.

One property does depend on the tokens. The pieces of a string are the parts of its token, and rules
may put a token without parts into the stream. That strings have pieces is claimed only if `strict`
holds, and then the tokens of the window have to be those of a text.
-/

namespace ScriptFront

namespace Window

/-- All tokens are held, they are such as a text can have, and their strings have parts. -/
structure Filled (w : Window Lexer) : Prop where
  /-- The tokens are those of a text. -/
  sound : Sound True w
  /-- Strings have parts. -/
  strings : ∀ t ∈ w.ahead, t.lexeme.EachString (· ≠ [])

variable {α β : Type} {w w' : Window Lexer} {read : List Token} {f : WindowM Lexer α}

theorem Filled.leads (h : w.Filled) (hleads : Leads True w read w') : w'.Filled := by
  obtain ⟨hahead, -⟩ := hleads.ahead_eq trivial (h.sound.genuine trivial).1
  refine ⟨hleads.sound h.sound, fun t ht ↦ h.strings t ?_⟩
  rw [hahead]
  exact List.mem_append_right _ ht

theorem Filled.current (h : w.Filled) :
    w.current.IsGenuine ∧ w.current.lexeme.EachString (· ≠ []) := by
  obtain ⟨rest, hcons⟩ := h.sound.exists_cons
  have hmem : w.current ∈ w.ahead := hcons ▸ List.mem_cons_self ..
  exact ⟨(h.sound.genuine trivial).2 _ hmem, h.strings _ hmem⟩

theorem filled_ofTokens {list : List Token} (hgenuine : TokensGenuine list)
    (heach : TokensEachString (· ≠ []) list) (lookahead : Nat) :
    (ofTokens list lookahead).Filled := by
  refine ⟨sound_ofTokens list lookahead fun _ ↦ hgenuine, fun t ht ↦ ?_⟩
  rw [ahead_ofTokens] at ht
  have hmem := (List.dropWhile_suffix _).mem ht
  rcases terminated_cases list with ⟨heq, -⟩ | ⟨u, hu, heq, -⟩
  · exact tokensEachString_iff.mp heach t (heq ▸ hmem)
  · rw [heq, List.mem_append, List.mem_singleton] at hmem
    rcases hmem with hmem | rfl
    · exact tokensEachString_iff.mp heach t hmem
    · refine Lexeme.eachString_of_kind fun hkind ↦ ?_
      rw [Token.isEnd, Token.kind, hkind] at hu
      cases hu

/-- The computation leaves filled windows filled. -/
def KeepsFilled (f : WindowM Lexer α) : Prop :=
  ∀ w, w.Filled → Ensures (fun _ ↦ True) f w fun _ w' ↦ w'.Filled

theorem KeepsFilled.of_leads (h : ∀ w, Sound True w →
    Ensures ScriptError.WithinFuel f w fun _ w' ↦ ∃ read, Leads True w read w') :
      KeepsFilled f := by
  intro w hw
  refine .intro (fun a w' hrun ↦ ?_) fun _ _ _ ↦ trivial
  obtain ⟨read, hleads⟩ := (h w hw.sound).of_ok hrun
  exact hw.leads hleads

theorem keepsFilled_advance (count : Nat) (passNewLine : Bool) :
    KeepsFilled (advance count passNewLine) :=
  .of_leads fun _ hw ↦ (hw.advance_ensures passNewLine count).mono fun _ _ h ↦ h.imp fun _ h ↦ h.1

theorem keepsFilled_skipNewLines : KeepsFilled skipNewLines :=
  .of_leads fun _ hw ↦ hw.skipNewLines_ensures.mono fun _ _ h ↦ h.leads.imp fun _ h ↦ h.1

theorem keepsFilled_peek (count : Nat) (passNewLine : Bool) :
    KeepsFilled (peek count passNewLine) :=
  .of_leads fun _ hw ↦ (hw.peek_ensures count passNewLine).mono fun _ _ h ↦ ⟨[], h.1.leads⟩

theorem keepsFilled_expect (text : String) (passNewLine : Bool) :
    KeepsFilled (expect text passNewLine) :=
  fun w hw ↦ .get_bind <| .branch (fun _ ↦ keepsFilled_advance 1 passNewLine w hw) fun _ ↦
    .get_bind (.throw trivial)

theorem keepsFilled_expectName (passNewLine : Bool) : KeepsFilled (expectName passNewLine) := by
  intro w hw
  rw [expectName, expectKind]
  refine Ensures.bind (Q := fun _ w' ↦ w'.Filled) (.get_bind (.branch (fun _ ↦ ?_) fun _ ↦ ?_))
    fun _ _ h ↦ .pure h
  · exact (keepsFilled_advance 1 passNewLine w hw).bind fun _ _ h ↦ .pure h
  · exact .get_bind (.throw trivial)

end Window

/-! ## Values -/

/-- A tree of the right shape that stands for a value. -/
structure Expr.IsValue (strict : Prop) (e : Expr) : Prop where
  /-- All nodes are of the right shape. -/
  every : e.Every (Form.IsShaped strict)
  /-- The node is no statement. -/
  expression : e.isStatement = false

section

variable {strict : Prop} {form : Form} {position : Position} {scope : ScopeId} {e left right : Expr}

theorem Form.mem_children_of_mem_operands (h : e ∈ form.operands) : e ∈ form.children := by
  cases form <;> simp_all [operands, children]

theorem Expr.every_mk (hshape : form.IsShaped strict)
    (hchildren : ∀ child ∈ form.children, child.Every (Form.IsShaped strict)) :
    Expr.Every (Form.IsShaped strict) (.mk form position scope) := .node hshape hchildren

theorem Expr.IsValue.of_form_eq {e' : Expr} (h : e.IsValue strict) (heq : e'.form = e.form) :
    e'.IsValue strict :=
  ⟨h.every.of_form_eq heq, by rw [isStatement, heq]; exact h.expression⟩

/-- Most expressions ask nothing more of their parts than to be values. -/
theorem Expr.isValue_mk (hordinary : form.isOrdinary = true) (hexpr : form.isStatement = false)
    (hchildren : ∀ child ∈ form.children, child.IsValue strict) :
    Expr.IsValue strict (.mk form position scope) := by
  have hbodies : form.bodies = [] := by
    cases form <;> first | rfl | cases hexpr
  refine ⟨.node (.of_isOrdinary hordinary (fun c hc ↦ ?_) fun c hc ↦ ?_) fun c hc ↦
    (hchildren c hc).every, hexpr⟩
  · exact (hchildren c (Form.mem_children_of_mem_operands hc)).expression
  · exact absurd (hbodies ▸ hc : c ∈ []) (by simp)

theorem Expr.isValue_operation {op : Operator} (hleft : left.IsValue strict)
    (hright : right.IsValue strict) : (Expr.operation op left right).IsValue strict := by
  have hboth : ∀ e ∈ [left, right], e.IsValue strict := by simp [hleft, hright]
  cases op <;> exact isValue_mk rfl rfl hboth

theorem Expr.isValue_change {op : UnaryOp} (he : e.IsValue strict)
    (hassign : e.isAssignable = true) :
    Expr.IsValue strict (.mk (.unary op e) position scope) :=
  ⟨every_mk (Form.isShaped_unary_of_isAssignable hassign he.expression) (by
    simpa [Form.children] using he.every), rfl⟩

end

namespace Yard

variable {strict : Prop}

/-- All operands stand for values. -/
def HoldsValues (strict : Prop) (y : Yard) : Prop := ∀ e ∈ y.operands, e.IsValue strict

theorem isCombining_isValue : IsCombining (Expr.IsValue strict) := fun _ _ _ hleft hright ↦
  Expr.isValue_operation hleft hright

theorem HoldsValues.pushOperand {y : Yard} {e : Expr} (h : y.HoldsValues strict)
    (he : e.IsValue strict) : (y.pushOperand e).HoldsValues strict := Holds.pushOperand h he

theorem HoldsValues.pushOperator {y y' : Yard} {op : Operator} (h : y.HoldsValues strict)
    (hpush : y.pushOperator op = some y') : y'.HoldsValues strict :=
  Holds.pushOperator isCombining_isValue h hpush

theorem HoldsValues.closeParen {y y' : Yard} {group : Expr} (h : y.HoldsValues strict)
    (hclose : y.closeParen = some (group, y')) : group.IsValue strict ∧ y'.HoldsValues strict :=
  Holds.closeParen isCombining_isValue h hclose

theorem HoldsValues.finish {y : Yard} {e : Expr} (h : y.HoldsValues strict)
    (hfinish : y.finish = some e) : e.IsValue strict := Holds.finish isCombining_isValue h hfinish

end Yard

namespace Parse

variable {strict : Prop} {α β : Type} {ctx : ParseContext} {sub : Subparser} {start : Position}
  {fuel : Nat}

/-! ## What a production gives -/

/-- The window is filled, if that is asked for. -/
def Fine (strict : Prop) (s : ParserState) : Prop := strict → s.tokens.Filled

/-- Wherever the computation succeeds, its result satisfies `P`. -/
def Gives (strict : Prop) (x : Parse α) (P : α → Prop) : Prop :=
  ∀ s, Fine strict s → Upholds x s fun a s' ↦ Fine strict s' ∧ P a

namespace Gives

variable {x y : Parse α} {P Q : α → Prop} {P' : β → Prop}

theorem pure {a : α} (h : P a) : Gives strict (pure a) P := fun _ hs ↦ .pure ⟨hs, h⟩

theorem bind {f : α → Parse β} (h : Gives strict x P) (hf : ∀ a, P a → Gives strict (f a) P') :
    Gives strict (x >>= f) P' :=
  fun s hs ↦ (h s hs).bind fun a s₁ h₁ ↦ hf a h₁.2 s₁ h₁.1

theorem mono (h : Gives strict x P) (hPQ : ∀ a, P a → Q a) : Gives strict x Q :=
  fun s hs ↦ (h s hs).mono fun a _ h ↦ ⟨h.1, hPQ a h.2⟩

theorem branch {p : Prop} [Decidable p] (hx : p → Gives strict x P) (hy : ¬ p → Gives strict y P) :
    Gives strict (if p then x else y) P :=
  fun s hs ↦ .branch (fun h ↦ hx h s hs) fun h ↦ hy h s hs

/-- What does not change the window. -/
theorem of_tokens_eq (h : ∀ s a s', x s = .ok a s' → s'.tokens = s.tokens) :
    Gives strict x fun _ ↦ True :=
  fun s hs ↦ .intro (fun a s' hrun ↦ ⟨fun hstrict ↦ h s a s' hrun ▸ hs hstrict, trivial⟩)
    fun _ _ _ ↦ trivial

/-- A question about the state. -/
theorem ask {g : ParserState → α} (hx : ∀ s, x s = .ok (g s) s) : Gives strict x fun _ ↦ True :=
  of_tokens_eq fun s a s' hrun ↦ by
    rw [hx] at hrun
    cases hrun
    rfl

theorem throw {e : ScriptError} : Gives strict (throw e : Parse α) P := fun _ _ ↦ .throw trivial

theorem fail {cause : Cause} : Gives strict (fail cause) P := fun _ _ ↦ upholds_fail

theorem failExpected {wanted : String} : Gives strict (failExpected wanted) P :=
  fun _ _ ↦ upholds_failExpected

/-- A check that is required. -/
theorem require {p : Prop} [Decidable p] {z : Parse Unit} {f : Unit → Parse α}
    (hz : Gives strict z fun _ ↦ False) (h : ¬ p → Gives strict (f ()) P) :
    Gives strict (if p then z >>= f else f ()) P :=
  .branch (fun _ ↦ hz.bind fun _ h ↦ h.elim) h

/-- A step that is taken or not, before what follows in any case. -/
theorem optional {p : Prop} [Decidable p] {z : Parse Unit} {f : Unit → Parse α}
    (hz : Gives strict z fun _ ↦ True) (hf : ∀ u, Gives strict (f u) P) :
    Gives strict (if p then z >>= f else f ()) P :=
  .branch (fun _ ↦ hz.bind fun u _ ↦ hf u) fun _ ↦ hf ()

theorem onTokens {f : WindowM Lexer α} (h : Window.KeepsFilled f) :
    Gives strict (onTokens f) fun _ ↦ True := by
  intro s hs
  refine Ensures.mapState (Q := fun _ w ↦ strict → w.Filled) (onTokens_run f) ?_
    fun _ _ h ↦ ⟨fun hstrict ↦ h hstrict, trivial⟩
  exact .intro (fun a w hrun hstrict ↦ (h s.tokens (hs hstrict)).of_ok hrun) fun _ _ _ ↦ trivial

theorem advance (count : Nat) (passNewLine : Bool) :
    Gives strict (advance count passNewLine) fun _ ↦ True :=
  .onTokens (Window.keepsFilled_advance count passNewLine)

theorem skipNewLines : Gives strict skipNewLines fun _ ↦ True :=
  .onTokens Window.keepsFilled_skipNewLines

theorem peek (count : Nat) (passNewLine : Bool) :
    Gives strict (peek count passNewLine) fun _ ↦ True :=
  .onTokens (Window.keepsFilled_peek count passNewLine)

theorem expect (text : String) (passNewLine : Bool) :
    Gives strict (expect text passNewLine) fun _ ↦ True :=
  .onTokens (Window.keepsFilled_expect text passNewLine)

theorem expectName (passNewLine : Bool) : Gives strict (expectName passNewLine) fun _ ↦ True :=
  .onTokens (Window.keepsFilled_expectName passNewLine)

theorem is (text : String) : Gives strict (is text) fun _ ↦ True := .ask fun _ ↦ rfl

theorem position : Gives strict position fun _ ↦ True := .ask fun _ ↦ rfl

theorem rounds : Gives strict rounds fun _ ↦ True := .ask fun _ ↦ rfl

theorem scope : Gives strict scope fun _ ↦ True := .ask fun _ ↦ rfl

/-- The current token has parts, if it is a string with embedded sections. -/
theorem current : Gives strict current fun t ↦ strict → t.IsGenuine ∧
    t.lexeme.EachString (· ≠ []) :=
  fun _ hs ↦ .known rfl ⟨hs, fun hstrict ↦ (hs hstrict).current⟩

theorem limit (depth max : Nat) (what : Nesting) :
    Gives strict (ParseContext.limit depth max what) fun _ ↦ True :=
  .branch (fun _ ↦ .fail) fun _ ↦ .pure trivial

theorem modify {m : ParserState → ParserState} (hm : ∀ s, (m s).tokens = s.tokens) :
    Gives strict (modify m : Parse Unit) fun _ ↦ True :=
  .of_tokens_eq fun s a s' hrun ↦ by
    cases hrun
    exact hm s

theorem enterParen : Gives strict ctx.enterParen fun _ ↦ True :=
  bind (P := fun _ ↦ True) (modify fun _ ↦ rfl) fun _ _ ↦
    bind (P := fun _ ↦ True) (ask fun _ ↦ rfl) fun _ _ ↦ limit _ _ _

theorem enterCall : Gives strict ctx.enterCall fun _ ↦ True :=
  bind (P := fun _ ↦ True) (modify fun _ ↦ rfl) fun _ _ ↦
    bind (P := fun _ ↦ True) (ask fun _ ↦ rfl) fun _ _ ↦ limit _ _ _

theorem enterBlock : Gives strict ctx.enterBlock fun _ ↦ True :=
  bind (P := fun _ ↦ True) (modify fun _ ↦ rfl) fun _ _ ↦
    bind (P := fun _ ↦ True) (ask fun _ ↦ rfl) fun _ _ ↦ limit _ _ _

theorem pushScope (kind : ScopeKind) : Gives strict (pushScope kind) fun _ ↦ True :=
  .of_tokens_eq fun _ _ _ hrun ↦ by
    cases hrun
    rfl

theorem popScope : Gives strict popScope fun _ ↦ True := by
  refine .of_tokens_eq fun s a s' hrun ↦ ?_
  rw [Parse.popScope, get_bind_run] at hrun
  cases hpop : s.symbols.pop with
  | ok popped =>
    rw [hpop] at hrun
    cases hrun
    rfl
  | error cause =>
    rw [hpop] at hrun
    cases hrun

theorem requireProgress (before : Nat × Nat) : Gives strict (requireProgress before) fun _ ↦ True :=
  bind (P := fun _ ↦ True) (ask fun _ ↦ rfl) fun _ _ ↦
    bind (P := fun _ ↦ True) (ask fun _ ↦ rfl) fun _ _ ↦
      .branch (fun _ ↦ bind (P := fun _ ↦ True) (ask fun _ ↦ rfl) fun _ _ ↦ .fail) fun _ ↦
        .pure trivial

/-- A node that is put into the current scope. -/
theorem node {form : Form} {position : Position} {P : Expr → Prop}
    (h : ∀ scope, P (.mk form position scope)) : Gives strict (node form position) P :=
  scope.bind fun scope _ ↦ .pure (h scope)

theorem deeper (h : Gives strict x P) : Gives strict (ctx.deeper x) P := by
  intro s hs
  refine Ensures.mapState (Q := fun a s' ↦ Fine strict s' ∧ P a) (deeper_run ctx x) ?_ fun _ _ h ↦ h
  exact .get_bind
    ((limit _ _ _ _ (show Fine strict { s with expressionDepth := s.expressionDepth + 1 }
    from hs)).bind fun _ s₁ h₁ ↦ h s₁ h₁.1)

/-- Other tokens are parsed, if they fill a window, too. -/
theorem aside {list : List Token}
    (hlist : strict → TokensGenuine list ∧ TokensEachString (· ≠ []) list) (h : Gives strict x P) :
    Gives strict (aside list x) P := by
  intro s hs
  refine Ensures.mapState (Q := fun a _ ↦ P a) (aside_run list x) ?_ fun _ _ h ↦ ⟨hs, h⟩
  refine (h _ fun hstrict ↦ ?_).mono fun _ _ h ↦ h.2
  exact Window.filled_ofTokens (hlist hstrict).1 (hlist hstrict).2 _

/-! ## Steps without trees -/

theorem passSeparatorsWithin (n : Nat) : Gives strict (passSeparatorsWithin n) fun _ ↦ True := by
  induction n with
  | zero => exact .fail
  | succ n ih =>
    refine skipNewLines.bind fun _ _ ↦ (is ";").bind fun _ _ ↦ ?_
    exact .branch (fun _ ↦ (advance 1 true).bind fun _ _ ↦ ih) fun _ ↦ .pure trivial

theorem passSeparators : Gives strict passSeparators fun _ ↦ True :=
  rounds.bind fun n _ ↦ passSeparatorsWithin n

theorem continuesWith (text : String) : Gives strict (continuesWith text) fun _ ↦ True := by
  refine bind (P := fun _ ↦ True) (ask fun _ ↦ rfl) fun _ _ ↦ .branch (fun _ ↦ ?_) fun _ ↦ is text
  exact (peek 1 true).bind fun _ _ ↦ .optional skipNewLines fun _ ↦ is text

theorem endStatement : Gives strict endStatement fun _ ↦ True :=
  bind (P := fun _ ↦ True) (ask fun _ ↦ rfl) fun _ _ ↦
    .branch (fun _ ↦ advance 1 false) fun _ ↦ .branch (fun _ ↦ .failExpected) fun _ ↦ .pure trivial

theorem paramsWithin (n : Nat) (names : List String) :
    Gives strict (paramsWithin ctx n names) fun _ ↦ True := by
  induction n generalizing names with
  | zero => exact .fail
  | succ n ih =>
    refine (is ")").bind fun _ _ ↦
      .branch (fun _ ↦ (expect _ _).bind fun _ _ ↦ .pure trivial) fun _ ↦ ?_
    refine (expectName _).bind fun name _ ↦ .require .fail fun _ ↦ (is ",").bind fun _ _ ↦ ?_
    refine .branch (fun _ ↦ (advance 1 true).bind fun _ _ ↦ ih _) fun _ ↦ (is ")").bind fun _ _ ↦ ?_
    exact .require .failExpected fun _ ↦ ih _

theorem params : Gives strict (params ctx) fun _ ↦ True :=
  (expect _ _).bind fun _ _ ↦ rounds.bind fun n _ ↦ paramsWithin n []

theorem aliasesWithin (n : Nat) (done : List String) :
    Gives strict (aliasesWithin ctx n done) fun _ ↦ True := by
  induction n generalizing done with
  | zero => exact .fail
  | succ n ih =>
    refine (is ",").bind fun _ _ ↦ .branch (fun _ ↦ (advance 1 false).bind fun _ _ ↦ ?_) fun _ ↦
      .pure trivial
    exact (expectName _).bind fun name _ ↦ .require .fail fun _ ↦ ih _

theorem mapKey : Gives strict mapKey fun _ ↦ True := by
  refine current.bind fun token _ ↦ ?_
  split
  · exact .pure trivial
  · exact .pure trivial
  · exact .pure trivial
  · exact .failExpected

theorem isForEach (parens : Bool) : Gives strict (isForEach parens) fun _ ↦ True :=
  (peek _ _).bind fun _ _ ↦ .branch (fun _ ↦ (peek _ _).bind fun _ _ ↦ .pure trivial) fun _ ↦
  .pure trivial

theorem settled {found : Option α} : Gives strict (settled found) fun a ↦ found = some a := by
  cases found with
  | some a => exact .pure rfl
  | none => exact .failExpected

end Gives

/-! ## Goals -/

/-- A tree of the right shape, be it a statement or not. -/
abbrev Shapely (strict : Prop) (e : Expr) : Prop := e.Every (Form.IsShaped strict)

/-- Every goal that is reached gives trees of the right shape. -/
structure Shaped (strict : Prop) (sub : Subparser) : Prop where
  /-- Statements. -/
  statement : Gives strict (sub .statement) fun found ↦ ∀ e ∈ found, Shapely strict e
  /-- Conditionals. -/
  conditional : Gives strict (sub .conditional) fun e ↦ Shapely strict e ∧ e.isConditional = true
  /-- Expressions. -/
  expression : ∀ grouped, Gives strict (sub (.expression grouped)) (Expr.IsValue strict)
  /-- Operands. -/
  operand : Gives strict (sub .operand) (Expr.IsValue strict)
  /-- Embedded sections. -/
  embedded : ∀ list, (strict → TokensGenuine list ∧ TokensEachString (· ≠ []) list) →
    Gives strict (sub (.embedded list)) (Expr.IsValue strict)

/-! ## Blocks -/

/-- The trees are of the right shape, whatever they are. -/
abbrev AllShapely (strict : Prop) (es : List Expr) : Prop := ∀ e ∈ es, Shapely strict e

/-- The trees stand for values. -/
abbrev AllValues (strict : Prop) (es : List Expr) : Prop := ∀ e ∈ es, e.IsValue strict

theorem AllShapely.reverse {es : List Expr} (h : AllShapely strict es) :
    AllShapely strict es.reverse := fun e he ↦ h e (List.mem_reverse.mp he)

theorem AllValues.reverse {es : List Expr} (h : AllValues strict es) :
    AllValues strict es.reverse := fun e he ↦ h e (List.mem_reverse.mp he)

theorem AllValues.cons {e : Expr} {es : List Expr} (he : e.IsValue strict)
    (h : AllValues strict es) :
    AllValues strict (e :: es) := List.forall_mem_cons.mpr ⟨he, h⟩

theorem statementsWithin_gives {done : List Expr} (hsub : Shaped strict sub)
    (h : AllShapely strict done) :
    Gives strict (statementsWithin sub fuel done) (AllShapely strict) := by
  induction fuel generalizing done with
  | zero => exact .fail
  | succ fuel ih =>
    rw [statementsWithin]
    refine Gives.passSeparators.bind fun _ _ ↦ (Gives.is _).bind fun _ _ ↦
      .branch (fun _ ↦ .pure (h.reverse)) fun _ ↦ ?_
    refine .bind (P := fun _ ↦ True) (.ask fun _ ↦ rfl) fun _ _ ↦ .require .failExpected fun _ ↦ ?_
    refine .bind (P := fun _ ↦ True) (.ask fun _ ↦ rfl) fun before _ ↦ ?_
    refine hsub.statement.bind fun found hfound ↦ ?_
    cases found with
    | none => exact .failExpected
    | some statement =>
      exact (Gives.requireProgress before).bind fun _ _ ↦
        ih (List.forall_mem_cons.mpr ⟨hfound statement rfl, h⟩)

theorem statementsInScope_gives {kind : ScopeKind} {names : List String}
    (hsub : Shaped strict sub) :
    Gives strict (statementsInScope ctx sub kind names) fun found ↦ AllShapely strict found.1 := by
  rw [statementsInScope]
  refine (Gives.continuesWith _).bind fun _ _ ↦ .require .failExpected fun _ ↦ ?_
  refine Gives.enterBlock.bind fun _ _ ↦ (Gives.advance _ _).bind fun _ _ ↦ ?_
  refine (Gives.pushScope kind).bind fun scope _ ↦ ?_
  refine .bind (P := fun _ ↦ True) (.modify fun _ ↦ rfl) fun _ _ ↦ Gives.rounds.bind fun n _ ↦ ?_
  refine (statementsWithin_gives hsub (List.forall_mem_nil _)).bind fun statements h ↦ ?_
  refine Gives.popScope.bind fun _ _ ↦ .bind (P := fun _ ↦ True) (.modify fun _ ↦ rfl) fun _ _ ↦ ?_
  exact (Gives.advance _ _).bind fun _ _ ↦ .pure h

/-- A block whose statements are of the right shape is of the right shape. -/
theorem shapely_block {statements : List Expr} {position : Position} {scope : ScopeId}
    (h : AllShapely strict statements) : Shapely strict (.mk (.block statements) position scope) :=
  .node (.of_isOrdinary rfl (by simp [Expr.form, Form.operands]) (by simp [Expr.form, Form.bodies]))
    h

/-- What stands where a body is required. -/
structure IsBody (strict : Prop) (e : Expr) : Prop where
  /-- All nodes are of the right shape. -/
  shapely : Shapely strict e
  /-- The node is a block. -/
  block : e.isBlock = true

theorem blockWith_gives {names : List String} (hsub : Shaped strict sub) :
    Gives strict (blockWith ctx sub names) (IsBody strict) :=
  Gives.position.bind fun _ _ ↦ (statementsInScope_gives hsub).bind fun _ h ↦
    .pure ⟨shapely_block h, rfl⟩

/-! ## Arguments and links -/

theorem callArgsWithin_gives {args : List Expr} (hsub : Shaped strict sub)
    (h : AllValues strict args) :
    Gives strict (callArgsWithin sub fuel args) (AllValues strict) := by
  induction fuel generalizing args with
  | zero => exact .fail
  | succ fuel ih =>
    rw [callArgsWithin]
    refine Gives.skipNewLines.bind fun _ _ ↦ (Gives.is _).bind fun _ _ ↦
      .branch (fun _ ↦ .pure (h.reverse)) fun _ ↦ ?_
    refine (hsub.expression false).bind fun arg harg ↦ Gives.skipNewLines.bind fun _ _ ↦ ?_
    have hmore := h.cons harg
    refine (Gives.is _).bind fun _ _ ↦ .branch (fun _ ↦ ?_) fun _ ↦ (Gives.is _).bind fun _ _ ↦ ?_
    · exact (Gives.advance _ _).bind fun _ _ ↦ ih hmore
    · exact .require .failExpected fun _ ↦ ih hmore

theorem callArgs_gives (hsub : Shaped strict sub) :
    Gives strict (callArgs ctx sub) (AllValues strict) := by
  refine (Gives.expect _ _).bind fun _ _ ↦ Gives.enterCall.bind fun _ _ ↦
    Gives.rounds.bind fun n _ ↦ ?_
  refine (callArgsWithin_gives hsub (List.forall_mem_nil _)).bind fun args h ↦
    (Gives.advance _ _).bind fun _ _ ↦ ?_
  exact .bind (P := fun _ ↦ True) (.modify fun _ ↦ rfl) fun _ _ ↦ .pure h

theorem looseArgsWithin_gives {args : List Expr} (hsub : Shaped strict sub)
    (h : AllValues strict args) :
    Gives strict (looseArgsWithin sub fuel args) (AllValues strict) := by
  induction fuel generalizing args with
  | zero => exact .fail
  | succ fuel ih =>
    rw [looseArgsWithin]
    refine (Gives.is _).bind fun _ _ ↦ .branch (fun _ ↦ ?_) fun _ ↦ .pure (h.reverse)
    exact (Gives.advance _ _).bind fun _ _ ↦ (hsub.expression false).bind fun arg harg ↦
      ih (h.cons harg)

theorem looseArgs_gives (hsub : Shaped strict sub) :
    Gives strict (looseArgs ctx sub) (AllValues strict) := by
  refine Gives.enterCall.bind fun _ _ ↦ (hsub.expression false).bind fun first hfirst ↦
    Gives.rounds.bind fun n _ ↦ ?_
  refine (looseArgsWithin_gives hsub (List.forall_mem_singleton.mpr hfirst)).bind fun args h ↦ ?_
  exact .bind (P := fun _ ↦ True) (.modify fun _ ↦ rfl) fun _ _ ↦ .pure h

theorem isValue_callOn {target : Expr} {qualified : List String} {args : List Expr}
    (htarget : target.IsValue strict) (hargs : AllValues strict args) :
    (callOn target qualified args).IsValue strict := by
  rw [callOn]
  split
  · exact Expr.isValue_mk rfl rfl (hargs.cons htarget)
  · exact Expr.isValue_mk rfl rfl hargs

theorem linksWithin_gives {links : Nat} {e : Expr} {qualified : List String}
    (hsub : Shaped strict sub)
    (h : e.IsValue strict) :
    Gives strict (linksWithin ctx sub start fuel links e qualified) (Expr.IsValue strict) := by
  induction fuel generalizing links e qualified with
  | zero => exact .fail
  | succ fuel ih =>
    rw [linksWithin]
    refine Gives.current.bind fun t _ ↦ .branch (fun _ ↦ ?_) fun _ ↦ .branch (fun _ ↦ ?_) fun _ ↦
      .branch (fun _ ↦ ?_) fun _ ↦ .branch (fun hchange ↦ ?_) fun _ ↦
        .branch (fun hchange ↦ ?_) fun _ ↦
        .pure h
    · refine (Gives.limit _ _ _).bind fun _ _ ↦ (Gives.advance _ _).bind fun _ _ ↦ ?_
      refine (Gives.expectName _).bind fun name _ ↦ .bind (.node fun _ ↦ ?_) fun _ hlink ↦ ih hlink
      exact Expr.isValue_mk rfl rfl (by simpa [Form.children] using h)
    · refine (Gives.limit _ _ _).bind fun _ _ ↦ (Gives.advance _ _).bind fun _ _ ↦ ?_
      refine (hsub.expression false).bind fun key hkey ↦ Gives.skipNewLines.bind fun _ _ ↦ ?_
      refine (Gives.expect _ _).bind fun _ _ ↦ .bind (.node fun _ ↦ ?_) fun _ hlink ↦ ih hlink
      exact Expr.isValue_mk rfl rfl (by simpa [Form.children] using ⟨h, hkey⟩)
    · refine (Gives.limit _ _ _).bind fun _ _ ↦ (callArgs_gives hsub).bind fun args hargs ↦ ?_
      exact Gives.scope.bind fun _ _ ↦ ih ((isValue_callOn h hargs).of_form_eq rfl)
    · refine (Gives.advance _ _).bind fun _ _ ↦ .node fun _ ↦ ?_
      exact Expr.isValue_change h (Bool.and_eq_true _ _ ▸ hchange).2
    · refine (Gives.advance _ _).bind fun _ _ ↦ .node fun _ ↦ ?_
      exact Expr.isValue_change h (Bool.and_eq_true _ _ ▸ hchange).2

theorem links_gives {e : Expr} {qualified : List String} (hsub : Shaped strict sub)
    (h : e.IsValue strict) : Gives strict (links ctx sub e qualified) (Expr.IsValue strict) :=
  Gives.rounds.bind fun _ _ ↦ linksWithin_gives hsub h

/-! ## Forms of operands -/

/-- A node with nothing below it. -/
theorem isValue_leaf {form : Form} {position : Position} {scope : ScopeId}
    (hordinary : form.isOrdinary = true) (hexpr : form.isStatement = false)
    (hleaf : form.children = []) : Expr.IsValue strict (.mk form position scope) :=
  Expr.isValue_mk hordinary hexpr (by simp [hleaf])

theorem leafNode_gives {form : Form} {position : Position} (hordinary : form.isOrdinary = true)
    (hexpr : form.isStatement = false) (hleaf : form.children = []) :
    Gives strict (node form position) (Expr.IsValue strict) :=
  .node fun _ ↦ isValue_leaf hordinary hexpr hleaf

theorem named_gives {name : String} (hsub : Shaped strict sub) :
    Gives strict (named ctx sub name start) (Expr.IsValue strict) := by
  refine .bind (P := fun _ ↦ True) (.ask fun _ ↦ rfl) fun _ _ ↦ (Gives.is _).bind fun _ _ ↦
    (Gives.is _).bind fun _ _ ↦ .branch (fun _ ↦ Gives.current.bind fun _ _ ↦ ?_) fun _ ↦ ?_
  · have hcall (args : List Expr) (hargs : AllValues strict args) : Gives strict (do
        return ((Expr.call name args).moveTo start).inScope (← scope)) (Expr.IsValue strict) :=
      Gives.scope.bind fun _ _ ↦ .pure (Expr.isValue_mk rfl rfl hargs)
    exact .branch (fun _ ↦ (looseArgs_gives hsub).bind hcall) fun _ ↦
      .bind (.pure (P := AllValues strict) (List.forall_mem_nil _)) hcall
  · refine .bind (P := fun _ ↦ True) (.ask fun _ ↦ rfl) fun _ _ ↦ ?_
    exact (leafNode_gives rfl rfl rfl).bind fun _ h ↦ links_gives hsub h

theorem itemsWithin_gives {items : List Expr} {wanting : Bool} (hsub : Shaped strict sub)
    (h : AllValues strict items) :
    Gives strict (itemsWithin sub fuel items wanting) (AllValues strict) := by
  induction fuel generalizing items wanting with
  | zero => exact .fail
  | succ fuel ih =>
    rw [itemsWithin]
    refine Gives.skipNewLines.bind fun _ _ ↦ (Gives.is _).bind fun _ _ ↦
      .branch (fun _ ↦ .pure (h.reverse)) fun _ ↦ ?_
    refine .bind (P := fun _ ↦ True) (.ask fun _ ↦ rfl) fun _ _ ↦ .require .failExpected fun _ ↦ ?_
    refine (Gives.is _).bind fun _ _ ↦ .branch (fun _ ↦ .branch (fun _ ↦ ?_) fun _ ↦ ?_) fun _ ↦ ?_
    · refine Gives.position.bind fun _ _ ↦ (leafNode_gives rfl rfl rfl).bind fun _ hnull ↦ ?_
      exact (Gives.pure (P := AllValues strict) (h.cons hnull)).bind fun _ hmore ↦
        (Gives.advance _ _).bind fun _ _ ↦ ih hmore
    · exact (Gives.pure (P := AllValues strict) h).bind fun _ hsame ↦
        (Gives.advance _ _).bind fun _ _ ↦ ih hsame
    · refine .require .failExpected fun _ ↦ ?_
      exact (hsub.expression false).bind fun item hitem ↦ ih (h.cons hitem)

theorem array_gives (hsub : Shaped strict sub) :
    Gives strict (array sub) (Expr.IsValue strict) := by
  refine Gives.position.bind fun _ _ ↦ (Gives.expect _ _).bind fun _ _ ↦
    Gives.rounds.bind fun _ _ ↦ ?_
  refine (itemsWithin_gives hsub (List.forall_mem_nil _)).bind fun items h ↦
    (Gives.advance _ _).bind fun _ _ ↦ ?_
  exact .node fun _ ↦ Expr.isValue_mk rfl rfl h

theorem entriesWithin_gives {entries : List MapEntry} (hsub : Shaped strict sub)
    (h : AllValues strict (entries.map MapEntry.value)) :
    Gives strict (entriesWithin sub fuel entries) fun found ↦
      AllValues strict (found.map MapEntry.value) := by
  induction fuel generalizing entries with
  | zero => exact .fail
  | succ fuel ih =>
    rw [entriesWithin]
    refine Gives.skipNewLines.bind fun _ _ ↦ (Gives.is _).bind fun _ _ ↦
      .branch (fun _ ↦ .pure (List.map_reverse ▸ h.reverse)) fun _ ↦ ?_
    refine Gives.mapKey.bind fun key _ ↦ (Gives.advance _ _).bind fun _ _ ↦
      (Gives.expect _ _).bind fun _ _ ↦ ?_
    refine (hsub.expression false).bind fun value hvalue ↦ Gives.skipNewLines.bind fun _ _ ↦ ?_
    have hmore : AllValues strict ((MapEntry.mk key value :: entries).map MapEntry.value) :=
      h.cons hvalue
    refine (Gives.is _).bind fun _ _ ↦ .branch (fun _ ↦ ?_) fun _ ↦ (Gives.is _).bind fun _ _ ↦ ?_
    · exact (Gives.advance _ _).bind fun _ _ ↦ ih hmore
    · exact .require .failExpected fun _ ↦ ih hmore

theorem map_gives (hsub : Shaped strict sub) : Gives strict (map sub) (Expr.IsValue strict) := by
  refine Gives.position.bind fun _ _ ↦ (Gives.expect _ _).bind fun _ _ ↦
    Gives.rounds.bind fun _ _ ↦ ?_
  refine (entriesWithin_gives hsub (List.forall_mem_nil _)).bind fun entries h ↦
    (Gives.advance _ _).bind fun _ _ ↦ ?_
  exact .node fun _ ↦ Expr.isValue_mk rfl rfl h

/-- A parameter list that may be left out, before what follows. -/
theorem optionalParams_gives {p : Prop} [Decidable p] {f : List String → Parse α} {P : α → Prop}
    (hf : ∀ names, Gives strict (f names) P) :
    Gives strict (if p then params ctx >>= f else pure [] >>= f) P :=
  .branch (fun _ ↦ Gives.params.bind fun names _ ↦ hf names) fun _ ↦
    .bind (P := fun _ ↦ True) (.pure trivial) fun names _ ↦ hf names

theorem lambda_gives (hsub : Shaped strict sub) :
    Gives strict (lambda ctx sub) (Expr.IsValue strict) := by
  refine Gives.position.bind fun _ _ ↦ (Gives.expect _ _).bind fun _ _ ↦
    (Gives.is _).bind fun _ _ ↦ ?_
  refine optionalParams_gives fun names ↦ (statementsInScope_gives hsub).bind fun found h ↦ ?_
  refine Gives.scope.bind fun _ _ ↦ .pure ⟨.node (.of_isOrdinary rfl ?_ ?_) h, rfl⟩
  · intro e he
    cases he
  · intro e he
    cases he

/-- A string with embedded sections has as many pieces as its token has parts. -/
theorem pieces_gives {parts : List Section} (hsub : Shaped strict sub)
    (h : strict → SectionsGenuine parts ∧ SectionsEachString (· ≠ []) parts) :
    Gives strict (pieces sub start parts) fun found ↦
      AllValues strict found ∧ found.length = parts.length := by
  induction parts with
  | nil => exact .pure ⟨List.forall_mem_nil _, rfl⟩
  | cons part parts ih =>
    cases part with
    | text value =>
      refine (leafNode_gives rfl rfl rfl).bind fun piece hpiece ↦ ?_
      refine (ih fun hstrict ↦ h hstrict).bind fun found ⟨hfound, hlength⟩ ↦ ?_
      exact .pure ⟨hfound.cons hpiece, by simp [hlength]⟩
    | tokens list =>
      refine (hsub.embedded list fun hstrict ↦ ?_).bind fun piece hpiece ↦ ?_
      · obtain ⟨⟨-, hgenuine, -⟩, heach, -⟩ := h hstrict
        exact ⟨hgenuine, heach⟩
      · refine (ih fun hstrict ↦ ?_).bind fun found ⟨hfound, hlength⟩ ↦ ?_
        · obtain ⟨⟨-, -, hgenuine⟩, -, heach⟩ := h hstrict
          exact ⟨hgenuine, heach⟩
        · exact .pure ⟨hfound.cons hpiece, by simp [hlength]⟩

theorem prefixed_gives {op : UnaryOp} (hop : op.changes = false) (hsub : Shaped strict sub) :
    Gives strict (prefixed sub op start) (Expr.IsValue strict) := by
  refine (Gives.advance _ _).bind fun _ _ ↦ hsub.operand.bind fun operand h ↦ .node fun _ ↦ ?_
  exact Expr.isValue_mk (by simp [Form.isOrdinary, hop]) rfl (by simpa [Form.children] using h)

theorem prefixedChange_gives {op : UnaryOp} (hsub : Shaped strict sub) :
    Gives strict (prefixedChange sub op start) (Expr.IsValue strict) := by
  refine (Gives.advance _ _).bind fun _ _ ↦ hsub.operand.bind fun operand h ↦ ?_
  refine .require .throw fun hassign ↦ .node fun _ ↦ Expr.isValue_change h ?_
  simpa using hassign

theorem minus_gives (hsub : Shaped strict sub) :
    Gives strict (minus sub start) (Expr.IsValue strict) := by
  refine (Gives.peek _ _).bind fun token _ ↦ ?_
  cases token.lexeme.number? with
  | some n => exact (Gives.advance _ _).bind fun _ _ ↦ leafNode_gives rfl rfl rfl
  | none => exact prefixed_gives rfl hsub

theorem parenthesized_gives (hsub : Shaped strict sub) :
    Gives strict (parenthesized ctx sub) (Expr.IsValue strict) := by
  refine Gives.enterParen.bind fun _ _ ↦ (Gives.advance _ _).bind fun _ _ ↦ ?_
  refine (hsub.expression true).bind fun inner h ↦ (Gives.expect _ _).bind fun _ _ ↦ ?_
  exact .bind (P := fun _ ↦ True) (.modify fun _ ↦ rfl) fun _ _ ↦ links_gives hsub h

/-! ## Operands -/

theorem plainOperand_gives (hsub : Shaped strict sub) :
    Gives strict (plainOperand ctx sub) (Expr.IsValue strict) := by
  refine Gives.current.bind fun t ht ↦ ?_
  dsimp only
  split
  · next raw parts hlexeme =>
    have hparts : strict → parts ≠ [] ∧ SectionsGenuine parts ∧
      SectionsEachString (· ≠ []) parts := by
      intro hstrict
      obtain ⟨hgenuine, heach⟩ := ht hstrict
      rw [Token.IsGenuine, hlexeme] at hgenuine
      rw [hlexeme] at heach
      exact ⟨heach.1, hgenuine.2, heach.2⟩
    refine (Gives.advance _ _).bind fun _ _ ↦
      (pieces_gives hsub fun h ↦ (hparts h).2).bind fun list h ↦ ?_
    obtain ⟨hlist, hlength⟩ := h
    refine .node fun _ ↦ ⟨.node ?_ fun e he ↦ (hlist e he).every, rfl⟩
    refine Form.isShaped_interpolated (fun e he ↦ (hlist e he).expression) fun hstrict hnil ↦ ?_
    rw [hnil] at hlength
    exact (hparts hstrict).1 (List.eq_nil_of_length_eq_zero hlength.symm)
  · exact (Gives.advance _ _).bind fun _ _ ↦ named_gives hsub
  · exact lambda_gives hsub
  · exact minus_gives hsub
  · exact prefixed_gives rfl hsub
  · exact prefixedChange_gives hsub
  · exact prefixedChange_gives hsub
  · exact parenthesized_gives hsub
  · exact (array_gives hsub).bind fun e h ↦ links_gives hsub h
  · exact map_gives hsub
  · exact .failExpected
  · refine .branch (fun _ ↦ (Gives.advance _ _).bind fun _ _ ↦ ?_) fun _ ↦ .fail
    exact (leafNode_gives rfl rfl rfl).bind fun _ h ↦ links_gives hsub h

/-- Without extensions, no node is built by one. -/
theorem build?_gives (hctx : ctx.registry.entries = []) (kind : ExtensionKind) :
    Gives strict (ctx.build? sub kind) fun found ↦ found = none :=
  fun _ hs ↦ .known (build?_run hctx sub kind) ⟨hs, rfl⟩

theorem replaceTokens_gives (hctx : ctx.registry.entries = []) :
    Gives strict ctx.replaceTokens fun _ ↦ True :=
  fun _ hs ↦ .known (replaceTokens_run hctx) ⟨hs, trivial⟩

theorem operand_gives (hctx : ctx.registry.entries = []) (hsub : Shaped strict sub) :
    Gives strict (operand ctx sub) (Expr.IsValue strict) := by
  refine .deeper ((build?_gives hctx .expression).bind ?_)
  rintro _ rfl
  exact plainOperand_gives hsub

/-! ## Expressions -/

theorem closeGroup_gives {yard : Yard} (hsub : Shaped strict sub) (h : yard.HoldsValues strict) :
    Gives strict (closeGroup ctx sub yard) (Yard.HoldsValues strict) := by
  refine .bind (P := fun _ ↦ True) (.modify fun _ ↦ rfl) fun _ _ ↦
    (Gives.advance _ _).bind fun _ _ ↦ ?_
  refine Gives.settled.bind fun closed hclosed ↦ ?_
  obtain ⟨hgroup, hrest⟩ := h.closeParen hclosed
  exact (Gives.deeper (links_gives hsub hgroup)).bind fun e he ↦ .pure (hrest.pushOperand he)

theorem expressionWithin_gives {grouped wanting : Bool} {groups : Nat} {yard : Yard}
    (hctx : ctx.registry.entries = []) (hsub : Shaped strict sub) (h : yard.HoldsValues strict) :
    Gives strict (expressionWithin ctx sub grouped fuel groups wanting yard)
      (Expr.IsValue strict) := by
  induction fuel generalizing groups wanting yard with
  | zero => exact .fail
  | succ fuel ih =>
    rw [expressionWithin]
    refine .optional Gives.skipNewLines fun _ ↦ (replaceTokens_gives hctx).bind fun _ _ ↦
      Gives.current.bind fun t _ ↦ .branch (fun _ ↦ .branch (fun _ ↦ ?_) fun _ ↦ ?_) fun _ ↦
        .branch (fun _ ↦ ?_) fun _ ↦ ?_
    · exact Gives.enterParen.bind fun _ _ ↦ (Gives.advance _ _).bind fun _ _ ↦ ih h
    · exact hsub.operand.bind fun e he ↦ ih (h.pushOperand he)
    · exact (closeGroup_gives hsub h).bind fun y hy ↦ ih hy
    · split
      · refine Gives.settled.bind fun y hpush ↦ (Gives.advance _ _).bind fun _ _ ↦ ?_
        exact ih (h.pushOperator hpush)
      · refine .require .fail fun _ ↦ .require .failExpected fun _ ↦ ?_
        exact Gives.settled.mono fun e hfinish ↦ h.finish hfinish

theorem expression_gives {grouped : Bool} (hctx : ctx.registry.entries = [])
    (hsub : Shaped strict sub) :
    Gives strict (expression ctx sub grouped) (Expr.IsValue strict) :=
  Gives.rounds.bind fun _ _ ↦ expressionWithin_gives hctx hsub fun e he ↦ by cases he

/-! ## Statements -/

theorem simpleStatement_gives (hsub : Shaped strict sub) :
    Gives strict (simpleStatement sub) (Shapely strict) := by
  refine Gives.position.bind fun _ _ ↦ (hsub.expression false).bind fun target htarget ↦ ?_
  refine .bind (P := fun _ ↦ True) (.ask fun _ ↦ rfl) fun op _ ↦ ?_
  cases op with
  | none => exact .pure htarget.every
  | some op =>
    refine .require .throw fun hassign ↦ (Gives.advance _ _).bind fun _ _ ↦ ?_
    refine (hsub.expression false).bind fun value hvalue ↦ ?_
    have hdefine : Gives strict (defineTarget target op) fun _ ↦ True := by
      refine .branch (fun _ ↦ ?_) fun _ ↦ .pure trivial
      cases target.varName? with
      | none => exact .pure trivial
      | some name => exact .modify fun _ ↦ rfl
    refine hdefine.bind fun _ _ ↦ Gives.scope.bind fun _ _ ↦ .pure (.node ?_ ?_)
    · exact Form.isShaped_assign (by simpa using hassign) hvalue.expression
    · simpa [Expr.children, Expr.form, Expr.inScope, Expr.moveTo, Expr.assign, Expr.ofForm,
        Form.children] using ⟨htarget.every, hvalue.every⟩

/-- One name of a declaration, with or without an initial value. -/
structure IsEntry (strict : Prop) (e : Expr) : Prop where
  /-- All nodes are of the right shape. -/
  shapely : Shapely strict e
  /-- The node is a declaration. -/
  declares : e.isDeclaration = true

theorem declaration_gives (hsub : Shaped strict sub) :
    Gives strict (declaration sub) (IsEntry strict) := by
  refine Gives.position.bind fun start _ ↦ (Gives.expectName _).bind fun name _ ↦ ?_
  refine .bind (P := fun _ ↦ True) (.modify fun _ ↦ rfl) fun _ _ ↦ (Gives.is _).bind fun _ _ ↦ ?_
  have hmade (value : Option Expr) (hvalue : ∀ e ∈ value, e.IsValue strict) : Gives strict (do
      let scope ← scope
      let target := ((Expr.var name).moveTo start).inScope scope
      return ((Expr.assign target .assign value true).moveTo start).inScope scope)
        (IsEntry strict) := by
    refine Gives.scope.bind fun _ _ ↦ .pure ⟨.node ?_ ?_, rfl⟩
    · exact Form.isShaped_declaration rfl fun e he ↦ (hvalue e he).expression
    · refine List.forall_mem_cons.mpr ⟨(isValue_leaf rfl rfl rfl).every, fun e he ↦ ?_⟩
      exact (hvalue e (by simpa using he)).every
  refine .branch (fun _ ↦ (Gives.advance _ _).bind fun _ _ ↦ ?_) fun _ ↦ ?_
  · refine (hsub.expression false).bind fun e he ↦ ?_
    exact .bind (.pure (P := fun value ↦ ∀ e ∈ value, e.IsValue strict) (by simpa using he)) hmade
  · exact .bind (.pure (P := fun value ↦ ∀ e ∈ value, e.IsValue strict) (by simp)) hmade

theorem declarationsWithin_gives {done : List Expr} (hsub : Shaped strict sub)
    (h : ∀ e ∈ done, IsEntry strict e) :
    Gives strict (declarationsWithin sub fuel done) fun found ↦
      found ≠ [] ∧ ∀ e ∈ found, IsEntry strict e := by
  induction fuel generalizing done with
  | zero => exact .fail
  | succ fuel ih =>
    rw [declarationsWithin]
    refine (declaration_gives hsub).bind fun entry hentry ↦ (Gives.is _).bind fun _ _ ↦ ?_
    have hmore : ∀ e ∈ entry :: done, IsEntry strict e := List.forall_mem_cons.mpr ⟨hentry, h⟩
    refine .branch (fun _ ↦ (Gives.advance _ _).bind fun _ _ ↦ ih hmore) fun _ ↦ .pure ⟨by simp, ?_⟩
    simpa only [List.mem_reverse] using hmore

theorem varStatement_gives (hsub : Shaped strict sub) :
    Gives strict (varStatement sub) (Shapely strict) := by
  refine Gives.position.bind fun _ _ ↦ (Gives.expect _ _).bind fun _ _ ↦
    Gives.rounds.bind fun _ _ ↦ ?_
  refine (declarationsWithin_gives hsub (List.forall_mem_nil _)).bind fun entries ⟨hne, h⟩ ↦ ?_
  match entries, hne, h with
  | [single], _, h => exact .pure ((h single (by simp)).shapely.of_form_eq rfl)
  | first :: second :: rest, _, h =>
    refine .node fun _ ↦ .node ?_ fun e he ↦ (h e he).shapely
    exact Form.isShaped_multiAssign (by simp) fun e he ↦ (h e he).declares

/-- Statements that ask nothing more than values and bodies in their places. -/
theorem shapely_mk {form : Form} {position : Position} {scope : ScopeId}
    (hordinary : form.isOrdinary = true) (hoperands : AllValues strict form.operands)
    (hbodies : ∀ e ∈ form.bodies, IsBody strict e)
    (hrest : ∀ e ∈ form.children, e ∈ form.operands ∨ e ∈ form.bodies ∨ Shapely strict e) :
    Shapely strict (.mk form position scope) := by
  refine .node (.of_isOrdinary hordinary (fun e he ↦ (hoperands e he).expression) fun e he ↦
    (hbodies e he).block) fun e he ↦ ?_
  rcases hrest e he with he | he | he
  · exact (hoperands e he).every
  · exact (hbodies e he).shapely
  · exact he

theorem returnStatement_gives (hsub : Shaped strict sub) :
    Gives strict (returnStatement sub) (Shapely strict) := by
  refine Gives.position.bind fun _ _ ↦ (Gives.expect _ _).bind fun _ _ ↦ ?_
  refine .bind (P := fun _ ↦ True) (.ask fun _ ↦ rfl) fun _ _ ↦
    .branch (fun _ ↦ .node fun _ ↦ ?_) fun _ ↦ ?_
  · exact shapely_mk rfl (List.forall_mem_nil _) (by simp [Form.bodies]) (by simp [Form.children])
  · refine (hsub.expression false).bind fun value h ↦ .node fun _ ↦ ?_
    exact shapely_mk rfl (List.forall_mem_singleton.mpr h) (by simp [Form.bodies])
      (by simp [Form.children, Form.operands])

theorem throwStatement_gives (hsub : Shaped strict sub) :
    Gives strict (throwStatement sub) (Shapely strict) := by
  refine Gives.position.bind fun _ _ ↦ (Gives.advance _ _).bind fun _ _ ↦ ?_
  refine (hsub.expression false).bind fun value h ↦ .node fun _ ↦ ?_
  exact shapely_mk rfl (List.forall_mem_singleton.mpr h) (by simp [Form.bodies])
    (by simp [Form.children, Form.operands])

theorem wordStatement_gives {form : Form} (hordinary : form.isOrdinary = true)
    (hchildren : form.children = []) (hbodies : form.bodies = []) :
    Gives strict (wordStatement form) (Shapely strict) := by
  refine Gives.position.bind fun _ _ ↦ (Gives.advance _ _).bind fun _ _ ↦ .node fun _ ↦ ?_
  refine shapely_mk hordinary (fun e he ↦ ?_) (by simp [hbodies]) (by simp [hchildren])
  have hmem := Form.mem_children_of_mem_operands he
  rw [hchildren] at hmem
  cases hmem

/-! ## Branches and loops -/

theorem blockOrStatement_gives (hsub : Shaped strict sub) :
    Gives strict (blockOrStatement ctx sub) (IsBody strict) := by
  refine Gives.skipNewLines.bind fun _ _ ↦ (Gives.is _).bind fun _ _ ↦
    .branch (fun _ ↦ blockWith_gives hsub) fun _ ↦ ?_
  refine Gives.position.bind fun _ _ ↦ Gives.enterBlock.bind fun _ _ ↦
    (Gives.pushScope _).bind fun _ _ ↦ ?_
  refine hsub.statement.bind fun found h ↦ ?_
  cases found with
  | none => exact .failExpected
  | some statement =>
    refine Gives.popScope.bind fun _ _ ↦ .bind (P := fun _ ↦ True)
      (.modify fun _ ↦ rfl) fun _ _ ↦ ?_
    exact .pure ⟨shapely_block (List.forall_mem_singleton.mpr (h statement rfl)), rfl⟩

theorem guarded_gives (hsub : Shaped strict sub) :
    Gives strict (guarded ctx sub) (IsBody strict) := by
  refine (Gives.is _).bind fun _ _ ↦ .branch (fun _ ↦ ?_) fun _ ↦ ?_
  · exact (Gives.advance _ _).bind fun _ _ ↦ blockOrStatement_gives hsub
  · exact (Gives.continuesWith _).bind fun _ _ ↦
      .branch (fun _ ↦ blockWith_gives hsub) fun _ ↦ .failExpected

theorem alternative_gives (hsub : Shaped strict sub) :
    Gives strict (alternative ctx sub) fun e ↦
      Shapely strict e ∧ (e.isBlock = true ∨ e.isConditional = true) := by
  refine (Gives.is _).bind fun _ _ ↦ .branch (fun _ ↦ ?_) fun _ ↦ ?_
  · refine Gives.enterBlock.bind fun _ _ ↦ hsub.conditional.bind fun e h ↦ ?_
    exact .bind (P := fun _ ↦ True) (.modify fun _ ↦ rfl) fun _ _ ↦ .pure ⟨h.1, .inr h.2⟩
  · exact (blockOrStatement_gives hsub).mono fun e h ↦ ⟨h.shapely, .inl h.block⟩

theorem conditional_gives (hsub : Shaped strict sub) :
    Gives strict (conditional ctx sub) fun e ↦ Shapely strict e ∧ e.isConditional = true := by
  refine Gives.position.bind fun start _ ↦ (Gives.expect _ _).bind fun _ _ ↦ ?_
  refine (hsub.expression false).bind fun test htest ↦ (guarded_gives hsub).bind fun body hbody ↦ ?_
  have hmade (alternative : Option Expr)
      (h : ∀ e ∈ alternative, Shapely strict e ∧ (e.isBlock = true ∨ e.isConditional = true)) :
      Gives strict (node (.conditional test body alternative) start) fun e ↦
        Shapely strict e ∧ e.isConditional = true := by
    refine .node fun _ ↦ ⟨.node ?_ ?_, rfl⟩
    · exact Form.isShaped_conditional htest.expression hbody.block fun e he ↦ (h e he).2
    · refine List.forall_mem_cons.mpr
        ⟨htest.every, List.forall_mem_cons.mpr ⟨hbody.shapely, fun e he ↦ ?_⟩⟩
      exact (h e (by simpa using he)).1
  refine (Gives.continuesWith _).bind fun _ _ ↦ .branch (fun _ ↦ ?_) fun _ ↦ hmade none (by simp)
  refine (Gives.advance _ _).bind fun _ _ ↦ (alternative_gives hsub).bind fun e h ↦ ?_
  exact hmade (some e) (by simpa using h)

theorem whileStatement_gives (hsub : Shaped strict sub) :
    Gives strict (whileStatement ctx sub) (Shapely strict) := by
  refine Gives.position.bind fun _ _ ↦ (Gives.expect _ _).bind fun _ _ ↦ ?_
  refine (hsub.expression false).bind fun test htest ↦ (guarded_gives hsub).bind fun body hbody ↦ ?_
  exact .node fun _ ↦ shapely_mk rfl (List.forall_mem_singleton.mpr htest)
    (by simpa [Form.bodies] using hbody) (by simp [Form.children, Form.operands, Form.bodies])

theorem forEachStatement_gives {parens : Bool} (hsub : Shaped strict sub) :
    Gives strict (forEachStatement ctx sub start parens) (Shapely strict) := by
  rw [forEachStatement]
  refine .optional (Gives.advance _ _) fun _ ↦ (Gives.expectName _).bind fun name _ ↦
    (Gives.expect _ _).bind fun _ _ ↦ (hsub.expression false).bind fun source hsource ↦ ?_
  refine .optional (Gives.expect _ _) fun _ ↦ (blockWith_gives hsub).bind fun body hbody ↦ ?_
  exact .node fun _ ↦ shapely_mk rfl (List.forall_mem_singleton.mpr hsource)
    (by simpa [Form.bodies] using hbody) (by simp [Form.children, Form.operands, Form.bodies])

theorem countingLoop_gives (hsub : Shaped strict sub) :
    Gives strict (countingLoop ctx sub start) (Shapely strict) := by
  refine (Gives.expect _ _).bind fun _ _ ↦ (Gives.pushScope _).bind fun _ _ ↦
    (Gives.is _).bind fun _ _ ↦ ?_
  have hrest (initial : Expr) (hinitial : Shapely strict initial) : Gives strict (do
      expect ";" true
      let condition ← sub (.expression false)
      expect ";" true
      let increment ← simpleStatement sub
      expect ")" false
      let body ← block ctx sub
      popScope
      return .mk (.forLoop initial condition increment body) start ‹ScopeId›) (Shapely strict) := by
    refine (Gives.expect _ _).bind fun _ _ ↦ (hsub.expression false).bind fun test htest ↦ ?_
    refine (Gives.expect _ _).bind fun _ _ ↦
      (simpleStatement_gives hsub).bind fun increment hincrement ↦ ?_
    refine (Gives.expect _ _).bind fun _ _ ↦ (blockWith_gives hsub).bind fun body hbody ↦ ?_
    refine Gives.popScope.bind fun _ _ ↦ .pure (shapely_mk rfl ?_ ?_ ?_)
    · exact List.forall_mem_singleton.mpr htest
    · simpa [Form.bodies] using hbody
    · simp [Form.children, Form.operands, Form.bodies, hinitial, hincrement]
  exact .branch (fun _ ↦ (varStatement_gives hsub).bind hrest) fun _ ↦
    (simpleStatement_gives hsub).bind hrest

theorem forStatement_gives (hsub : Shaped strict sub) :
    Gives strict (forStatement ctx sub) (Shapely strict) := by
  refine Gives.position.bind fun _ _ ↦ (Gives.expect _ _).bind fun _ _ ↦
    (Gives.is _).bind fun _ _ ↦ ?_
  exact (Gives.isForEach _).bind fun _ _ ↦ .branch (fun _ ↦ forEachStatement_gives hsub) fun _ ↦
    countingLoop_gives hsub

theorem tryStatement_gives (hsub : Shaped strict sub) :
    Gives strict (tryStatement ctx sub) (Shapely strict) := by
  refine Gives.position.bind fun _ _ ↦ (Gives.expect _ _).bind fun _ _ ↦ ?_
  refine (blockWith_gives hsub).bind fun body hbody ↦ (Gives.continuesWith _).bind fun _ _ ↦ ?_
  refine .require .failExpected fun _ ↦ (Gives.advance _ _).bind fun _ _ ↦
    (Gives.is _).bind fun _ _ ↦ ?_
  refine .optional (Gives.advance _ _) fun _ ↦ (Gives.expectName _).bind fun name _ ↦ ?_
  refine .optional (Gives.expect _ _) fun _ ↦ (blockWith_gives hsub).bind fun handler hhandler ↦ ?_
  exact .node fun _ ↦ shapely_mk rfl (List.forall_mem_nil _)
    (by simpa [Form.bodies] using ⟨hbody, hhandler⟩) (by simp [Form.children, Form.bodies])

/-! ## All statements -/

theorem functionStatement_gives (hsub : Shaped strict sub) :
    Gives strict (functionStatement ctx sub) (Shapely strict) := by
  refine Gives.position.bind fun _ _ ↦ (Gives.expect _ _).bind fun _ _ ↦
    (Gives.expectName _).bind fun name _ ↦ ?_
  refine (Gives.is _).bind fun _ _ ↦ .optional (Gives.advance _ _) fun _ ↦
    Gives.rounds.bind fun _ _ ↦ ?_
  refine (Gives.aliasesWithin _ _).bind fun aliases _ ↦ (Gives.is _).bind fun _ _ ↦ ?_
  refine optionalParams_gives fun names ↦ ?_
  refine .bind (P := fun _ ↦ True) (.modify fun _ ↦ rfl) fun _ _ ↦ ?_
  refine (statementsInScope_gives hsub).bind fun found h ↦ ?_
  refine .bind (P := fun _ ↦ True) (.modify fun _ ↦ rfl) fun _ _ ↦
    Gives.scope.bind fun _ _ ↦ .pure ?_
  refine .node (.of_isOrdinary rfl ?_ ?_) h
  · intro e he
    cases he
  · intro e he
    cases he

theorem ended_gives {x : Parse Expr} (h : Gives strict x (Shapely strict)) :
    Gives strict (ended x) fun found ↦ ∀ e ∈ found, Shapely strict e :=
  h.bind fun e he ↦ Gives.endStatement.bind fun _ _ ↦ .pure (by simpa using he)

theorem plainStatement_gives (hsub : Shaped strict sub) :
    Gives strict (plainStatement ctx sub) fun found ↦ ∀ e ∈ found, Shapely strict e := by
  have hsome {x : Parse Expr} (h : Gives strict x (Shapely strict)) :
      Gives strict (do return some (← x)) fun found ↦ ∀ e ∈ found, Shapely strict e :=
    h.bind fun e he ↦ .pure (by simpa using he)
  refine Gives.current.bind fun t _ ↦ ?_
  split
  · exact hsome ((conditional_gives hsub).mono fun _ h ↦ h.1)
  · exact hsome (whileStatement_gives hsub)
  · exact hsome (forStatement_gives hsub)
  · exact hsome (tryStatement_gives hsub)
  · refine (Gives.peek _ _).bind fun _ _ ↦ .branch (fun _ ↦ ?_) fun _ ↦ ?_
    · exact hsome (functionStatement_gives hsub)
    · exact ended_gives (simpleStatement_gives hsub)
  · exact hsome ((blockWith_gives hsub).mono fun _ h ↦ h.shapely)
  · exact ended_gives (varStatement_gives hsub)
  · exact ended_gives (returnStatement_gives hsub)
  · exact ended_gives (throwStatement_gives hsub)
  · exact ended_gives (wordStatement_gives rfl rfl rfl)
  · exact ended_gives (wordStatement_gives rfl rfl rfl)
  · exact .fail
  · exact ended_gives (simpleStatement_gives hsub)

theorem statement_gives (hctx : ctx.registry.entries = []) (hsub : Shaped strict sub) :
    Gives strict (statement ctx sub) fun found ↦ ∀ e ∈ found, Shapely strict e := by
  refine Gives.passSeparators.bind fun _ _ ↦ .bind (P := fun _ ↦ True)
    (.ask fun _ ↦ rfl) fun _ _ ↦ ?_
  refine .branch (fun _ ↦ .pure (by simp)) fun _ ↦ (replaceTokens_gives hctx).bind fun _ _ ↦ ?_
  refine (build?_gives hctx .statement).bind ?_
  rintro _ rfl
  exact plainStatement_gives hsub

/-! ## The parser -/

theorem embeddedWith_gives {subs : Nat → Subparser} (hsubs : ∀ n, Shaped strict (subs n))
    {list : List Token} (hlist : strict → TokensGenuine list ∧ TokensEachString (· ≠ []) list) :
    Gives strict (embeddedWith subs list) (Expr.IsValue strict) := by
  refine .aside hlist (.bind (P := fun _ ↦ True) (.ask fun _ ↦ rfl) fun _ _ ↦ ?_)
  refine ((hsubs _).expression false).bind fun e he ↦ .bind (P := fun _ ↦ True)
    (.ask fun _ ↦ rfl) fun _ _ ↦ ?_
  exact .require .failExpected fun _ ↦ .pure he

theorem shaped_runWith {inner : (fuel : Nat) → List Token → Parse Expr}
    (hctx : ctx.registry.entries = [])
    (hinner : ∀ fuel list, (strict → TokensGenuine list ∧ TokensEachString (· ≠ []) list) →
      Gives strict (inner fuel list) (Expr.IsValue strict)) (fuel : Nat) :
    Shaped strict (runWith ctx inner fuel) := by
  induction fuel with
  | zero => exact ⟨.fail, .fail, fun _ ↦ .fail, .fail, fun _ _ ↦ .fail⟩
  | succ fuel ih =>
    exact ⟨statement_gives hctx ih, conditional_gives ih, fun _ ↦ expression_gives hctx ih,
      operand_gives hctx ih, hinner fuel⟩

/-- Every goal that the parser reaches gives trees of the right shape. -/
theorem shaped_run (hctx : ctx.registry.entries = []) (levels fuel : Nat) :
    Shaped strict (run ctx levels fuel) := by
  induction levels generalizing fuel with
  | zero => exact shaped_runWith hctx (fun _ _ _ ↦ .fail) fuel
  | succ levels ih =>
    exact shaped_runWith hctx (fun _ _ hlist ↦ embeddedWith_gives (fun _ ↦ ih _) hlist) fuel

theorem programWithin_gives {done : List Expr} (hsub : Shaped strict sub)
    (h : AllShapely strict done) :
    Gives strict (programWithin sub fuel done) (AllShapely strict) := by
  induction fuel generalizing done with
  | zero => exact .fail
  | succ fuel ih =>
    rw [programWithin]
    refine .bind (P := fun _ ↦ True) (.ask fun _ ↦ rfl) fun before _ ↦
      hsub.statement.bind fun found hfound ↦ ?_
    cases found with
    | none => exact .pure h.reverse
    | some statement =>
      exact (Gives.requireProgress before).bind fun _ _ ↦
        ih (List.forall_mem_cons.mpr ⟨hfound statement rfl, h⟩)

theorem program_gives (hctx : ctx.registry.entries = []) :
    Gives strict (program ctx) (AllShapely strict) :=
  .bind (P := fun _ ↦ True) (.ask fun _ ↦ rfl) fun _ _ ↦ Gives.rounds.bind fun _ _ ↦
    programWithin_gives (shaped_run hctx _ _) (List.forall_mem_nil _)

theorem parseProgram_shapely {w : Window Lexer} {table : SymbolTable} {p : Program}
    (hctx : ctx.registry.entries = []) (hw : strict → w.Filled)
    (h : parseProgram ctx w table = .ok p) : AllShapely strict p.statements := by
  rw [parseProgram_eq_outcome] at h
  have hgives : Gives strict (program ctx) (AllShapely strict) := program_gives hctx
  obtain ⟨statements, s', ⟨-, hall⟩, rfl⟩ := (hgives (.initial w table) hw).of_outcome_ok h
  exact hall

end Parse

namespace Frontend

variable {f : Frontend} {text : String} {p : Program}

/-- The tokens of a bare text fill a window. -/
theorem IsBare.filled_ofTokens (hf : f.IsBare) {tokens : List Token}
    (h : f.tokenize text = .ok tokens) (lookahead : Nat) :
    (Window.ofTokens tokens lookahead : Window Lexer).Filled := by
  have hcut := named_eq_ok_iff.mp h
  have heach : f.dialect.EachString (· ≠ []) := by
    refine ⟨?_, fun parts hparts ↦ ?_, hf.lexical⟩
    · change f.rules.EachString _
      rw [hf.rules]
      exact SpellingRules.eachString_empty
    · obtain ⟨list, hlist⟩ := hparts.exists_tokens
      exact List.ne_nil_of_mem hlist
  exact Window.filled_ofTokens
    (tokensGenuine_iff.mpr (Lexer.tokenize_genuine hf.isBare_dialect hcut).2)
    (tokensEachString_iff.mpr (Lexer.tokenize_eachString heach hcut)) lookahead

/-- **The shape of accepted scripts.** Without extensions of the grammar, every node of an accepted
script has a form that makes sense with the nodes right below it: only expressions stand for values,
bodies are blocks, what is changed or assigned to can be changed, and declarations declare names. If
nothing changes the tokens of the text either, every string with embedded sections has pieces. -/
theorem parse_isShaped (hf : f.registry.entries = []) (h : f.parse text = .ok p) :
    ∀ found ∈ nodesList globalScope p.statements, found.1.form.IsShaped f.IsBare := by
  have hall : Parse.AllShapely f.IsBare p.statements := by
    by_cases hbare : f.IsBare
    · obtain ⟨tokens, -, htokens, hparse⟩ := exists_parseProgram_eq hbare.isUnextended h
      exact Parse.parseProgram_shapely hf (fun _ ↦ hbare.filled_ofTokens htokens 0) (hparse 0)
    · -- nothing is asked of the window, so it may stay as it is
      have hinner := named_eq_ok_iff.mp h
      split at hinner
      · cases hinner
      · split at hinner
        · cases hinner
        · exact Parse.parseProgram_shapely hf (fun hnot ↦ absurd hnot hbare) hinner
  intro found hfound
  obtain ⟨e, he, hfound⟩ := mem_nodesList.mp hfound
  exact (hall e he).nodes globalScope hfound

/-- Declarations, an alternative without braces, and a string with an embedded section. -/
def sampleShapes : String := "var a = [-1], b\nif a[0]++ then b.c = \"#\x7bf(a)\x7d\" else throw !b"

theorem parse_isShaped_sampleShapes :
    ∃ p, standard.parse sampleShapes = .ok p ∧
      ∀ found ∈ nodesList globalScope p.statements, found.1.form.IsShaped standard.IsBare := by
  obtain ⟨p, h⟩ : ∃ p, standard.parse sampleShapes = .ok p :=
    exists_eq_ok_of_isSome (by decide +kernel)
  exact ⟨p, h, parse_isShaped rfl h⟩

end Frontend

end ScriptFront
