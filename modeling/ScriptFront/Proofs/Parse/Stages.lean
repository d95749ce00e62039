import ScriptFront.Proofs.Parse.Brackets
import ScriptFront.Proofs.Parse.Spans
import ScriptFront.Proofs.Symbols.Scopes
import ScriptFront.Proofs.Window.Numbers

/-!
# Stages of a production

Between two steps of a production it is known how much is open, whether a token was passed since a
certain point, and sometimes what the current token is. A `Parse.Stage` says this, and
`Parse.Orderly` says that a computation leads from one stage to another one, that the scopes around
it are as before afterwards, and that it fails for no internal reason. So a production is followed
step by step, from stage to stage, and the stage it ends at is what is known of it.

How much can be known depends on the window, which is any whatsoever in some statements.
`Parse.Trust` says what is expected of it.
-/

namespace ScriptFront

/-- A failure of the front end itself, which no script deserves. -/
def Cause.IsInternal : Cause → Prop
  | .noProgress _ | .scopeUnderflow | .lookaheadExceeded _ _ | .invalidStatement
      _ | .invalidPattern _ _ =>
    True
  | _ => False

theorem Cause.IsLexical.not_isInternal {cause : Cause} (h : cause.IsLexical) :
    ¬ cause.IsInternal := by
  cases cause <;> first | exact id | exact h.elim

/-- How many blocks, argument lists and parentheses are open. -/
structure Counters where
  /-- The blocks. -/
  blocks : Nat
  /-- The argument lists. -/
  calls : Nat
  /-- The parentheses. -/
  parens : Nat

/-- What is open in a state, operands apart. -/
def ParserState.opened (s : ParserState) : Counters := ⟨s.statementDepth, s.callDepth, s.parenDepth⟩

namespace Parse

open Window (Ready Leads)

variable {α β γ : Type} {ctx : ParseContext} {sub : Subparser} {s s' s₁ s₂ : ParserState}

/-- What the window of a parser is expected to be. -/
structure Trust where
  /-- It is one to start from. -/
  ready : Prop
  /-- Its tokens are numbered upwards. -/
  numbered : Prop

/-- A failure that is no internal one, except that without numbers the parser may think that it has
not moved. -/
def Trust.Admits (m : Trust) (e : ScriptError) : Prop :=
  e.cause.IsInternal → ¬ m.numbered ∧ ∃ text, e.cause = .noProgress text

/-- What is known at one point of a production. -/
structure Stage where
  /-- What is open. -/
  opened : Counters
  /-- A token was passed. -/
  moved : Prop
  /-- What is known of the current token. -/
  current : Token → Prop

namespace Stage

variable {st st' : Stage}

/-- The state is at this stage. -/
structure Fits (m : Trust) (st : Stage) (s : ParserState) : Prop where
  /-- As much is open. -/
  opened : s.opened = st.opened
  /-- The window is as it is expected to be. -/
  tokens : m.ready → Ready m.numbered s.tokens
  /-- The current token. -/
  current : m.ready → st.current s.tokens.current

/-- At the first stage at least as much is known as at the second one. -/
structure Implies (st st' : Stage) : Prop where
  /-- As much is open. -/
  opened : st'.opened = st.opened
  /-- A token was passed. -/
  moved : st'.moved → st.moved
  /-- The current token. -/
  current : ∀ t, st.current t → st'.current t

theorem Implies.refl : st.Implies st := ⟨rfl, id, fun _ ↦ id⟩

theorem Fits.mono {m : Trust} (h : st.Fits m s) (hst : st.Implies st') : st'.Fits m s :=
  ⟨h.opened.trans hst.opened.symm, h.tokens, fun hready ↦ hst.current _ (h.current hready)⟩

/-- The window may have changed. -/
def resting (st : Stage) : Stage := { st with current := fun _ ↦ True }

/-- A token was passed now. -/
def moving (st : Stage) : Stage := { st with moved := True, current := fun _ ↦ True }

/-- More is known of the current token. -/
def knowing (st : Stage) (p : Token → Prop) : Stage :=
  { st with current := fun t ↦ st.current t ∧ p t }

/-- One more block is open. -/
def inBlock (st : Stage) : Stage := { st with opened.blocks := st.opened.blocks + 1 }

/-- One more argument list is open. -/
def inCall (st : Stage) : Stage := { st with opened.calls := st.opened.calls + 1 }

/-- So many more parentheses are open. -/
def inParens (st : Stage) (n : Nat) : Stage := { st with opened.parens := st.opened.parens + n }

/-- One block less is open. -/
def outOfBlock (st : Stage) : Stage := { st with opened.blocks := st.opened.blocks - 1 }

/-- One argument list less is open. -/
def outOfCall (st : Stage) : Stage := { st with opened.calls := st.opened.calls - 1 }

/-- One parenthesis less is open. -/
def outOfParen (st : Stage) : Stage := { st with opened.parens := st.opened.parens - 1 }

/-- Wherever a token was passed. -/
theorem implies_moving (hopened : st'.opened = st.opened) (hmoved : st'.moved) :
    st'.Implies st.moving :=
  ⟨hopened.symm, fun _ ↦ hmoved, fun _ _ ↦ trivial⟩

theorem implies_resting (hopened : st'.opened = st.opened) (hmoved : st.moved → st'.moved) :
    st'.Implies st.resting :=
  ⟨hopened.symm, hmoved, fun _ _ ↦ trivial⟩

/-- What becomes of a state between two stages. -/
structure Reached (m : Trust) (st st' : Stage) (s s' : ParserState) : Prop where
  /-- The second state is at the second stage. -/
  fits : st'.Fits m s'
  /-- The scopes are as before. -/
  symbols : s.symbols.Steady s'.symbols
  /-- As many operands are open. -/
  operands : s'.expressionDepth = s.expressionDepth
  /-- The tokens passed. -/
  leads : m.ready → ∃ read, Leads True s.tokens read s'.tokens ∧
    (st'.moved → st.moved ∨ 0 < content read)

variable {m : Trust} {st₁ st₂ : Stage}

/-- Nothing but knowledge has changed. -/
theorem Fits.reached (h : st'.Fits m s) (hmoved : st'.moved → st.moved) : st.Reached m st' s s :=
  ⟨h, .refl, rfl, fun _ ↦ ⟨[], .refl, fun h ↦ .inl (hmoved h)⟩⟩

theorem Reached.trans (h : st.Reached m st₁ s s₁) (h' : st₁.Reached m st₂ s₁ s₂) :
    st.Reached m st₂ s s₂ := by
  refine ⟨h'.fits, h.symbols.trans h'.symbols, h'.operands.trans h.operands, fun hready ↦ ?_⟩
  obtain ⟨read, hread, hmoved⟩ := h.leads hready
  obtain ⟨more, hmore, hmoved'⟩ := h'.leads hready
  refine ⟨read ++ more, hread.trans hmore, fun hgoal ↦ ?_⟩
  rw [content_append]
  rcases hmoved' hgoal with hmid | hmore
  · exact (hmoved hmid).imp id fun hpos ↦ Nat.lt_of_lt_of_le hpos (Nat.le_add_right _ _)
  · exact .inr (Nat.lt_of_lt_of_le hmore (Nat.le_add_left _ _))

end Stage

/-! ## From stage to stage -/

variable {m : Trust} {st st' : Stage}

/-- Run in the state `s` of stage `st`, the computation succeeds at stage `r`, or fails with as many
operands open as before, and for no internal reason. -/
def Runs (m : Trust) (st : Stage) (x : Parse α) (s : ParserState) (r : α → Stage) : Prop :=
  match x s with
  | .ok a s' => st.Reached m (r a) s s'
  | .error e s' => s'.expressionDepth = s.expressionDepth ∧ (m.ready → m.Admits e)

/-- The computation leads from stage `st` to stage `r`. -/
def Orderly (m : Trust) (st : Stage) (x : Parse α) (r : α → Stage) : Prop :=
  ∀ s, st.Fits m s → Runs m st x s r

namespace Runs

variable {x : Parse α} {f : α → Parse β} {q : α → Stage} {r : β → Stage} {a : α} {e : ScriptError}

theorem of_ok {r : α → Stage} (h : Runs m st x s r) (hx : x s = .ok a s') :
    st.Reached m (r a) s s' := by
  rw [Runs, hx] at h
  exact h

theorem of_error {r : α → Stage} (h : Runs m st x s r) (hx : x s = .error e s') :
    s'.expressionDepth = s.expressionDepth ∧ (m.ready → m.Admits e) := by
  rw [Runs, hx] at h
  exact h

theorem intro {r : α → Stage} (hok : ∀ a s', x s = .ok a s' → st.Reached m (r a) s s')
    (herror : ∀ e s', x s = .error e s' →
      s'.expressionDepth = s.expressionDepth ∧ (m.ready → m.Admits e)) : Runs m st x s r := by
  rw [Runs]
  split
  · next hx => exact hok _ _ hx
  · next hx => exact herror _ _ hx

theorem bind (h : Runs m st x s q)
    (hf : ∀ a s', x s = .ok a s' → st.Reached m (q a) s s' → Runs m (q a) (f a) s' r) :
    Runs m st (x >>= f) s r := by
  cases hx : x s with
  | ok a s₁ =>
    have hmid := h.of_ok hx
    refine intro (fun b s₂ hrun ↦ ?_) fun e s₂ hrun ↦ ?_
    · rw [bind_eq_of_ok hx] at hrun
      exact hmid.trans ((hf a s₁ hx hmid).of_ok hrun)
    · rw [bind_eq_of_ok hx] at hrun
      obtain ⟨hdepth, hadmits⟩ := (hf a s₁ hx hmid).of_error hrun
      exact ⟨hdepth.trans hmid.operands, hadmits⟩
  | error e s₁ =>
    refine intro (fun b s₂ hrun ↦ ?_) fun e' s₂ hrun ↦ ?_
    · rw [bind_eq_of_error hx] at hrun
      cases hrun
    · rw [bind_eq_of_error hx] at hrun
      cases hrun
      exact h.of_error hx

/-- A first part that is known to change nothing is replaced by its result. -/
theorem ask (hx : x s = .ok a s) (h : Runs m st (f a) s r) : Runs m st (x >>= f) s r := by
  rw [Runs, bind_eq_of_ok hx]
  exact h

end Runs

namespace Orderly

variable {x y : Parse α} {f : α → Parse β} {q r : α → Stage} {r' : β → Stage}

theorem pure {a : α} (h : st.Implies (r a)) : Orderly m st (pure a) r :=
  fun _ hs ↦ (hs.mono h).reached h.moved

theorem bind (h : Orderly m st x q) (hf : ∀ a, Orderly m (q a) (f a) r') :
    Orderly m st (x >>= f) r' :=
  fun s hs ↦ (h s hs).bind fun a s' _ hreached ↦ hf a s' hreached.fits

theorem pure_bind {a : α} (h : Orderly m st (f a) r') : Orderly m st (Pure.pure a >>= f) r' := h

/-- Less may be said of the stage that is reached. -/
theorem mono (h : Orderly m st x q) (hout : ∀ a, (q a).Implies (r a)) : Orderly m st x r :=
  fun s hs ↦ .intro (fun a _ hx ↦
    let hreached := (h s hs).of_ok hx
    ⟨hreached.fits.mono (hout a), hreached.symbols, hreached.operands, fun hready ↦
      (hreached.leads hready).imp fun _ h ↦ ⟨h.1, fun hmoved ↦ h.2 ((hout a).moved hmoved)⟩⟩)
    fun _ _ hx ↦ (h s hs).of_error hx

/-- More may be known at the beginning. -/
theorem from_implied (h : Orderly m st' x r) (hst : st.Implies st') : Orderly m st x r :=
  fun s hs ↦ .intro (fun _ _ hx ↦
    let hreached := (h s (hs.mono hst)).of_ok hx
    ⟨hreached.fits, hreached.symbols, hreached.operands, fun hready ↦
      (hreached.leads hready).imp fun _ h ↦ ⟨h.1, fun hmoved ↦ (h.2 hmoved).imp hst.moved id⟩⟩)
    fun _ _ hx ↦ (h s (hs.mono hst)).of_error hx

theorem branch {p : Prop} [Decidable p] (hx : p → Orderly m st x r) (hy : ¬ p → Orderly m st y r) :
    Orderly m st (if p then x else y) r := by
  split
  · next hp => exact hx hp
  · next hp => exact hy hp

/-! ### Failures -/

/-- The computation fails at once, and not for an internal reason. -/
def Fails (x : Parse α) : Prop := ∀ s, ∃ e, x s = .error e s ∧ ¬ e.cause.IsInternal

theorem fails_fail {cause : Cause} (h : ¬ cause.IsInternal) : Fails (fail cause : Parse α) :=
  fun _ ↦ ⟨_, rfl, h⟩

theorem fails_failExpected {wanted : String} : Fails (failExpected wanted : Parse α) :=
  fun _ ↦ ⟨_, rfl, id⟩

theorem fails_throw {e : ScriptError} (h : ¬ e.cause.IsInternal) : Fails (throw e : Parse α) :=
  fun _ ↦ ⟨_, rfl, h⟩

theorem of_fails (h : Fails x) : Orderly m st x r := by
  intro s _
  obtain ⟨e, hrun, hcause⟩ := h s
  rw [Runs, hrun]
  exact ⟨rfl, fun _ hinternal ↦ absurd hinternal hcause⟩

theorem failExpected {wanted : String} : Orderly m st (failExpected wanted) r :=
  of_fails fails_failExpected

/-- A check that is required. -/
theorem require {p : Prop} [Decidable p] {z : Parse Unit} {f : Unit → Parse α} (hz : Fails z)
    (h : ¬ p → Orderly m st (f ()) r) : Orderly m st (if p then z >>= f else f ()) r := by
  refine .branch (fun _ s hs ↦ ?_) h
  obtain ⟨e, hrun, hcause⟩ := hz s
  rw [Runs, bind_eq_of_error hrun]
  exact ⟨rfl, fun _ hinternal ↦ absurd hinternal hcause⟩

/-- A step that is taken or not, before what follows in any case. -/
theorem optional {p : Prop} [Decidable p] {z : Parse Unit} {f : Unit → Parse α} {q : Unit → Stage}
    (hz : p → Orderly m st z q) (hst : ¬ p → st.Implies (q ())) (hf : Orderly m (q ()) (f ()) r) :
    Orderly m st (if p then z >>= f else f ()) r :=
  .branch (fun hp ↦ (hz hp).bind fun _ ↦ hf) fun hp ↦ hf.from_implied (hst hp)

/-! ### Questions -/

/-- A question about the state. -/
theorem ask {g : ParserState → α} (hx : ∀ s, x s = .ok (g s) s) : Orderly m st x fun _ ↦ st :=
  fun s hs ↦ by
    rw [Runs, hx]
    exact hs.reached id

/-- What is learnt of the current token is known from now on. -/
theorem learn {g : Token → α} (hx : ∀ s, x s = .ok (g s.tokens.current) s) :
    Orderly m st x fun a ↦ st.knowing fun t ↦ g t = a :=
  fun s hs ↦ by
    rw [Runs, hx]
    exact Stage.Fits.reached ⟨hs.opened, hs.tokens, fun h ↦ ⟨hs.current h, rfl⟩⟩ id

theorem is (text : String) : Orderly m st (is text) fun found ↦ st.knowing fun t ↦
    t.is text = found :=
  learn fun _ ↦ rfl

theorem kind : Orderly m st kind fun kind ↦ st.knowing fun t ↦ t.kind = kind := learn fun _ ↦ rfl

theorem isEnded : Orderly m st isEnded fun ended ↦ st.knowing fun t ↦ t.isEnd = ended :=
  learn fun _ ↦ rfl

theorem position : Orderly m st position fun _ ↦ st := .ask fun _ ↦ rfl

theorem scope : Orderly m st scope fun _ ↦ st := .ask fun _ ↦ rfl

theorem rounds : Orderly m st rounds fun _ ↦ st := .ask fun _ ↦ rfl

theorem node {form : Form} {position : Position} : Orderly m st (node form position) fun _ ↦ st :=
  scope.bind fun _ ↦ .pure .refl

/-- The current token is known from now on, and its sections are numbered. -/
theorem current_bind {f : Token → Parse β}
    (hf : ∀ t, (m.ready → m.numbered → t.lexeme.EachString SectionsInOrder) →
      Orderly m (st.knowing (· = t)) (f t) r') : Orderly m st (current >>= f) r' := by
  intro s hs
  refine (learn (g := id) (fun _ ↦ rfl) s hs).bind fun t s' hrun hreached ↦ ?_
  cases hrun
  exact hf _ (fun hready hn ↦ (hs.tokens hready).current_eachString hn) _ hreached.fits

/-- A known result of an operation on the stacks. -/
theorem settled {found : Option α} : Orderly m st (settled found) fun _ ↦ st := by
  cases found with
  | some a => exact .pure .refl
  | none => exact .failExpected

/-! ### Counters and scopes -/

theorem limit (depth max : Nat) (what : Nesting) :
    Orderly m st (ParseContext.limit depth max what) fun _ ↦ st :=
  .branch (fun _ ↦ of_fails (fails_fail id)) fun _ ↦ .pure .refl

/-- A change of the state that leaves the window alone. -/
theorem modify {g : ParserState → ParserState} (st' : Stage)
    (htokens : ∀ s, (g s).tokens = s.tokens)
    (hopened : ∀ s : ParserState, s.opened = st.opened → (g s).opened = st'.opened)
    (hmoved : st'.moved → st.moved)
    (hcurrent : ∀ t, st.current t → st'.current t)
    (hsymbols : ∀ s : ParserState, s.symbols.Steady (g s).symbols)
    (hoperands : ∀ s, (g s).expressionDepth = s.expressionDepth) :
    Orderly m st (modify g : Parse Unit) fun _ ↦ st' := fun s hs ↦
  ⟨⟨hopened s hs.opened, by rw [htokens]; exact hs.tokens,
    by rw [htokens]; exact fun h ↦ hcurrent _ (hs.current h)⟩, hsymbols s, hoperands s,
    fun _ ↦ ⟨[], by rw [htokens]; exact .refl, fun h ↦ .inl (hmoved h)⟩⟩

theorem enterBlock : Orderly m st ctx.enterBlock fun _ ↦ st.inBlock :=
  bind (modify st.inBlock (fun _ ↦ rfl)
    (fun _ h ↦ congrArg (fun o : Counters ↦ { o with blocks := o.blocks + 1 }) h)
    id (fun _ ↦ id) (fun _ ↦ .refl) fun _ ↦ rfl) fun _ ↦ bind (ask fun _ ↦ rfl) fun _ ↦ limit _ _ _

theorem enterCall : Orderly m st ctx.enterCall fun _ ↦ st.inCall :=
  bind (modify st.inCall (fun _ ↦ rfl)
    (fun _ h ↦ congrArg (fun o : Counters ↦ { o with calls := o.calls + 1 }) h)
    id (fun _ ↦ id) (fun _ ↦ .refl) fun _ ↦ rfl) fun _ ↦ bind (ask fun _ ↦ rfl) fun _ ↦ limit _ _ _

theorem enterParen : Orderly m st ctx.enterParen fun _ ↦ st.inParens 1 :=
  bind (modify (st.inParens 1) (fun _ ↦ rfl)
    (fun _ h ↦ congrArg (fun o : Counters ↦ { o with parens := o.parens + 1 }) h)
    id (fun _ ↦ id) (fun _ ↦ .refl) fun _ ↦ rfl) fun _ ↦ bind (ask fun _ ↦ rfl) fun _ ↦ limit _ _ _

theorem leaveBlock : Orderly m st ParseContext.leaveBlock fun _ ↦ st.outOfBlock :=
  modify _ (fun _ ↦ rfl)
    (fun _ h ↦ congrArg (fun o : Counters ↦ { o with blocks := o.blocks - 1 }) h) id
    (fun _ ↦ id) (fun _ ↦ .refl) fun _ ↦ rfl

theorem leaveCall : Orderly m st ParseContext.leaveCall fun _ ↦ st.outOfCall :=
  modify _ (fun _ ↦ rfl) (fun _ h ↦ congrArg (fun o : Counters ↦ { o with calls := o.calls - 1 }) h)
    id
    (fun _ ↦ id) (fun _ ↦ .refl) fun _ ↦ rfl

theorem leaveParen : Orderly m st ParseContext.leaveParen fun _ ↦ st.outOfParen :=
  modify _ (fun _ ↦ rfl)
    (fun _ h ↦ congrArg (fun o : Counters ↦ { o with parens := o.parens - 1 }) h) id
    (fun _ ↦ id) (fun _ ↦ .refl) fun _ ↦ rfl

theorem modifySymbols {g : SymbolTable → SymbolTable} (hg : ∀ t : SymbolTable, t.Steady (g t)) :
    Orderly m st (modifySymbols g) fun _ ↦ st :=
  modify _ (fun _ ↦ rfl) (fun _ h ↦ h) id (fun _ ↦ id) (fun s ↦ hg s.symbols) fun _ ↦ rfl

/-- Whatever happens in a new scope, the one around it is found again behind it. -/
theorem inScope {kind : ScopeKind} (h : Orderly m st x q) :
    Orderly m st (inScope kind x) fun found ↦ q found.1 := by
  intro s hs
  have hpush :
      pushScope kind s = .ok s.symbols.scopes.size { s with symbols := (s.symbols.push kind).2 } :=
    rfl
  have hx := h { s with symbols := (s.symbols.push kind).2 } ⟨hs.opened, hs.tokens, hs.current⟩
  rw [Runs, Parse.inScope, bind_eq_of_ok hpush]
  cases hrun : x { s with symbols := (s.symbols.push kind).2 } with
  | error e s₁ =>
    rw [bind_eq_of_error hrun]
    exact hx.of_error hrun
  | ok a s₁ =>
    have hreached := hx.of_ok hrun
    obtain ⟨hpop, hsteady⟩ := hreached.symbols.pop
    have hpopped :
        popScope s₁ = .ok () { s₁ with symbols := s₁.symbols.backTo s.symbols.current } := by
      simp only [popScope, get_bind_run, hpop]
      rfl
    rw [bind_eq_of_ok hrun, bind_eq_of_ok hpopped]
    exact ⟨⟨hreached.fits.opened, hreached.fits.tokens, hreached.fits.current⟩, hsteady,
      hreached.operands, hreached.leads⟩

/-- A computation inside another one, which runs in a state made from the present one and is put
back into it. -/
theorem of_mapState {y : Parse α} {i k : ParserState → ParserState → ParserState} {st₁ : Stage}
    (h : Orderly m st₁ x q) (hy : ∀ s, y s = mapState (k s) (x (i s s))) (hin : ∀ s, st.Fits m s →
      st₁.Fits m (i s s))
    (hok : ∀ s a s', st.Fits m s → st₁.Reached m (q a) (i s s) s' → st.Reached m (r a) s (k s s'))
    (herror : ∀ s s', s'.expressionDepth = (i s s).expressionDepth →
      (k s s').expressionDepth = s.expressionDepth) : Orderly m st y r := by
  intro s hs
  have hx := h _ (hin s hs)
  rw [Runs, hy]
  cases hrun : x (i s s) with
  | ok a s' => exact hok s a s' hs (hx.of_ok hrun)
  | error e s' => exact ⟨herror s s' (hx.of_error hrun).1, (hx.of_error hrun).2⟩

/-- The operands open inside are closed again, also after a failure. -/
theorem deeper (h : Orderly m st x r) : Orderly m st (ctx.deeper x) r := by
  have hlimited : Orderly m st (do
      ParseContext.limit (← get).expressionDepth ctx.limits.maxExpressionDepth .expression
      x) r := bind (ask fun _ ↦ rfl) fun _ ↦ (limit _ _ _).bind fun _ ↦ h
  refine hlimited.of_mapState (i := fun _ s ↦ { s with expressionDepth := s.expressionDepth + 1 })
    (k := fun _ s ↦ { s with expressionDepth := s.expressionDepth - 1 })
    (fun _ ↦ deeper_run ctx x) (fun s hs ↦ ⟨hs.opened, hs.tokens, hs.current⟩)
    (fun s a s' _ h ↦ ?_) fun s s' h ↦ ?_
  · exact ⟨⟨h.fits.opened, h.fits.tokens, h.fits.current⟩, h.symbols,
      congrArg (· - 1) h.operands, h.leads⟩
  · exact congrArg (· - 1) h

/-- Other tokens are parsed on their own. -/
theorem aside {list : List Token}
    (hlist : m.ready → m.numbered → InOrder list ∧ TokensEachString SectionsInOrder list)
    (h : Orderly m st.resting x fun _ ↦ st.resting) : Orderly m st (aside list x) fun _ ↦ st := by
  refine h.of_mapState (i := fun _ s ↦ { s with tokens := .ofTokens list s.tokens.lookahead })
    (k := fun s s' ↦ { s' with tokens := s.tokens }) (fun _ ↦ aside_run list x)
    (fun s hs ↦ ⟨hs.opened, fun hready ↦ ?_, fun _ ↦ trivial⟩) (fun s a s' hs h ↦ ?_) fun _ _ h ↦ h
  · exact Window.ready_ofTokens _ (hlist hready)
  · exact ⟨⟨h.fits.opened, hs.tokens, hs.current⟩, h.symbols, h.operands, fun _ ↦ ⟨[], .refl, .inl⟩⟩

/-! ### Moving -/

/-- Where no token can be current, the window is not trusted, and the stage says less than it
seems. -/
theorem of_absurd (hst : ∀ t, ¬ st.current t) (h : Orderly m st x q)
    (hopened : ∀ a, (r a).opened = (q a).opened) : Orderly m st x r := by
  intro s hs
  have hnot : ¬ m.ready := fun hready ↦ hst _ (hs.current hready)
  refine .intro (fun a s' hrun ↦ ?_) fun e s' hrun ↦ (h s hs).of_error hrun
  have hreached := (h s hs).of_ok hrun
  exact ⟨⟨hreached.fits.opened.trans (hopened a).symm, fun hready ↦ absurd hready hnot,
    fun hready ↦ absurd hready hnot⟩, hreached.symbols, hreached.operands, fun hready ↦
      absurd hready hnot⟩

/-- A move of the window. -/
theorem onTokens {f : WindowM Lexer α} (hopened : ∀ a, (r a).opened = st.opened)
    (h : ∀ w, Ready m.numbered w → st.current w.current →
      Ensures (fun e ↦ ¬ e.cause.IsInternal) f w fun a w' ↦
        Window.isPassedOver false w'.current = false ∧
        (r a).current w'.current ∧
          ∃ read, Leads True w read w' ∧ ((r a).moved → st.moved ∨ 0 < content read)) :
    Orderly m st (onTokens f) r := by
  intro s hs
  rw [Runs, onTokens_run]
  cases hrun : f s.tokens with
  | error e w =>
    exact ⟨rfl, fun hready hinternal ↦
      absurd hinternal ((h _ (hs.tokens hready) (hs.current hready)).of_error hrun)⟩
  | ok a w =>
    have hmoves (hready : m.ready) := (h _ (hs.tokens hready) (hs.current hready)).of_ok hrun
    refine ⟨⟨hs.opened.trans (hopened a).symm, fun hready ↦ ?_, fun hready ↦ (hmoves hready).2.1⟩,
      .refl, rfl,
      fun hready ↦ (hmoves hready).2.2⟩
    obtain ⟨hrested, -, read, hleads, -⟩ := hmoves hready
    exact (hs.tokens hready).leads hleads hrested

theorem advance (count : Nat) (passNewLine : Bool) :
    Orderly m st (Parse.advance count passNewLine) fun _ ↦ st.resting :=
  onTokens (r := fun _ ↦ st.resting) (fun _ ↦ rfl) fun _ hw _ ↦ ((hw.advance_ensures count
    passNewLine).loosen fun _ he ↦ he.not_isInternal).mono fun _ _ ⟨hrested, read, hleads, _⟩ ↦
      ⟨hrested, trivial, read, hleads, .inl⟩

/-- If something stands there, it is passed. -/
theorem advance_content {count : Nat} {passNewLine : Bool} (hcount : 0 < count)
    (h : ∀ t, st.current t → t.lexeme.isTrivia = false → t.isContent = true) :
    Orderly m st (Parse.advance count passNewLine) fun _ ↦ st.moving :=
  onTokens (r := fun _ ↦ st.moving) (fun _ ↦ rfl) fun _ hw hcurrent ↦ ((hw.advance_ensures count
    passNewLine).loosen fun _ he ↦ he.not_isInternal).mono fun _ _ ⟨hrested, read, hleads,
    hpassed⟩ ↦
      ⟨hrested, trivial, read, hleads, fun _ ↦ .inr (hpassed hcount (h _ hcurrent hw.isTrivia_eq))⟩

theorem skipNewLines : Orderly m st skipNewLines fun _ ↦ st.resting.knowing
    (·.kind ≠ .newLine) := by
  refine onTokens (fun _ ↦ rfl) fun w hw _ ↦ ((hw.firm.skipNewLines_ensures).loosen
    fun _ he ↦ he.not_isInternal).mono fun _ w' hskips ↦ ?_
  obtain ⟨read, hleads, -⟩ := hskips.leads
  refine ⟨Window.isPassedOver_false_of_not hskips.stops, ⟨trivial, fun hkind ↦ ?_⟩, read,
    hleads, .inl⟩
  have hstops := (Bool.or_eq_false_iff.mp hskips.stops).2
  simp [hkind] at hstops

/-- Looking ahead does not move, and is never too far where the parser does it. -/
theorem peek {count : Nat} (hcount : count ≤ Window.minLookahead) (passNewLine : Bool) :
    Orderly m st (peek count passNewLine) fun _ ↦ st := by
  refine onTokens (fun _ ↦ rfl) fun w hw hcurrent ↦
    ((hw.firm.peek_ensures count passNewLine fun hfar ↦ ?_).loosen
    fun _ he ↦ he.not_isInternal).mono fun _ w' ⟨hholds, _⟩ ↦ ?_
  · exact absurd (Nat.le_trans hcount hw.firm.sight) (Nat.not_le_of_lt hfar)
  · have hsame := hholds.current_eq hw.firm.held
    exact ⟨hsame ▸ hw.rested, hsame ▸ hcurrent, [], hholds.leads, .inl⟩

theorem expect (text : String) (passNewLine : Bool) :
    Orderly m st (Parse.expect text passNewLine) fun _ ↦ st.resting :=
  onTokens (r := fun _ ↦ st.resting) (fun _ ↦ rfl) fun _ hw _ ↦ .get_bind <| .branch
    (fun _ ↦ ((hw.advance_ensures 1 passNewLine).loosen fun _ he ↦ he.not_isInternal).mono
      fun _ _ ⟨hrested, read, hleads, _⟩ ↦ ⟨hrested, trivial, read, hleads, .inl⟩)
    fun _ ↦ .get_bind (.throw id)

/-- If something stands there, it is passed. -/
theorem expect_content {text : String} {passNewLine : Bool}
    (h : ∀ t, st.current t → t.lexeme.isTrivia = false → t.isContent = true) :
    Orderly m st (Parse.expect text passNewLine) fun _ ↦ st.moving :=
  onTokens (r := fun _ ↦ st.moving) (fun _ ↦ rfl) fun _ hw hcurrent ↦ .get_bind <| .branch
    (fun _ ↦ ((hw.advance_ensures 1 passNewLine).loosen fun _ he ↦ he.not_isInternal).mono
      fun _ _ ⟨hrested, read, hleads, hpassed⟩ ↦ ⟨hrested, trivial, read, hleads,
        fun _ ↦ .inr (hpassed Nat.one_pos (h _ hcurrent hw.isTrivia_eq))⟩)
    fun _ ↦ .get_bind (.throw id)

/-- A name is passed. -/
theorem expectName (passNewLine : Bool) :
    Orderly m st (Parse.expectName passNewLine) fun _ ↦ st.moving := by
  refine onTokens (fun _ ↦ rfl) fun w hw _ ↦ ?_
  rw [Window.expectName, Window.expectKind]
  refine Ensures.bind (Q := fun _ w' ↦ Window.isPassedOver false w'.current = false ∧
    ∃ read, Leads True w read w' ∧ 0 < content read)
      (.get_bind (.branch (fun hkind ↦ ?_) fun _ ↦ ?_)) ?_
  · refine Ensures.bind ((hw.advance_ensures 1 passNewLine).loosen fun _ he ↦ he.not_isInternal) ?_
    rintro _ _ ⟨hrested, read, hleads, hpassed⟩
    refine .pure ⟨hrested, read, hleads, hpassed Nat.one_pos ?_⟩
    exact Token.isContent_of_kind hkind (by simp) hw.isTrivia_eq
  · exact .get_bind (.throw id)
  · rintro _ _ ⟨hrested, read, hleads, hpassed⟩
    exact .pure ⟨hrested, trivial, read, hleads, fun _ ↦ .inr hpassed⟩

end Orderly

/-! ## Progress -/

/-- Whoever has moved is not told to have made no progress. -/
theorem requireProgress_runs {before : Nat × Nat} (hs : st.Fits m s)
    (h : m.ready → m.numbered → before.1 < s.tokens.current.index) :
    Runs m st (requireProgress before) s fun _ ↦ st := by
  rw [Runs, requireProgress_run]
  by_cases hstuck :
      ((s.tokens.current.index, s.tokens.current.offset) = before && !s.tokens.isEnded) = true
  · rw [if_pos hstuck]
    refine ⟨rfl, fun hready _ ↦ ⟨fun hn ↦ ?_, _, rfl⟩⟩
    have hsame : (s.tokens.current.index, s.tokens.current.offset) = before := by simp_all
    exact absurd (congrArg Prod.fst hsame) (Nat.ne_of_gt (h hready hn))
  · rw [if_neg hstuck]
    exact hs.reached id

/-- The stages at the end of a round. -/
def Round.leads (again : α → Stage) (done : β → Stage) : Round α β → Stage
  | .again a => again a
  | .done b => done b

/-- The stages at the end of a round, if what is collected does not matter. -/
abbrev Round.stage (again done : Stage) : Round α β → Stage :=
  Round.leads (fun _ ↦ again) fun _ ↦ done

/-- The stage behind a statement, if there is one. -/
def Stage.afterStatement (st : Stage) : Option Expr → Stage
  | none => st.resting
  | some _ => st.moving

/-- A statement that was read is one further on. -/
theorem Orderly.statementRound {ended : Parse (Round (List Expr) (List Expr))} {done : List Expr}
    (hsub : ∀ st, Orderly m st (sub .statement) st.afterStatement)
    (hended : Orderly m st.resting ended (Round.stage st.moving st.resting)) :
    Orderly m st (statementRound sub ended done) (Round.stage st.moving st.resting) := by
  intro s hs
  refine Runs.ask place_run ((hsub st s hs).bind fun found s₁ hrun hreached ↦ ?_)
  cases found with
  | none => exact hended s₁ hreached.fits
  | some statement =>
    refine (requireProgress_runs hreached.fits fun hready hn ↦ ?_).bind fun _ s₂ _ hsame ↦
      Orderly.pure .refl s₂ hsame.fits
    -- the statement has passed a token, whatever was passed before
    have hmoved := (hsub { st with moved := False } s ⟨hs.opened, hs.tokens, hs.current⟩).of_ok hrun
    obtain ⟨read, hleads, hpassed⟩ := hmoved.leads hready
    refine hleads.index_lt (hs.tokens hready).firm ((hs.tokens hready).numbers hn) ?_
    rintro rfl
    rcases hpassed trivial with hnot | hpos
    · exact hnot
    · exact absurd hpos (Nat.lt_irrefl 0)

/-- What is known when a round starts need not be said of its end. -/
theorem Orderly.round_mono {x : Parse (Round α β)}
    (h : Orderly m st x (Round.stage st.moving st.resting))
    (hopened : st.opened = st'.opened) (hmoved : st'.moved → st.moved) :
    Orderly m st x (Round.stage st'.moving st'.resting) :=
  h.mono fun
    | .again _ => ⟨hopened.symm, fun _ ↦ trivial, fun _ ↦ id⟩
    | .done _ => ⟨hopened.symm, hmoved, fun _ ↦ id⟩

/-- What every round keeps, the loop keeps. -/
theorem Orderly.rounded {round : α → Parse (Round α β)} (point : α → Stage) {r : β → Stage}
    (h : ∀ a, Orderly m (point a) (round a) (Round.leads point r)) (fuel : Nat) (a : α) :
    Orderly m (point a) (rounded round fuel a) r := by
  induction fuel generalizing a with
  | zero => exact of_fails (fails_fail id)
  | succ fuel ih =>
    rw [Parse.rounded]
    refine (h a).bind fun next ↦ ?_
    cases next with
    | again b => exact ih b
    | done c => exact .pure .refl

/-- What every round keeps holds between the rounds. -/
theorem Orderly.comes {round : α → Parse (Round α β)} (point : α → Stage) {r : β → Stage}
    (h : ∀ a, Orderly m (point a) (round a) (Round.leads point r)) {a b : α}
    (hs : (point a).Fits m s) (hcomes : Comes round a s b s') :
    (point a).Reached m (point b) s s' := by
  induction hcomes with
  | start => exact hs.reached id
  | round _ hround ih => exact ih.trans ((h _ _ ih.fits).of_ok hround)

section

variable {round : α → Parse (Round α β)}
  (h : ∀ a st, Orderly m st (round a) (Round.stage st.moving st.resting))

include h

/-- That a round has moved is forgotten before the next one. -/
theorem Orderly.anyRound (a : α) :
    Orderly m st.resting (round a) (Round.leads (fun _ ↦ st.resting) fun _ ↦ st.resting) :=
  (h a st.resting).mono fun
    | .again _ => Stage.implies_resting rfl fun _ ↦ trivial
    | .done _ => .refl

/-- A loop each round of which goes on only if it has moved. -/
theorem Orderly.loop (fuel : Nat) (a : α) : Orderly m st (Parse.rounded round fuel a) fun _ ↦
    st.resting :=
  (rounded (fun _ ↦ st.resting) (Orderly.anyRound h) fuel a).from_implied
  (Stage.implies_resting rfl id)

end

end Parse

end ScriptFront
