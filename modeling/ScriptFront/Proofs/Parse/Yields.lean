import ScriptFront.Parse.Run
import ScriptFront.Proofs.Window.Stream

/-!
# Running a parser on a list of tokens

A parser runs on a window, and windows that show the same tokens can differ. `ParserState.At` leaves
out what cannot be seen: it says that a state shows given tokens and agrees with another one in
everything else, so the other state stands for the names and counters alone.

`Parse.Yields` is the statement that a computation succeeds: from this state it yields a result with
a property, at given tokens, with given names and counters. Computations are taken apart by
`Yields.bind`; the other statements of this module give, for each computation that the productions
of the grammar are made of, what it yields.
-/

namespace ScriptFront

/-- The state shows `tokens`, and has the names and counters of `base`. -/
structure ParserState.At (base : ParserState) (tokens : List Token) (s : ParserState) : Prop where
  /-- Names and counters are those of `base`. -/
  same : s = { base with tokens := s.tokens }
  /-- The tokens to come. -/
  shows : s.tokens.Shows tokens

namespace ParserState.At

variable {base s : ParserState} {t : Token} {tokens : List Token}

theorem current_eq (h : base.At (t :: tokens) s) : s.tokens.current = t := h.shows.current_eq

theorem symbols_eq (h : base.At tokens s) : s.symbols = base.symbols := by rw [h.same]

theorem is_eq (h : base.At (t :: tokens) s) (text : String) : s.tokens.is text = t.is text := by
  rw [Window.is, h.current_eq]

theorem isEnded_eq (h : base.At (t :: tokens) s) : s.tokens.isEnded = t.isEnd := by
  rw [Window.isEnded, Window.kind, h.current_eq]
  rfl

theorem position_eq (h : base.At (t :: tokens) s) : s.tokens.position = t.position := by
  rw [Window.position, h.current_eq]

theorem ne_nil (h : base.At tokens s) : tokens ≠ [] := h.shows.closed.ne_nil

/-- Behind a token that is not the end there is another. -/
theorem tail_ne_nil (h : base.At (t :: tokens) s) (ht : t.isEnd = false) : tokens ≠ [] := by
  intro hnil
  rw [h.shows.isEnd_iff.mpr hnil] at ht
  exact absurd ht (by simp)

theorem length_lt_rounds (h : base.At tokens s) :
    tokens.length < 2 * s.tokens.tokensLeft + 2 := by
  have := h.shows.length_le_tokensLeft
  omega

/-- A change of names and counters alone. -/
theorem change (h : base.At tokens s) (g : ParserState → ParserState)
    (hg : ∀ (s : ParserState) (w : Window Lexer),
      g { s with tokens := w } = { g s with tokens := w }) :
    (g base).At tokens (g s) := by
  have hs : g s = { g base with tokens := s.tokens } := by
    rw [h.same]
    exact hg base s.tokens
  refine ⟨?_, ?_⟩
  · rw [hs]
  · rw [hs]
    exact h.shows

end ParserState.At

namespace Parse

/-- Run in the state `s`, the computation succeeds with a result that has the property `Q`; it
leaves the tokens `tokens`, and the names and counters of `base`. -/
def Yields {α : Type} (p : Parse α) (s base : ParserState) (tokens : List Token)
    (Q : α → Prop) : Prop :=
  ∃ a s', p s = .ok a s' ∧ base.At tokens s' ∧ Q a

variable {α β : Type} {p : Parse α} {f : α → Parse β} {s base base' : ParserState} {t : Token}
  {tokens tokens' : List Token} {Q : α → Prop} {Q' : β → Prop}

theorem Yields.bind (h : p.Yields s base tokens Q)
    (hf : ∀ a s', base.At tokens s' → Q a → (f a).Yields s' base' tokens' Q') :
    (p >>= f).Yields s base' tokens' Q' := by
  obtain ⟨a, s₁, hp, hat, hQ⟩ := h
  obtain ⟨b, s₂, hb, hat₂, hQ₂⟩ := hf a s₁ hat hQ
  exact ⟨b, s₂, by rw [bind_eq_of_ok hp, hb], hat₂, hQ₂⟩

theorem Yields.mono {R : α → Prop} (h : p.Yields s base tokens Q) (hQR : ∀ a, Q a → R a) :
    p.Yields s base tokens R := by
  obtain ⟨a, s', hp, hat, hQ⟩ := h
  exact ⟨a, s', hp, hat, hQR a hQ⟩

theorem yields_pure {a : α} (h : base.At tokens s) (hQ : Q a) :
    (pure a : Parse α).Yields s base tokens Q := ⟨a, s, rfl, h, hQ⟩

/-- A first computation that changes nothing is replaced by its result. -/
theorem yields_bind_of_ok {a : α} (hp : p s = .ok a s)
    (hf : (f a).Yields s base tokens Q') : (p >>= f).Yields s base tokens Q' := by
  obtain ⟨b, s', hb, hat, hQ⟩ := hf
  exact ⟨b, s', by rw [bind_eq_of_ok hp, hb], hat, hQ⟩

/-! ## Asking the state -/

@[simp] theorem current_run : current s = .ok s.tokens.current s := rfl

@[simp] theorem tokens_run : Parse.tokens s = .ok s.tokens s := rfl

@[simp] theorem is_run (text : String) : is text s = .ok (s.tokens.is text) s := rfl

@[simp] theorem isEnded_run : isEnded s = .ok s.tokens.isEnded s := rfl

@[simp] theorem kind_run : kind s = .ok s.tokens.kind s := rfl

@[simp] theorem position_run : position s = .ok s.tokens.position s := rfl

@[simp] theorem scope_run : scope s = .ok s.symbols.current s := rfl

@[simp] theorem rounds_run : rounds s = .ok (2 * s.tokens.tokensLeft + 2) s := rfl

@[simp] theorem place_run : place s = .ok (s.tokens.current.index, s.tokens.current.offset) s := rfl

@[simp] theorem symbols_run (g : SymbolTable → α) : symbols g s = .ok (g s.symbols) s := rfl

@[simp] theorem node_run (form : Form) (place : Position) :
    node form place s = .ok (.mk form place s.symbols.current) s := rfl

theorem requireProgress_run (before : Nat × Nat) : requireProgress before s =
    if (s.tokens.current.index, s.tokens.current.offset) = before && !s.tokens.isEnded then
      .error (s.tokens.error (.noProgress s.tokens.current.text)) s
    else .ok () s := by
  rw [requireProgress, bind_eq_of_ok place_run, bind_eq_of_ok isEnded_run, ite_run]
  rfl

/-! ## Computations inside computations -/

theorem onTokens_run (f : WindowM Lexer α) :
    onTokens f s = mapState (fun w ↦ { s with tokens := w }) (f s.tokens) := by
  rw [onTokens]
  cases f s.tokens <;> rfl

theorem deeper_run (ctx : ParseContext) (x : Parse α) :
    ctx.deeper x s =
      mapState (fun s ↦ { s with expressionDepth := s.expressionDepth - 1 })
        ((do
          ParseContext.limit (← get).expressionDepth ctx.limits.maxExpressionDepth .expression
          x : Parse α) { s with expressionDepth := s.expressionDepth + 1 }) := by
  unfold ParseContext.deeper
  dsimp only
  split <;> next hrun => rw [hrun]; rfl

theorem aside_run (list : List Token) (x : Parse α) :
    aside list x s =
      mapState (fun s' ↦ { s' with tokens := s.tokens })
        (x { s with tokens := .ofTokens list s.tokens.lookahead }) := by
  rw [aside]
  split <;> next hrun => rw [hrun]; rfl

/-! ## Moving -/

theorem onTokens_yields {f : WindowM Lexer α} (h : base.At tokens s)
    (hf : ∃ a w, f s.tokens = .ok a w ∧ w.Shows tokens' ∧ Q a) :
    (onTokens f).Yields s base tokens' Q := by
  obtain ⟨a, w, hrun, hshows, hQ⟩ := hf
  refine ⟨a, { s with tokens := w }, by rw [onTokens, hrun], ⟨?_, hshows⟩, hQ⟩
  rw [h.same]

theorem advance_yields (h : base.At (t :: tokens) s) (ht : t.isEnd = false) :
    (advance 1 false).Yields s base tokens fun _ ↦ True := by
  obtain ⟨w, hrun, hshows, -⟩ := h.shows.advance_stay (h.tail_ne_nil ht)
  exact onTokens_yields h ⟨(), w, hrun, hshows, trivial⟩

theorem advance_two_yields {next : Token} (h : base.At (t :: next :: tokens) s)
    (hnext : next.isEnd = false) : (advance 2 false).Yields s base tokens fun _ ↦ True := by
  have hne : tokens ≠ [] := by
    rintro rfl
    obtain ⟨w, -, hshows, -⟩ := h.shows.advance_stay (List.cons_ne_nil _ _)
    rw [hshows.isEnd_iff.mpr rfl] at hnext
    exact absurd hnext (by simp)
  obtain ⟨w, hrun, hshows, -⟩ := h.shows.advance_two hne
  exact onTokens_yields h ⟨(), w, hrun, hshows, trivial⟩

theorem peek_yields {next : Token} (h : base.At (t :: next :: tokens) s) :
    (peek 1 false).Yields s base (t :: next :: tokens) fun found ↦ found = next := by
  obtain ⟨w, hrun, hshows⟩ := h.shows.peek_one
  exact onTokens_yields h ⟨next, w, hrun, hshows, rfl⟩

theorem advance_pass_yields (h : base.At (t :: tokens) s) (ht : t.isEnd = false) :
    (advance 1 true).Yields s base (tokens.dropWhile Window.isNewLine) fun _ ↦ True := by
  obtain ⟨w, hrun, hshows, -⟩ := h.shows.advance_pass (h.tail_ne_nil ht)
  exact onTokens_yields h ⟨(), w, hrun, hshows, trivial⟩

theorem skipNewLines_yields (h : base.At tokens s) :
    skipNewLines.Yields s base (tokens.dropWhile Window.isNewLine) fun _ ↦ True := by
  obtain ⟨w, hrun, hshows, -⟩ := h.shows.skipNewLines
  exact onTokens_yields h ⟨(), w, hrun, hshows, trivial⟩

theorem expect_yields {text : String} (h : base.At (t :: tokens) s) (ht : t.isEnd = false)
    (his : t.is text = true) : (expect text false).Yields s base tokens fun _ ↦ True := by
  obtain ⟨w, hrun, hshows, -⟩ := h.shows.advance_stay (h.tail_ne_nil ht)
  refine onTokens_yields h ⟨(), w, ?_, hshows, trivial⟩
  simpa [Window.expect, h.is_eq, his] using hrun

theorem expect_pass_yields {text : String} (h : base.At (t :: tokens) s) (ht : t.isEnd = false)
    (his : t.is text = true) :
    (expect text true).Yields s base (tokens.dropWhile Window.isNewLine) fun _ ↦ True := by
  obtain ⟨w, hrun, hshows, -⟩ := h.shows.advance_pass (h.tail_ne_nil ht)
  refine onTokens_yields h ⟨(), w, ?_, hshows, trivial⟩
  simpa [Window.expect, h.is_eq, his] using hrun

theorem expectName_yields {name : String} (h : base.At (t :: tokens) s)
    (hname : t.lexeme = .ident name) :
    (expectName false).Yields s base tokens fun found ↦ found = name := by
  have hkind : t.kind = .ident := by rw [Token.kind, hname]; rfl
  have ht : t.isEnd = false := by simp [Token.isEnd, hkind]
  obtain ⟨w, hrun, hshows, -⟩ := h.shows.advance_stay (h.tail_ne_nil ht)
  refine onTokens_yields h ⟨name, w, ?_, hshows, rfl⟩
  have hcurrent : s.tokens.kind = .ident := by rw [Window.kind, h.current_eq, hkind]
  have htext : t.text = name := by rw [Token.text, hname]; rfl
  have hkindRun : Window.expectKind .ident "identifier" false s.tokens = .ok t w := by
    simp only [Window.expectKind, get_bind_run, ite_run, hcurrent, if_true]
    rw [bind_eq_of_ok hrun, h.current_eq]
    rfl
  rw [Window.expectName, bind_eq_of_ok hkindRun, htext]
  rfl

/-! ## Counting -/

variable {ctx : ParseContext}

theorem modify_yields (g : ParserState → ParserState) (h : base.At tokens s)
    (hg : ∀ (s : ParserState) (w : Window Lexer),
      g { s with tokens := w } = { g s with tokens := w }) :
    Yields (modify g) s (g base) tokens fun _ ↦ True :=
  ⟨⟨⟩, g s, rfl, h.change g hg, trivial⟩

theorem limit_yields {depth max : Nat} {what : Nesting} (h : base.At tokens s)
    (hlimit : depth ≤ max) :
    (ParseContext.limit depth max what).Yields s base tokens fun _ ↦ True := by
  rw [ParseContext.limit, if_neg (by omega)]
  exact yields_pure h trivial

theorem enterParen_yields (h : base.At tokens s)
    (hlimit : base.parenDepth + 1 ≤ ctx.limits.maxParenDepth) :
    ctx.enterParen.Yields s { base with parenDepth := base.parenDepth + 1 } tokens
      fun _ ↦ True := by
  refine (modify_yields (fun s ↦ { s with parenDepth := s.parenDepth + 1 }) h
    fun _ _ ↦ rfl).bind fun _ s₁ h₁ _ ↦ ?_
  refine yields_bind_of_ok rfl (limit_yields h₁ ?_)
  rw [h₁.same]
  exact hlimit

theorem leaveParen_yields {depth : Nat} (h : base.At tokens s)
    (hdepth : base.parenDepth = depth + 1) :
    ParseContext.leaveParen.Yields s { base with parenDepth := depth } tokens fun _ ↦ True := by
  have hbase : { base with parenDepth := depth } =
      { base with parenDepth := base.parenDepth - 1 } := by rw [hdepth]; rfl
  rw [hbase]
  exact modify_yields (fun s ↦ { s with parenDepth := s.parenDepth - 1 }) h fun _ _ ↦ rfl

theorem enterCall_yields (h : base.At tokens s)
    (hlimit : base.callDepth + 1 ≤ ctx.limits.maxCallDepth) :
    ctx.enterCall.Yields s { base with callDepth := base.callDepth + 1 } tokens
      fun _ ↦ True := by
  refine (modify_yields (fun s ↦ { s with callDepth := s.callDepth + 1 }) h
    fun _ _ ↦ rfl).bind fun _ s₁ h₁ _ ↦ ?_
  refine yields_bind_of_ok rfl (limit_yields h₁ ?_)
  rw [h₁.same]
  exact hlimit

theorem leaveCall_yields {depth : Nat} (h : base.At tokens s)
    (hdepth : base.callDepth = depth + 1) :
    ParseContext.leaveCall.Yields s { base with callDepth := depth } tokens fun _ ↦ True := by
  have hbase : { base with callDepth := depth } =
      { base with callDepth := base.callDepth - 1 } := by rw [hdepth]; rfl
  rw [hbase]
  exact modify_yields (fun s ↦ { s with callDepth := s.callDepth - 1 }) h fun _ _ ↦ rfl

/-- One operand deeper: the computation runs with the count one higher, which is then taken back. -/
theorem deeper_yields (h : base.At tokens s)
    (hlimit : base.expressionDepth + 1 ≤ ctx.limits.maxExpressionDepth)
    (hp : ∀ s', ParserState.At { base with expressionDepth := base.expressionDepth + 1 } tokens s' →
      p.Yields s' { base with expressionDepth := base.expressionDepth + 1 } tokens' Q) :
    (ctx.deeper p).Yields s base tokens' Q := by
  have h₁ := h.change (fun s ↦ { s with expressionDepth := s.expressionDepth + 1 }) fun _ _ ↦ rfl
  have hlimited : Yields (do
      ParseContext.limit (← get).expressionDepth ctx.limits.maxExpressionDepth .expression
      p) { s with expressionDepth := s.expressionDepth + 1 }
      { base with expressionDepth := base.expressionDepth + 1 } tokens' Q := by
    refine yields_bind_of_ok rfl ((limit_yields h₁ ?_).bind fun _ s' hs' _ ↦ hp s' hs')
    rw [h.same]
    exact hlimit
  obtain ⟨a, s₂, hrun, hat, hQ⟩ := hlimited
  refine ⟨a, { s₂ with expressionDepth := s₂.expressionDepth - 1 }, ?_, ?_, hQ⟩
  · unfold ParseContext.deeper
    simp only [hrun]
  · exact hat.change (fun s ↦ { s with expressionDepth := s.expressionDepth - 1 }) fun _ _ ↦ rfl

/-! ## Without extensions -/

theorem find_run (hctx : ctx.registry.entries = []) (kind : ExtensionKind) :
    ctx.find kind s = .ok none s := by
  simp only [ParseContext.find, get_bind_run, onTokens, Registry.find, hctx, Registry.findFrom,
    pure_run]

theorem replaceTokens_run (hctx : ctx.registry.entries = []) : ctx.replaceTokens s = .ok () s := by
  rw [ParseContext.replaceTokens, bind_eq_of_ok (find_run hctx _)]
  rfl

theorem build?_run (hctx : ctx.registry.entries = []) (sub : Subparser) (kind : ExtensionKind) :
    ctx.build? sub kind s = .ok none s := by
  rw [ParseContext.build?, bind_eq_of_ok (find_run hctx _)]
  rfl

/-! ## What extensions do at given tokens -/

/-- With the names of `table`, replacement makes these tokens of those. -/
def Replaces (ctx : ParseContext) (table : SymbolTable) (tokens seen : List Token) : Prop :=
  ∀ {base s : ParserState}, base.symbols = table → base.At tokens s →
    ctx.replaceTokens.Yields s base seen fun _ ↦ True

/-- With the names of `table`, no extension of the kind claims these tokens. -/
def Leaves (ctx : ParseContext) (kind : ExtensionKind) (table : SymbolTable) (tokens : List Token) :
    Prop :=
  ∀ {base s : ParserState} (sub : Subparser), base.symbols = table → base.At tokens s →
    (ctx.build? sub kind).Yields s base tokens fun e ↦ e = none

theorem Replaces.cast {ctx : ParseContext} {table : SymbolTable} {tokens tokens' seen : List Token}
    (h : Replaces ctx table tokens seen) (heq : tokens' = tokens) :
    Replaces ctx table tokens' seen :=
  heq ▸ h

theorem replaces_of_entries {table : SymbolTable} (hctx : ctx.registry.entries = [])
    (hseen : tokens = tokens') : Replaces ctx table tokens tokens' := by
  intro base s _ h
  subst hseen
  exact ⟨(), s, replaceTokens_run hctx, h, trivial⟩

theorem leaves_of_entries {kind : ExtensionKind} {table : SymbolTable}
    (hctx : ctx.registry.entries = []) :
    Leaves ctx kind table tokens :=
  fun sub _ h ↦ ⟨none, _, build?_run hctx sub kind, h, rfl⟩

end Parse

end ScriptFront
