import ScriptFront.Proofs.Parse.Yields
import ScriptFront.Proofs.Window.Walk

/-!
# What a production passes

A production of the parser passes some tokens and returns a tree. Between the state before and the
state after it, `Parse.Spans` keeps account of the two: which tokens were passed, that their
operands are the leaves the tree has gained, and that every counter of open blocks, calls,
parentheses and operands is back where it was.

`Parse.HasRoom` says that the fuel of the parser covers the nesting that the bounds leave room for.
A production that opens an operand or a block has less room inside than around it, which pays for
the goals on the way.
-/

namespace ScriptFront

/-- How many blocks, argument lists, parentheses and operands are open. -/
def ParserState.depths (s : ParserState) : Nat × Nat × Nat × Nat :=
  (s.statementDepth, s.callDepth, s.parenDepth, s.expressionDepth)

/-- The state when `n` parentheses are closed. -/
def ParserState.closing (s : ParserState) (n : Nat) : ParserState :=
  { s with parenDepth := s.parenDepth - n }

theorem ParserState.closing_closing (s : ParserState) (m n : Nat) :
    (s.closing m).closing n = s.closing (m + n) := by
  rw [closing, closing, closing]
  dsimp only
  rw [Nat.sub_sub]

namespace Parse

open Window (Leads Passes Skips Holds Sound Walk)

variable {plain : Prop} {α β : Type} {ctx : ParseContext} {s s' s₁ s₂ : ParserState}
  {before between now leaves : List TreeLeaf} {pace pace' : Nat}

/-- Run in the state `s`, the computation does not run out of fuel, and if it succeeds, `Q` holds of
its result and of the state it leaves. -/
abbrev Ends (x : Parse α) (s : ParserState) (Q : α → ParserState → Prop) : Prop :=
  Ensures ScriptError.WithinFuel x s Q

/-- No token was passed, and as much is open as before. -/
structure Still (s s' : ParserState) : Prop where
  /-- The window is the same. -/
  tokens : s'.tokens = s.tokens
  /-- So are the counters. -/
  depths : s'.depths = s.depths

/-- At least `pace` tokens were passed between two states, and their leaves take `before` to `now`.
-/
structure Spans (plain : Prop) (pace : Nat) (s : ParserState) (before now : List TreeLeaf)
    (s' : ParserState) : Prop where
  /-- The tokens passed. -/
  leads : ∃ read, Leads plain s.tokens read s'.tokens ∧ pace ≤ read.length ∧
    (plain → ∃ gained, Accounts read gained ∧ now = before ++ gained)
  /-- As much is open after as before. -/
  depths : s'.depths = s.depths

namespace Spans

/-- No token was passed, and nothing was opened or closed. -/
theorem of_holds (htokens : Leads plain s.tokens [] s'.tokens) (hdepths : s'.depths = s.depths) :
    Spans plain 0 s before before s' :=
  ⟨⟨[], htokens, Nat.zero_le _, fun _ ↦ ⟨[], accounts_nil, by simp⟩⟩, hdepths⟩

theorem refl : Spans plain 0 s before before s := of_holds .refl rfl

theorem trans (h : Spans plain pace s before between s₁)
    (h' : Spans plain pace' s₁ between now s₂) :
    Spans plain (pace + pace') s before now s₂ := by
  obtain ⟨read, hleads, hpace, haccounts⟩ := h.leads
  obtain ⟨more, hleads', hpace', haccounts'⟩ := h'.leads
  refine ⟨⟨read ++ more, hleads.trans hleads', by rw [List.length_append]; omega, ?_⟩,
    h'.depths.trans h.depths⟩
  intro hplain
  obtain ⟨gained, hgained, rfl⟩ := haccounts hplain
  obtain ⟨gained', hgained', rfl⟩ := haccounts' hplain
  exact ⟨gained ++ gained', hgained.append hgained', List.append_assoc _ _ _⟩

/-- Less may be claimed of the number of tokens. -/
theorem slower (h : Spans plain pace s before now s') (hpace : pace' ≤ pace) :
    Spans plain pace' s before now s' := by
  obtain ⟨read, hleads, hlength, haccounts⟩ := h.leads
  exact ⟨⟨read, hleads, Nat.le_trans hpace hlength, haccounts⟩, h.depths⟩

/-- More leaves may stand before. -/
theorem behind (h : Spans plain pace s before now s') (front : List TreeLeaf) :
    Spans plain pace s (front ++ before) (front ++ now) s' := by
  obtain ⟨read, hleads, hpace, haccounts⟩ := h.leads
  refine ⟨⟨read, hleads, hpace, fun hplain ↦ ?_⟩, h.depths⟩
  obtain ⟨gained, hgained, rfl⟩ := haccounts hplain
  exact ⟨gained, hgained, by rw [List.append_assoc]⟩

/-- What was gained is put behind other leaves. -/
theorem onto (h : Spans plain pace s [] leaves s') (before : List TreeLeaf) :
    Spans plain pace s before (before ++ leaves) s' := by
  have := h.behind before
  rwa [List.append_nil] at this

/-- What follows gains leaves. -/
theorem gain (h : Spans plain pace s before now s₁) (h' : Spans plain pace' s₁ [] leaves s₂) :
    Spans plain (pace + pace') s before (now ++ leaves) s₂ := h.trans (h'.onto now)

/-- What is passed without gaining leaves changes none. -/
theorem under (h : Spans plain pace s [] [] s') (before : List TreeLeaf) :
    Spans plain pace s before before s' := by
  have := h.onto before
  rwa [List.append_nil] at this

/-- What follows gains no leaves. -/
theorem quiet (h : Spans plain pace s before now s₁) (h' : Spans plain pace' s₁ [] [] s₂) :
    Spans plain (pace + pace') s before now s₂ := h.trans (h'.under now)

/-- What follows changes nothing but names. -/
theorem still (h : Spans plain pace s before now s₁) (h' : Still s₁ s₂) :
    Spans plain pace s before now s₂ :=
  h.trans (of_holds (h'.tokens ▸ .refl) h'.depths)

/-- The leaves only matter in plain windows. -/
theorem cast (h : Spans plain pace s before between s') (heq : plain → between = now) :
    Spans plain pace s before now s' := by
  obtain ⟨read, hleads, hpace, haccounts⟩ := h.leads
  refine ⟨⟨read, hleads, hpace, fun hplain ↦ ?_⟩, h.depths⟩
  obtain ⟨gained, hgained, hnow⟩ := haccounts hplain
  exact ⟨gained, hgained, (heq hplain).symm.trans hnow⟩

/-- The two states may be replaced by others with the same tokens. -/
theorem frame {t t' : ParserState} (h : Spans plain pace t before now t')
    (htokens : t.tokens = s.tokens) (htokens' : s'.tokens = t'.tokens)
    (hdepths : t'.depths = t.depths → s'.depths = s.depths) :
    Spans plain pace s before now s' := by
  obtain ⟨read, hleads, hrest⟩ := h.leads
  rw [htokens, ← htokens'] at hleads
  exact ⟨⟨read, hleads, hrest⟩, hdepths h.depths⟩

theorem sound (h : Spans plain pace s before now s') (hs : Sound plain s.tokens) :
    Sound plain s'.tokens := by
  obtain ⟨read, hleads, -⟩ := h.leads
  exact hleads.sound hs

/-- **Progress.** The tokens passed are no longer left. -/
theorem left (h : Spans plain pace s before now s') (hs : Sound plain s.tokens) :
    pace + s'.tokens.tokensLeft ≤ s.tokens.tokensLeft := by
  obtain ⟨read, hleads, hpace, -⟩ := h.leads
  have := hleads.length_le hs
  omega

end Spans

/-! ## The room for nesting -/

/-- The fuel covers the nesting that is left, and `slack` more. -/
structure HasRoom (plain : Prop) (ctx : ParseContext) (levels fuel slack : Nat) (s : ParserState) :
    Prop where
  /-- The end of the tokens is held or to come. -/
  sound : Sound plain s.tokens
  /-- An operand or a block that is still to be opened has fuel for four goals. -/
  room : 4 * (ctx.limits.maxExpressionDepth - s.expressionDepth) +
    4 * (ctx.limits.maxStatementDepth - s.statementDepth) + slack ≤ fuel
  /-- An embedded section is part of an operand. -/
  reach : ctx.limits.maxExpressionDepth + 1 ≤ levels + s.expressionDepth

/-- Inside an operand, an embedded section may be entered. -/
structure Inside (plain : Prop) (ctx : ParseContext) (levels fuel : Nat) (s : ParserState) : Prop
    extends HasRoom plain ctx levels fuel 4 s where
  /-- The operand is within its bound. -/
  deep : s.expressionDepth ≤ ctx.limits.maxExpressionDepth
  /-- It was not counted yet before. -/
  inner : ctx.limits.maxExpressionDepth + 2 ≤ levels + s.expressionDepth

section

variable {levels fuel slack slack' : Nat}

theorem HasRoom.tighten (h : HasRoom plain ctx levels fuel slack s) (hslack : slack' ≤ slack) :
    HasRoom plain ctx levels fuel slack' s :=
  ⟨h.sound, Nat.le_trans (Nat.add_le_add_left hslack _) h.room, h.reach⟩

/-- A goal takes one of the fuel. -/
theorem HasRoom.pred (h : HasRoom plain ctx levels (fuel + 1) (slack + 1) s) :
    HasRoom plain ctx levels fuel slack s :=
  ⟨h.sound, Nat.le_of_succ_le_succ h.room, h.reach⟩

theorem HasRoom.move (h : HasRoom plain ctx levels fuel slack s) (hsound : Sound plain s'.tokens)
    (hdepths : s'.depths = s.depths) : HasRoom plain ctx levels fuel slack s' := by
  simp only [ParserState.depths, Prod.mk.injEq] at hdepths
  obtain ⟨hstatement, -, -, hexpression⟩ := hdepths
  refine ⟨hsound, ?_, ?_⟩
  · rw [hstatement, hexpression]
    exact h.room
  · rw [hexpression]
    exact h.reach

theorem HasRoom.after (h : HasRoom plain ctx levels fuel slack s)
    (hspans : Spans plain pace s before now s') : HasRoom plain ctx levels fuel slack s' :=
  h.move (hspans.sound h.sound) hspans.depths

theorem Inside.move (h : Inside plain ctx levels fuel s) (hsound : Sound plain s'.tokens)
    (hdepths : s'.depths = s.depths) : Inside plain ctx levels fuel s' := by
  have hfits := h.toHasRoom.move hsound hdepths
  simp only [ParserState.depths, Prod.mk.injEq] at hdepths
  obtain ⟨-, -, -, hexpression⟩ := hdepths
  exact ⟨hfits, hexpression ▸ h.deep, hexpression ▸ h.inner⟩

end

/-! ## Failing -/

theorem fail_ends {cause : Cause} {Q : α → ParserState → Prop} (hcause : cause ≠ .outOfFuel) :
    Ends (fail cause) s Q := .get_bind (.throw hcause)

theorem failExpected_ends {wanted : String} {Q : α → ParserState → Prop} :
    Ends (failExpected wanted) s Q := .ask rfl (fail_ends (by simp))

/-- A check that is required. -/
theorem require_ends {p : Prop} [Decidable p] {wanted : String} {f : Unit → Parse α}
    {Q : α → ParserState → Prop} (h : ¬ p → Ends (f ()) s Q) :
    Ends (if p then failExpected wanted >>= f else f ()) s Q :=
  .branch (fun _ ↦ (failExpected_ends (Q := fun _ _ ↦ False)).bind fun _ _ h ↦ h.elim) h

/-! ## Moving over tokens -/

theorem onTokens_ends {f : WindowM Lexer α} {P : α → Window Lexer → Prop}
    {Q : α → ParserState → Prop} (h : Ensures ScriptError.WithinFuel f s.tokens P)
    (hQ : ∀ a w, P a w → Q a { s with tokens := w }) : Ends (onTokens f) s Q :=
  .mapState (onTokens_run f) h hQ

/-- What is passed over has no leaves. -/
theorem accounts_of_isPassedOver {passNewLine : Bool} {read : List Token}
    (h : ∀ t ∈ read, Window.isPassedOver passNewLine t = true) : Accounts read [] := by
  induction read with
  | nil => exact accounts_nil
  | cons t read ih =>
    refine .cons_of_leaves_eq_nil ?_ (ih fun u hu ↦ h u (List.mem_cons_of_mem _ hu))
    have ht := h t (List.mem_cons_self ..)
    obtain ⟨lexeme, place, offset, index⟩ := t
    cases lexeme <;>
      simp_all [Window.isPassedOver, Token.lexeme, Lexeme.isTrivia, Lexeme.kind, Token.kind,
        Lexeme.leaves]

/-- The current token was passed, and what is passed over behind it. -/
structure Passed (plain : Prop) (s s' : ParserState) : Prop where
  /-- The step. -/
  passes : ∃ passNewLine, Passes plain passNewLine s.tokens s'.tokens
  /-- As much is open after as before. -/
  depths : s'.depths = s.depths

theorem Passed.sound (h : Passed plain s s') (hs : Sound plain s.tokens) :
    Sound plain s'.tokens := by
  obtain ⟨passNewLine, hpasses⟩ := h.passes
  obtain ⟨read, hleads, -⟩ := hpasses.leads
  exact hleads.sound hs

/-- The token passed becomes these leaves. -/
theorem Passed.spans (h : Passed plain s s')
    (haccounts : plain → List.Forall₂ TokenLeaf.Meets s.tokens.current.lexeme.leaves leaves) :
    Spans plain 1 s [] leaves s' := by
  obtain ⟨passNewLine, hpasses⟩ := h.passes
  obtain ⟨read, hleads, hover⟩ := hpasses.leads
  refine ⟨⟨_, hleads, by simp, fun hplain ↦ ⟨leaves, ?_, rfl⟩⟩, h.depths⟩
  have hfirst : Accounts [s.tokens.current] leaves := by
    rw [Accounts, tokenLeaves_cons]
    simpa [tokenLeaves] using haccounts hplain
  have := hfirst.append (accounts_of_isPassedOver hover)
  rwa [List.append_nil] at this

/-- A token without leaves was passed. -/
theorem Passed.spans_nil (h : Passed plain s s')
    (hnil : plain → s.tokens.current.lexeme.leaves = []) : Spans plain 1 s [] [] s' :=
  h.spans fun hplain ↦ by
    rw [hnil hplain]
    exact .nil

theorem advance_ends {passNewLine : Bool} (hs : Sound plain s.tokens)
    (hend : s.tokens.current.isEnd = false) :
    Ends (advance 1 passNewLine) s fun _ s' ↦ Passed plain s s' :=
  onTokens_ends (hs.advance_one_ensures passNewLine hend) fun _ _ h ↦ ⟨⟨_, h⟩, rfl⟩

theorem skipNewLines_ends (hs : Sound plain s.tokens) :
    Ends skipNewLines s fun _ s' ↦ Spans plain 0 s [] [] s' := by
  refine onTokens_ends hs.skipNewLines_ensures fun _ w h ↦ ?_
  obtain ⟨read, hleads, hover⟩ := h.leads
  exact ⟨⟨read, hleads, Nat.zero_le _, fun _ ↦ ⟨[], accounts_of_isPassedOver hover, by simp⟩⟩, rfl⟩

theorem peek_ends {count : Nat} {passNewLine : Bool} (hs : Sound plain s.tokens) :
    Ends (peek count passNewLine) s fun t s' ↦ Spans plain 0 s [] [] s' ∧
      s'.tokens.current = s.tokens.current ∧
      ∃ place, Walk passNewLine s'.tokens.ahead count place ∧ s'.tokens.ahead[place]? = some t :=
  onTokens_ends (hs.peek_ensures count passNewLine) fun _ _ ⟨hholds, hwalk⟩ ↦
    ⟨.of_holds hholds.leads rfl, hholds.current_eq hs.held, hwalk⟩

/-! ## Marks and words -/

/-- A reserved spelling is not that of the end. -/
theorem isEnd_of_is {t : Token} {text : String} (h : t.is text = true)
    (hreserved : text ∈ Lexeme.reserved) : t.isEnd = false := by
  rw [← Bool.not_eq_true]
  intro hend
  have htext : text = "" := by
    obtain ⟨lexeme, place, offset, index⟩ := t
    cases lexeme with
    | endOfInput => exact (eq_of_beq (show ("" == text) = true from h)).symm
    | _ => simp [Token.isEnd, Token.kind, Token.lexeme, Lexeme.kind] at hend
  rw [htext] at hreserved
  exact absurd hreserved (by decide)

theorem is_of_isSymbol {t : Token} {text : String} (h : t.isSymbol text = true) :
    t.is text = true := (Bool.and_eq_true _ _ ▸ h).2

theorem current_isGenuine (hs : Sound plain s.tokens) (hplain : plain) :
    s.tokens.current.IsGenuine := by
  obtain ⟨rest, hcons⟩ := hs.exists_cons
  exact (hs.genuine hplain).2 _ (hcons ▸ List.mem_cons_self ..)

theorem current_leaves_eq_nil {text : String} (hs : Sound plain s.tokens)
    (his : s.tokens.is text = true) (hreserved : text ∈ Lexeme.reserved) (hplain : plain) :
    s.tokens.current.lexeme.leaves = [] :=
  (current_isGenuine hs hplain).leaves_eq_nil his hreserved

/-- Moving over a mark or a reserved word. -/
theorem advance_mark_ends {passNewLine : Bool} {text : String} (hs : Sound plain s.tokens)
    (his : s.tokens.is text = true) (hreserved : text ∈ Lexeme.reserved) :
    Ends (advance 1 passNewLine) s fun _ s' ↦ Spans plain 1 s [] [] s' :=
  (advance_ends hs (isEnd_of_is his hreserved)).mono fun _ _ h ↦
    h.spans_nil (current_leaves_eq_nil hs his hreserved)

theorem windowFailExpected_ends {wanted : String} {P : α → Window Lexer → Prop}
    {w : Window Lexer} : Ensures ScriptError.WithinFuel (Window.failExpected wanted) w P :=
  .get_bind (.throw (by simp [ScriptError.WithinFuel, Window.error, ScriptError.ofCause]))

theorem expect_ends {passNewLine : Bool} {text : String} (hs : Sound plain s.tokens)
    (hreserved : text ∈ Lexeme.reserved) :
    Ends (expect text passNewLine) s fun _ s' ↦ Spans plain 1 s [] [] s' := by
  by_cases his : s.tokens.is text = true
  · have hrun : expect text passNewLine s = advance 1 passNewLine s := by
      rw [expect, advance, onTokens_run, onTokens_run, Window.expect, get_bind_run, if_pos his]
    rw [Ends, Ensures, hrun]
    exact advance_mark_ends hs his hreserved
  · refine onTokens_ends (P := fun _ _ ↦ False) ?_ fun _ _ h ↦ h.elim
    rw [Window.expect]
    refine .get_bind ?_
    rw [if_neg his]
    exact windowFailExpected_ends

/-- A name that is required becomes a leaf of that name. -/
theorem expectName_ends {passNewLine : Bool} (hs : Sound plain s.tokens) :
    Ends (expectName passNewLine) s fun name s' ↦
      Spans plain 1 s [] [.name name] s' ∧ (plain → '.' ∉ name.toList) := by
  by_cases hkind : s.tokens.kind = .ident
  · have hend : s.tokens.current.isEnd = false := by
      change (s.tokens.kind == .endOfInput) = false
      rw [hkind]
      rfl
    have hlexeme : s.tokens.current.lexeme = .ident s.tokens.current.text := by
      change s.tokens.current.lexeme.kind = .ident at hkind
      rw [Token.text]
      revert hkind
      cases s.tokens.current.lexeme <;> simp [Lexeme.kind, Lexeme.text]
    have hname : Ensures ScriptError.WithinFuel (Window.expectName passNewLine) s.tokens
        fun name w ↦ name = s.tokens.current.text ∧ Passes plain passNewLine s.tokens w := by
      rw [Window.expectName, Window.expectKind]
      refine Ensures.bind (Q := fun t w ↦ t = s.tokens.current ∧
        Passes plain passNewLine s.tokens w)
        (.get_bind ?_) ?_
      · rw [if_pos hkind]
        exact (hs.advance_one_ensures passNewLine hend).bind fun _ w h ↦ .pure ⟨rfl, h⟩
      · rintro t w ⟨rfl, hpasses⟩
        exact .pure ⟨rfl, hpasses⟩
    refine onTokens_ends hname ?_
    rintro name w ⟨hname, hpasses⟩
    refine ⟨?_, fun hplain ↦ ?_⟩
    · have hpassed : Passed plain s { s with tokens := w } := ⟨⟨_, hpasses⟩, rfl⟩
      refine hpassed.spans fun _ ↦ ?_
      rw [hlexeme, hname]
      exact .cons (.name _) .nil
    · have hgenuine := current_isGenuine hs hplain
      rw [Token.IsGenuine, hlexeme] at hgenuine
      rw [hname]
      exact hgenuine.1
  · refine onTokens_ends (P := fun _ _ ↦ False) ?_ fun _ _ h ↦ h.elim
    rw [Window.expectName, Window.expectKind]
    refine Ensures.bind (Q := fun _ _ ↦ False) (.get_bind ?_) fun _ _ h ↦ h.elim
    rw [if_neg hkind]
    exact windowFailExpected_ends

/-! ## Names and scopes -/

theorem modifySymbols_ends {f : SymbolTable → SymbolTable} :
    Ends (modifySymbols f) s fun _ s' ↦ Still s s' := ⟨rfl, rfl⟩

theorem pushScope_ends {kind : ScopeKind} :
    Ends (pushScope kind) s fun _ s' ↦ Still s s' := ⟨rfl, rfl⟩

theorem popScope_ends : Ends popScope s fun _ s' ↦ Still s s' := by
  refine .get_bind ?_
  cases hpop : s.symbols.pop with
  | ok popped => exact .known rfl ⟨rfl, rfl⟩
  | error cause =>
    refine fail_ends ?_
    rintro rfl
    rw [SymbolTable.pop] at hpop
    split at hpop <;> simp at hpop

theorem requireProgress_ends {place : Nat × Nat} :
    Ends (requireProgress place) s fun _ s' ↦ s' = s :=
  .ask rfl (.ask rfl (.branch (fun _ ↦ .ask rfl (fail_ends (by simp))) fun _ ↦ .pure rfl))

/-! ## What is open -/

theorem limit_ends {depth max : Nat} {what : Nesting} :
    Ends (ParseContext.limit depth max what) s fun _ s' ↦ s' = s ∧ depth ≤ max :=
  .branch (fun _ ↦ fail_ends (by simp)) fun h ↦ .pure ⟨rfl, Nat.le_of_not_lt h⟩

theorem enterParen_ends :
    Ends ctx.enterParen s fun _ s' ↦ s' = { s with parenDepth := s.parenDepth + 1 } :=
  .modify_bind (.get_bind (limit_ends.mono fun _ _ h ↦ h.1))

theorem enterCall_ends :
    Ends ctx.enterCall s fun _ s' ↦ s' = { s with callDepth := s.callDepth + 1 } :=
  .modify_bind (.get_bind (limit_ends.mono fun _ _ h ↦ h.1))

theorem enterBlock_ends :
    Ends ctx.enterBlock s fun _ s' ↦ s' = { s with statementDepth := s.statementDepth + 1 } ∧
      s.statementDepth + 1 ≤ ctx.limits.maxStatementDepth :=
  .modify_bind (.get_bind limit_ends)

/-- The state before and the state after are in as many parentheses fewer. -/
theorem Spans.closing (h : Spans plain pace s before now s') (n : Nat) :
    Spans plain pace (s.closing n) before now (s'.closing n) :=
  h.frame rfl rfl fun hdepths ↦ by simp_all [ParserState.depths, ParserState.closing]

theorem Spans.leaveParen
    (h : Spans plain pace { s with parenDepth := s.parenDepth + 1 } before now s') :
    Spans plain pace s before now { s' with parenDepth := s'.parenDepth - 1 } :=
  h.frame rfl rfl fun hdepths ↦ by simp_all [ParserState.depths]

theorem Spans.leaveCall
    (h : Spans plain pace { s with callDepth := s.callDepth + 1 } before now s') :
    Spans plain pace s before now { s' with callDepth := s'.callDepth - 1 } :=
  h.frame rfl rfl fun hdepths ↦ by simp_all [ParserState.depths]

theorem Spans.leaveBlock
    (h : Spans plain pace { s with statementDepth := s.statementDepth + 1 } before now s') :
    Spans plain pace s before now { s' with statementDepth := s'.statementDepth - 1 } :=
  h.frame rfl rfl fun hdepths ↦ by simp_all [ParserState.depths]

section

variable {levels fuel slack : Nat}

theorem HasRoom.inParen (h : HasRoom plain ctx levels fuel slack s) :
    HasRoom plain ctx levels fuel slack { s with parenDepth := s.parenDepth + 1 } :=
  ⟨h.sound, h.room, h.reach⟩

theorem HasRoom.closing (h : HasRoom plain ctx levels fuel slack s) (n : Nat) :
    HasRoom plain ctx levels fuel slack (s.closing n) := ⟨h.sound, h.room, h.reach⟩

theorem HasRoom.inCall (h : HasRoom plain ctx levels fuel slack s) :
    HasRoom plain ctx levels fuel slack { s with callDepth := s.callDepth + 1 } :=
  ⟨h.sound, h.room, h.reach⟩

/-- Inside a block there is room for more goals. -/
theorem HasRoom.inBlock (h : HasRoom plain ctx levels fuel slack s)
    (hdepth : s.statementDepth + 1 ≤ ctx.limits.maxStatementDepth) :
    HasRoom plain ctx levels fuel (slack + 4)
      { s with statementDepth := s.statementDepth + 1 } := by
  refine ⟨h.sound, ?_, h.reach⟩
  have := h.room
  dsimp only
  omega

/-- So there is inside an operand. -/
theorem deeper_ends {x : Parse α} {Q : α → List TreeLeaf}
    (h : HasRoom plain ctx levels fuel 0 s)
    (hx : ∀ t : ParserState, t.tokens = s.tokens → Inside plain ctx levels fuel t →
      Ends x t fun a t' ↦ Spans plain pace t before (Q a) t') :
    Ends (ctx.deeper x) s fun a s' ↦ Spans plain pace s before (Q a) s' := by
  refine Ensures.mapState (Q := fun a t' ↦
    Spans plain pace { s with expressionDepth := s.expressionDepth + 1 } before (Q a) t')
    (deeper_run ctx x) ?_ fun a t' hspans ↦ hspans.frame rfl rfl fun hdepths ↦ ?_
  · refine .get_bind (limit_ends.bind ?_)
    rintro _ t ⟨rfl, hdepth⟩
    have hroom := h.room
    have hreach := h.reach
    dsimp only at hdepth
    refine hx _ rfl ⟨⟨h.sound, ?_, ?_⟩, hdepth, ?_⟩
    all_goals
      dsimp only
      omega
  · simp_all [ParserState.depths]

end

end Parse

end ScriptFront
