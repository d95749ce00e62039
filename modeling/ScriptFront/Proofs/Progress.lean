import ScriptFront.Proofs.Parse.Order
import ScriptFront.Proofs.Recursion

/-!
# Parsing moves on

Nothing is parsed out of nothing: an operand, an expression and a statement pass at least one token
that is neither a blank nor a comment, a line break or the end. No round of a loop asks for another
one unless it has passed such a token, so no loop can go on for ever, not even at the end of the
tokens, where moving does nothing. A program ends, and has no more statements than there are such
tokens.

This is so for every list of tokens, and for every text and all rules that change its tokens. It
does not depend on the numbers that the tokens have. What it rests on is that a token is spelled as
its kind says, so that no end of the tokens is also a separator: separators are passed by their
spelling, and moving does not pass an end.
-/

namespace ScriptFront

open Window (Ready Leads)

/-- The window can be started from. -/
def ParserState.IsReady (s : ParserState) : Prop := Ready False s.tokens

/-- Tokens are passed from the first state to the second one, and one of them at least is neither a
blank nor a comment, a line break or the end. -/
def ParserState.Passes (s s' : ParserState) : Prop :=
  ∃ read, Leads True s.tokens read s'.tokens ∧ 0 < content read

namespace Parse

variable {α β : Type} {ctx : ParseContext} {sub : Subparser} {s s' s₁ s₂ : ParserState}

/-- Where the window can be started from, the computation leads to another such state, and passes a
token if its result is one of `p`. -/
def Advances (x : Parse α) (p : α → Prop) : Prop :=
  ∀ s a s', s.IsReady → x s = .ok a s' → s'.IsReady ∧ (p a → s.Passes s')

/-- The loop consists of such rounds, and each one that is followed by another one passes a
token. -/
structure PassesEachRound (loop : (fuel : Nat) → α → Parse β)
    (round : α → Parse (Round α β)) (start : α) :
    Prop where
  /-- The loop goes round by round. -/
  loop_eq : ∀ fuel, loop fuel start = rounded round fuel start
  /-- A round is the last one, or it moves. -/
  passes : ∀ s a s₁ b s₂, s.IsReady → Comes round start s a s₁ → round a s₁ = .ok (.again b) s₂ →
    s₁.Passes s₂

/-- What the goals pass. -/
structure GoalsPass (sub : Subparser) : Prop where
  /-- An operand. -/
  operand : Advances (sub .operand) fun _ ↦ True
  /-- An expression. -/
  expression : ∀ grouped, Advances (sub (.expression grouped)) fun _ ↦ True
  /-- A statement, if there is one. -/
  statement : Advances (sub .statement) fun found ↦ found.isSome

/-- What the rounds of the loops pass. -/
structure LoopsPass (ctx : ParseContext) (sub : Subparser) : Prop where
  /-- The statements of a script. -/
  program : ∀ done, PassesEachRound (programWithin sub) (programRound sub) done
  /-- The statements of a block. -/
  statements : ∀ done, PassesEachRound (statementsWithin sub) (statementsRound sub) done
  /-- Separators. -/
  separators : ∀ u, PassesEachRound (fun fuel _ ↦ passSeparatorsWithin fuel) separatorsRound u
  /-- Operands, operators and groups. -/
  expression : ∀ grouped, PassesEachRound
    (fun fuel a ↦ expressionWithin ctx sub grouped fuel a.1 a.2.1 a.2.2)
    (expressionRound ctx sub grouped)
    (0, true, .empty)
  /-- Links. -/
  links : ∀ start e qualified, PassesEachRound
    (fun fuel a ↦ linksWithin ctx sub start fuel a.1 a.2.1 a.2.2) (linksRound ctx sub start)
    (0, e, qualified)
  /-- Arguments in parentheses. -/
  callArgs : ∀ args, PassesEachRound (callArgsWithin sub) (callArgsRound sub) args
  /-- Arguments without parentheses. -/
  looseArgs : ∀ args, PassesEachRound (looseArgsWithin sub) (looseArgsRound sub) args
  /-- Items of a list. -/
  items : ∀ items, PassesEachRound (fun fuel a ↦ itemsWithin sub fuel a.1 a.2)
      (itemsRound sub) items
  /-- Entries of a map. -/
  entries : ∀ entries, PassesEachRound (entriesWithin sub) (entriesRound sub) entries
  /-- Parameters. -/
  params : ∀ params, PassesEachRound (paramsWithin ctx) (paramsRound ctx) params
  /-- Declarations. -/
  declarations : ∀ done, PassesEachRound (declarationsWithin sub) (declarationsRound sub) done
  /-- Aliases. -/
  aliases : ∀ done, PassesEachRound (aliasesWithin ctx) (aliasesRound ctx) done

/-- What the programs pass. -/
structure ProgramsPass (ctx : ParseContext) : Prop where
  /-- A program is never given up for the number of its rounds. -/
  ends : ∀ (w : Window Lexer) table e, w.IsOpened → parseProgram ctx w table = .error e →
      e.cause ≠ .outOfFuel
  /-- A program has at most as many statements as tokens were passed. -/
  passed : ∀ (w : Window Lexer) table p, w.IsOpened → parseProgram ctx w table = .ok p →
    ∃ w' read, Leads True w read w' ∧ p.statements.length ≤ content read
  /-- These are tokens of the list, if it is a list that is parsed. -/
  listed : ∀ list lookahead table p, parseProgram ctx (.ofTokens list lookahead) table = .ok p →
    p.statements.length ≤ content list

/-! ## Rounds and goals -/

/-- The window can be started from, but its tokens need not be numbered. -/
def Trust.started : Trust := ⟨True, False⟩

/-- What is known at such a state. -/
theorem fits_of_isReady (hs : s.IsReady) : Stage.Fits .started ⟨s.opened, False, fun _ ↦ True⟩ s :=
  ⟨rfl, fun _ ↦ hs, fun _ ↦ trivial⟩

namespace Orderly

variable {x : Parse α} {q : α → Stage} {st : Stage}

theorem passes (h : Orderly .started st x q) (hs : st.Fits .started s) (hst : ¬ st.moved) {a : α}
    (hrun : x s = .ok a s') (hq : (q a).moved) : s.Passes s' := by
  obtain ⟨read, hleads, hmoved⟩ := ((h s hs).of_ok hrun).leads trivial
  exact ⟨read, hleads, (hmoved hq).resolve_left hst⟩

theorem advances {q : Stage → α → Stage} {p : α → Prop} (h : ∀ st, Orderly .started st x (q st))
    (hq : ∀ st a, p a → (q st a).moved) : Advances x p := fun s a _ hs hrun ↦
  ⟨((h _ s (fits_of_isReady hs)).of_ok hrun).fits.tokens trivial,
    fun ha ↦ (h _).passes (fits_of_isReady hs) id hrun (hq _ a ha)⟩

end Orderly

/-- What a loop passes if its rounds can be followed from any stage. -/
theorem PassesEachRound.of_orderly {loop : (fuel : Nat) → α → Parse β}
    {round : α → Parse (Round α β)}
    {start : α} (hloop : ∀ fuel, loop fuel start = rounded round fuel start)
    (h : ∀ a st, Orderly .started st (round a) (Round.stage st.moving st.resting)) :
    PassesEachRound loop round start := by
  refine ⟨hloop, fun s a s₁ b s₂ hs hcomes hround ↦ ?_⟩
  let st : Stage := ⟨s.opened, False, fun _ ↦ True⟩
  have hstart : st.resting.Fits .started s := fits_of_isReady hs
  have hreached := Orderly.comes (fun _ ↦ st.resting) (Orderly.anyRound h) hstart hcomes
  exact (h a st).passes ⟨hreached.fits.opened, hreached.fits.tokens, fun _ ↦ trivial⟩ id
    hround trivial

theorem goalsPass (hsub : Keeps .started sub) : GoalsPass sub where
  operand := Orderly.advances hsub.operand fun _ _ _ ↦ trivial
  expression grouped := Orderly.advances (hsub.expression grouped) fun _ _ _ ↦ trivial
  statement := Orderly.advances hsub.statement fun
    | _, some _, _ => trivial

theorem expressionRound_passes (hctx : ctx.registry.entries = []) (hsub : Keeps .started sub)
    (grouped : Bool) :
    PassesEachRound (fun fuel a ↦ expressionWithin ctx sub grouped fuel a.1 a.2.1 a.2.2)
      (expressionRound ctx sub grouped) (0, true, .empty) := by
  refine ⟨fun fuel ↦ expressionWithin_eq_rounded .., fun s a s₁ b s₂ hs hcomes hround ↦ ?_⟩
  -- the parentheses of the groups are counted, so the stage depends on what is collected
  let st : Stage := ⟨s.opened, False, fun _ ↦ True⟩
  have hstart : (st.between (0, true, .empty)).Fits .started s := ⟨rfl, fun _ ↦ hs, fun _ ↦ trivial⟩
  have hreached := Orderly.comes _ (expressionRound_between hsub hctx grouped) hstart hcomes
  have hhere : (st.inParens a.1).Fits .started s₁ :=
    ⟨hreached.fits.opened, hreached.fits.tokens, fun _ ↦ trivial⟩
  exact (expressionRound_orderly hsub hctx grouped a.1 a.2.1 a.2.2).passes hhere id hround trivial

theorem loopsPass (hctx : ctx.registry.entries = []) (hsub : Keeps .started sub) :
    LoopsPass ctx sub where
  program _ := .of_orderly (fun _ ↦ programWithin_eq_rounded _ _)
    fun done _ ↦ programRound_orderly hsub done
  statements _ := .of_orderly (fun _ ↦ statementsWithin_eq_rounded _ _)
    fun done _ ↦ statementsRound_orderly hsub done
  separators _ := .of_orderly (fun _ ↦ passSeparatorsWithin_eq_rounded _) fun u _ ↦
    (Orderly.separatorsRound u).mono fun
      | .again _ => .refl
      | .done _ => Stage.implies_resting rfl id
  expression := expressionRound_passes hctx hsub
  links _ _ _ := .of_orderly (fun _ ↦ linksWithin_eq_rounded _ _ _ _)
    fun link _ ↦ linksRound_orderly hsub link
  callArgs _ := .of_orderly (fun _ ↦ callArgsWithin_eq_rounded _ _)
    fun args _ ↦ callArgsRound_orderly hsub args
  looseArgs _ := .of_orderly (fun _ ↦ looseArgsWithin_eq_rounded _ _)
    fun args _ ↦ looseArgsRound_orderly hsub args
  items _ := .of_orderly (fun _ ↦ itemsWithin_eq_rounded _ _ _) fun a _ ↦ itemsRound_orderly hsub a
  entries _ := .of_orderly (fun _ ↦ entriesWithin_eq_rounded _ _) fun a _ ↦
    entriesRound_orderly hsub a
  params _ := .of_orderly (fun _ ↦ paramsWithin_eq_rounded _ _) fun a _ ↦ Orderly.paramsRound a
  declarations _ := .of_orderly (fun _ ↦ declarationsWithin_eq_rounded _ _) fun a _ ↦
    (declarationsRound_orderly hsub a).mono fun
      | .again _ => .refl
      | .done _ => Stage.implies_resting rfl fun _ ↦ trivial
  aliases _ := .of_orderly (fun _ ↦ aliasesWithin_eq_rounded _ _) fun a _ ↦ Orderly.aliasesRound a

/-! ## Programs -/

/-- The end of a loop is a round that was come to. -/
theorem exists_comes_of_rounded {round : α → Parse (Round α β)} {fuel : Nat} {a : α} {r : β}
    (h : rounded round fuel a s = .ok r s') :
    ∃ b s₁, Comes round a s b s₁ ∧ round b s₁ = .ok (.done r) s' := by
  suffices hfrom : ∀ fuel (b : α) s₁, Comes round a s b s₁ → rounded round fuel b s₁ = .ok r s' →
      ∃ c s₂, Comes round a s c s₂ ∧ round c s₂ = .ok (.done r) s' from hfrom fuel a s .start h
  intro fuel
  induction fuel with
  | zero => intro b s₁ _ hrun; cases hrun
  | succ fuel ih =>
    intro b s₁ hcomes hrun
    obtain ⟨next, s₂, hround, hrest⟩ := bind_eq_ok_iff.mp hrun
    cases next with
    | again c => exact ih c s₂ (hcomes.round hround) hrest
    | done c =>
      cases hrest
      exact ⟨b, s₁, hcomes, hround⟩

/-- Every round but the last one adds a statement. -/
theorem programRound_eq_ok {done : List Expr} {next : Round (List Expr) (List Expr)}
    (h : programRound sub done s = .ok next s') :
    (∃ statement, next = .again (statement :: done)) ∨ next = .done done.reverse := by
  obtain ⟨before, s₁, -, hrest⟩ := bind_eq_ok_iff.mp h
  obtain ⟨found, s₂, -, hrest⟩ := bind_eq_ok_iff.mp hrest
  cases found with
  | none =>
    cases hrest
    exact .inr rfl
  | some statement =>
    obtain ⟨-, s₃, -, hrest⟩ := bind_eq_ok_iff.mp hrest
    cases hrest
    exact .inl ⟨statement, rfl⟩

/-- As many tokens are passed as there are statements. -/
theorem programRound_counts (hsub : Keeps .started sub) {done : List Expr} (hs : s.IsReady)
    (hcomes : Comes (programRound sub) [] s done s') :
    s'.IsReady ∧ ∃ read, Leads True s.tokens read s'.tokens ∧ done.length ≤ content read := by
  induction hcomes with
  | start => exact ⟨hs, [], .refl, Nat.le_refl 0⟩
  | @round a b s₁ s₂ hcomes hround ih =>
    obtain ⟨hs₁, read, hread, hle⟩ := ih
    have hruns := programRound_orderly hsub a s₁ (fits_of_isReady hs₁)
    obtain ⟨more, hmore, hpos⟩ := (hruns.of_ok hround).leads trivial
    refine ⟨(hruns.of_ok hround).fits.tokens trivial, read ++ more, hread.trans hmore, ?_⟩
    obtain ⟨statement, heq⟩ | heq := programRound_eq_ok hround
    · cases heq
      have := (hpos trivial).resolve_left id
      rw [content_append, List.length_cons]
      omega
    · cases heq

theorem program_passes (hctx : ctx.registry.entries = []) (hs : s.IsReady) {statements : List Expr}
    (h : program ctx s = .ok statements s') :
    ∃ read, Leads True s.tokens read s'.tokens ∧ statements.length ≤ content read := by
  rw [program_run] at h
  obtain ⟨fuel, s₁, hrounds, h⟩ := bind_eq_ok_iff.mp h
  cases hrounds
  rw [programWithin_eq_rounded] at h
  obtain ⟨done, s₂, hcomes, hlast⟩ := exists_comes_of_rounded h
  have hsub : Keeps .started (run ctx (sectionLevels ctx) (depth ctx s.tokens.tokensLeft)) :=
    keeps_run hctx _ _
  obtain ⟨hs₂, read, hread, hle⟩ := programRound_counts hsub hs hcomes
  -- the last round finds no statement
  have hruns := programRound_orderly hsub done s₂ (fits_of_isReady hs₂)
  obtain ⟨more, hmore, -⟩ := (hruns.of_ok hlast).leads trivial
  refine ⟨read ++ more, hread.trans hmore, ?_⟩
  obtain ⟨statement, heq⟩ | heq := programRound_eq_ok hlast
  · cases heq
  · cases heq
    rw [content_append, List.length_reverse]
    exact Nat.le_trans hle (Nat.le_add_right _ _)

/-- Whatever window is opened, it can be started from. -/
theorem ready_of_isOpened {w : Window Lexer} (h : w.IsOpened) : Ready False w := by
  cases h with
  | list tokens lookahead => exact Window.ready_ofTokens lookahead False.elim
  | text hextensions hmade => exact (Window.ready_ofText hextensions False.elim _ _).1 _ hmade

theorem content_terminated (list : List Token) :
    content (Window.terminated list) = content list := by
  rcases Window.terminated_cases list with ⟨heq, -⟩ | ⟨t, hend, heq, -⟩
  · rw [heq]
  · rw [heq, content_append]
    simp [content, Token.isContent, hend]

theorem exists_program_of_parseProgram {w : Window Lexer} {table : SymbolTable} {p : Program}
    (h : parseProgram ctx w table = .ok p) :
    ∃ s', program ctx (.initial w table) = .ok p.statements s' := by
  obtain ⟨s', hrun, -⟩ := parseProgram_eq_ok_iff.mp h
  exact ⟨s', hrun⟩

theorem programsPass (hctx : ctx.registry.entries = []) : ProgramsPass ctx := by
  have hpassed (w : Window Lexer) (table : SymbolTable) (p : Program) (hw : w.IsOpened)
      (hp : parseProgram ctx w table = .ok p) :
      ∃ w' read, Leads True w read w' ∧ p.statements.length ≤ content read := by
    obtain ⟨s', hrun⟩ := exists_program_of_parseProgram hp
    obtain ⟨read, hleads, hle⟩ :=
      program_passes hctx (s := .initial w table) (ready_of_isOpened hw) hrun
    exact ⟨s'.tokens, read, hleads, hle⟩
  refine ⟨fun w table e hw he ↦ (parseProgram_ensures (accounted_of_entries hctx) hw.sound).1 e he,
    hpassed,
    fun list lookahead table p hp ↦ ?_⟩
  obtain ⟨w', read, hleads, hle⟩ := hpassed _ table p (.list list lookahead) hp
  obtain ⟨hahead, -⟩ := hleads.ahead_eq trivial rfl
  calc p.statements.length ≤ content read := hle
    _ ≤ content (Window.ofTokens list lookahead : Window Lexer).ahead := by
      rw [hahead, content_append]
      exact Nat.le_add_right _ _
    _ ≤ content (Window.terminated list) := by
      rw [Window.ahead_ofTokens]
      exact (List.dropWhile_sublist _).countP_le
    _ = content list := content_terminated list

/-- **Parsing moves on.** Without extensions of the grammar: in all windows that can be started
from, which are those opened on any list of tokens or on a text with any rules and all that these
are moved to, operands, expressions and statements pass at least one token that is no blank,
comment, line break or end, and so does every round of a loop that is not the last one. No program
is given up for the number of its rounds, and it has at most as many statements as there are such
tokens. -/
theorem parser_progresses (hctx : ctx.registry.entries = []) :
    (∀ w : Window Lexer, w.IsOpened → Ready False w) ∧
    (∀ levels fuel, GoalsPass (run ctx levels fuel) ∧ LoopsPass ctx (run ctx levels fuel)) ∧
    ProgramsPass ctx :=
  ⟨fun _ ↦ ready_of_isOpened, fun levels fuel ↦ ⟨goalsPass (keeps_run hctx levels fuel),
    loopsPass hctx (keeps_run hctx levels fuel)⟩, programsPass hctx⟩

end Parse

end ScriptFront
