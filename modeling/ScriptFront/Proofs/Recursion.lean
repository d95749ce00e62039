import ScriptFront.Proofs.Streaming

/-!
# The bounds alone limit the recursion

The productions of the grammar call each other through goals, and every goal inside another one
takes one of the fuel of the parser. How much fuel a script needs does not depend on the script. A
goal that leads back to itself has opened an operand or a block on the way, both are counted from
the outermost statement to the innermost expression, and the counters are compared with their bounds
before the goal is asked for. Embedded sections are no way around this, since they go on with the
counters and with the fuel of the string they stand in.

So there is one constant for all scripts, and a parser that is given more fuel than the constant
makes of the bounds does nothing different with it.
-/

namespace ScriptFront

/-- A window as it is opened on tokens that no extension has a hand in. -/
inductive Window.IsOpened : Window Lexer → Prop
  /-- On a list of tokens, in whatever order they come. -/
  | list (tokens : List Token) (lookahead : Nat) : IsOpened (.ofTokens tokens lookahead)
  /-- On a text. -/
  | text {dialect : Dialect} {text : String} {lookahead : Nat} {w : Window Lexer}
    (hextensions : dialect.extensions = [])
    (hmade : Window.ofSource (.ofText dialect text) lookahead = .ok w) : IsOpened w

theorem Window.IsOpened.sound {w : Window Lexer} (h : w.IsOpened) : Window.Sound False w := by
  cases h with
  | list tokens lookahead => exact sound_ofTokens tokens lookahead False.elim
  | @text dialect text lookahead w hextensions hmade =>
    have htame := Dialect.isTame_of_extensions hextensions
    exact ((ofSource_ensures (Lexer.isOpen_ofText dialect text) htame lookahead).1 w hmade).1

/-- A window goes along with itself. -/
theorem Window.Sound.lockstep {plain : Prop} {w : Window Lexer} (h : Sound plain w) :
    Lockstep Eq Eq w w := by
  refine ⟨rfl, rfl, ⟨h.sight, h.sight, rfl⟩, fun hex ↦ ⟨rfl, rfl, ?_⟩⟩
  obtain ⟨lx, hsource, -⟩ := h.source hex
  exact ⟨lx, lx, hsource, hsource, rfl⟩

namespace Parse

variable {ctx : ParseContext} {levels fuel : Nat} {s : ParserState}

/-- All statements up to the end of the tokens, by a parser for embedded sections nested at most
`levels` deep and goals nested at most `fuel` deep. -/
def programFueled (ctx : ParseContext) (levels fuel : Nat) : Parse (List Expr) := do
  programWithin (run ctx levels fuel) (← rounds) []

/-- A parser gives itself the fuel that the bounds and the extensions ask for. -/
theorem program_run (ctx : ParseContext) (s : ParserState) :
    program ctx s = programFueled ctx (sectionLevels ctx) (depth ctx s.tokens.tokensLeft) s := rfl

/-- A program is what its statements leave. -/
theorem parseProgram_eq_ok_iff {w : Window Lexer} {table : SymbolTable} {p : Program} :
    parseProgram ctx w table = .ok p ↔
    ∃ s', program ctx (.initial w table) = .ok p.statements s' ∧ s'.symbols = p.symbols := by
  rw [parseProgram]
  constructor
  · intro h
    split at h
    · next hrun =>
      cases h
      exact ⟨_, hrun, rfl⟩
    · cases h
  · rintro ⟨s', hrun, hsymbols⟩
    rw [hrun]
    exact congrArg (fun table ↦ Except.ok (⟨p.statements, table⟩ : Program)) hsymbols

/-- Fuel for the bounds is fuel for any state. -/
theorem hasRoom_of_le {plain : Prop} {slack : Nat} (hs : Window.Sound plain s.tokens)
    (hlevels : ctx.limits.maxExpressionDepth < levels)
    (hfuel : 4 * (ctx.limits.maxExpressionDepth + ctx.limits.maxStatementDepth + 2) ≤ fuel)
    (hslack : slack ≤ 8) : HasRoom plain ctx levels fuel slack s := by
  refine ⟨hs, ?_, ?_⟩ <;> omega

/-- Within the fuel, every goal is reached from every state. -/
theorem run_ends (hctx : ctx.registry.entries = []) (hs : Window.Sound False s.tokens)
    (hlevels : ctx.limits.maxExpressionDepth < levels)
    (hfuel : 4 * (ctx.limits.maxExpressionDepth + ctx.limits.maxStatementDepth + 2) ≤ fuel)
    {goal : Goal} (hgoal : ∀ list, goal ≠ .embedded list) :
    Ends (run ctx levels fuel goal) s fun _ _ ↦ True := by
  have haccounted : Accounted False ctx := accounted_of_entries hctx
  have hserves := serves_run haccounted levels fuel
  have hroom {slack : Nat} (hslack : slack ≤ 8) : HasRoom False ctx levels fuel slack s :=
    hasRoom_of_le hs hlevels hfuel hslack
  cases goal with
  | statement => exact (hserves.statement (hroom (by decide))).mono fun _ _ _ ↦ trivial
  | conditional => exact (hserves.conditional (hroom (by decide))).mono fun _ _ _ ↦ trivial
  | expression grouped => exact (hserves.expression (hroom (by decide))).mono fun _ _ _ ↦ trivial
  | operand => exact (hserves.operand (hroom (by decide))).mono fun _ _ _ ↦ trivial
  | embedded list => exact absurd rfl (hgoal list)

theorem programFueled_ends (hctx : ctx.registry.entries = []) (hs : Window.Sound False s.tokens)
    (hlevels : ctx.limits.maxExpressionDepth < levels)
    (hfuel : 4 * (ctx.limits.maxExpressionDepth + ctx.limits.maxStatementDepth + 2) ≤ fuel) :
    Ends (programFueled ctx levels fuel) s fun _ _ ↦ True := by
  have haccounted : Accounted False ctx := accounted_of_entries hctx
  have hserves := serves_run haccounted levels fuel
  refine .ask rfl ((programWithin_ends hserves ?_ (by omega)).mono fun _ _ _ ↦ trivial)
  exact hasRoom_of_le hs hlevels hfuel (by decide)

/-- Any failure may be common to both runs, and either run may exceed the fuel it was given. -/
def upToFuel : Leeway where
  common _ := True
  first e := e.cause = .outOfFuel
  second e := e.cause = .outOfFuel

/-- **Fuel cannot be seen.** Two parsers that differ in nothing but fuel agree, unless one of them
runs out of it. -/
theorem programFueled_agree (hctx : ctx.registry.entries = []) (hs : Window.Sound False s.tokens)
    (levels levels' fuel fuel' : Nat) :
    Agree upToFuel (fun a b t t' ↦ a = b ∧ t.symbols = t'.symbols)
      (programFueled ctx levels fuel s) (programFueled ctx levels' fuel' s) := by
  have halong : Alongside upToFuel (Window.Lockstep Eq Eq) ctx ctx := by
    refine .of_entries hctx hctx (.refl _) (fun _ ↦ trivial) (fun _ he ↦ ⟨he, he⟩)
      (Window.isTwin_lockstep ⟨fun count lx _ h ↦ ?_, fun h ↦ h ▸ rfl⟩)
    subst h
    cases Lexer.batch count lx with
    | ok tokens lx' => exact .ok ⟨rfl, rfl⟩
    | error e lx' => exact .error trivial
  have hrun :=
    twin_rounds_bind (fun m n ↦ halong.programWithin (halong.run levels levels' fuel fuel') m n [])
    s s ⟨hs.lockstep, rfl⟩
  refine hrun.mono fun a b t t' ⟨hab, hlike⟩ ↦ ⟨hab, ?_⟩
  rw [hlike.rest]

/-- **The bounds alone limit the recursion.** There is a constant that makes of the bounds on
operands and blocks enough fuel for every script: on any tokens and from any names and counters, no
goal and no program runs out of it, and a program has the result that its parser finds with the fuel
it gives itself.
-/
theorem exists_fuel_suffices : ∃ C, ∀ (ctx : ParseContext) (s : ParserState),
    ctx.registry.entries = [] → s.tokens.IsOpened → ∀ levels fuel,
      ctx.limits.maxExpressionDepth < levels →
      C * (ctx.limits.maxExpressionDepth + ctx.limits.maxStatementDepth + 2) ≤ fuel →
        (∀ goal, (∀ list, goal ≠ .embedded list) → ∀ e s',
          run ctx levels fuel goal s = .error e s' → e.cause ≠ .outOfFuel) ∧
        (∀ e s', programFueled ctx levels fuel s = .error e s' → e.cause ≠ .outOfFuel) ∧
        outcome (fun statements s ↦ (⟨statements, s.symbols⟩ : Program))
            (programFueled ctx levels fuel s) =
          outcome (fun statements s ↦ ⟨statements, s.symbols⟩) (program ctx s) := by
  refine ⟨4, fun ctx s hctx hopened levels fuel hlevels hfuel ↦ ?_⟩
  have hs := hopened.sound
  have hfueled := programFueled_ends hctx hs hlevels hfuel
  refine ⟨fun goal hgoal e s' he ↦ (run_ends hctx hs hlevels hfuel hgoal).of_error he,
    fun e s' he ↦ hfueled.of_error he, ?_⟩
  have hown : Ends (program ctx) s fun _ _ ↦ True :=
    (program_ends (accounted_of_entries hctx) hs).mono fun _ _ _ ↦ trivial
  have hagree := programFueled_agree hctx hs levels (sectionLevels ctx) fuel
    (depth ctx s.tokens.tokensLeft)
  rw [← program_run] at hagree
  have hconform : Conform upToFuel Eq
      (outcome (fun statements s ↦ (⟨statements, s.symbols⟩ : Program))
        (programFueled ctx levels fuel s))
      (outcome (fun statements s ↦ ⟨statements, s.symbols⟩) (program ctx s)) := by
    refine hagree.conform fun a b t t' ⟨hab, hsymbols⟩ ↦ ?_
    rw [hab, hsymbols]
  exact hconform.eq_of_not (fun e he ↦ hfueled.of_outcome_error he) fun e he ↦
    hown.of_outcome_error he

/-- A hundred parentheses that are opened and never closed. -/
def sampleParens : List Token := List.replicate 100 ⟨.symbol "(", .start, 0, 0⟩

theorem exists_fuel_suffices_sampleParens : ∃ C, ∀ fuel, C * (64 + 64 + 2) ≤ fuel → ∀ e s',
    programFueled Frontend.standard.context 65 fuel (.initial (.ofTokens sampleParens 8) .empty) =
      .error e s' → e.cause ≠ .outOfFuel := by
  obtain ⟨C, h⟩ := exists_fuel_suffices
  refine ⟨C, fun fuel hfuel ↦ ?_⟩
  exact (h Frontend.standard.context _ rfl (.list sampleParens 8) 65 fuel (by decide) hfuel).2.1

end Parse

end ScriptFront
