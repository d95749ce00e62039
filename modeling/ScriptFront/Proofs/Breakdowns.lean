import ScriptFront.Proofs.Parse.Alternation
import ScriptFront.Proofs.Parse.Order
import ScriptFront.Proofs.Streaming

/-!
# The front end does not break down

Some failures report that the front end itself is at fault: a parser that stays where it is, a scope
that is left though none was opened, a look further ahead than the window allows, an extension that
builds nonsense or has a malformed pattern. Where a host registers no extensions, no script leads to
one of these.

One condition remains. A rule of the host may put a string into the stream whose embedded sections
it has made up itself. The parser knows by the numbers of the tokens whether it has moved, so these
sections have to be numbered as token streams are. No other failure depends on that.
-/

namespace ScriptFront

open Window (Ready)

/-! ## Operators and their operands -/

namespace Parse

variable {ctx : ParseContext} {sub : Subparser} {grouped : Bool} {s : ParserState} {numbered : Prop}

/-- Operators find their operands wherever an expression applies them, and there is exactly one
operand in the end. -/
structure CombinesAlways (ctx : ParseContext) (sub : Subparser) (grouped : Bool) : Prop where
  /-- The expression goes round by round. -/
  loop_eq : ∀ fuel, expressionWithin ctx sub grouped fuel 0 true .empty =
    rounded (expressionRound ctx sub grouped) fuel (0, true, .empty)
  /-- Before an operator. -/
  operator : ∀ groups yard s s', Comes (expressionRound ctx sub grouped) (0, true, .empty) s
    (groups, false, yard) s' → ∀ op, ∃ y, yard.pushOperator op = some y
  /-- At the end of a group. -/
  group : ∀ groups yard s s', Comes (expressionRound ctx sub grouped) (0, true, .empty) s
    (groups + 1, false, yard) s' → ∃ found, yard.closeParen = some found
  /-- At the end of the expression. -/
  whole : ∀ yard s s', Comes (expressionRound ctx sub grouped) (0, true, .empty) s
      (0, false, yard) s' →
    ∃ e, yard.finish = some e

theorem combinesAlways (ctx : ParseContext) (sub : Subparser) (grouped : Bool) :
    CombinesAlways ctx sub grouped where
  loop_eq fuel := expressionWithin_eq_rounded fuel 0 true .empty
  operator _ _ _ _ hcomes op :=
    let ⟨y, hy, _⟩ := (alternates_of_comes hcomes).exists_pushOperator op
    ⟨y, hy⟩
  group _ _ _ _ hcomes :=
    let ⟨e, y, hy, _⟩ := (alternates_of_comes hcomes).exists_closeParen
    ⟨(e, y), hy⟩
  whole _ _ _ hcomes := (alternates_of_comes hcomes).exists_finish

/-! ## Programs -/

theorem program_admits (hctx : ctx.registry.entries = []) (hs : Ready numbered s.tokens)
    {e : ScriptError}
    {s' : ParserState} (h : program ctx s = .error e s') : Trust.Admits ⟨True, numbered⟩ e := by
  let st : Stage := ⟨s.opened, False, fun _ ↦ True⟩
  have hprogram : Orderly ⟨True, numbered⟩ st (program ctx) fun _ ↦ st.resting := by
    refine .bind (.ask fun _ ↦ rfl) fun w ↦ Orderly.rounds.bind fun n ↦ ?_
    rw [programWithin_eq_rounded]
    exact .loop (fun done _ ↦ programRound_orderly (keeps_run hctx _ _) done) n []
  exact ((hprogram s ⟨rfl, fun _ ↦ hs, fun _ ↦ trivial⟩).of_error h).2 trivial

end Parse

namespace Frontend

variable {f : Frontend} {text : String}

theorem cause_eq_of_named {α : Type} {r : Except ScriptError α} {e : ScriptError}
    (h : f.named r = .error e) : ∃ e', r = .error e' ∧ e'.cause = e.cause := by
  cases r with
  | ok a => cases h
  | error e' =>
    cases h
    exact ⟨e', rfl, rfl⟩

theorem parse_admits (hentries : f.registry.entries = []) (hlexical : f.registry.lexical = [])
    {e : ScriptError} (h : f.parse text = .error e) :
    Parse.Trust.Admits ⟨True, f.rules.EachString SectionsInOrder⟩ e := by
  obtain ⟨e', hinner, hcause⟩ := cause_eq_of_named h
  rw [Parse.Trust.Admits, ← hcause]
  obtain ⟨hok, herror⟩ := Window.ready_ofText (d := f.dialect) hlexical id text f.settings.lookahead
  split at hinner
  · cases hinner
    exact False.elim
  · split at hinner
    · next e₀ hwindow =>
      cases hinner
      exact fun hinternal ↦ absurd hinternal (herror _ hwindow).not_isInternal
    · next w hwindow =>
      rw [Parse.parseProgram] at hinner
      split at hinner
      · cases hinner
      · next hrun =>
        cases hinner
        exact Parse.program_admits hentries (hok w hwindow) hrun

/-- **No breakdowns.** Without extensions, no text is refused because a scope was left that was
never opened, because the parser looked too far ahead, or for an invalid statement or pattern; it is
never refused because nothing was passed, unless a rule makes up a section whose tokens are not
numbered; and in expressions, operators and groups always find the operands that they need. -/
theorem parse_breaks_down_never (hentries : f.registry.entries = [])
    (hlexical : f.registry.lexical = []) :
    (∀ text e, f.parse text = .error e → e.cause ≠ .scopeUnderflow ∧
      (∀ count max, e.cause ≠ .lookaheadExceeded count max) ∧
      (∀ reason, e.cause ≠ .invalidStatement reason) ∧
      (∀ pattern reason, e.cause ≠ .invalidPattern pattern reason) ∧
      (f.rules.EachString SectionsInOrder → ∀ found, e.cause ≠ .noProgress found)) ∧
    ∀ sub grouped, Parse.CombinesAlways f.context sub grouped := by
  refine ⟨fun text e he ↦ ?_, fun sub grouped ↦ Parse.combinesAlways f.context sub grouped⟩
  have hadmits := parse_admits hentries hlexical he
  refine ⟨fun h ↦ ?_, fun count max h ↦ ?_, fun reason h ↦ ?_, fun pattern reason h ↦ ?_,
    fun hrules found h ↦ ?_⟩
  all_goals obtain ⟨hnot, found', hcause⟩ := hadmits (by rw [h]; trivial)
  · cases h.symm.trans hcause
  · cases h.symm.trans hcause
  · cases h.symm.trans hcause
  · cases h.symm.trans hcause
  · exact hnot hrules

/-- The tokens of `function () { a; b }`, numbered from zero. -/
def sampleSection : List Token :=
  [.mk (.keyword "function") .start 0 0, .mk (.symbol "(") .start 1 1, .mk (.symbol ")") .start 2 2,
    .mk (.symbol "\x7b") .start 3 3, .mk (.ident "a") .start 4 4, .mk (.symbol ";") .start 5 5,
    .mk (.ident "b") .start 6 6, .mk (.symbol "\x7d") .start 7 7, .mk .endOfInput .start 8 8]

/-- A set-up in which a string with this section stands for a name. -/
def sampleRules : Frontend :=
  { standard with rules := .replace .empty "x" (.interpolated "s" [.tokens sampleSection]) }

theorem sampleRules_eachString : sampleRules.rules.EachString SectionsInOrder := by
  have hsection : ∀ t ∈ sampleSection, t.lexeme.EachString SectionsInOrder := by
    intro t ht
    refine Lexeme.eachString_of_kind ?_
    revert t
    decide
  refine ⟨fun entry hentry ↦ ?_, fun entry hentry ↦ absurd hentry List.not_mem_nil⟩
  obtain rfl := List.mem_singleton.mp hentry
  refine ⟨fun tokens htokens ↦ ?_, tokensEachString_iff.mpr hsection, trivial⟩
  cases List.mem_singleton.mp htokens
  have horder : sampleSection.Pairwise fun t u ↦ t.index < u.index := by decide
  exact horder

theorem parse_breaks_down_never_sampleRules :
    ∃ e, sampleRules.parse "y = x + (1 +\n" = .error e ∧ e.cause ≠ .scopeUnderflow ∧
      ∀ found, e.cause ≠ .noProgress found := by
  obtain ⟨e, he⟩ : ∃ e, sampleRules.parse "y = x + (1 +\n" = .error e :=
    exists_eq_error_of_isNone (by decide +kernel)
  obtain ⟨hscope, -, -, -, hprogress⟩ := (@parse_breaks_down_never sampleRules rfl rfl).1 _ e he
  exact ⟨e, he, hscope, hprogress sampleRules_eachString⟩

/-- A set-up in which the string has the same section, but each of its tokens claims to be the
first. -/
def unnumberedRules : Frontend :=
  { standard with
    rules := .replace .empty "x"
      (.interpolated "s" [.tokens (sampleSection.map fun t ↦ .mk t.lexeme .start 0 0)]) }

/-- **A parser that moves can be taken for one that stays**: where a rule makes up a section whose
tokens are not numbered, a text is refused because nothing was passed. -/
theorem not_parse_ne_noProgress :
    ¬ ∀ (f : Frontend) (text : String) (e : ScriptError), f.registry.entries = [] →
      f.registry.lexical = [] → f.parse text = .error e → ∀ found, e.cause ≠ .noProgress found := by
  intro h
  have hcause : (match unnumberedRules.parse "x" with
      | .ok _ => none
      | .error e => some e.cause) = some (.noProgress "b") := by decide +kernel
  split at hcause
  · cases hcause
  · next e he => exact h unnumberedRules "x" e rfl rfl he "b" (Option.some.inj hcause)

end Frontend

end ScriptFront
