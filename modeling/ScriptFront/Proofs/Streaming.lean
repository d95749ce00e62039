import ScriptFront.Frontend
import ScriptFront.Proofs.Parse.Accounts
import ScriptFront.Proofs.Window.Lockstep

/-!
# The window cannot be seen

A parser is given the tokens of a text through a window, which pulls them from the lexer in batches
and forgets those behind the cursor. How far the window sees decides when it pulls and when it
forgets. Without extensions it decides nothing else: no production looks further ahead than every
window sees.

Two windows are *alike* if they have the same tokens to come, whatever they hold of them. Moving and
looking ahead keep windows alike, so two parsers on them run side by side, and neither can run out
of fuel. A text that cannot be cut into tokens to its end is never parsed to its end either, since
no window on it ever holds the end.
-/

namespace ScriptFront

/-! ## Windows with the same tokens to come -/

namespace Window

/-- The windows have the same tokens to come. -/
structure Alike (v w : Window Lexer) : Prop where
  /-- The tokens to come. -/
  streams : ∃ tokens, v.Streams tokens ∧ w.Streams tokens
  /-- The first one is held. -/
  left : v.ahead ≠ []
  /-- It is held in both windows. -/
  right : w.ahead ≠ []

section

variable {lee : Leeway} {v w : Window Lexer}

theorem Alike.current_eq (h : Alike v w) : v.current = w.current := by
  obtain ⟨tokens, hv, hw⟩ := h.streams
  obtain ⟨t, rest, rfl⟩ := List.exists_cons_of_ne_nil hv.closed.ne_nil
  rw [Window.current_eq hv h.left, Window.current_eq hw h.right]

theorem alike_skip (passNewLine : Bool) : Twin lee Alike (skip passNewLine) (skip passNewLine) := by
  intro v w h
  obtain ⟨tokens, hv, hw⟩ := h.streams
  obtain ⟨v', hrunv, hv', hheldv, -⟩ := hv.skip passNewLine h.left
  obtain ⟨w', hrunw, hw', hheldw, -⟩ := hw.skip passNewLine h.right
  rw [hrunv, hrunw]
  exact .ok ⟨rfl, ⟨_, hv', hw'⟩, hheldv, hheldw⟩

theorem alike_forgetPassed : Twin lee Alike forgetPassed forgetPassed := by
  intro v w h
  obtain ⟨tokens, hv, hw⟩ := h.streams
  -- the windows forget at different times
  obtain ⟨v', hrunv, hv', hheldv, -⟩ := hv.forget (v.passed / v.lookahead) h.left
  obtain ⟨w', hrunw, hw', hheldw, -⟩ := hw.forget (w.passed / w.lookahead) h.right
  rw [forgetPassed, forgetPassed, hrunv, hrunw]
  exact .ok ⟨rfl, ⟨_, hv', hw'⟩, hheldv, hheldw⟩

theorem alike_step (h : Alike v w) (hnot : w.isEnded = false) :
    Agree lee (fun a b v w ↦ a = b ∧ Alike v w) (step v) (step w) := by
  obtain ⟨tokens, hv, hw⟩ := h.streams
  obtain ⟨t, rest, rfl⟩ := List.exists_cons_of_ne_nil hv.closed.ne_nil
  have hne : rest ≠ [] := by
    rintro rfl
    rcases closed_cons_iff.mp hw.closed with ⟨hend, -⟩ | ⟨-, hclosed⟩
    · rw [← Window.current_eq hw h.right] at hend
      exact absurd (hnot.symm.trans hend) (by simp)
    · exact hclosed.ne_nil rfl
  obtain ⟨v', hrunv, hv', hheldv, -⟩ := hv.step h.left hne
  obtain ⟨w', hrunw, hw', hheldw, -⟩ := hw.step h.right hne
  rw [hrunv, hrunw]
  exact .ok ⟨rfl, ⟨_, hv', hw'⟩, hheldv, hheldw⟩

theorem alike_advanceBy (passNewLine : Bool) (count : Nat) :
    Twin lee Alike (advanceBy passNewLine count) (advanceBy passNewLine count) := by
  induction count with
  | zero => exact .pure _
  | succ count ih =>
    intro v w h
    have hsame : v.isEnded = w.isEnded := by rw [isEnded, isEnded, kind, kind, h.current_eq]
    rw [advanceBy, get_bind_run, get_bind_run, hsame]
    cases hended : w.isEnded with
    | true => exact .ok ⟨rfl, h⟩
    | false =>
      exact (alike_step h hended).bind fun _ _ v w h ↦
        ((alike_skip passNewLine).bind fun _ ↦ ih) v w h.2

theorem alike_peek {count : Nat} (passNewLine : Bool) (hcount : count ≤ minLookahead) :
    Twin lee Alike (peek count passNewLine) (peek count passNewLine) := by
  intro v w h
  obtain ⟨tokens, hv, hw⟩ := h.streams
  obtain ⟨t, place, v', hrunv, hv', hheldv, hwalk, ht, -⟩ :=
    hv.peek h.left passNewLine (Nat.le_trans hcount hv.sight)
  obtain ⟨u, place', w', hrunw, hw', hheldw, hwalk', hu, -⟩ :=
    hw.peek h.right passNewLine (Nat.le_trans hcount hw.sight)
  rw [hrunv, hrunw]
  obtain rfl := hwalk.unique hwalk'
  exact .ok ⟨Option.some.inj (ht.symm.trans hu), ⟨_, hv', hw'⟩, hheldv, hheldw⟩

/-- Alike, or exhausted and holding the same tokens, as on the tokens of an embedded section. -/
def Level (v w : Window Lexer) : Prop := Alike v w ∨ Lockstep (fun _ _ ↦ False) (fun _ _ ↦ True) v w

theorem isLockstep_false : IsLockstep lee fun _ _ ↦ False :=
  ⟨fun _ _ _ h ↦ h.elim, fun h ↦ h.elim⟩

/-- What keeps each of the two relations keeps both. -/
theorem twin_level {α : Type} {x : WindowM Lexer α} (halike : Twin lee Alike x x)
    (hlockstep : Twin lee (Lockstep (fun _ _ ↦ False) fun _ _ ↦ True) x x) :
    Twin lee Level x x := by
  rintro v w (h | h)
  · exact (halike v w h).mono fun _ _ _ _ h ↦ ⟨h.1, .inl h.2⟩
  · exact (hlockstep v w h).mono fun _ _ _ _ h ↦ ⟨h.1, .inr h.2⟩

theorem isTwin_level : IsTwin lee Level := by
  have hlockstep : IsTwin lee (Lockstep (fun _ _ ↦ False) fun _ _ ↦ True) :=
    isTwin_lockstep isLockstep_false
  refine ⟨?_, fun count passNewLine ↦ ?_, ?_, fun passNewLine hcount ↦ ?_, fun list h ↦ .inr ?_⟩
  · rintro v w (h | h)
    · exact h.current_eq
    · exact hlockstep.current h
  · exact twin_level ((alike_advanceBy passNewLine count).bind fun _ ↦ alike_forgetPassed)
      (hlockstep.advance count passNewLine)
  · exact twin_level ((alike_skip true).bind fun _ ↦ alike_forgetPassed) hlockstep.skipNewLines
  · exact twin_level (alike_peek passNewLine hcount) (hlockstep.peek passNewLine hcount)
  · exact ⟨rfl, rfl, ⟨Nat.le_max_right _ _, Nat.le_max_right _ _, trivial⟩, fun hex ↦
      absurd hex (by simp [ofTokens])⟩

end

/-! ## Windows that never hold the end -/

/-- The end is not held, and it will not come. -/
structure Doomed (w : Window Lexer) : Prop where
  /-- More tokens are to come. -/
  going : w.exhausted = false
  /-- None of those held is the end. -/
  endless : ∀ t ∈ w.ahead, t.isEnd = false
  /-- The lexer fails before it yields the end. -/
  source : ∃ lx, w.source = some lx ∧ lx.IsDoomed

section

variable {w w' : Window Lexer} {read : List Token}

theorem Doomed.pull {count : Nat} (h : w.Doomed) (hcount : 0 < count)
    (hpull : pull count w = .ok () w') : w'.Doomed := by
  obtain ⟨lx, hsource, hdoomed⟩ := h.source
  unfold Window.pull at hpull
  simp only [h.going, hsource, Bool.false_eq_true, if_false] at hpull
  cases hbatch : TokenSupply.nextBatch count lx with
  | mk result lx' =>
    rw [hbatch] at hpull
    cases result with
    | error e => cases hpull
    | ok batch =>
      obtain ⟨hlater, hne, hall⟩ := hdoomed.batch hcount (nextBatch_eq_ok hbatch)
      have hclosed : (batch.isEmpty || batch.any Token.isEnd) = false := by
        simpa [hne] using hall
      cases hpull
      refine ⟨hclosed, ?_, lx', rfl, hlater⟩
      rw [hclosed, if_neg (by simp)]
      simpa [or_imp, forall_and] using ⟨h.endless, hall⟩

theorem Move.doomed {plain : Prop} (hmove : Move plain w read w') (h : w.Doomed) : w'.Doomed := by
  cases hmove with
  | pull hcount hpull => exact h.pull hcount hpull
  | pass hahead ht =>
    exact ⟨h.going, fun t ht ↦ h.endless t (hahead ▸ List.mem_cons_of_mem _ ht), h.source⟩
  | forget => exact ⟨h.going, h.endless, h.source⟩
  | replace lexeme hplain ht hend hlexeme =>
    refine ⟨h.going, List.forall_mem_cons.mpr ⟨?_, fun t ht ↦ ?_⟩, h.source⟩
    · simpa [Token.isEnd, Token.kind, Token.withLexeme, Token.lexeme] using hlexeme
    · exact h.endless t (List.mem_of_mem_drop ht)

theorem Leads.doomed {plain : Prop} (hleads : Leads plain w read w') (h : w.Doomed) :
    w'.Doomed := by
  induction hleads with
  | refl => exact h
  | tail _ hmove ih => exact hmove.doomed ih

theorem Doomed.isEnded_eq_false {plain : Prop} (h : w.Doomed) (hs : Sound plain w) :
    w.isEnded = false := by
  obtain ⟨rest, hcons⟩ := hs.exists_cons
  exact h.endless _ (hcons ▸ List.mem_cons_self ..)

end

end Window

/-! ## Parsers that cannot tell windows apart -/

namespace Parse

variable {ctx : ParseContext} {v w : Window Lexer} {table : SymbolTable} {plain : Prop}

/-- A whole parse never runs out of fuel, and one that succeeds has come to the end of the
tokens. -/
theorem parseProgram_ensures (hctx : Accounted plain ctx) (hw : Window.Sound plain w) :
    (∀ e, parseProgram ctx w table = .error e → e.WithinFuel) ∧
      ∀ p, parseProgram ctx w table = .ok p → ∃ w' read, Window.Leads plain w read w' ∧
        w'.isEnded = true ∧ (plain → Accounts read (leavesList p.statements)) := by
  rw [parseProgram_eq_outcome]
  have hrun := program_ends hctx (s := .initial w table) hw
  refine ⟨fun e he ↦ hrun.of_outcome_error he, fun p hp ↦ ?_⟩
  obtain ⟨statements, s', ⟨hspans, hended⟩, rfl⟩ := hrun.of_outcome_ok hp
  obtain ⟨read, hleads, -, haccounts⟩ := hspans.leads
  refine ⟨s'.tokens, read, hleads, hended, fun hplain ↦ ?_⟩
  obtain ⟨leaves, hread, hall⟩ := haccounts hplain
  rwa [hall, List.nil_append]

/-- Without extensions, parsers on windows with the same tokens to come have the same outcome. -/
theorem parseProgram_eq_of_level (hctx : ctx.registry.entries = []) (hv : Window.Sound False v)
    (hw : Window.Sound False w) (h : Window.Level v w) :
    parseProgram ctx v table = parseProgram ctx w table := by
  -- fuel is given by what the windows hold, so a parser might run out of it on one side only
  let lee : Leeway := ⟨fun _ ↦ True, fun e ↦ e.cause = .outOfFuel, fun e ↦ e.cause = .outOfFuel⟩
  have halongside : Alongside lee Window.Level ctx ctx :=
    .of_entries hctx hctx (.refl _) (fun _ ↦ trivial) (fun _ he ↦ ⟨he, he⟩) Window.isTwin_level
  have hctx' : Accounted False ctx := accounted_of_entries hctx
  exact (halongside.parseProgram_conform h table).eq_of_not
    (fun e he ↦ (parseProgram_ensures hctx' hv).1 e he)
    fun e he ↦ (parseProgram_ensures hctx' hw).1 e he

/-- A parse that succeeds has come to the end of the tokens, so there is one. -/
theorem parseProgram_ne_ok_of_doomed (hctx : ctx.registry.entries = []) (hw : Window.Sound False w)
    (h : w.Doomed) (p : Program) : parseProgram ctx w table ≠ .ok p := by
  intro hp
  obtain ⟨w', read, hleads, hended, -⟩ :=
    (parseProgram_ensures (accounted_of_entries hctx) hw).2 p hp
  have hnot := (hleads.doomed h).isEnded_eq_false (hleads.sound hw)
  exact absurd (hended.symm.trans hnot) (by simp)

end Parse

namespace Frontend

/-- Nothing is set up that could look far ahead or make up an end of the text. -/
structure IsUnextended (f : Frontend) : Prop where
  /-- No extensions of the grammar. -/
  entries : f.registry.entries = []
  /-- No extensions of the lexer. -/
  lexical : f.registry.lexical = []
  /-- No rule puts an end token into the stream. -/
  rules : f.rules.IsEndless

variable {f : Frontend} {text : String}

theorem IsUnextended.isEndless (hf : f.IsUnextended) : f.dialect.IsEndless :=
  Dialect.isEndless_of_extensions hf.rules hf.lexical

theorem named_eq_ok_iff {α : Type} {r : Except ScriptError α} {a : α} :
    f.named r = .ok a ↔ r = .ok a := by
  cases r <;> simp [named]

theorem exists_error_of_named {α : Type} {r : Except ScriptError α} {e : ScriptError}
    (h : f.named r = .error e) : ∃ e', r = .error e' := by
  cases r with
  | ok a => cases h
  | error e' => exact ⟨e', rfl⟩

/-- The tokens of a text are those its lexer delivers. -/
theorem IsUnextended.delivers (hf : f.IsUnextended) {tokens : List Token}
    (h : f.tokenize text = .ok tokens) :
    Lexer.Delivers (.ofText f.dialect text) tokens ∧ Closed tokens :=
  Lexer.delivers_of_tokenize (Lexer.isTidy_of_fresh rfl rfl hf.isEndless)
    (Lexer.isOpen_ofText f.dialect text) (named_eq_ok_iff.mp h)

/-- A text that is not too long is parsed as the list of its tokens is. -/
theorem parse_eq_parseProgram (hf : f.IsUnextended)
    (hlength : text.length ≤ f.settings.limits.maxScriptLength) {tokens : List Token}
    (h : f.tokenize text = .ok tokens) (lookahead : Nat) :
    f.parse text = f.named (Parse.parseProgram f.context (.ofTokens tokens lookahead) f.host) := by
  obtain ⟨hdelivers, hclosed⟩ := hf.delivers h
  obtain ⟨w, hwindow, hstreams, hheld, -⟩ :=
    Window.exists_ofSource_streams hdelivers.supplies hclosed f.settings.lookahead
  obtain ⟨hstreams', hheld'⟩ :=
    Window.ofTokens_streams (σ := Lexer) hclosed lookahead
  have hsound := ((Window.ofSource_ensures (Lexer.isOpen_ofText f.dialect text)
    hf.isEndless.isTame f.settings.lookahead).1 w hwindow).1
  have hsame : Parse.parseProgram f.context w f.host =
      Parse.parseProgram f.context (.ofTokens tokens lookahead) f.host :=
    Parse.parseProgram_eq_of_level hf.entries hsound
      (Window.sound_ofTokens tokens lookahead False.elim)
      (.inl ⟨⟨_, hstreams, hstreams'⟩, hheld, hheld'⟩)
  have hwindow' : f.window text = .ok w := hwindow
  simp only [parse, if_neg (Nat.not_lt_of_le hlength), hwindow', ← hsame]

/-- A text that cannot be cut into tokens is not parsed. -/
theorem exists_parse_eq_error (hf : f.IsUnextended) {e : ScriptError}
    (h : f.tokenize text = .error e) :
    ∃ e', f.parse text = .error e' := by
  obtain ⟨e₀, hlexer⟩ := exists_error_of_named h
  have hopen := Lexer.isOpen_ofText f.dialect text
  have hdoomed :=
    Lexer.isDoomed_of_tokenize (Lexer.isTidy_of_fresh rfl rfl hf.isEndless) hopen hlexer
  cases hparse : f.parse text with
  | error e' => exact ⟨e', rfl⟩
  | ok p =>
    have hinner := named_eq_ok_iff.mp hparse
    split at hinner
    · cases hinner
    · split at hinner
      · cases hinner
      · next w hwindow =>
        obtain ⟨hsound, count, w₁, read, hcount, hpull, hleads⟩ :=
          (Window.ofSource_ensures hopen hf.isEndless.isTame f.settings.lookahead).1 w hwindow
        have hnew : Window.Doomed
            ⟨0, [], max f.settings.lookahead Window.minLookahead,
              some (.ofText f.dialect text), false⟩ :=
          ⟨rfl, by simp, _, rfl, hdoomed⟩
        have hw := hleads.doomed (hnew.pull hcount hpull)
        exact absurd hinner (Parse.parseProgram_ne_ok_of_doomed hf.entries hsound hw p)

end Frontend

end ScriptFront
