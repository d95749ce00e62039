import ScriptFront.Proofs.Breakdowns
import ScriptFront.Proofs.LineBreaks.Statements
import ScriptFront.Proofs.Tandem.Programs

/-!
# Line breaks inside brackets

An expression may be written over several lines: where a line break is free, it changes nothing but
the positions of what the parser finds. This is the induction over the whole grammar for two
parsers, the second of which meets more line breaks, and the theorem on expressions that follows
from it.

## Where line breaks are not free

Not every place inside a group is free. Behind a prefix operator its operand has to come in the same
line, in front of a dot, an index or an argument list the line ends the operand, and inside a list
that stands in a group an expression ends with its line. There a line break is refused, although the
documentation of the parser has all of them skipped up to the parenthesis that closes the group:
`not_newLine_insignificant_in_group` is the first of these cases.
-/

namespace ScriptFront

open Window (isNewLine)

/-! ## One more line break -/

/-- The place behind some tokens. -/
def Place.behind (p : Place) (tokens : List Token) : Place := tokens.foldl Place.after p

variable {p : Place} {before rest breaks : List Token} {t next : Token}

/-- A token that holds no tokens is similar to itself. -/
theorem Token.similar_refl (hbreak : t.kind ≠ .newLine) (hstring : t.kind ≠ .interpolated) :
    t.Similar t := by
  obtain ⟨lexeme, position, offset, index⟩ := t
  exact .mk (.same hbreak hstring)

theorem spread_refl (hclosed : Closed rest) (hplain : ∀ t ∈ rest, t.Similar t ∧ t.IsOrdinary) :
    Spread p rest rest := by
  induction rest generalizing p with
  | nil => exact absurd rfl hclosed.ne_nil
  | cons t rest ih =>
    obtain ⟨⟨hsimilar, hordinary⟩, hrest⟩ := List.forall_mem_cons.mp hplain
    rcases closed_cons_iff.mp hclosed with ⟨hend, rfl⟩ | ⟨hend, hclosed⟩
    · exact .stop hend hsimilar
    · exact .cons hsimilar hend hordinary (ih hclosed hrest)

/-- Line breaks are put between the first tokens and the rest, where they are free. -/
theorem spread_insert (hclosed : Closed (before ++ rest))
    (hplain : ∀ t ∈ before ++ rest, t.Similar t ∧ t.IsOrdinary)
    (hbreaks : ∀ b ∈ breaks, b.lexeme.IsLineBreak) (hnext : next ∈ (rest.dropWhile isNewLine).head?)
    (hfrees : (p.behind before).frees next = true) :
    Spread p (before ++ rest) (before ++ (breaks ++ rest)) := by
  induction before generalizing p with
  | nil =>
    induction breaks with
    | nil => exact spread_refl hclosed hplain
    | cons b breaks ih =>
      obtain ⟨hb, hbreaks⟩ := List.forall_mem_cons.mp hbreaks
      exact .gap hb hnext hfrees (ih hbreaks)
  | cons t before ih =>
    obtain ⟨⟨hsimilar, hordinary⟩, hrest⟩ := List.forall_mem_cons.mp hplain
    rcases closed_cons_iff.mp hclosed with ⟨-, hnil⟩ | ⟨hend, hclosed⟩
    · obtain ⟨-, rfl⟩ := List.append_eq_nil_iff.mp hnil
      cases hnext
    · exact .cons hsimilar hend hordinary (ih hclosed hrest hfrees)

/-- Behind a first token. -/
theorem begun_insert (hclosed : Closed (t :: before ++ rest))
    (hplain : ∀ u ∈ t :: before ++ rest, u.Similar u ∧ u.IsOrdinary)
    (hbreaks : ∀ b ∈ breaks, b.lexeme.IsLineBreak) (hnext : next ∈ (rest.dropWhile isNewLine).head?)
    (hfrees : (p.behind (t :: before)).frees next = true) :
    Begun p (t :: before ++ rest) (t :: before ++ (breaks ++ rest)) := by
  obtain ⟨⟨hsimilar, hordinary⟩, hrest⟩ := List.forall_mem_cons.mp hplain
  rcases closed_cons_iff.mp hclosed with ⟨-, hnil⟩ | ⟨hend, hclosed⟩
  · obtain ⟨-, rfl⟩ := List.append_eq_nil_iff.mp hnil
    cases hnext
  · exact .cons hsimilar hend hordinary (spread_insert hclosed hrest hbreaks hnext hfrees)

namespace Parse

variable {ctx : ParseContext} {levels fuel : Nat} {s s' t : ParserState} {e : Expr}
  {failure : ScriptError}

/-! ## The whole grammar -/

theorem spaced_runWith (hctx : ctx.registry.entries = [])
    {inner₁ inner₂ : Nat → List Token → Parse Expr}
    (htandem : ∀ m n, Tandem (runWith ctx inner₁ m) (runWith ctx inner₂ n)) (m n : Nat) :
    Spaced (runWith ctx inner₁ m) (runWith ctx inner₂ n) := by
  induction m generalizing n with
  | zero =>
    have hfuel {α : Type} : Orderly.Fails (failFuel : Parse α) := Orderly.fails_failFuel
    exact ⟨htandem _ _, fun _ ↦ .of_fails hfuel, fun _ ↦ .of_fails hfuel, .of_fails hfuel,
      .of_fails hfuel, .of_fails hfuel⟩
  | succ m ih =>
    refine ⟨htandem _ _, fun hlately ↦ ?_, fun hp ↦ ?_, ?_, ?_, ?_⟩
    all_goals cases n with
      | zero => exact .short
      | succ n => ?_
    · exact operand_spaced (ih n) hctx hlately
    · exact expression_spaced (ih n) hctx fun _ ↦ hp
    · exact group_spaced (ih n) hctx
    · exact statement_spaced (ih n) hctx
    · exact conditional_spaced (ih n)

/-- Two parsers do the same where the second one meets more line breaks, however many levels and
however much fuel they have. -/
theorem spaced_run (hctx : ctx.registry.entries = []) (levels₁ levels₂ m n : Nat) :
    Spaced (run ctx levels₁ m) (run ctx levels₂ n) := by
  have hlevels (levels : Nat) : ∃ inner, run ctx levels = runWith ctx inner := by
    cases levels <;> exact ⟨_, rfl⟩
  obtain ⟨inner₁, h₁⟩ := hlevels levels₁
  obtain ⟨inner₂, h₂⟩ := hlevels levels₂
  rw [h₁, h₂]
  refine spaced_runWith hctx (fun m n ↦ ?_) m n
  rw [← h₁, ← h₂]
  exact tandem_run hctx _ _ m n

/-! ## Expressions -/

theorem exists_eq_ok_of_outcome {r : EStateM.Result ScriptError ParserState Expr}
    (h : (outcome (fun e _ ↦ e) r).toOption.isSome = true) : ∃ e s', r = .ok e s' := by
  cases r with
  | ok e s' => exact ⟨e, s', rfl⟩
  | error => cases h

/-- A parser has fuel for every expression, and moves on. -/
theorem expression_not_isExcused (hctx : ctx.registry.entries = [])
    (hsound : Window.Sound False s.tokens)
    (hready : Window.Ready True s.tokens) {left : Nat} {grouped : Bool}
    (h : run ctx (sectionLevels ctx) (depth ctx left) (.expression grouped) s = .error failure s') :
    ¬ failure.IsExcused := by
  rintro (hfuel | hinternal)
  · have hends :
        Ends (run ctx (sectionLevels ctx) (depth ctx left) (.expression grouped)) s
          fun _ _ ↦ True :=
      run_ends hctx hsound (Nat.lt_succ_self _) (Nat.le_add_right _ _) (by simp)
    exact hfuel (hends.of_error h)
  · have horderly :=
      (keeps_run (m := ⟨True, True⟩) hctx (sectionLevels ctx) (depth ctx left)).expression
      grouped ⟨s.opened, False, fun _ ↦ True⟩ s ⟨rfl, fun _ ↦ hready, fun _ ↦ trivial⟩
    exact ((horderly.of_error h).2 trivial hinternal).1 trivial

/-- **Line breaks inside brackets are insignificant where they are free.** An expression that a
parser without extensions finds in some tokens, a parser finds in the same tokens with line breaks
at places that are free: the same up to positions, with the same names and counters afterwards, and
it stops at the same token.
-/
theorem exists_expression_spread (hctx : ctx.registry.entries = [])
    (hst : s.Abreast (Begun (.inside [] .fresh)) t) (hsound : Window.Sound False t.tokens)
    (hready : Window.Ready True t.tokens)
    (h : run ctx levels fuel (.expression false) s = .ok e s') (left : Nat) :
    ∃ e' t', run ctx (sectionLevels ctx) (depth ctx left) (.expression false) t = .ok e' t' ∧
    e.Alike e' ∧
      s'.Abreast (Spread (.inside [] .operand)) t' := by
  have hboth := (spaced_run hctx levels (sectionLevels ctx) fuel (depth ctx left)).expression
    (p := .inside [] .fresh) (by simp [Place.IsUngrouped, Place.levels]) s t hst
  rw [h] at hboth
  cases hrun : run ctx (sectionLevels ctx) (depth ctx left) (.expression false) t with
  | ok e' t' =>
    rw [hrun] at hboth
    cases hboth with
    | ok hsame => exact ⟨e', t', rfl, hsame⟩
  | error failure t' =>
    rw [hrun] at hboth
    cases hboth with
    | second hexcused => exact absurd hexcused (expression_not_isExcused hctx hsound hready hrun)

/-- The token of a symbol. -/
def symbolAt (text : String) (index : Nat) : Token := .mk (.symbol text) .start index index

/-- The token of a name. -/
def nameAt (name : String) (index : Nat) : Token := .mk (.ident name) .start index index

/-- A line break. -/
def lineBreakAt (index : Nat) : Token := .mk (.newLine "\n") .start index index

/-- The end behind some tokens. -/
def endAt (index : Nat) : Token := .mk .endOfInput .start index index

/-- What the parser with nothing set up finds in some tokens. -/
def readExpression (tokens : List Token) : EStateM.Result ScriptError ParserState Expr :=
  run Frontend.standard.context (sectionLevels Frontend.standard.context)
    (depth Frontend.standard.context 0)
    (.expression false) (.initial (.ofTokens tokens 8) .empty)

/-- The tokens of `(a`. -/
def sampleOpened : List Token := [symbolAt "(" 0, nameAt "a" 1]

/-- The tokens of `+ b)`. -/
def sampleClosing : List Token := [symbolAt "+" 3, nameAt "b" 4, symbolAt ")" 5, endAt 6]

theorem exists_expression_spread_sampleOpened : ∃ e s' e' t',
    readExpression (sampleOpened ++ sampleClosing) = .ok e s' ∧
    readExpression (sampleOpened ++ ([lineBreakAt 2] ++ sampleClosing)) = .ok e' t' ∧
    e.Alike e' := by
  obtain ⟨e, s', he⟩ : ∃ e s', readExpression (sampleOpened ++ sampleClosing) = .ok e s' :=
    exists_eq_ok_of_outcome (by decide +kernel)
  have hclosed : Closed (sampleOpened ++ sampleClosing) :=
    ⟨(sampleOpened ++ sampleClosing).dropLast, endAt 6, rfl, rfl, by decide⟩
  have hclosed' : Closed (sampleOpened ++ ([lineBreakAt 2] ++ sampleClosing)) :=
    ⟨(sampleOpened ++ ([lineBreakAt 2] ++ sampleClosing)).dropLast, endAt 6, rfl, rfl, by decide⟩
  have hplain : ∀ t ∈ sampleOpened ++ sampleClosing, t.Similar t ∧ t.IsOrdinary := by
    have hkinds : ∀ t ∈ sampleOpened ++ sampleClosing, t.kind ≠ .newLine ∧ t.kind ≠ .interpolated ∧
        (t.text ∈ Lexeme.symbols → t.kind = .symbol) := by decide
    intro t ht
    obtain ⟨hbreak, hstring, hordinary⟩ := hkinds t ht
    exact ⟨Token.similar_refl hbreak hstring, hordinary⟩
  have hbreaks : ∀ b ∈ [lineBreakAt 2], b.lexeme.IsLineBreak :=
    List.forall_mem_singleton.mpr ⟨"\n", by decide, rfl⟩
  have hstrings : ∀ t ∈ sampleOpened ++ ([lineBreakAt 2] ++ sampleClosing),
      t.lexeme.EachString SectionsInOrder := by
    have hkinds : ∀ t ∈ sampleOpened ++ ([lineBreakAt 2] ++ sampleClosing),
        t.lexeme.kind ≠ .interpolated := by decide
    exact fun t ht ↦ Lexeme.eachString_of_kind (hkinds t ht)
  have horder : (sampleOpened ++ ([lineBreakAt 2] ++ sampleClosing)).Pairwise
      fun t u ↦ t.index < u.index := by decide
  have hbegun : Begun (.inside [] .fresh) (sampleOpened ++ sampleClosing)
      (sampleOpened ++ ([lineBreakAt 2] ++ sampleClosing)) :=
    begun_insert hclosed hplain hbreaks rfl rfl
  have hst : (ParserState.initial (.ofTokens (sampleOpened ++ sampleClosing) 8) .empty).Abreast
      (Begun (.inside [] .fresh))
      (.initial (.ofTokens (sampleOpened ++ ([lineBreakAt 2] ++ sampleClosing)) 8) .empty) :=
    ⟨⟨_, _, Window.ofTokens_shows hclosed 8, Window.ofTokens_shows hclosed' 8, hbegun⟩, rfl, rfl⟩
  obtain ⟨e', t', he', halike, -⟩ :=
    exists_expression_spread rfl hst (Window.sound_ofTokens _ _ False.elim)
    (Window.ready_ofTokens _ fun _ ↦ ⟨horder, tokensEachString_iff.mpr hstrings⟩) he 0
  exact ⟨e, s', e', t', he, he', halike⟩

/-- Inside a group, not every line break is insignificant: behind a prefix operator it is
refused. -/
theorem not_newLine_insignificant_in_group : ¬ ∀ (before rest : List Token) (b : Token)
    (levels : List Level) (lately : Lately) (e : Expr) (s' : ParserState), b.lexeme.IsLineBreak →
    (Place.inside [] .fresh).behind before = .inside levels lately → .group ∈ levels →
    readExpression (before ++ rest) = .ok e s' →
    ∃ e' t', readExpression (before ++ b :: rest) = .ok e' t' ∧ e.Alike e' := by
  intro h
  let before := [symbolAt "(" 0, symbolAt "!" 1]
  let rest := [nameAt "a" 3, symbolAt ")" 4, endAt 5]
  obtain ⟨e, s', he⟩ : ∃ e s', readExpression (before ++ rest) = .ok e s' :=
    exists_eq_ok_of_outcome (by decide +kernel)
  obtain ⟨e', t', he', -⟩ :=
    h before rest (lineBreakAt 2) [.group] .sign e s' ⟨"\n", by decide, rfl⟩ rfl
    (by decide) he
  have hrefused :
      (outcome (fun e _ ↦ e) (readExpression (before ++ lineBreakAt 2 :: rest))).toOption.isNone :=
    by decide +kernel
  rw [he'] at hrefused
  cases hrefused

end Parse

end ScriptFront
