import ScriptFront.Proofs.Parse.Spans

/-!
# The parser keeps account of its tokens

This module goes through the productions of the grammar once, for single runs. Each production comes
to an end within its fuel; what it passes is accounted for by the tree it returns; and it leaves
nothing open.

The statement about a goal of the parser is the invariant of the recursion: `Parse.Serves` says it
of a subparser, every production preserves it, and `Parse.run` has it for all levels and all fuel by
induction on both. A loop ends because every round passes a token at least.

All of this holds for any rules and any extensions that `Parse.Accounted` holds for. What is said of
leaves is only said of plain windows, on the tokens of a text that is cut as it stands.
-/

namespace ScriptFront

open Window (Leads Passes Skips Holds Sound Walk)

/-! ## Leaves of lists and stacks -/

theorem leavesList_singleton (e : Expr) : leavesList [e] = e.leaves := by
  simp [leavesList]

theorem leavesList_reverse_cons (e : Expr) (items : List Expr) :
    leavesList (e :: items).reverse = leavesList items.reverse ++ e.leaves := by
  rw [List.reverse_cons, leavesList_append, leavesList_singleton]

theorem leavesEntries_reverse_cons (key : String) (value : Expr) (entries : List MapEntry) :
    leavesEntries (.mk key value :: entries).reverse =
      leavesEntries entries.reverse ++ (.key key :: value.leaves) := by
  rw [List.reverse_cons, leavesEntries_append]
  simp [leavesEntries]

theorem names_reverse_cons (name : String) (names : List String) :
    (name :: names).reverse.map TreeLeaf.name = names.reverse.map .name ++ [.name name] := by
  rw [List.reverse_cons, List.map_append]
  rfl

namespace Yard

/-- The leaves of the operands, in the order of the text. -/
def leaves (y : Yard) : List TreeLeaf := leavesList y.operands.reverse

theorem leaves_pushOperand (y : Yard) (e : Expr) :
    (y.pushOperand e).leaves = y.leaves ++ e.leaves := leavesList_reverse_cons e _

/-- Combining operands keeps their leaves, in order. -/
theorem leaves_combine {op : Operator} {operands operands' : List Expr}
    (h : combine op operands = some operands') :
    leavesList operands'.reverse = leavesList operands.reverse := by
  match operands, h with
  | right :: left :: rest, h =>
    obtain rfl := Option.some.inj h
    simp only [leavesList_reverse_cons, Expr.leaves_operation, List.append_assoc]

theorem leaves_settle {waits : Operator → Bool} {waiting : List Waiting} {operands : List Expr}
    {y : Yard} (h : settle waits waiting operands = some y) :
    y.leaves = leavesList operands.reverse := by
  induction waiting generalizing operands with
  | nil =>
    obtain rfl := Option.some.inj h
    rfl
  | cons top waiting ih =>
    cases top with
    | paren below =>
      obtain rfl := Option.some.inj h
      rfl
    | operator op =>
      rw [settle] at h
      split at h
      · obtain rfl := Option.some.inj h
        rfl
      · split at h
        · cases h
        · next hcombine => rw [ih h, leaves_combine hcombine]

theorem leaves_pushOperator {y y' : Yard} {op : Operator} (h : y.pushOperator op = some y') :
    y'.leaves = y.leaves := by
  rw [pushOperator, Option.map_eq_some_iff] at h
  obtain ⟨settled, hsettle, rfl⟩ := h
  exact (leaves_settle hsettle : settled.leaves = _)

theorem leaves_closeParen {y y' : Yard} {group : Expr} (h : y.closeParen = some (group, y')) :
    y.leaves = y'.leaves ++ group.leaves := by
  rw [closeParen] at h
  split at h
  · next hsettle =>
    split_ifs at h
    cases h
    exact (leaves_settle hsettle).symm.trans (leavesList_reverse_cons _ _)
  · cases h

theorem leaves_finish {y : Yard} {e : Expr} (h : y.finish = some e) : e.leaves = y.leaves := by
  rw [finish] at h
  split at h
  · next hsettle =>
    cases h
    rw [← leavesList_singleton]
    exact leaves_settle hsettle
  · cases h

end Yard

namespace Parse

variable {plain : Prop} {α β : Type} {ctx : ParseContext} {s s' s₁ s₂ : ParserState}
  {before between now leaves : List TreeLeaf} {levels fuel slack rounds : Nat} {sub : Subparser}
  {name text wanted : String} {start : Position}

/-! ## What is asked of the surroundings -/

/-- What is known of a statement that was asked for. -/
def IsStatement (plain : Prop) (s : ParserState) : Option Expr → ParserState → Prop
  | none, s' => Spans plain 0 s [] [] s' ∧ s'.tokens.isEnded = true
  | some e, s' => Spans plain 1 s [] e.leaves s'

/-- What is known of a node that an extension was asked for. -/
def IsBuilt (plain : Prop) (s : ParserState) : Option Expr → ParserState → Prop
  | none, s' => Spans plain 0 s [] [] s' ∧ s'.tokens.current = s.tokens.current
  | some e, s' => Spans plain 1 s [] e.leaves s'

/-- Every goal that the fuel suffices for is served: it is reached within the fuel, and what is
passed on the way is accounted for. -/
structure Serves (plain : Prop) (ctx : ParseContext) (levels fuel : Nat) (sub : Subparser) :
    Prop where
  /-- Statements. -/
  statement : ∀ {s : ParserState}, HasRoom plain ctx levels fuel 3 s →
    Ends (sub .statement) s (IsStatement plain s)
  /-- Conditionals. -/
  conditional : ∀ {s : ParserState}, HasRoom plain ctx levels fuel 3 s →
    Ends (sub .conditional) s fun e s' ↦ Spans plain 1 s [] e.leaves s'
  /-- Expressions. -/
  expression : ∀ {s : ParserState} {grouped : Bool}, HasRoom plain ctx levels fuel 2 s →
    Ends (sub (.expression grouped)) s fun e s' ↦ Spans plain 1 s [] e.leaves s'
  /-- Operands. -/
  operand : ∀ {s : ParserState}, HasRoom plain ctx levels fuel 1 s →
    Ends (sub .operand) s fun e s' ↦ Spans plain 1 s [] e.leaves s'
  /-- Embedded sections, which have tokens of their own. -/
  embedded : ∀ {s : ParserState} {list : List Token}, Inside plain ctx levels fuel s →
    (plain → Closed list ∧ TokensGenuine list) →
    Ends (sub (.embedded list)) s fun e s' ↦
      s'.tokens = s.tokens ∧ s'.depths = s.depths ∧ (plain → Accounts list e.leaves)

/-- What is asked of the extensions. -/
structure Accounted (plain : Prop) (ctx : ParseContext) : Prop where
  /-- Replacing tokens passes none. -/
  replaceTokens : ∀ {s : ParserState}, Sound plain s.tokens →
    Ends ctx.replaceTokens s fun _ s' ↦ Spans plain 0 s [] [] s'
  /-- A node that is built accounts for what is passed. -/
  build? : ∀ {levels fuel : Nat} {sub : Subparser}, Serves plain ctx levels fuel sub →
    ∀ (kind : ExtensionKind) {s : ParserState}, HasRoom plain ctx levels fuel 2 s →
      Ends (ctx.build? sub kind) s (IsBuilt plain s)

/-! ## Blocks -/

theorem passSeparatorsWithin_ends (hs : Sound plain s.tokens)
    (hrounds : s.tokens.tokensLeft < rounds) :
    Ends (passSeparatorsWithin rounds) s fun _ s' ↦ Spans plain 0 s [] [] s' := by
  induction rounds generalizing s with
  | zero => exact absurd hrounds (Nat.not_lt_zero _)
  | succ rounds ih =>
    rw [passSeparatorsWithin]
    refine (skipNewLines_ends hs).bind fun _ s₁ h₁ ↦
      .ask rfl (.branch (fun his ↦ ?_) fun _ ↦ .pure h₁)
    refine (advance_mark_ends (h₁.sound hs) his (by decide)).bind fun _ s₂ h₂ ↦ ?_
    have hpast := h₁.quiet h₂
    have := hpast.left hs
    exact (ih (hpast.sound hs) (by omega)).mono fun _ s₃ h₃ ↦
      (hpast.quiet h₃).slower (Nat.zero_le _)

theorem passSeparators_ends (hs : Sound plain s.tokens) :
    Ends passSeparators s fun _ s' ↦ Spans plain 0 s [] [] s' :=
  .ask rfl (passSeparatorsWithin_ends hs (by omega))

theorem continuesWith_ends (hs : Sound plain s.tokens) :
    Ends (continuesWith text) s fun found s' ↦
      Spans plain 0 s [] [] s' ∧ s'.tokens.is text = found := by
  rw [continuesWith]
  refine .ask rfl (.branch (fun _ ↦ ?_) fun _ ↦ .known rfl ⟨.refl, rfl⟩)
  refine (peek_ends hs).bind fun t s₁ ⟨h₁, _⟩ ↦ ?_
  refine .optional (fun _ ↦ skipNewLines_ends (h₁.sound hs)) (fun _ ↦ .refl) fun _ s₂ h₂ ↦ ?_
  exact .known rfl ⟨h₁.quiet h₂, rfl⟩

theorem endStatement_ends (hs : Sound plain s.tokens) :
    Ends endStatement s fun _ s' ↦ Spans plain 0 s [] [] s' := by
  refine .ask rfl (.branch (fun hexplicit ↦ ?_) fun _ ↦
    .branch (fun _ ↦ failExpected_ends) fun _ ↦ ?_)
  · by_cases his : s.tokens.is ";" = true
    · exact (advance_mark_ends hs his (by decide)).mono fun _ _ h ↦ h.slower (Nat.zero_le _)
    · -- the end is a line break, which is passed as a token without leaves
      have hbreak : s.tokens.current.kind = .newLine := by
        simpa [Window.isExplicitEnd, his, Window.kind] using hexplicit
      have hend : s.tokens.current.isEnd = false := by rw [Token.isEnd, hbreak]; rfl
      refine (advance_ends hs hend).mono fun _ _ h ↦
        (h.spans_nil fun _ ↦ ?_).slower (Nat.zero_le _)
      rw [Token.kind] at hbreak
      revert hbreak
      cases s.tokens.current.lexeme <;> simp [Lexeme.kind, Lexeme.leaves]
  · exact .pure .refl

theorem paramsWithin_ends {names : List String} (hs : Sound plain s.tokens)
    (hrounds : s.tokens.tokensLeft < rounds) :
    Ends (paramsWithin ctx rounds names) s fun found s' ↦
      Spans plain 0 s (names.reverse.map .name) (found.map .name) s' := by
  induction rounds generalizing s names with
  | zero => exact absurd hrounds (Nat.not_lt_zero _)
  | succ rounds ih =>
    rw [paramsWithin]
    refine .ask rfl (.branch (fun _ ↦ ?_) fun _ ↦ ?_)
    · exact (expect_ends hs (by decide)).bind fun _ s₁ h₁ ↦
        .pure ((h₁.under _).slower (Nat.zero_le _))
    refine (expectName_ends hs).bind fun name s₁ ⟨h₁, _⟩ ↦ ?_
    have hname := (h₁.onto (names.reverse.map .name)).cast fun _ ↦
      (names_reverse_cons name names).symm
    have hs₁ := h₁.sound hs
    have hleft := h₁.left hs
    refine .branch (fun _ ↦ (fail_ends (Q := fun _ _ ↦ False) (by simp)).bind fun _ _ h ↦ h.elim)
      fun _ ↦ .ask rfl (.branch (fun his ↦ ?_) fun _ ↦ .ask rfl (require_ends fun _ ↦ ?_))
    · refine (advance_mark_ends hs₁ his (by decide)).bind fun _ s₂ h₂ ↦ ?_
      have := h₂.left hs₁
      exact (ih (h₂.sound hs₁) (by omega)).mono fun _ s₃ h₃ ↦
        ((hname.quiet h₂).trans h₃).slower (Nat.zero_le _)
    · exact (ih hs₁ (by omega)).mono fun _ s₂ h₂ ↦ (hname.trans h₂).slower (Nat.zero_le _)

theorem params_ends (hs : Sound plain s.tokens) :
    Ends (params ctx) s fun found s' ↦ Spans plain 1 s [] (found.map .name) s' := by
  refine (expect_ends hs (by decide)).bind fun _ s₁ h₁ ↦ .ask rfl ?_
  exact (paramsWithin_ends (h₁.sound hs) (by omega)).mono fun _ s₂ h₂ ↦ h₁.trans h₂

theorem statementsWithin_ends {done : List Expr} (hsub : Serves plain ctx levels fuel sub)
    (hfits : HasRoom plain ctx levels fuel 3 s) (hrounds : s.tokens.tokensLeft < rounds) :
    Ends (statementsWithin sub rounds done) s fun found s' ↦
      Spans plain 0 s (leavesList done.reverse) (leavesList found) s' ∧
        s'.tokens.is "\x7d" = true := by
  induction rounds generalizing s done with
  | zero => exact absurd hrounds (Nat.not_lt_zero _)
  | succ rounds ih =>
    rw [statementsWithin]
    refine (passSeparators_ends hfits.sound).bind fun _ s₁ h₁ ↦ .ask rfl ?_
    refine .branch (fun his ↦ .pure ⟨h₁.under _, his⟩) fun _ ↦ ?_
    refine .ask rfl (require_ends fun _ ↦ .ask rfl ?_)
    refine (hsub.statement (hfits.after h₁)).bind fun found s₂ h₂ ↦ ?_
    cases found with
    | none => exact failExpected_ends
    | some statement =>
      refine requireProgress_ends.bind fun _ s₃ h₃ ↦ ?_
      subst h₃
      have hstep := ((h₁.under _).gain h₂).cast fun _ ↦
        (leavesList_reverse_cons statement done).symm
      have := hstep.left hfits.sound
      exact (ih (hfits.after hstep) (by omega)).mono fun _ s₄ ⟨h₄, his⟩ ↦
        ⟨(hstep.trans h₄).slower (Nat.zero_le _), his⟩

theorem statementsInScope_ends {kind : ScopeKind} {names : List String}
    (hsub : Serves plain ctx levels fuel sub) (hfits : HasRoom plain ctx levels fuel 0 s) :
    Ends (statementsInScope ctx sub kind names) s fun found s' ↦
      Spans plain 1 s [] (leavesList found.1) s' := by
  rw [statementsInScope]
  refine (continuesWith_ends hfits.sound).bind fun found s₁ ⟨h₁, hfound⟩ ↦
    require_ends fun hopen ↦ ?_
  have his : s₁.tokens.is "\x7b" = true := by simpa [hfound] using hopen
  refine enterBlock_ends.bind fun _ t ⟨ht, hdepth⟩ ↦ ?_
  subst ht
  have hblock := (hfits.after h₁).inBlock hdepth
  refine (advance_mark_ends hblock.sound his (by decide)).bind fun _ s₂ h₂ ↦ ?_
  refine pushScope_ends.bind fun scope s₃ h₃ ↦ modifySymbols_ends.bind fun _ s₄ h₄ ↦ .ask rfl ?_
  have hfront := (h₂.still h₃).still h₄
  refine (statementsWithin_ends hsub ((hblock.after hfront).tighten (by decide))
    (by omega)).bind fun statements s₅ ⟨h₅, hclose⟩ ↦ ?_
  have hbody := hfront.trans h₅
  refine popScope_ends.bind fun _ s₆ h₆ ↦ .ask rfl ?_
  have hleft := (hbody.still h₆).leaveBlock
  rw [← h₆.tokens] at hclose
  refine (advance_mark_ends ((h₁.trans hleft).sound hfits.sound) hclose (by decide)).bind
    fun _ s₇ h₇ ↦ ?_
  exact .pure (((h₁.trans hleft).quiet h₇).slower (by omega))

theorem blockWith_ends {names : List String} (hsub : Serves plain ctx levels fuel sub)
    (hfits : HasRoom plain ctx levels fuel 0 s) :
    Ends (blockWith ctx sub names) s fun e s' ↦ Spans plain 1 s [] e.leaves s' :=
  .ask rfl ((statementsInScope_ends hsub hfits).bind fun _ _ h ↦ .pure h)

/-! ## Arguments -/

theorem callArgsWithin_ends {args : List Expr} (hsub : Serves plain ctx levels fuel sub)
    (hfits : HasRoom plain ctx levels fuel 2 s) (hrounds : s.tokens.tokensLeft < rounds) :
    Ends (callArgsWithin sub rounds args) s fun found s' ↦
      Spans plain 0 s (leavesList args.reverse) (leavesList found) s' ∧
        s'.tokens.is ")" = true := by
  induction rounds generalizing s args with
  | zero => exact absurd hrounds (Nat.not_lt_zero _)
  | succ rounds ih =>
    rw [callArgsWithin]
    refine (skipNewLines_ends hfits.sound).bind fun _ s₁ h₁ ↦ .ask rfl ?_
    refine .branch (fun his ↦ .pure ⟨h₁.under _, his⟩) fun _ ↦ ?_
    refine (hsub.expression (hfits.after h₁)).bind fun arg s₂ h₂ ↦ ?_
    have harg := ((h₁.under (leavesList args.reverse)).gain h₂).cast fun _ ↦
      (leavesList_reverse_cons arg args).symm
    refine (skipNewLines_ends (harg.sound hfits.sound)).bind fun _ s₃ h₃ ↦ ?_
    have hstep := harg.quiet h₃
    have hfits₃ := hfits.after hstep
    have hleft := hstep.left hfits.sound
    refine .ask rfl (.branch (fun his ↦ ?_) fun _ ↦ .ask rfl (require_ends fun _ ↦ ?_))
    · refine (advance_mark_ends hfits₃.sound his (by decide)).bind fun _ s₄ h₄ ↦ ?_
      have := h₄.left hfits₃.sound
      exact (ih (hfits₃.after h₄) (by omega)).mono fun _ s₅ ⟨h₅, his⟩ ↦
        ⟨((hstep.quiet h₄).trans h₅).slower (Nat.zero_le _), his⟩
    · exact (ih hfits₃ (by omega)).mono fun _ s₄ ⟨h₄, his⟩ ↦
        ⟨(hstep.trans h₄).slower (Nat.zero_le _), his⟩

theorem callArgs_ends (hsub : Serves plain ctx levels fuel sub)
    (hfits : HasRoom plain ctx levels fuel 2 s) :
    Ends (callArgs ctx sub) s fun found s' ↦ Spans plain 1 s [] (leavesList found) s' := by
  refine (expect_ends hfits.sound (by decide)).bind fun _ s₁ h₁ ↦
    enterCall_ends.bind fun _ t ht ↦ ?_
  subst ht
  have hcall := (hfits.after h₁).inCall
  refine .ask rfl ((callArgsWithin_ends hsub hcall (by omega)).bind
    fun args s₂ ⟨h₂, his⟩ ↦ ?_)
  refine (advance_mark_ends (h₂.sound hcall.sound) his (by decide)).bind fun _ s₃ h₃ ↦ ?_
  exact .ask rfl (.pure ((h₁.trans (h₂.quiet h₃).leaveCall).slower (by omega)))

theorem looseArgsWithin_ends {args : List Expr} (hsub : Serves plain ctx levels fuel sub)
    (hfits : HasRoom plain ctx levels fuel 2 s) (hrounds : s.tokens.tokensLeft < rounds) :
    Ends (looseArgsWithin sub rounds args) s fun found s' ↦
      Spans plain 0 s (leavesList args.reverse) (leavesList found) s' := by
  induction rounds generalizing s args with
  | zero => exact absurd hrounds (Nat.not_lt_zero _)
  | succ rounds ih =>
    rw [looseArgsWithin]
    refine .ask rfl (.branch (fun his ↦ ?_) fun _ ↦ .pure .refl)
    refine (advance_mark_ends hfits.sound his (by decide)).bind fun _ s₁ h₁ ↦ ?_
    refine (hsub.expression (hfits.after h₁)).bind fun arg s₂ h₂ ↦ ?_
    have hstep := ((h₁.under (leavesList args.reverse)).gain h₂).cast fun _ ↦
      (leavesList_reverse_cons arg args).symm
    have := hstep.left hfits.sound
    exact (ih (hfits.after hstep) (by omega)).mono fun _ s₃ h₃ ↦
      (hstep.trans h₃).slower (Nat.zero_le _)

theorem looseArgs_ends (hsub : Serves plain ctx levels fuel sub)
    (hfits : HasRoom plain ctx levels fuel 2 s) :
    Ends (looseArgs ctx sub) s fun found s' ↦ Spans plain 1 s [] (leavesList found) s' := by
  refine enterCall_ends.bind fun _ t ht ↦ ?_
  subst ht
  refine (hsub.expression hfits.inCall).bind fun first s₁ h₁ ↦ .ask rfl ?_
  refine (looseArgsWithin_ends hsub (hfits.inCall.after h₁) (by omega)).bind
    fun args s₂ h₂ ↦ ?_
  rw [List.reverse_singleton, leavesList_singleton] at h₂
  exact .ask rfl (.pure (h₁.trans h₂).leaveCall)

/-! ## Links -/

/-- A full name is being collected for a chain of members: its leaves are the names. -/
def Collects (plain : Prop) (e : Expr) (qualified : List String) : Prop :=
  plain → qualified ≠ [] →
    e.leaves = qualified.map .name ∧ ∀ name ∈ qualified, '.' ∉ name.toList

theorem collects_nil {e : Expr} : Collects plain e [] := fun _ h ↦ absurd rfl h

theorem leaves_callOn {e : Expr} {qualified : List String} (args : List Expr)
    (h : Collects plain e qualified) (hplain : plain) :
    (callOn e qualified args).leaves = e.leaves ++ leavesList args := by
  unfold callOn
  split
  · rfl
  · next hne =>
    obtain ⟨hleaves, hdots⟩ := h hplain (by simpa using hne)
    have hname : (Expr.call (".".intercalate qualified) args).leaves =
        (segments (".".intercalate qualified)).map .name ++ leavesList args := rfl
    rw [hname, segments_intercalate (by simpa using hne) hdots, hleaves]

theorem linksWithin_ends {links : Nat} {e : Expr} {qualified : List String}
    (hsub : Serves plain ctx levels fuel sub) (hfits : HasRoom plain ctx levels fuel 2 s)
    (hrounds : s.tokens.tokensLeft < rounds) (hcollects : Collects plain e qualified) :
    Ends (linksWithin ctx sub start rounds links e qualified) s fun found s' ↦
      Spans plain 0 s e.leaves found.leaves s' := by
  induction rounds generalizing s links e qualified with
  | zero => exact absurd hrounds (Nat.not_lt_zero _)
  | succ rounds ih =>
    have hs := hfits.sound
    rw [linksWithin]
    refine .ask rfl (.branch (fun hdot ↦ ?_) fun _ ↦ .branch (fun hbracket ↦ ?_) fun _ ↦
      .branch (fun hparen ↦ ?_) fun _ ↦ .branch (fun hchange ↦ ?_) fun _ ↦
      .branch (fun hchange ↦ ?_) fun _ ↦ .pure .refl)
    · refine limit_ends.bind fun _ t ⟨ht, _⟩ ↦ ?_
      subst ht
      refine (advance_mark_ends hs (is_of_isSymbol hdot) (by decide)).bind fun _ s₁ h₁ ↦ ?_
      refine (expectName_ends (h₁.sound hs)).bind fun name s₂ ⟨h₂, hname⟩ ↦ .ask rfl ?_
      have hstep := (h₁.under e.leaves).gain h₂
      have := hstep.left hs
      refine (ih (hfits.after hstep) (by omega) fun hplain hne ↦ ?_).mono fun found s₃ h₃ ↦
        (hstep.trans h₃).slower (Nat.zero_le _)
      -- a name that is collected goes on as long as members follow
      by_cases hnil : qualified = []
      · simp [hnil] at hne
      · obtain ⟨hleaves, hdots⟩ := hcollects hplain hnil
        have hcons :
            (if qualified.isEmpty then [] else qualified ++ [name]) = qualified ++ [name] := by
          simp [hnil]
        rw [hcons, List.map_append, ← hleaves]
        exact ⟨rfl, by simpa [or_imp, forall_and] using ⟨hdots, hname hplain⟩⟩
    · refine limit_ends.bind fun _ t ⟨ht, _⟩ ↦ ?_
      subst ht
      refine (advance_mark_ends hs (is_of_isSymbol hbracket) (by decide)).bind fun _ s₁ h₁ ↦ ?_
      refine (hsub.expression (hfits.after h₁)).bind fun key s₂ h₂ ↦ ?_
      have hkey := (h₁.under e.leaves).gain h₂
      refine (skipNewLines_ends (hkey.sound hs)).bind fun _ s₃ h₃ ↦ ?_
      refine (expect_ends ((hkey.quiet h₃).sound hs) (by decide)).bind fun _ s₄ h₄ ↦ .ask rfl ?_
      have hstep := (hkey.quiet h₃).quiet h₄
      have := hstep.left hs
      exact (ih (hfits.after hstep) (by omega) collects_nil).mono fun found s₅ h₅ ↦
        (hstep.trans h₅).slower (Nat.zero_le _)
    · refine limit_ends.bind fun _ t ⟨ht, _⟩ ↦ ?_
      subst ht
      refine (callArgs_ends hsub hfits).bind fun args s₁ h₁ ↦ .ask rfl ?_
      have hstep := (h₁.onto e.leaves).cast fun hplain ↦ (leaves_callOn args hcollects hplain).symm
      have := hstep.left hs
      refine (ih (hfits.after hstep) (by omega) collects_nil).mono fun found s₂ h₂ ↦ ?_
      rw [Expr.leaves_inScope, Expr.leaves_moveTo] at h₂
      exact (hstep.trans h₂).slower (Nat.zero_le _)
    · refine (advance_mark_ends hs (is_of_isSymbol (Bool.and_eq_true _ _ ▸ hchange).1)
        (by decide)).bind fun _ s₁ h₁ ↦ .known rfl ?_
      exact (h₁.under e.leaves).slower (Nat.zero_le _)
    · refine (advance_mark_ends hs (is_of_isSymbol (Bool.and_eq_true _ _ ▸ hchange).1)
        (by decide)).bind fun _ s₁ h₁ ↦ .known rfl ?_
      exact (h₁.under e.leaves).slower (Nat.zero_le _)

theorem links_ends {e : Expr} {qualified : List String} (hsub : Serves plain ctx levels fuel sub)
    (hfits : HasRoom plain ctx levels fuel 2 s) (hcollects : Collects plain e qualified) :
    Ends (links ctx sub e qualified) s fun found s' ↦ Spans plain 0 s e.leaves found.leaves s' :=
  .ask rfl (linksWithin_ends hsub hfits (by omega) hcollects)

/-! ## Forms of operands -/

theorem named_ends (hsub : Serves plain ctx levels fuel sub)
    (hfits : HasRoom plain ctx levels fuel 2 s)
    (hname : plain → '.' ∉ name.toList) :
    Ends (named ctx sub name start) s fun e s' ↦ Spans plain 0 s [.name name] e.leaves s' := by
  refine .ask rfl
    (.ask rfl (.ask rfl (.branch (fun _ ↦ .ask rfl ?_) fun _ ↦ .ask rfl (.ask rfl ?_))))
  · -- a call by its name alone
    have hcall (args : List Expr) (hplain : plain) :
        [TreeLeaf.name name] ++ leavesList args = (Expr.call name args).leaves := by
      change _ = (segments name).map .name ++ leavesList args
      rw [segments_of_no_dot (hname hplain)]
      rfl
    refine .branch (fun _ ↦ ?_) fun _ ↦ ?_
    · refine (looseArgs_ends hsub hfits).bind fun args s₁ h₁ ↦ .ask rfl (.pure ?_)
      rw [Expr.leaves_inScope, Expr.leaves_moveTo]
      exact ((h₁.onto _).cast (hcall args)).slower (Nat.zero_le _)
    · refine .ask rfl (.ask rfl (.pure ?_))
      rw [Expr.leaves_inScope, Expr.leaves_moveTo]
      exact Spans.refl.cast (hcall [])
  · refine links_ends hsub hfits fun hplain hne ↦ ?_
    split_ifs at hne ⊢
    · exact ⟨rfl, by simpa using hname hplain⟩
    · exact absurd rfl hne

theorem itemsWithin_ends {items : List Expr} {wanting : Bool}
    (hsub : Serves plain ctx levels fuel sub) (hfits : HasRoom plain ctx levels fuel 2 s)
    (hrounds : s.tokens.tokensLeft < rounds) :
    Ends (itemsWithin sub rounds items wanting) s fun found s' ↦
      Spans plain 0 s (leavesList items.reverse) (leavesList found) s' ∧
        s'.tokens.is "]" = true := by
  induction rounds generalizing s items wanting with
  | zero => exact absurd hrounds (Nat.not_lt_zero _)
  | succ rounds ih =>
    rw [itemsWithin]
    refine (skipNewLines_ends hfits.sound).bind fun _ s₁ h₁ ↦ .ask rfl ?_
    have hfits₁ := hfits.after h₁
    have hs₁ := hfits₁.sound
    refine .branch (fun his ↦ .pure ⟨h₁.under _, his⟩) fun _ ↦ ?_
    refine .ask rfl (require_ends fun _ ↦ .ask rfl (.branch (fun his ↦ ?_) fun _ ↦ ?_))
    · -- an item that is left out has no leaves
      have hrest (next : List Expr)
          (hnext : leavesList next.reverse = leavesList items.reverse) :
          Ends (do advance 1 true; itemsWithin sub rounds next true) s₁ fun found s' ↦
            Spans plain 0 s (leavesList items.reverse) (leavesList found) s' ∧
              s'.tokens.is "]" = true := by
        refine (advance_mark_ends hs₁ his (by decide)).bind fun _ s₂ h₂ ↦ ?_
        have hstep := h₁.quiet h₂
        have := hstep.left hfits.sound
        refine (ih (hfits.after hstep) (by omega)).mono fun found s₃ ⟨h₃, his⟩ ↦ ⟨?_, his⟩
        rw [hnext] at h₃
        exact ((hstep.under _).trans h₃).slower (Nat.zero_le _)
      refine .branch (fun _ ↦ .ask rfl (.ask rfl (.ask rfl (hrest _ ?_)))) fun _ ↦
        .ask rfl (hrest _ rfl)
      rw [leavesList_reverse_cons]
      exact List.append_nil _
    · refine require_ends fun _ ↦ (hsub.expression hfits₁).bind fun item s₂ h₂ ↦ ?_
      have hstep := ((h₁.under (leavesList items.reverse)).gain h₂).cast fun _ ↦
        (leavesList_reverse_cons item items).symm
      have := hstep.left hfits.sound
      exact (ih (hfits.after hstep) (by omega)).mono fun found s₃ ⟨h₃, his⟩ ↦
        ⟨(hstep.trans h₃).slower (Nat.zero_le _), his⟩

theorem array_ends (hsub : Serves plain ctx levels fuel sub)
    (hfits : HasRoom plain ctx levels fuel 2 s) :
    Ends (array sub) s fun e s' ↦ Spans plain 1 s [] e.leaves s' := by
  refine .ask rfl ((expect_ends hfits.sound (by decide)).bind fun _ s₁ h₁ ↦ .ask rfl ?_)
  refine (itemsWithin_ends hsub (hfits.after h₁) (by omega)).bind
    fun items s₂ ⟨h₂, his⟩ ↦ ?_
  have hitems := h₁.trans h₂
  refine (advance_mark_ends (hitems.sound hfits.sound) his (by decide)).bind fun _ s₃ h₃ ↦ ?_
  exact .known rfl ((hitems.quiet h₃).slower (by omega))

theorem mapKey_ends :
    Ends mapKey s fun key s' ↦ s' = s ∧ s.tokens.current.isEnd = false ∧
      List.Forall₂ TokenLeaf.Meets s.tokens.current.lexeme.leaves [.key key] := by
  have hend : s.tokens.current.isEnd = (s.tokens.current.lexeme.kind == .endOfInput) := rfl
  rw [hend]
  refine .ask rfl ?_
  split
  · next hlexeme =>
    rw [hlexeme]
    exact .pure ⟨rfl, rfl, .cons (.textKey _) .nil⟩
  · next hlexeme =>
    rw [hlexeme]
    exact .pure ⟨rfl, rfl, .cons (.nameKey _) .nil⟩
  · next hlexeme =>
    rw [hlexeme]
    exact .pure ⟨rfl, rfl, .cons (.numberKey _ _) .nil⟩
  · exact failExpected_ends

theorem entriesWithin_ends {entries : List MapEntry} (hsub : Serves plain ctx levels fuel sub)
    (hfits : HasRoom plain ctx levels fuel 2 s) (hrounds : s.tokens.tokensLeft < rounds) :
    Ends (entriesWithin sub rounds entries) s fun found s' ↦
      Spans plain 0 s (leavesEntries entries.reverse) (leavesEntries found) s' ∧
        s'.tokens.is "\x7d" = true := by
  induction rounds generalizing s entries with
  | zero => exact absurd hrounds (Nat.not_lt_zero _)
  | succ rounds ih =>
    rw [entriesWithin]
    refine (skipNewLines_ends hfits.sound).bind fun _ s₁ h₁ ↦ .ask rfl ?_
    refine .branch (fun his ↦ .pure ⟨h₁.under _, his⟩) fun _ ↦ ?_
    refine mapKey_ends.bind fun key t ⟨ht, hend, hmeets⟩ ↦ ?_
    subst ht
    refine (advance_ends (h₁.sound hfits.sound) hend).bind fun _ s₂ hpassed ↦ ?_
    have hkey := h₁.trans (hpassed.spans fun _ ↦ hmeets)
    refine (expect_ends (hkey.sound hfits.sound) (by decide)).bind fun _ s₃ h₃ ↦ ?_
    have hcolon := hkey.quiet h₃
    refine (hsub.expression (hfits.after hcolon)).bind fun value s₄ h₄ ↦ ?_
    have hentry := ((hcolon.gain h₄).onto (leavesEntries entries.reverse)).cast fun _ ↦
      (leavesEntries_reverse_cons key value entries).symm
    refine (skipNewLines_ends (hentry.sound hfits.sound)).bind fun _ s₅ h₅ ↦ ?_
    have hstep := hentry.quiet h₅
    have hfits₅ := hfits.after hstep
    have hleft := hstep.left hfits.sound
    refine .ask rfl (.branch (fun his ↦ ?_) fun _ ↦ .ask rfl (require_ends fun _ ↦ ?_))
    · refine (advance_mark_ends hfits₅.sound his (by decide)).bind fun _ s₆ h₆ ↦ ?_
      have := h₆.left hfits₅.sound
      exact (ih (hfits₅.after h₆) (by omega)).mono fun _ s₇ ⟨h₇, his⟩ ↦
        ⟨((hstep.quiet h₆).trans h₇).slower (Nat.zero_le _), his⟩
    · exact (ih hfits₅ (by omega)).mono fun _ s₆ ⟨h₆, his⟩ ↦
        ⟨(hstep.trans h₆).slower (Nat.zero_le _), his⟩

theorem map_ends (hsub : Serves plain ctx levels fuel sub)
    (hfits : HasRoom plain ctx levels fuel 2 s) :
    Ends (map sub) s fun e s' ↦ Spans plain 1 s [] e.leaves s' := by
  refine .ask rfl ((expect_ends hfits.sound (by decide)).bind fun _ s₁ h₁ ↦ .ask rfl ?_)
  refine (entriesWithin_ends hsub (hfits.after h₁) (by omega)).bind
    fun entries s₂ ⟨h₂, his⟩ ↦ ?_
  have hentries := h₁.trans h₂
  refine (advance_mark_ends (hentries.sound hfits.sound) his (by decide)).bind fun _ s₃ h₃ ↦ ?_
  exact .known rfl ((hentries.quiet h₃).slower (by omega))

theorem lambda_ends (hsub : Serves plain ctx levels fuel sub)
    (hfits : HasRoom plain ctx levels fuel 0 s) :
    Ends (lambda ctx sub) s fun e s' ↦ Spans plain 1 s [] e.leaves s' := by
  refine .ask rfl ((expect_ends hfits.sound (by decide)).bind fun _ s₁ h₁ ↦ .ask rfl ?_)
  -- the body is parsed behind the parameters, of which there may be none
  have hbody (names : List String) (s₂ : ParserState)
      (h₂ : Spans plain 1 s [] (names.map .name) s₂) :
      Ends (statementsInScope ctx sub .function names) s₂ fun found s₃ ↦
        Spans plain (1 + 1) s [] (names.map .name ++ leavesList found.1) s₃ :=
    (statementsInScope_ends hsub (hfits.after h₂)).mono fun found s₃ h₃ ↦ h₂.gain h₃
  refine .branch (fun _ ↦ ?_) fun _ ↦ ?_
  · refine (params_ends (h₁.sound hfits.sound)).bind fun names s₂ h₂ ↦ ?_
    refine (hbody names s₂ ((h₁.trans h₂).slower (by omega))).bind fun found s₃ h₃ ↦ .ask rfl ?_
    exact .pure (h₃.slower (by omega))
  · refine .ask rfl ((hbody [] s₁ h₁).bind fun found s₂ h₂ ↦ .ask rfl ?_)
    exact .pure (h₂.slower (by omega))

theorem pieces_ends {parts : List Section} (hsub : Serves plain ctx levels fuel sub)
    (hinside : Inside plain ctx levels fuel s) (hgenuine : plain → SectionsGenuine parts) :
    Ends (pieces sub start parts) s fun found s' ↦ Still s s' ∧
      (plain → List.Forall₂ TokenLeaf.Meets (sectionLeaves parts) (leavesList found)) := by
  induction parts generalizing s with
  | nil => exact .pure ⟨⟨rfl, rfl⟩, fun _ ↦ .nil⟩
  | cons part parts ih =>
    cases part with
    | text value =>
      refine .ask rfl ((ih hinside hgenuine).bind fun found s₁ ⟨h₁, hmeets⟩ ↦ .pure ⟨h₁, ?_⟩)
      exact fun hplain ↦ .cons (.text value) (hmeets hplain)
    | tokens list =>
      have hlist (hplain : plain) : Closed list ∧ TokensGenuine list :=
        ⟨(hgenuine hplain).1, (hgenuine hplain).2.1⟩
      refine (hsub.embedded hinside hlist).bind fun e s₁ ⟨htokens, hdepths, he⟩ ↦ ?_
      have hinside₁ := hinside.move (htokens ▸ hinside.sound) hdepths
      refine (ih hinside₁ fun hplain ↦ (hgenuine hplain).2.2).bind
        fun found s₂ ⟨h₂, hmeets⟩ ↦ .pure ⟨?_, ?_⟩
      · exact ⟨h₂.tokens.trans htokens, h₂.depths.trans hdepths⟩
      · exact fun hplain ↦ List.rel_append (he hplain) (hmeets hplain)

theorem prefixed_ends {op : UnaryOp} (hsub : Serves plain ctx levels fuel sub)
    (hfits : HasRoom plain ctx levels fuel 1 s) (his : s.tokens.is text = true)
    (hreserved : text ∈ Lexeme.reserved) :
    Ends (prefixed sub op start) s fun e s' ↦ Spans plain 1 s [] e.leaves s' := by
  refine (advance_mark_ends hfits.sound his hreserved).bind fun _ s₁ h₁ ↦ ?_
  refine (hsub.operand (hfits.after h₁)).bind fun e s₂ h₂ ↦ .known rfl ?_
  exact (h₁.trans h₂).slower (by omega)

theorem prefixedChange_ends {op : UnaryOp} (hsub : Serves plain ctx levels fuel sub)
    (hfits : HasRoom plain ctx levels fuel 1 s) (his : s.tokens.is text = true)
    (hreserved : text ∈ Lexeme.reserved) :
    Ends (prefixedChange sub op start) s fun e s' ↦ Spans plain 1 s [] e.leaves s' := by
  refine (advance_mark_ends hfits.sound his hreserved).bind fun _ s₁ h₁ ↦ ?_
  refine (hsub.operand (hfits.after h₁)).bind fun e s₂ h₂ ↦ .branch (fun _ ↦ ?_) fun _ ↦
    .known rfl ?_
  · exact .throw (by simp [ScriptError.WithinFuel, ScriptError.ofCause])
  · exact (h₁.trans h₂).slower (by omega)

/-- Moving over a minus sign and the number that was seen behind it. -/
theorem advance_number_ends {t : Token} {n : Number} {place : Nat} (hs : Sound plain s.tokens)
    (his : s.tokens.is "-" = true) (hwalk : Walk false s.tokens.ahead 1 place)
    (ht : s.tokens.ahead[place]? = some t) (hnumber : t.lexeme.number? = some n) :
    Ends (advance 2 false) s fun _ s' ↦ Spans plain 1 s [] [.value (.number n.negate)] s' := by
  have hend := isEnd_of_is his (by decide)
  refine onTokens_ends (hs.advance_two_ensures false hend) fun _ w₂ ⟨w₁, hpasses, hcases⟩ ↦ ?_
  obtain ⟨read, hleads, hover⟩ := hpasses.leads
  have hmark := (accounts_of_isPassedOver hover).cons_of_leaves_eq_nil
    (t := s.tokens.current)
  -- in a plain window, the token moved over is the one that was seen
  have hnext (hplain : plain) : t = w₁.current := by
    obtain ⟨hahead, -⟩ := hleads.ahead_eq hplain (hs.genuine hplain).1
    obtain ⟨rest, hcons⟩ := (hleads.sound hs).exists_cons
    rw [hahead, hcons] at hwalk ht
    exact hwalk.eq_next hend hover hpasses.stops ht
  rcases hcases with ⟨hended, hleads₂⟩ | ⟨more, hleads₂, hover₂⟩
  · refine ⟨⟨_, hleads.trans_nil hleads₂, by simp, fun hplain ↦ ?_⟩, rfl⟩
    -- a number is not the end
    rw [← hnext hplain, Token.isEnd, Token.kind] at hended
    revert hnumber hended
    cases t.lexeme <;> simp [Lexeme.number?, Lexeme.kind]
  · refine ⟨⟨_, hleads.trans hleads₂, by simp, fun hplain ↦ ⟨_, ?_, rfl⟩⟩, rfl⟩
    have hfront := hmark (current_leaves_eq_nil hs his (by decide) hplain)
    suffices hback :
        Accounts (t :: more) [.value (.number n.negate)] from hnext hplain ▸ hfront.append hback
    have hlexeme : ∃ text, t.lexeme = .number text n := by
      revert hnumber
      cases t.lexeme <;> simp [Lexeme.number?]
    obtain ⟨text, hlexeme⟩ := hlexeme
    rw [Accounts, tokenLeaves_cons, hlexeme]
    exact .cons (.number text (Number.magnitude_negate n)) (accounts_of_isPassedOver hover₂)

theorem minus_ends (hsub : Serves plain ctx levels fuel sub)
    (hfits : HasRoom plain ctx levels fuel 1 s)
    (his : s.tokens.is "-" = true) :
    Ends (minus sub start) s fun e s' ↦ Spans plain 1 s [] e.leaves s' := by
  refine (peek_ends hfits.sound).bind fun t s₁ ⟨h₁, hcurrent, place, hwalk, ht⟩ ↦ ?_
  have his₁ : s₁.tokens.is "-" = true := by rwa [Window.is, hcurrent]
  cases hnumber : t.lexeme.number? with
  | some n =>
    refine (advance_number_ends (h₁.sound hfits.sound) his₁ hwalk ht hnumber).bind
      fun _ s₂ h₂ ↦ .known rfl ?_
    exact (h₁.trans h₂).slower (by omega)
  | none =>
    exact (prefixed_ends hsub (hfits.after h₁) his₁ (by decide)).mono fun e s₂ h₂ ↦
      (h₁.trans h₂).slower (by omega)

theorem parenthesized_ends (hsub : Serves plain ctx levels fuel sub)
    (hfits : HasRoom plain ctx levels fuel 2 s) (his : s.tokens.is "(" = true) :
    Ends (parenthesized ctx sub) s fun e s' ↦ Spans plain 1 s [] e.leaves s' := by
  refine enterParen_ends.bind fun _ t ht ↦ ?_
  subst ht
  have hparen := hfits.inParen
  refine (advance_mark_ends hparen.sound his (by decide)).bind fun _ s₁ h₁ ↦ ?_
  refine (hsub.expression (hparen.after h₁)).bind fun inner s₂ h₂ ↦ ?_
  refine (expect_ends ((h₁.trans h₂).sound hparen.sound) (by decide)).bind fun _ s₃ h₃ ↦ .ask rfl ?_
  have hgroup := ((h₁.trans h₂).quiet h₃).leaveParen
  refine (links_ends hsub (hfits.after hgroup) collects_nil).mono fun e s₄ h₄ ↦ ?_
  exact (hgroup.trans h₄).slower (by omega)

/-! ## Operands -/

theorem is_of_lexeme_eq {lexeme : Lexeme} (h : s.tokens.current.lexeme = lexeme) :
    s.tokens.is lexeme.text = true := by
  change (s.tokens.current.lexeme.text == lexeme.text) = true
  rw [h]
  exact beq_self_eq_true _

theorem isEnd_of_lexeme_eq {t : Token} {lexeme : Lexeme} (h : t.lexeme = lexeme)
    (hkind : lexeme.kind ≠ .endOfInput) : t.isEnd = false := by
  rw [Token.isEnd, Token.kind, h]
  exact beq_eq_false_iff_ne.mpr hkind

/-- A literal becomes its constant. -/
theorem meets_constantOf {lexeme : Lexeme} (h : lexeme.isLiteral = true) :
    List.Forall₂ TokenLeaf.Meets lexeme.leaves (constantOf lexeme).leaves := by
  cases lexeme with
  | number text value => exact .cons (.number text rfl) .nil
  | str raw value => exact .cons (.text value) .nil
  | bool value => exact .cons (.bool value) .nil
  | null => exact .nil
  | _ => exact absurd h (by simp [Lexeme.isLiteral, Lexeme.kind])

theorem plainOperand_ends (hsub : Serves plain ctx levels fuel sub)
    (hinside : Inside plain ctx levels fuel s) :
    Ends (plainOperand ctx sub) s fun e s' ↦ Spans plain 1 s [] e.leaves s' := by
  have hfits := hinside.toHasRoom
  have hs := hfits.sound
  refine .ask rfl ?_
  dsimp only
  split
  · next raw parts hlexeme =>
    have hgenuine (hplain : plain) : SectionsGenuine parts := by
      have := current_isGenuine hs hplain
      rw [Token.IsGenuine, hlexeme] at this
      exact this.2
    have hend := isEnd_of_lexeme_eq hlexeme (by simp [Lexeme.kind])
    refine (advance_ends hs hend).bind fun _ s₁ hpassed ↦ ?_
    -- the leaves of the token are known when its sections are parsed
    have hinside₁ := hinside.move (hpassed.sound hs) hpassed.depths
    refine (pieces_ends hsub hinside₁ hgenuine).bind ?_
    rintro found s₂ ⟨h₂, hmeets⟩
    refine .known rfl ?_
    refine (hpassed.spans fun hplain ↦ ?_).still h₂
    rw [hlexeme]
    exact hmeets hplain
  · next name hlexeme =>
    refine (advance_ends hs (isEnd_of_lexeme_eq hlexeme (by simp [Lexeme.kind]))).bind
      fun _ s₁ hpassed ↦ ?_
    have h₁ : Spans plain 1 s [] [.name name] s₁ :=
      hpassed.spans fun _ ↦ hlexeme ▸ .cons (.name name) .nil
    have hname (hplain : plain) : '.' ∉ name.toList := by
      have := current_isGenuine hs hplain
      rw [Token.IsGenuine, hlexeme] at this
      exact this.1
    refine (named_ends hsub ((hfits.after h₁).tighten (by decide)) hname).mono fun e s₂ h₂ ↦ ?_
    exact h₁.trans h₂
  · exact lambda_ends hsub (hfits.tighten (by decide))
  · next hlexeme => exact minus_ends hsub (hfits.tighten (by decide)) (is_of_lexeme_eq hlexeme)
  · next hlexeme =>
    exact prefixed_ends hsub (hfits.tighten (by decide)) (is_of_lexeme_eq hlexeme) (by decide)
  · next hlexeme =>
    exact prefixedChange_ends hsub (hfits.tighten (by decide)) (is_of_lexeme_eq hlexeme) (by decide)
  · next hlexeme =>
    exact prefixedChange_ends hsub (hfits.tighten (by decide)) (is_of_lexeme_eq hlexeme) (by decide)
  · next hlexeme =>
    exact parenthesized_ends hsub (hfits.tighten (by decide)) (is_of_lexeme_eq hlexeme)
  · refine (array_ends hsub (hfits.tighten (by decide))).bind fun e s₁ h₁ ↦ ?_
    exact (links_ends hsub ((hfits.after h₁).tighten (by decide)) collects_nil).mono
      fun found s₂ h₂ ↦ h₁.trans h₂
  · exact map_ends hsub (hfits.tighten (by decide))
  · exact failExpected_ends
  · refine .branch (fun hliteral ↦ ?_) fun _ ↦ fail_ends (by simp)
    have hend : s.tokens.current.isEnd = false := by
      refine isEnd_of_lexeme_eq rfl fun hkind ↦ ?_
      simp [Lexeme.isLiteral, hkind] at hliteral
    refine (advance_ends hs hend).bind fun _ s₁ hpassed ↦ .ask rfl ?_
    have h₁ := hpassed.spans fun _ ↦ meets_constantOf hliteral
    exact (links_ends hsub ((hfits.after h₁).tighten (by decide)) collects_nil).mono
      fun found s₂ h₂ ↦ h₁.trans h₂

theorem operand_ends (hctx : Accounted plain ctx) (hsub : Serves plain ctx levels fuel sub)
    (hfits : HasRoom plain ctx levels fuel 0 s) :
    Ends (operand ctx sub) s fun e s' ↦ Spans plain 1 s [] e.leaves s' := by
  refine deeper_ends (Q := Expr.leaves) hfits fun t _ hinside ↦ ?_
  refine (hctx.build? hsub .expression (hinside.toHasRoom.tighten (by decide))).bind
    fun found s₁ h₁ ↦ ?_
  cases found with
  | some e => exact .pure h₁
  | none =>
    refine (plainOperand_ends hsub (hinside.move (h₁.1.sound hinside.sound) h₁.1.depths)).mono
      fun e s₂ h₂ ↦ ?_
    exact (h₁.1.trans h₂).slower (by omega)

/-! ## Expressions -/

theorem mem_reserved_of_operator {op : Operator} (h : Operator.ofSymbol? text = some op) :
    text ∈ Lexeme.reserved := by
  have hsymbol : op.symbol = text := by simpa using List.find?_some h
  rw [← hsymbol]
  rcases op with op | op | op <;> cases op <;> decide

theorem mem_reserved_of_assignOp {op : AssignOp} (h : AssignOp.ofSymbol? text = some op) :
    text ∈ Lexeme.reserved := by
  have hsymbol : op.symbol = text := by simpa using List.find?_some h
  rw [← hsymbol]
  cases op <;> decide

theorem settled_ends {found : Option α} :
    Ends (settled found) s fun a s' ↦ s' = s ∧ found = some a := by
  cases found with
  | some a => exact .pure ⟨rfl, rfl⟩
  | none => exact failExpected_ends

/-- A group that is closed has the leaves that the stacks have lost. -/
theorem closeGroup_ends {yard : Yard} (hsub : Serves plain ctx levels fuel sub)
    (hfits : HasRoom plain ctx levels fuel 1 s) (his : s.tokens.is ")" = true) :
    Ends (closeGroup ctx sub yard) s fun y s' ↦
      Spans plain 1 (s.closing 1) yard.leaves y.leaves s' := by
  have hclosing := hfits.closing 1
  refine .ask rfl ?_
  refine (advance_mark_ends hclosing.sound his (by decide)).bind fun _ s₁ h₁ ↦ ?_
  refine settled_ends.bind fun found t ⟨ht, hfound⟩ ↦ ?_
  subst ht
  obtain ⟨group, rest⟩ := found
  have hlinks : Ends (ctx.deeper (links ctx sub group [])) t fun e s₂ ↦
      Spans plain 0 t group.leaves e.leaves s₂ :=
    deeper_ends (Q := Expr.leaves) ((hclosing.after h₁).tighten (by decide)) fun u _ hinside ↦
      links_ends hsub (hinside.toHasRoom.tighten (by decide)) collects_nil
  refine hlinks.bind fun e s₂ h₂ ↦ .pure ?_
  rw [Yard.leaves_closeParen hfound, Yard.leaves_pushOperand]
  exact ((h₁.under _).trans (h₂.behind rest.leaves))

/-- Where no operator follows, the expression is complete, or is refused. -/
theorem complete_ends {t : Token} {groups : Nat} {yard : Yard} :
    Ends (do
      if opensOperand t then fail (.missingOperator t.text)
      if 0 < groups then failExpected ")"
      settled yard.finish) s fun e s' ↦
        Spans plain 0 (s.closing groups) yard.leaves e.leaves s' := by
  refine .branch (fun _ ↦ (fail_ends (Q := fun _ _ ↦ False) (by simp)).bind
    fun _ _ h ↦ h.elim) fun _ ↦ require_ends fun hzero ↦ ?_
  have hzero : groups = 0 := by omega
  subst hzero
  refine settled_ends.mono ?_
  rintro e _ ⟨rfl, he⟩
  rw [Yard.leaves_finish he]
  exact .refl

theorem expressionWithin_ends {grouped wanting : Bool} {groups : Nat} {yard : Yard}
    (hctx : Accounted plain ctx) (hsub : Serves plain ctx levels fuel sub)
    (hfits : HasRoom plain ctx levels fuel 1 s) (hrounds : s.tokens.tokensLeft < rounds)
    (hgroups : groups ≤ s.parenDepth) :
    Ends (expressionWithin ctx sub grouped rounds groups wanting yard) s fun e s' ↦
      Spans plain (if wanting then 1 else 0) (s.closing groups) yard.leaves e.leaves s' := by
  induction rounds generalizing s groups wanting yard with
  | zero => exact absurd hrounds (Nat.not_lt_zero _)
  | succ rounds ih =>
    rw [expressionWithin]
    refine .optional (fun _ ↦ skipNewLines_ends hfits.sound) (fun _ ↦ .refl) fun _ s₁ h₁ ↦ ?_
    refine (hctx.replaceTokens (h₁.sound hfits.sound)).bind fun _ s₂ h₂ ↦ .ask rfl ?_
    have hfront := h₁.quiet h₂
    have hfits₂ := hfits.after hfront
    have hs₂ := hfits₂.sound
    have hleft := hfront.left hfits.sound
    have hgroups₂ : groups ≤ s₂.parenDepth := by
      have hdepths := hfront.depths
      simp only [ParserState.depths, Prod.mk.injEq] at hdepths
      omega
    -- the rounds that are left take the tokens behind what this round took
    have goOn {base s₃ : ParserState} {groups' : Nat} {wanting' : Bool} {yard' : Yard}
        (hbase : HasRoom plain ctx levels fuel 1 base) (htokens : base.tokens = s₂.tokens)
        (hgroups' : groups' ≤ base.parenDepth) (hclosing : base.closing groups' = s₂.closing groups)
        (h : Spans plain 1 base yard.leaves yard'.leaves s₃) :
        Ends (expressionWithin ctx sub grouped rounds groups' wanting' yard') s₃ fun e s' ↦
          Spans plain (if wanting then 1 else 0) (s₂.closing groups) yard.leaves e.leaves s' := by
      have hdepths := h.depths
      simp only [ParserState.depths, Prod.mk.injEq] at hdepths
      have hleft₃ := h.left hbase.sound
      rw [htokens] at hleft₃
      refine (ih (hbase.after h) (by omega) (by omega)).mono fun e s₄ h₄ ↦ ?_
      rw [← hclosing]
      exact ((h.closing groups').trans h₄).slower (by split <;> omega)
    -- what is left to show is about the state behind the line breaks and replacements
    refine Ensures.mono (Q := fun (e : Expr) s' ↦ Spans plain (if wanting then 1 else 0)
      (s₂.closing groups) yard.leaves e.leaves s') ?_ fun e s' h ↦
      (((hfront.closing groups).under _).trans h).slower (by omega)
    refine .branch (fun hwanting ↦ .branch (fun hopen ↦ ?_) fun _ ↦ ?_) fun hwanting ↦
      .branch (fun hclose ↦ ?_) fun _ ↦ ?_
    · refine enterParen_ends.bind fun _ t ht ↦ ?_
      subst ht
      have hparen := hfits₂.inParen
      refine (advance_mark_ends hparen.sound (is_of_isSymbol hopen) (by decide)).bind
        fun _ s₃ h₃ ↦ ?_
      refine goOn hparen rfl (Nat.succ_le_succ hgroups₂) ?_ (h₃.under yard.leaves)
      rw [ParserState.closing, ParserState.closing]
      dsimp only
      rw [Nat.add_sub_add_right]
    · refine (hsub.operand hfits₂).bind fun e s₃ h₃ ↦ goOn hfits₂ rfl hgroups₂ rfl ?_
      rw [Yard.leaves_pushOperand]
      exact h₃.onto yard.leaves
    · obtain ⟨hsymbol, hpos⟩ := Bool.and_eq_true _ _ ▸ hclose
      have hpos : 0 < groups := by simpa using hpos
      refine (closeGroup_ends hsub hfits₂ (is_of_isSymbol hsymbol)).bind fun y s₃ h₃ ↦
        goOn (hfits₂.closing 1) rfl (Nat.sub_le_sub_right hgroups₂ 1) ?_ h₃
      rw [ParserState.closing_closing, Nat.add_sub_cancel' hpos]
    · have hnot : wanting = false := by simpa using hwanting
      subst hnot
      split
      · next op hop =>
        refine settled_ends.bind ?_
        rintro y _ ⟨rfl, hy⟩
        split_ifs at hop
        refine (advance_mark_ends hs₂ (beq_self_eq_true _) (mem_reserved_of_operator hop)).bind
          fun _ s₃ h₃ ↦ goOn hfits₂ rfl hgroups₂ rfl ?_
        rw [Yard.leaves_pushOperator hy]
        exact h₃.under yard.leaves
      · exact complete_ends

theorem expression_ends {grouped : Bool} (hctx : Accounted plain ctx)
    (hsub : Serves plain ctx levels fuel sub) (hfits : HasRoom plain ctx levels fuel 1 s) :
    Ends (expression ctx sub grouped) s fun e s' ↦ Spans plain 1 s [] e.leaves s' :=
  .ask rfl (expressionWithin_ends hctx hsub hfits
    (by omega) (Nat.zero_le _))

/-! ## Statements -/

theorem simpleStatement_ends (hsub : Serves plain ctx levels fuel sub)
    (hfits : HasRoom plain ctx levels fuel 2 s) :
    Ends (simpleStatement sub) s fun e s' ↦ Spans plain 1 s [] e.leaves s' := by
  refine .ask rfl ((hsub.expression hfits).bind fun target s₁ h₁ ↦ ?_)
  have hs₁ := h₁.sound hfits.sound
  refine Ensures.bind (Q := fun found t ↦ t = s₁ ∧ ∀ op, found = some op →
    s₁.tokens.current.text ∈ Lexeme.reserved) (.ask rfl (.pure ⟨rfl, fun op hop ↦ ?_⟩))
    fun found t ⟨ht, hop⟩ ↦ ?_
  · split_ifs at hop
    exact mem_reserved_of_assignOp hop
  subst ht
  cases found with
  | none => exact .pure h₁
  | some op =>
    refine .branch (fun _ ↦ .throw (by simp [ScriptError.WithinFuel, ScriptError.ofCause])) fun _ ↦
      ?_
    refine (advance_mark_ends hs₁ (beq_self_eq_true _) (hop op rfl)).bind fun _ s₂ h₂ ↦ ?_
    have hleft := h₁.quiet h₂
    refine (hsub.expression (hfits.after hleft)).bind fun value s₃ h₃ ↦ ?_
    have hboth := hleft.gain h₃
    refine Ensures.bind (Q := fun _ s₄ ↦ Still s₃ s₄) ?_ fun _ s₄ h₄ ↦ .ask rfl (.pure ?_)
    · refine .branch (fun _ ↦ ?_) fun _ ↦ .pure ⟨rfl, rfl⟩
      split
      · exact .pure ⟨rfl, rfl⟩
      · exact modifySymbols_ends
    · rw [Expr.leaves_inScope, Expr.leaves_moveTo]
      exact (hboth.still h₄).slower (by omega)

theorem declaration_ends (hsub : Serves plain ctx levels fuel sub)
    (hfits : HasRoom plain ctx levels fuel 2 s) :
    Ends (declaration sub) s fun e s' ↦ Spans plain 1 s [] e.leaves s' := by
  refine .ask rfl ((expectName_ends hfits.sound).bind fun name s₁ ⟨h₁, _⟩ ↦ ?_)
  refine modifySymbols_ends.bind fun _ s₂ h₂ ↦ .ask rfl ?_
  have hname := h₁.still h₂
  refine .branch (fun his ↦ ?_) fun _ ↦ .ask rfl (.ask rfl (.pure ?_))
  · refine (advance_mark_ends (hname.sound hfits.sound) his (by decide)).bind fun _ s₃ h₃ ↦ ?_
    have hleft := hname.quiet h₃
    refine (hsub.expression (hfits.after hleft)).bind fun value s₄ h₄ ↦
      .ask rfl (.ask rfl (.pure ?_))
    rw [Expr.leaves_inScope, Expr.leaves_moveTo]
    exact (hleft.gain h₄).slower (by omega)
  · rw [Expr.leaves_inScope, Expr.leaves_moveTo]
    exact hname

theorem declarationsWithin_ends {done : List Expr} (hsub : Serves plain ctx levels fuel sub)
    (hfits : HasRoom plain ctx levels fuel 2 s) (hrounds : s.tokens.tokensLeft < rounds) :
    Ends (declarationsWithin sub rounds done) s fun found s' ↦
      Spans plain 0 s (leavesList done.reverse) (leavesList found) s' := by
  induction rounds generalizing s done with
  | zero => exact absurd hrounds (Nat.not_lt_zero _)
  | succ rounds ih =>
    rw [declarationsWithin]
    refine (declaration_ends hsub hfits).bind fun entry s₁ h₁ ↦ ?_
    have hentry := (h₁.onto (leavesList done.reverse)).cast fun _ ↦
      (leavesList_reverse_cons entry done).symm
    refine .ask rfl (.branch (fun his ↦ ?_) fun _ ↦ .pure (hentry.slower (Nat.zero_le _)))
    refine (advance_mark_ends (hentry.sound hfits.sound) his (by decide)).bind fun _ s₂ h₂ ↦ ?_
    have hstep := hentry.quiet h₂
    have := hstep.left hfits.sound
    exact (ih (hfits.after hstep) (by omega)).mono fun _ s₃ h₃ ↦
      (hstep.trans h₃).slower (Nat.zero_le _)

theorem varStatement_ends (hsub : Serves plain ctx levels fuel sub)
    (hfits : HasRoom plain ctx levels fuel 2 s) :
    Ends (varStatement sub) s fun e s' ↦ Spans plain 1 s [] e.leaves s' := by
  refine .ask rfl ((expect_ends hfits.sound (by decide)).bind fun _ s₁ h₁ ↦ .ask rfl ?_)
  refine (declarationsWithin_ends hsub (hfits.after h₁) (by omega)).bind
    fun entries s₂ h₂ ↦ ?_
  have hentries := h₁.trans h₂
  split
  · next single =>
    refine .pure ?_
    rw [leavesList_singleton] at hentries
    rwa [Expr.leaves_moveTo]
  · exact .known rfl hentries

theorem returnStatement_ends (hsub : Serves plain ctx levels fuel sub)
    (hfits : HasRoom plain ctx levels fuel 2 s) :
    Ends (returnStatement sub) s fun e s' ↦ Spans plain 1 s [] e.leaves s' := by
  refine .ask rfl ((expect_ends hfits.sound (by decide)).bind fun _ s₁ h₁ ↦ .ask rfl ?_)
  refine .branch (fun _ ↦ .known rfl h₁) fun _ ↦ ?_
  refine (hsub.expression (hfits.after h₁)).bind fun value s₂ h₂ ↦ .known rfl ?_
  exact (h₁.trans h₂).slower (by omega)

theorem throwStatement_ends (hsub : Serves plain ctx levels fuel sub)
    (hfits : HasRoom plain ctx levels fuel 2 s) (his : s.tokens.is "throw" = true) :
    Ends (throwStatement sub) s fun e s' ↦ Spans plain 1 s [] e.leaves s' := by
  refine .ask rfl ((advance_mark_ends hfits.sound his (by decide)).bind fun _ s₁ h₁ ↦ ?_)
  refine (hsub.expression (hfits.after h₁)).bind fun value s₂ h₂ ↦ .known rfl ?_
  exact (h₁.trans h₂).slower (by omega)

theorem wordStatement_ends {form : Form} (hs : Sound plain s.tokens)
    (his : s.tokens.is text = true) (hreserved : text ∈ Lexeme.reserved)
    (hform : form.leaves = []) :
    Ends (wordStatement form) s fun e s' ↦ Spans plain 1 s [] e.leaves s' := by
  refine .ask rfl ((advance_mark_ends hs his hreserved).bind fun _ s₁ h₁ ↦ .known rfl ?_)
  exact h₁.cast fun _ ↦ hform.symm

/-! ## Branches and loops -/

theorem blockOrStatement_ends (hsub : Serves plain ctx levels fuel sub)
    (hfits : HasRoom plain ctx levels fuel 0 s) :
    Ends (blockOrStatement ctx sub) s fun e s' ↦ Spans plain 1 s [] e.leaves s' := by
  refine (skipNewLines_ends hfits.sound).bind fun _ s₁ h₁ ↦
    .ask rfl (.branch (fun _ ↦ ?_) fun _ ↦ ?_)
  · exact (blockWith_ends hsub (hfits.after h₁)).mono fun e s₂ h₂ ↦ (h₁.trans h₂).slower (by omega)
  · refine .ask rfl (enterBlock_ends.bind fun _ t ⟨ht, hdepth⟩ ↦ ?_)
    subst ht
    refine pushScope_ends.bind fun scope s₂ h₂ ↦ ?_
    have hblock := (hfits.after h₁).inBlock hdepth
    have hpushed : Spans plain 0 _ [] [] s₂ := Spans.refl.still h₂
    refine (hsub.statement ((hblock.after hpushed).tighten (by decide))).bind fun found s₃ h₃ ↦ ?_
    cases found with
    | none => exact failExpected_ends
    | some statement =>
      refine popScope_ends.bind fun _ s₄ h₄ ↦ .ask rfl (.pure ?_)
      have hbody := ((hpushed.trans h₃).still h₄).leaveBlock
      refine ((h₁.trans hbody).slower (by omega)).cast fun _ ↦ ?_
      exact (leavesList_singleton statement).symm

theorem guarded_ends (hsub : Serves plain ctx levels fuel sub)
    (hfits : HasRoom plain ctx levels fuel 0 s) :
    Ends (guarded ctx sub) s fun e s' ↦ Spans plain 1 s [] e.leaves s' := by
  refine .ask rfl (.branch (fun his ↦ ?_) fun _ ↦ ?_)
  · refine (advance_mark_ends hfits.sound his (by decide)).bind fun _ s₁ h₁ ↦ ?_
    exact (blockOrStatement_ends hsub (hfits.after h₁)).mono fun e s₂ h₂ ↦
      (h₁.trans h₂).slower (by omega)
  · refine (continuesWith_ends hfits.sound).bind fun found s₁ ⟨h₁, _⟩ ↦ .branch (fun _ ↦ ?_) fun _ ↦
      failExpected_ends
    exact (blockWith_ends hsub (hfits.after h₁)).mono fun e s₂ h₂ ↦ (h₁.trans h₂).slower (by omega)

theorem alternative_ends (hsub : Serves plain ctx levels fuel sub)
    (hfits : HasRoom plain ctx levels fuel 0 s) :
    Ends (alternative ctx sub) s fun e s' ↦ Spans plain 1 s [] e.leaves s' := by
  refine .ask rfl (.branch (fun _ ↦ ?_) fun _ ↦ blockOrStatement_ends hsub hfits)
  refine enterBlock_ends.bind fun _ t ⟨ht, hdepth⟩ ↦ ?_
  subst ht
  have hblock := hfits.inBlock hdepth
  refine (hsub.conditional (hblock.tighten (by decide))).bind fun chained s₁ h₁ ↦
    .ask rfl (.pure ?_)
  exact h₁.leaveBlock

theorem conditional_ends (hsub : Serves plain ctx levels fuel sub)
    (hfits : HasRoom plain ctx levels fuel 2 s) :
    Ends (conditional ctx sub) s fun e s' ↦ Spans plain 1 s [] e.leaves s' := by
  refine .ask rfl ((expect_ends hfits.sound (by decide)).bind fun _ s₁ h₁ ↦ ?_)
  refine (hsub.expression (hfits.after h₁)).bind fun condition s₂ h₂ ↦ ?_
  have hcondition := h₁.gain h₂
  refine (guarded_ends hsub ((hfits.after hcondition).tighten (by decide))).bind
    fun thenBranch s₃ h₃ ↦ ?_
  have hthen := hcondition.gain h₃
  refine (continuesWith_ends (hthen.sound hfits.sound)).bind fun found s₄ ⟨h₄, hfound⟩ ↦
    .branch (fun helse ↦ ?_) fun _ ↦
      .known rfl (((hthen.quiet h₄).slower (by omega)).cast fun _ ↦ ?_)
  · have hfour := hthen.quiet h₄
    refine (advance_mark_ends (hfour.sound hfits.sound) (hfound.trans helse) (by decide)).bind
      fun _ s₅ h₅ ↦ ?_
    have hword := hfour.quiet h₅
    refine (alternative_ends hsub ((hfits.after hword).tighten (by decide))).bind
      fun elseBranch s₆ h₆ ↦ .known rfl ?_
    exact (hword.gain h₆).slower (by omega)
  · exact (List.append_nil _).symm

theorem whileStatement_ends (hsub : Serves plain ctx levels fuel sub)
    (hfits : HasRoom plain ctx levels fuel 2 s) :
    Ends (whileStatement ctx sub) s fun e s' ↦ Spans plain 1 s [] e.leaves s' := by
  refine .ask rfl ((expect_ends hfits.sound (by decide)).bind fun _ s₁ h₁ ↦ ?_)
  refine (hsub.expression (hfits.after h₁)).bind fun condition s₂ h₂ ↦ ?_
  have hcondition := h₁.gain h₂
  refine (guarded_ends hsub ((hfits.after hcondition).tighten (by decide))).bind
    fun body s₃ h₃ ↦ .known rfl ?_
  exact (hcondition.gain h₃).slower (by omega)

theorem isForEach_ends {parens : Bool} (hs : Sound plain s.tokens) :
    Ends (isForEach parens) s fun _ s' ↦
      Spans plain 0 s [] [] s' ∧ s'.tokens.current = s.tokens.current := by
  refine (peek_ends hs).bind fun t s₁ ⟨h₁, hcurrent₁, _⟩ ↦ .branch (fun _ ↦ ?_) fun _ ↦
    .pure ⟨h₁, hcurrent₁⟩
  exact (peek_ends (h₁.sound hs)).bind fun u s₂ ⟨h₂, hcurrent₂, _⟩ ↦
    .pure ⟨h₁.quiet h₂, hcurrent₂.trans hcurrent₁⟩

theorem forEachStatement_ends {parens : Bool} (hsub : Serves plain ctx levels fuel sub)
    (hfits : HasRoom plain ctx levels fuel 2 s) (his : parens = true → s.tokens.is "(" = true) :
    Ends (forEachStatement ctx sub start parens) s fun e s' ↦ Spans plain 1 s [] e.leaves s' := by
  have hs := hfits.sound
  rw [forEachStatement]
  refine .optional (Q := fun _ s' ↦ Spans plain 0 s [] [] s') (fun hparens ↦ ?_) (fun _ ↦ .refl)
    fun _ s₁ h₁ ↦ ?_
  · exact (advance_mark_ends hs (his hparens) (by decide)).mono fun _ _ h ↦ h.slower (Nat.zero_le _)
  refine (expectName_ends (h₁.sound hs)).bind fun name s₂ ⟨h₂, _⟩ ↦ ?_
  have hname := h₁.trans h₂
  refine (expect_ends (hname.sound hs) (by decide)).bind fun _ s₃ h₃ ↦ ?_
  have hword := hname.quiet h₃
  refine (hsub.expression (hfits.after hword)).bind fun source s₄ h₄ ↦ ?_
  have hsource := hword.gain h₄
  refine .optional (Q := fun _ s' ↦ Spans plain 0 s₄ [] [] s') (fun _ ↦ ?_) (fun _ ↦ .refl)
    fun _ s₅ h₅ ↦ ?_
  · exact (expect_ends (hsource.sound hs) (by decide)).mono fun _ _ h ↦ h.slower (Nat.zero_le _)
  have hclosed := hsource.quiet h₅
  refine (blockWith_ends hsub ((hfits.after hclosed).tighten (by decide))).bind
    fun body s₆ h₆ ↦ .known rfl ?_
  exact (hclosed.gain h₆).slower (by omega)

theorem countingLoop_ends (hsub : Serves plain ctx levels fuel sub)
    (hfits : HasRoom plain ctx levels fuel 2 s) :
    Ends (countingLoop ctx sub start) s fun e s' ↦ Spans plain 1 s [] e.leaves s' := by
  have hs := hfits.sound
  refine (expect_ends hs (by decide)).bind fun _ s₁ h₁ ↦ pushScope_ends.bind fun scope s₂ h₂ ↦ ?_
  have hopen := h₁.still h₂
  -- the rest does not depend on the kind of the initial statement
  have hrest (initial : Expr) (s₃ : ParserState) (h₃ : Spans plain 1 s₂ [] initial.leaves s₃) :
      Ends (do
        expect ";" true
        let condition ← sub (.expression false)
        expect ";" true
        let increment ← simpleStatement sub
        expect ")" false
        let body ← block ctx sub
        popScope
        return Expr.mk (.forLoop initial condition increment body) start scope) s₃
        fun e s' ↦ Spans plain 1 s [] e.leaves s' := by
    have hinitial := hopen.trans h₃
    refine (expect_ends (hinitial.sound hs) (by decide)).bind fun _ s₄ h₄ ↦ ?_
    have hfirst := hinitial.quiet h₄
    refine (hsub.expression (hfits.after hfirst)).bind fun condition s₅ h₅ ↦ ?_
    have hcondition := hfirst.gain h₅
    refine (expect_ends (hcondition.sound hs) (by decide)).bind fun _ s₆ h₆ ↦ ?_
    have hsecond := hcondition.quiet h₆
    refine (simpleStatement_ends hsub (hfits.after hsecond)).bind fun increment s₇ h₇ ↦ ?_
    have hincrement := hsecond.gain h₇
    refine (expect_ends (hincrement.sound hs) (by decide)).bind fun _ s₈ h₈ ↦ ?_
    have hclosed := hincrement.quiet h₈
    refine (blockWith_ends hsub ((hfits.after hclosed).tighten (by decide))).bind
      fun body s₉ h₉ ↦ ?_
    refine popScope_ends.bind fun _ s' h' ↦ .pure ?_
    exact ((hclosed.gain h₉).still h').slower (by omega)
  refine .ask rfl (.branch (fun _ ↦ ?_) fun _ ↦ ?_)
  · exact (varStatement_ends hsub (hfits.after hopen)).bind hrest
  · exact (simpleStatement_ends hsub (hfits.after hopen)).bind hrest

theorem forStatement_ends (hsub : Serves plain ctx levels fuel sub)
    (hfits : HasRoom plain ctx levels fuel 2 s) :
    Ends (forStatement ctx sub) s fun e s' ↦ Spans plain 1 s [] e.leaves s' := by
  refine .ask rfl ((expect_ends hfits.sound (by decide)).bind fun _ s₁ h₁ ↦ .ask rfl ?_)
  refine (isForEach_ends (h₁.sound hfits.sound)).bind fun found s₂ ⟨h₂, hcurrent⟩ ↦ ?_
  have hword := h₁.quiet h₂
  refine .branch (fun _ ↦ ?_) fun _ ↦ ?_
  · refine (forEachStatement_ends hsub (hfits.after hword) fun hparens ↦ ?_).mono fun e s₃ h₃ ↦
      (hword.trans h₃).slower (by omega)
    rwa [Window.is, hcurrent]
  · exact (countingLoop_ends hsub (hfits.after hword)).mono fun e s₃ h₃ ↦
      (hword.trans h₃).slower (by omega)

theorem tryStatement_ends (hsub : Serves plain ctx levels fuel sub)
    (hfits : HasRoom plain ctx levels fuel 2 s) :
    Ends (tryStatement ctx sub) s fun e s' ↦ Spans plain 1 s [] e.leaves s' := by
  have hs := hfits.sound
  refine .ask rfl ((expect_ends hs (by decide)).bind fun _ s₁ h₁ ↦ ?_)
  refine (blockWith_ends hsub ((hfits.after h₁).tighten (by decide))).bind fun body s₂ h₂ ↦ ?_
  have hbody := h₁.gain h₂
  refine (continuesWith_ends (hbody.sound hs)).bind fun found s₃ ⟨h₃, hfound⟩ ↦
    require_ends fun hcatch ↦ ?_
  have hcontinued := hbody.quiet h₃
  have his : s₃.tokens.is "catch" = true := by simpa [hfound] using hcatch
  refine (advance_mark_ends (hcontinued.sound hs) his (by decide)).bind fun _ s₄ h₄ ↦ .ask rfl ?_
  have hword := hcontinued.quiet h₄
  refine .optional (Q := fun _ s' ↦ Spans plain 0 s₄ [] [] s') (fun hparen ↦ ?_) (fun _ ↦ .refl)
    fun _ s₅ h₅ ↦ ?_
  · exact (advance_mark_ends (hword.sound hs) hparen (by decide)).mono
      fun _ _ h ↦ h.slower (Nat.zero_le _)
  have hopen := hword.quiet h₅
  refine (expectName_ends (hopen.sound hs)).bind fun name s₆ ⟨h₆, _⟩ ↦ ?_
  have hname := hopen.gain h₆
  refine .optional (Q := fun _ s' ↦ Spans plain 0 s₆ [] [] s') (fun _ ↦ ?_) (fun _ ↦ .refl)
    fun _ s₇ h₇ ↦ ?_
  · exact (expect_ends (hname.sound hs) (by decide)).mono fun _ _ h ↦ h.slower (Nat.zero_le _)
  have hclosed := hname.quiet h₇
  refine (blockWith_ends hsub ((hfits.after hclosed).tighten (by decide))).bind
    fun handler s₈ h₈ ↦ .known rfl ?_
  refine ((hclosed.gain h₈).slower (by omega)).cast fun _ ↦ ?_
  exact List.append_assoc _ _ _

/-! ## Functions -/

theorem aliasesWithin_ends {done : List String} (hs : Sound plain s.tokens)
    (hrounds : s.tokens.tokensLeft < rounds) :
    Ends (aliasesWithin ctx rounds done) s fun found s' ↦
      Spans plain 0 s (done.reverse.map .name) (found.map .name) s' := by
  induction rounds generalizing s done with
  | zero => exact absurd hrounds (Nat.not_lt_zero _)
  | succ rounds ih =>
    rw [aliasesWithin]
    refine .ask rfl (.branch (fun his ↦ ?_) fun _ ↦ .pure .refl)
    refine (advance_mark_ends hs his (by decide)).bind fun _ s₁ h₁ ↦ ?_
    refine (expectName_ends (h₁.sound hs)).bind fun name s₂ ⟨h₂, _⟩ ↦ ?_
    have hstep := ((h₁.under (done.reverse.map .name)).gain h₂).cast fun _ ↦
      (names_reverse_cons name done).symm
    refine .branch (fun _ ↦ (fail_ends (Q := fun _ _ ↦ False) (by simp)).bind fun _ _ h ↦ h.elim)
      fun _ ↦ ?_
    have := hstep.left hs
    exact (ih (hstep.sound hs) (by omega)).mono fun found s₃ h₃ ↦
      (hstep.trans h₃).slower (Nat.zero_le _)

theorem functionStatement_ends (hsub : Serves plain ctx levels fuel sub)
    (hfits : HasRoom plain ctx levels fuel 2 s) :
    Ends (functionStatement ctx sub) s fun e s' ↦ Spans plain 1 s [] e.leaves s' := by
  have hs := hfits.sound
  refine .ask rfl ((expect_ends hs (by decide)).bind fun _ s₁ h₁ ↦ ?_)
  refine (expectName_ends (h₁.sound hs)).bind ?_
  rintro name s₂ ⟨h₂, -⟩
  refine .ask rfl ?_
  have hname := h₁.trans h₂
  refine .optional (Q := fun _ s' ↦ Spans plain 0 s₂ [] [] s') (fun hstar ↦ ?_) (fun _ ↦ .refl)
    fun _ s₃ h₃ ↦ .ask rfl ?_
  · exact (advance_mark_ends (hname.sound hs) hstar (by decide)).mono
      fun _ _ h ↦ h.slower (Nat.zero_le _)
  have hstar := hname.quiet h₃
  refine (aliasesWithin_ends (hstar.sound hs) (by omega)).bind
    fun aliases s₄ h₄ ↦ .ask rfl ?_
  have haliases := hstar.gain h₄
  -- behind the parameters, of which there may be none, comes the body
  have hbody (names : List String) (s₅ : ParserState)
      (h₅ : Spans plain 1 s [] (.name name :: (aliases ++ names).map .name) s₅) :
      Ends (do
        modifySymbols fun t ↦ t.defineFunction ⟨name, names, aliases, s₂.tokens.is "*"⟩
        let found ← statementsInScope ctx sub .function names
        let decl : FunctionDecl :=
          .mk ⟨name, names, aliases, s₂.tokens.is "*"⟩ found.1 found.2 s.tokens.position
        modifySymbols fun t ↦ t.attachDecl name decl
        return (Expr.function decl).inScope (← scope)) s₅ fun e s' ↦
          Spans plain 1 s [] e.leaves s' := by
    refine modifySymbols_ends.bind fun _ s₆ h₆ ↦ ?_
    have hnames := h₅.still h₆
    refine (statementsInScope_ends hsub ((hfits.after hnames).tighten (by decide))).bind
      fun found s₇ h₇ ↦ modifySymbols_ends.bind fun _ s₈ h₈ ↦ .ask rfl (.pure ?_)
    exact ((hnames.gain h₇).still h₈).slower (by omega)
  refine .branch (fun _ ↦ ?_) fun _ ↦ ?_
  · refine (params_ends (haliases.sound hs)).bind fun names s₅ h₅ ↦ hbody names s₅ ?_
    refine ((haliases.gain h₅).slower (by omega)).cast fun _ ↦ ?_
    rw [List.map_append]
    rfl
  · refine .ask rfl (hbody [] s₄ ((haliases.slower (by omega)).cast fun _ ↦ ?_))
    rw [List.append_nil]
    rfl

/-! ## All statements -/

theorem ended_ends {p : Parse Expr} (hs : Sound plain s.tokens)
    (hp : Ends p s fun e s' ↦ Spans plain 1 s [] e.leaves s') :
    Ends (ended p) s (IsStatement plain s) := by
  refine hp.bind fun e s₁ h₁ ↦ (endStatement_ends (h₁.sound hs)).bind fun _ s₂ h₂ ↦ .pure ?_
  exact h₁.quiet h₂

theorem plainStatement_ends (hsub : Serves plain ctx levels fuel sub)
    (hfits : HasRoom plain ctx levels fuel 2 s) :
    Ends (plainStatement ctx sub) s (IsStatement plain s) := by
  have hs := hfits.sound
  refine .ask rfl ?_
  split
  · exact (conditional_ends hsub hfits).bind fun e s₁ h₁ ↦ .pure h₁
  · exact (whileStatement_ends hsub hfits).bind fun e s₁ h₁ ↦ .pure h₁
  · exact (forStatement_ends hsub hfits).bind fun e s₁ h₁ ↦ .pure h₁
  · exact (tryStatement_ends hsub hfits).bind fun e s₁ h₁ ↦ .pure h₁
  · refine (peek_ends hs).bind fun t s₁ ⟨h₁, _⟩ ↦ .branch (fun _ ↦ ?_) fun _ ↦ ?_
    · exact (functionStatement_ends hsub (hfits.after h₁)).bind fun e s₂ h₂ ↦
        .pure ((h₁.trans h₂).slower (by omega))
    · refine (ended_ends (h₁.sound hs) (simpleStatement_ends hsub (hfits.after h₁))).mono
        fun found s₂ h₂ ↦ ?_
      cases found with
      | none => exact ⟨h₁.quiet h₂.1, h₂.2⟩
      | some e => exact (h₁.trans h₂).slower (by omega)
  · exact (blockWith_ends hsub (hfits.tighten (by decide))).bind fun e s₁ h₁ ↦ .pure h₁
  · exact ended_ends hs (varStatement_ends hsub hfits)
  · exact ended_ends hs (returnStatement_ends hsub hfits)
  · next hlexeme =>
    exact ended_ends hs (throwStatement_ends hsub hfits (is_of_lexeme_eq hlexeme))
  · next hlexeme =>
    exact ended_ends hs (wordStatement_ends hs (is_of_lexeme_eq hlexeme) (by decide) rfl)
  · next hlexeme =>
    exact ended_ends hs (wordStatement_ends hs (is_of_lexeme_eq hlexeme) (by decide) rfl)
  · exact fail_ends (by simp)
  · exact ended_ends hs (simpleStatement_ends hsub hfits)

theorem statement_ends (hctx : Accounted plain ctx) (hsub : Serves plain ctx levels fuel sub)
    (hfits : HasRoom plain ctx levels fuel 2 s) :
    Ends (statement ctx sub) s (IsStatement plain s) := by
  refine (passSeparators_ends hfits.sound).bind fun _ s₁ h₁ ↦ .ask rfl ?_
  refine .branch (fun hended ↦ .pure ⟨h₁, hended⟩) fun _ ↦ ?_
  refine (hctx.replaceTokens (h₁.sound hfits.sound)).bind fun _ s₂ h₂ ↦ ?_
  have hfront := h₁.quiet h₂
  -- what is passed before the statement has no leaves
  have hfound {found : Option Expr} {s₃ s₄ : ParserState} (h₃ : Spans plain 0 s [] [] s₃)
      (h₄ : IsStatement plain s₃ found s₄) : IsStatement plain s found s₄ := by
    cases found with
    | none => exact ⟨h₃.quiet h₄.1, h₄.2⟩
    | some e => exact (h₃.trans h₄).slower (by omega)
  refine (hctx.build? hsub .statement (hfits.after hfront)).bind fun found s₃ h₃ ↦ ?_
  cases found with
  | some e =>
    refine (Ensures.bind (Q := fun e' t ↦ e' = e ∧ t = s₃)
      (.pure ⟨rfl, rfl⟩) fun e' t ⟨he, ht⟩ ↦ ?_)
    subst he ht
    refine (endStatement_ends ((hfront.trans h₃).sound hfits.sound)).bind fun _ s₄ h₄ ↦ .pure ?_
    exact hfound hfront (h₃.quiet h₄)
  | none =>
    have hnone := hfront.quiet h₃.1
    exact (plainStatement_ends hsub (hfits.after hnone)).mono fun found s₄ h₄ ↦ hfound hnone h₄

/-! ## Embedded sections -/

/-- If a window on a list has come to the end, the tokens passed account for the list. -/
theorem accounts_ofTokens {list read : List Token} {lookahead : Nat} {w : Window Lexer}
    (hplain : plain)
    (hclosed : Closed list) (hgenuine : TokensGenuine list)
    (hleads : Leads plain (.ofTokens list lookahead) read w) (hended : w.isEnded = true)
    (haccounts : Accounts read leaves) : Accounts list leaves := by
  have hsound : Sound plain (.ofTokens list lookahead) :=
    Window.sound_ofTokens list lookahead fun _ ↦ hgenuine
  obtain ⟨hahead, -⟩ := hleads.ahead_eq hplain rfl
  obtain ⟨rest, hcons⟩ := (hleads.sound hsound).exists_cons
  rw [Window.ahead_ofTokens, Window.terminated_of_closed hclosed, hcons] at hahead
  -- the end that is current is the last token, and has no leaves
  have hrest : rest = [] := by
    have hsplit : Closed (read ++ w.current :: rest) := hahead ▸ Window.closed_dropWhile hclosed
    rcases hsplit.append_cases with ⟨-, hnil⟩ | ⟨-, hback⟩
    · simp at hnil
    · rcases closed_cons_iff.mp hback with ⟨-, hnil⟩ | ⟨hnot, -⟩
      · exact hnil
      · exact absurd (hnot.symm.trans hended) (by simp)
  have hlast : w.current.lexeme.leaves = [] := by
    have hkind : w.current.lexeme.kind = .endOfInput := eq_of_beq hended
    revert hkind
    cases w.current.lexeme <;> simp [Lexeme.kind, Lexeme.leaves]
  have hover : Accounts (list.takeWhile (Window.isPassedOver false)) [] :=
    accounts_of_isPassedOver fun t ht ↦ List.all_eq_true.mp List.all_takeWhile t ht
  have hall := hover.append (haccounts.append (accounts_nil.cons_of_leaves_eq_nil hlast))
  rw [hrest] at hahead
  rwa [List.append_nil, List.nil_append, ← hahead, List.takeWhile_append_dropWhile] at hall

theorem embeddedWith_ends {list : List Token} {subs : Nat → Subparser} {fuels : Nat → Nat}
    (hsubs : ∀ n, Serves plain ctx levels (fuels n) (subs n)) (hfuels : ∀ n, fuel ≤ fuels n)
    (hinside : Inside plain ctx (levels + 1) (fuel + 1) s)
    (hlist : plain → Closed list ∧ TokensGenuine list) :
    Ends (embeddedWith subs list) s fun e s' ↦
      s'.tokens = s.tokens ∧ s'.depths = s.depths ∧ (plain → Accounts list e.leaves) := by
  have hsound := Window.sound_ofTokens list s.tokens.lookahead
    fun hplain ↦ (hlist hplain).2
  have hfits :
      HasRoom plain ctx levels fuel 2 { s with tokens := .ofTokens list s.tokens.lookahead } := by
    have hroom := hinside.room
    have hinner := hinside.inner
    refine ⟨hsound, ?_, ?_⟩
    all_goals
      dsimp only
      omega
  refine Ensures.mapState (Q := fun e s' ↦ Spans plain 1
    { s with tokens := .ofTokens list s.tokens.lookahead } [] e.leaves s' ∧
      s'.tokens.isEnded = true) (aside_run list _) ?_ fun e s' ⟨hspans, hended⟩ ↦
      ⟨rfl, hspans.depths, fun hplain ↦ ?_⟩
  · have hroom (n : Nat) : HasRoom plain ctx levels (fuels n) 2
        { s with tokens := .ofTokens list s.tokens.lookahead } :=
      ⟨hfits.sound, Nat.le_trans hfits.room (hfuels n), hfits.reach⟩
    refine .ask rfl (((hsubs _).expression (hroom _)).bind fun e s₁ h₁ ↦ .ask rfl ?_)
    exact require_ends fun hended ↦ .pure ⟨h₁, by simpa using hended⟩
  · obtain ⟨read, hleads, -, haccounts⟩ := hspans.leads
    obtain ⟨gained, hgained, heq⟩ := haccounts hplain
    rw [List.nil_append] at heq
    obtain ⟨hclosed, hgenuine⟩ := hlist hplain
    exact accounts_ofTokens hplain hclosed hgenuine hleads hended (heq ▸ hgained)

/-! ## The parser -/

theorem serves_runWith {inner : (fuel : Nat) → List Token → Parse Expr} (hctx : Accounted plain ctx)
    (hinner : ∀ {fuel : Nat} {s : ParserState} {list : List Token},
      Inside plain ctx levels (fuel + 1) s → (plain → Closed list ∧ TokensGenuine list) →
      Ends (inner fuel list) s fun e s' ↦
        s'.tokens = s.tokens ∧ s'.depths = s.depths ∧ (plain → Accounts list e.leaves))
    (fuel : Nat) : Serves plain ctx levels fuel (runWith ctx inner fuel) := by
  induction fuel with
  | zero =>
    -- no goal fits into no fuel
    have hnone {slack : Nat} {s : ParserState} (h : HasRoom plain ctx levels 0 (slack + 1) s) :
        False := by
      have := h.room
      omega
    exact ⟨fun h ↦ (hnone h).elim, fun h ↦ (hnone h).elim, fun h ↦ (hnone h).elim,
      fun h ↦ (hnone h).elim, fun h _ ↦ (hnone h.toHasRoom).elim⟩
  | succ fuel ih =>
    exact ⟨fun h ↦ statement_ends hctx ih h.pred, fun h ↦ conditional_ends ih h.pred,
      fun h ↦ expression_ends hctx ih h.pred, fun h ↦ operand_ends hctx ih h.pred,
      fun h hlist ↦ hinner h hlist⟩

/-- The parser serves every goal within the bounds on nesting. -/
theorem serves_run (hctx : Accounted plain ctx) (levels fuel : Nat) :
    Serves plain ctx levels fuel (run ctx levels fuel) := by
  induction levels generalizing fuel with
  | zero =>
    refine serves_runWith hctx (fun h _ ↦ ?_) fuel
    -- an operand within its bound is less deep than the sections allowed
    have hdeep := h.deep
    have hinner := h.inner
    omega
  | succ levels ih =>
    refine serves_runWith hctx (fun h hlist ↦ ?_) fuel
    exact embeddedWith_ends (fun _ ↦ ih _) (fun _ ↦ Nat.le_add_right _ _) h hlist

theorem programWithin_ends {done : List Expr} (hsub : Serves plain ctx levels fuel sub)
    (hfits : HasRoom plain ctx levels fuel 3 s) (hrounds : s.tokens.tokensLeft < rounds) :
    Ends (programWithin sub rounds done) s fun found s' ↦
      Spans plain 0 s (leavesList done.reverse) (leavesList found) s' ∧
        s'.tokens.isEnded = true := by
  induction rounds generalizing s done with
  | zero => exact absurd hrounds (Nat.not_lt_zero _)
  | succ rounds ih =>
    rw [programWithin]
    refine .ask rfl ((hsub.statement hfits).bind fun found s₁ h₁ ↦ ?_)
    cases found with
    | none => exact .pure ⟨h₁.1.under _, h₁.2⟩
    | some statement =>
      refine requireProgress_ends.bind fun _ s₂ h₂ ↦ ?_
      subst h₂
      have hstep := (h₁.onto (leavesList done.reverse)).cast fun _ ↦
        (leavesList_reverse_cons statement done).symm
      have := hstep.left hfits.sound
      exact (ih (hfits.after hstep) (by omega)).mono fun found s₃ ⟨h₃, hended⟩ ↦
        ⟨(hstep.trans h₃).slower (Nat.zero_le _), hended⟩

/-- **Every program is accounted for.** The parser does not run out of fuel, and if it succeeds, it
has come to the end of the tokens, everything that was opened is closed, and what was passed has the
leaves of the statements. -/
theorem program_ends (hctx : Accounted plain ctx) (hs : Sound plain s.tokens) :
    Ends (program ctx) s fun found s' ↦
      Spans plain 0 s [] (leavesList found) s' ∧ s'.tokens.isEnded = true := by
  refine .ask rfl (.ask rfl ?_)
  refine programWithin_ends (serves_run hctx _ _) ⟨hs, ?_, ?_⟩ (by omega)
  · rw [depth]
    omega
  · rw [sectionLevels]
    omega

/-! ## Without extensions -/

theorem accounted_of_entries (hctx : ctx.registry.entries = []) : Accounted plain ctx := by
  refine ⟨fun _ ↦ .known (replaceTokens_run hctx) .refl, fun _ kind _ _ ↦ ?_⟩
  exact .known (build?_run hctx _ kind) ⟨.refl, rfl⟩

end Parse

end ScriptFront
