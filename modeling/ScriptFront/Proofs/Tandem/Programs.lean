import ScriptFront.Proofs.Lexer.Genuine
import ScriptFront.Proofs.Recursion
import ScriptFront.Proofs.Tandem.Statements

/-!
# Programs in tandem

Two parsers are in tandem for every goal, however many levels and however much fuel they have. This
is the induction over the whole grammar.

When the first parser comes to its end, it has parsed all statements of its list, and the second
parser stands between two statements, at the tail. What the second parser still does there may be
compared with another first parser, whose list goes with the tail: `Parse.program_goes_on` is used
once for each of two programs, and then the second parser is at its end too. So the program of two
lists that are joined is one program after the other.
-/

namespace ScriptFront.Parse

open Window (isNewLine)

variable {α : Type} {R : Pairing} {tail l : List Token} {ctx : ParseContext}
    {sub sub₁ sub₂ : Subparser}
  {base s s' t : ParserState} {levels fuel : Nat}

/-! ## The whole grammar -/

theorem embeddedWith_follows {sub₁ sub₂ : Nat → Subparser} (hsub : ∀ m n, Tandem (sub₁ m) (sub₂ n))
    {list list' : List Token} (hclosed : Closed list)
    (hlists : List.Forall₂ Token.Similar list list')
    (R : Pairing) :
    Follows R (embeddedWith sub₁ list) (embeddedWith sub₂ list') Expr.Alike fun _ ↦ R := by
  obtain ⟨e, he, hjoins⟩ :=
    exists_joins_of_forall₂ (forall₂_filter hlists) (Window.closed_filter hclosed)
  have htail := isTailOfTokens_singleton he
  refine .aside (P := fun _ ↦ Joins [e]) hclosed (forall₂_closed hlists hclosed) hjoins
    (.tokens_bind fun w w' ↦ ?_)
  refine ((hsub _ _).expression htail).bind fun u u' hu ↦
    (Follows.isEnded he).bind fun ended _ hended ↦ ?_
  subst hended
  exact .require Orderly.fails_failExpected id fun _ ↦ .pure hu fun _ _ ↦ id

theorem tandem_runWith (hctx : ctx.registry.entries = [])
    {inner₁ inner₂ : Nat → List Token → Parse Expr}
    (hinner : ∀ m n {list list' : List Token}, Closed list → List.Forall₂ Token.Similar list list' →
      ∀ R : Pairing, Follows R (inner₁ m list) (inner₂ n list') Expr.Alike fun _ ↦ R) (m n : Nat) :
    Tandem (runWith ctx inner₁ m) (runWith ctx inner₂ n) := by
  have hfuel {α : Type} : Orderly.Fails (failFuel : Parse α) := Orderly.fails_failFuel
  induction m generalizing n with
  | zero =>
    have hfails {β : Type} {k : Expr → Parse β} : Orderly.Fails (failFuel >>= k) := hfuel
    exact ⟨.of_fails hfuel, fun _ ↦ .of_fails hfuel, .of_fails hfuel, fun _ ↦ .of_fails hfuel,
      fun _ ↦ .of_fails hfuel, fun _ ↦ .of_fails hfails, fun _ ↦ .of_fails hfuel, fun _ ↦
        .of_fails hfuel,
      fun _ _ _ ↦ .of_fails hfuel⟩
  | succ m ih =>
    refine ⟨operand_dies hctx, expression_dies hctx (ih 0).operand_dies, statement_dies,
      fun htail ↦ ?_,
      fun htail ↦ ?_, fun htail ↦ ?_, fun htail ↦ ?_, fun htail ↦ ?_, fun hclosed hlists R ↦ ?_⟩
    all_goals cases n with
      | zero => exact .short
      | succ n => ?_
    · exact operand_follows htail (ih n) hctx
    · exact expression_follows htail (ih n) hctx
    · exact group_follows htail (ih n) hctx
    · exact statement_follows (ih n) htail hctx
    · exact conditional_follows (ih n) htail
    · exact hinner m n hclosed hlists R

/-- **In step over the whole grammar.** -/
theorem tandem_run (hctx : ctx.registry.entries = []) (levels₁ levels₂ m n : Nat) :
    Tandem (run ctx levels₁ m) (run ctx levels₂ n) := by
  induction levels₁ generalizing levels₂ m n with
  | zero =>
    cases levels₂ <;>
      exact tandem_runWith hctx (fun _ _ _ _ _ _ _ ↦ .of_fails Orderly.fails_failFuel) m n
  | succ levels₁ ih =>
    cases levels₂ with
    | zero => exact tandem_runWith hctx (fun _ _ _ _ _ _ _ ↦ .short) m n
    | succ levels₂ =>
      exact tandem_runWith hctx (fun _ _ _ _ hclosed hlists ↦
        embeddedWith_follows (fun _ _ ↦ ih _ _ _) hclosed hlists) m n

/-! ## The end of a program -/

theorem found_isSome (x : Parse Expr) (s : ParserState) :
    Ensures (fun _ ↦ True) (do return some (← x)) s fun found _ ↦ found.isSome :=
  Ensures.any.bind fun _ _ _ ↦ .pure rfl

theorem ended_isSome (x : Parse Expr) (s : ParserState) :
    Ensures (fun _ ↦ True) (ended x) s fun found _ ↦ found.isSome :=
  Ensures.any.bind fun _ _ _ ↦ Ensures.any.bind fun _ _ _ ↦ .pure rfl

/-- A statement that is not claimed is one. -/
theorem plainStatement_isSome :
    Ensures (fun _ ↦ True) (plainStatement ctx sub) s fun found _ ↦ found.isSome := by
  refine .ask current_run ?_
  split
  · exact found_isSome _ _
  · exact found_isSome _ _
  · exact found_isSome _ _
  · exact found_isSome _ _
  · exact Ensures.any.bind fun _ _ _ ↦ .branch (fun _ ↦ found_isSome _ _) fun _ ↦ ended_isSome _ _
  · exact found_isSome _ _
  · exact ended_isSome _ _
  · exact ended_isSome _ _
  · exact ended_isSome _ _
  · exact ended_isSome _ _
  · exact ended_isSome _ _
  · exact .get_bind (.throw trivial)
  · exact ended_isSome _ _

/-- Behind the separators no statement is found exactly at the end. -/
theorem statement_ensures (hctx : ctx.registry.entries = []) (h : base.At l s) :
    Ensures (fun _ ↦ True) (statement ctx sub) s fun found s' ↦
      found = none → IsSpent (l.dropWhile Token.isSeparator) ∧
      base.At (l.dropWhile Token.isSeparator) s' := by
  refine ((passSeparators_ensures h).loosen fun _ _ ↦ trivial).bind fun _ _ hat ↦ .ask isEnded_run
    (.branch (fun hended ↦ .pure fun _ ↦ ⟨hat.isEnded_iff.mp hended, hat⟩) fun _ ↦ ?_)
  refine .ask (replaceTokens_run hctx) (.ask (build?_run hctx sub .statement) ?_)
  exact plainStatement_isSome.mono fun found s' hfound hnone ↦ by simp [hnone] at hfound

/-- At the end no statement is found. -/
theorem statement_spent (h : base.At l s) (hspent : IsSpent (l.dropWhile Token.isSeparator)) :
    Ensures (fun e ↦ ¬ e.WithinFuel) (statement ctx sub) s fun found s' ↦
      found = none ∧ base.At (l.dropWhile Token.isSeparator) s' :=
  (passSeparators_ensures h).bind fun _ _ hat ↦ .ask isEnded_run
    (.branch (fun _ ↦ .pure ⟨rfl, hat⟩) fun hnot ↦ absurd (hat.isEnded_iff.mpr hspent) hnot)

/-- What every statement ensures, a parser does that may run out of fuel. -/
theorem run_statement_ensures {E : ScriptError → Prop} {Q : Option Expr → ParserState → Prop}
    (hfuel : E (s.tokens.error .outOfFuel)) (h : ∀ sub, Ensures E (statement ctx sub) s Q) :
    Ensures E (run ctx levels fuel .statement) s Q := by
  cases fuel with
  | zero => cases levels <;> exact .get_bind (.throw hfuel)
  | succ fuel => cases levels <;> exact h _

/-! ## From statement to statement -/

/-- **From the end of the first tokens on.** When the first parser has come to its end, the second
one has parsed the same statements up to positions and stands between two statements. -/
theorem program_goes_on (recent earlier : List Expr) (hctx : ctx.registry.entries = [])
    (htail : IsTailOfTokens tail) (hsub : Tandem (run ctx levels fuel) sub₂) {m n : Nat}
    {done out : List Expr}
    {Q : List Expr → ParserState → Prop}
    (hrun : rounded (programRound (run ctx levels fuel)) m done s = .ok out s')
    (hst : s.Abreast (JoinsApart tail) t) (hdone : Alikes done recent)
    (hlater : ∀ n recent t', Alikes out.reverse recent → s'.Abreast (JoinsSpent tail) t' →
      Ensures ScriptError.IsExcused (rounded (programRound sub₂) n (recent ++ earlier)) t' Q) :
    Ensures ScriptError.IsExcused (rounded (programRound sub₂) n (recent ++ earlier)) t Q := by
  -- on the rounds of the first parser: as long as it finds statements, the second one finds them
  induction m generalizing n done recent s t with
  | zero => cases hrun
  | succ m ih =>
    cases n with
    | zero => exact .get_bind (.throw (.inl fun h ↦ h rfl))
    | succ n =>
      rw [rounded, programRound, statementRound_bind, bind_eq_of_ok place_run] at hrun
      obtain ⟨found, s₁, hfound, hrest⟩ := bind_eq_ok_iff.mp hrun
      cases found with
      | none =>
        -- the first parser is at its end, and the second one goes on from here
        obtain ⟨l, l', hl, hl', hll'⟩ := hst.shows
        cases hrest
        obtain ⟨hspent, hat⟩ := (run_statement_ensures trivial fun _ ↦
          statement_ensures hctx (.refl hl)).of_ok hfound rfl
        refine hlater (n + 1) recent t (by rwa [List.reverse_reverse]) ?_
        refine hst.move hat (.refl hl') ⟨hspent, ?_⟩
        rcases hll' with hsolid | hpassed
        · exact absurd hspent hsolid.not_isSpent
        · exact hpassed.2
      | some e =>
        obtain ⟨_, s₂, hprogress, hlast⟩ := bind_eq_ok_iff.mp hrest
        rw [rounded, programRound, statementRound_bind]
        refine .ask place_run
          (((hsub.statement htail).ensures_found hst hfound).bind fun found' t₁ hfound' ↦ ?_)
        obtain ⟨e', rfl, he, hst₁⟩ := hfound'
        obtain rfl := (requireProgress_ensures _ s₁).of_ok hprogress
        exact (requireProgress_ensures _ t₁).bind fun _ t₂ hsame ↦
          ih _ hlast (hsame ▸ hst₁.mono fun _ _ ↦ JoinsBehind.apart) (.cons he hdone)

/-- At the end of the second tokens the program is complete. -/
theorem program_ends_ensures {n : Nat} {done : List Expr} (h : base.At l t)
    (hspent : IsSpent (l.dropWhile Token.isSeparator)) :
    Ensures ScriptError.IsExcused (rounded (programRound (run ctx levels fuel)) n done)
      t fun out t' ↦
      out = done.reverse ∧ t'.symbols = base.symbols := by
  cases n with
  | zero => exact .get_bind (.throw (.inl fun h ↦ h rfl))
  | succ n =>
    have hnone : Ensures (fun e ↦ ¬ e.WithinFuel) (run ctx levels fuel .statement) t fun found t' ↦
        found = none ∧ base.At (l.dropWhile Token.isSeparator) t' :=
      run_statement_ensures (fun hne ↦ hne rfl) fun _ ↦ statement_spent h hspent
    rw [rounded, programRound, statementRound_bind]
    refine .ask place_run ((hnone.loosen fun _ ↦ .inl).bind fun found t₁ hfound ↦ ?_)
    obtain ⟨rfl, hat⟩ := hfound
    exact .pure ⟨rfl, by rw [hat.same]⟩

/-! ## No program begins with an alternative branch -/

/-- A word that begins no statement is refused where one is wanted. -/
theorem statement_else {sub : Subparser} (hctx : ctx.registry.entries = [])
    (h : base.At l s) {t : Token}
    {rest : List Token} (hl : l.dropWhile isNewLine = t :: rest) (ht : t.lexeme = .keyword "else") :
    Ensures (fun _ ↦ True) (statement ctx sub) s fun _ _ ↦ False := by
  have hseparator : t.isSeparator = false := by
    obtain ⟨lexeme, position, offset, index⟩ := t
    cases ht
    rfl
  have hend : ¬ IsSpent (t :: rest) := by
    rintro ⟨e, he, hsplit⟩
    obtain ⟨rfl, -⟩ := List.cons.inj hsplit
    rw [t.lexeme_eq_of_isEnd he] at ht
    cases ht
  have hdrop : l.dropWhile Token.isSeparator = t :: rest := by
    rw [← dropWhile_isSeparator_dropWhile, hl, List.dropWhile_cons, if_neg (by simp [hseparator])]
  refine ((passSeparators_ensures h).loosen fun _ _ ↦ trivial).bind fun _ s₁ hat ↦
    .ask isEnded_run ?_
  rw [hdrop] at hat
  refine .branch (fun hended ↦ absurd (hat.isEnded_iff.mp hended) hend) fun _ ↦ ?_
  refine .ask (replaceTokens_run hctx) (.ask (build?_run hctx sub .statement) (.ask current_run ?_))
  rw [hat.current_eq, ht]
  exact .get_bind (.throw trivial)

theorem leadsTo_else_of_programFueled (hctx : ctx.registry.entries = []) {out : List Expr}
    (h : programFueled ctx levels fuel s = .ok out s') (hshows : s.tokens.Shows l)
    (hgenuine : ∀ t ∈ l, t.IsGenuine) : leadsTo "else" l = false := by
  rw [leadsTo]
  cases hl : l.dropWhile isNewLine with
  | nil => rfl
  | cons t rest =>
    rw [← Bool.not_eq_true]
    intro his
    have hmem : t ∈ l := (List.dropWhile_sublist isNewLine).subset (hl ▸ List.mem_cons_self ..)
    have hbreak : isNewLine t = false := by
      have hnot := List.head?_dropWhile_not isNewLine l
      rwa [hl] at hnot
    have ht := (hgenuine t hmem).lexeme_eq_else his (hshows.isSignificant_of_mem hmem) hbreak
    have hfails : Ensures (fun _ ↦ True) (run ctx levels fuel .statement) s fun _ _ ↦ False :=
      run_statement_ensures trivial fun _ ↦ statement_else hctx (.refl hshows) hl ht
    rw [programFueled, bind_eq_of_ok rounds_run, programWithin_eq_rounded, rounded, programRound,
      statementRound_bind, bind_eq_of_ok place_run] at h
    obtain ⟨found, s₁, hfound, -⟩ := bind_eq_ok_iff.mp h
    exact hfails.of_ok hfound

/-! ## One program after the other -/

/-- **Programs go on.** A program followed by another one, with a line break between them. -/
theorem programFueled_append (hctx : ctx.registry.entries = []) {s₁ s₁' s₂ s₂' : ParserState}
    {m e : Token} {rest l₂ : List Token} {out₁ out₂ : List Expr} {levels₁ fuel₁ levels₂ fuel₂ : Nat}
    (h₁ : programFueled ctx levels₁ fuel₁ s₁ = .ok out₁ s₁')
    (h₂ : programFueled ctx levels₂ fuel₂ s₂ = .ok out₂ s₂')
    (htail : IsTailOfTokens (m :: rest)) (hm : isNewLine m = true) (he : e.isEnd = true)
    (hst : s₁.Abreast (JoinsApart (m :: rest)) t) (hshows : s₂.tokens.Shows l₂)
    (hrest : Joins [e] l₂ rest)
    (hsymbols : s₁'.symbols.unplaced = s₂.symbols.unplaced) (hdepths : s₁'.depths = s₂.depths) :
    Ensures ScriptError.IsExcused (programFueled ctx levels fuel) t fun out t' ↦
      Alikes (out₁ ++ out₂) out ∧ t'.symbols.unplaced = s₂'.symbols.unplaced := by
  rw [programFueled, bind_eq_of_ok rounds_run, programWithin_eq_rounded] at h₁ h₂
  refine .ask rounds_run ?_
  rw [programWithin_eq_rounded]
  refine program_goes_on [] [] hctx htail (tandem_run hctx _ _ _ _) h₁ hst .nil
    fun n recent t₁ hrecent ht₁ ↦ ?_
  rw [List.append_nil]
  have hsecond : s₂.Abreast (JoinsApart [e]) t₁ := by
    obtain ⟨-, l', -, hl', -, hdrop⟩ := ht₁.shows
    refine ⟨⟨l₂, l', hshows, hl', ?_⟩, ht₁.symbols.trans hsymbols, ht₁.depths.trans hdepths⟩
    rw [List.dropWhile_cons, if_pos (Token.isSeparator_of_isNewLine hm)] at hdrop
    rw [JoinsApart, hdrop]
    exact hrest.apart
  refine program_goes_on [] recent hctx (isTailOfTokens_singleton he)
    (tandem_run hctx _ _ _ _) h₂ hsecond .nil fun n recent₂ t₂ hrecent₂ ht₂ ↦ ?_
  obtain ⟨-, l', -, hl', -, hdrop⟩ := ht₂.shows
  rw [List.dropWhile_cons, if_neg (by simp [Token.isSeparator_of_isEnd he])] at hdrop
  refine (program_ends_ensures (.refl hl') ⟨e, he, hdrop⟩).mono fun out t₃ ⟨hout, hsame⟩ ↦ ⟨?_, ?_⟩
  · rw [hout, List.reverse_append]
    have hfirst := hrecent.reverse
    have hlast := hrecent₂.reverse
    rw [List.reverse_reverse] at hfirst hlast
    exact hfirst.append hlast
  · rw [hsame]
    exact ht₂.symbols

end ScriptFront.Parse
