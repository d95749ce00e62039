import ScriptFront.Proofs.Lexer.Sections
import ScriptFront.Proofs.Window.Walk

/-!
# The numbers of the tokens in a window

A lexer numbers the tokens it yields, and the parser recognises by these numbers that it has moved.
So the numbers have to grow: in a window, from each token to the next and from those held to those
still to come, and in the sections embedded in a string as well, since these are parsed on their
own.

Without extensions a lexer sees to all of this by itself. Only a host can put a string with a
section of its own making into the stream, and must then number the tokens of that section.
-/

namespace ScriptFront

/-- The tokens of each section are numbered upwards. -/
def SectionsInOrder (parts : List Section) : Prop :=
  ∀ tokens, Section.tokens tokens ∈ parts → InOrder tokens

/-- Not a blank, a comment, a line break or the end. -/
def Token.isContent (t : Token) : Bool :=
  !t.lexeme.isTrivia && t.kind != .newLine && !t.isEnd

theorem Token.isContent_of_kind {t : Token} {kind : TokenKind} (h : t.kind = kind)
    (hkind : kind ≠ .newLine ∧ kind ≠ .endOfInput) (htrivia : t.lexeme.isTrivia = false) :
    t.isContent = true := by
  rw [isContent, htrivia, isEnd, h]
  simpa using hkind

/-- How many tokens are neither blanks, comments, line breaks nor the end. -/
def content (tokens : List Token) : Nat := tokens.countP Token.isContent

@[simp] theorem content_append (front back : List Token) :
    content (front ++ back) = content front + content back := List.countP_append

/-- Without extensions, the sections of a text are numbered if those of the rules are. -/
theorem SpellingRules.EachString.dialect {d : Dialect} (h : d.rules.EachString SectionsInOrder)
    (hextensions : d.extensions = []) : d.EachString SectionsInOrder :=
  ⟨h, fun _ hparts ↦ hparts.inOrder, hextensions⟩

namespace Window

open Lexer (Counts)

variable {E : ScriptError → Prop} {past read : List Token} {w w' : Window Lexer}

/-! ## Numbered windows -/

/-- The tokens held are numbered upwards, behind those of `past`, and what is still to come is
too. -/
structure Numbered (past : List Token) (w : Window Lexer) : Prop where
  /-- The numbers of the tokens grow. -/
  inOrder : InOrder (past ++ w.ahead)
  /-- The sections of strings are numbered in the same way. -/
  strings : ∀ t ∈ w.ahead, t.lexeme.EachString SectionsInOrder
  /-- The lexer counts on from behind the tokens held. -/
  source : w.exhausted = false → ∃ lx least, w.source = some lx ∧ lx.EachString SectionsInOrder ∧
    lx.Counts least ∧ ∀ t ∈ past ++ w.ahead, t.index < least

theorem inOrder_append {front back : List Token} : InOrder (front ++ back) ↔
    InOrder front ∧ InOrder back ∧ ∀ t ∈ front, ∀ u ∈ back, t.index < u.index :=
  List.pairwise_append

/-- An end token that is added comes last. -/
theorem inOrder_terminated {tokens : List Token} (h : InOrder (past ++ tokens))
    (hne : tokens ≠ []) :
    InOrder (past ++ terminated tokens) := by
  obtain ⟨front, t, rfl⟩ := List.eq_nil_or_concat tokens |>.resolve_left hne
  rw [terminated, List.concat_eq_append, List.getLast?_concat]
  dsimp only
  split
  · rwa [List.concat_eq_append] at h
  · rw [List.concat_eq_append, ← List.append_assoc] at h
    rw [← List.append_assoc, ← List.append_assoc]
    refine inOrder_append.mpr ⟨h, List.pairwise_singleton .., fun u hu v hv ↦ ?_⟩
    obtain rfl := List.mem_singleton.mp hv
    refine Nat.lt_succ_of_le ?_
    rcases List.mem_append.mp hu with hu | hu
    · exact Nat.le_of_lt ((inOrder_append.mp h).2.2 u hu t (List.mem_singleton_self t))
    · exact Nat.le_of_eq (congrArg Token.index (List.mem_singleton.mp hu))

theorem eachString_of_mem_terminated {p : List Section → Prop} {tokens : List Token} {t : Token}
    (h : ∀ t ∈ tokens, t.lexeme.EachString p) (ht : t ∈ terminated tokens) :
    t.lexeme.EachString p := by
  rcases terminated_cases tokens with ⟨heq, -⟩ | ⟨u, hend, heq, -⟩
  · exact h t (heq ▸ ht)
  · rw [heq, List.mem_append, List.mem_singleton] at ht
    rcases ht with ht | rfl
    · exact h t ht
    · refine Lexeme.eachString_of_kind fun hkind ↦ ?_
      rw [Token.isEnd, Token.kind, hkind] at hend
      cases hend

theorem numbered_ofTokens {list : List Token} (horder : InOrder list)
    (hstrings : TokensEachString SectionsInOrder list) (lookahead : Nat) :
    (ofTokens list lookahead : Window Lexer).Numbered [] := by
  have hall : InOrder (terminated list) := by
    by_cases hnil : list = []
    · subst hnil
      exact List.pairwise_singleton ..
    · exact @inOrder_terminated [] list horder hnil
  refine ⟨?_, fun t ht ↦ ?_, fun hex ↦ absurd hex (by simp [ofTokens])⟩
  · rw [List.nil_append, ahead_ofTokens]
    exact hall.sublist (List.dropWhile_sublist _)
  · rw [ahead_ofTokens] at ht
    exact eachString_of_mem_terminated (tokensEachString_iff.mp hstrings)
      ((List.dropWhile_suffix _).mem ht)

theorem Numbered.pull {count : Nat} (h : Numbered past w)
    (hsource : w.exhausted = false → ∃ lx, w.source = some lx ∧ lx.IsOpen) (hcount : 0 < count)
    (hpull : pull count w = .ok () w') : Numbered past w' := by
  cases hex : w.exhausted with
  | true =>
    rw [Window.pull, if_pos hex] at hpull
    cases hpull
    exact h
  | false =>
  obtain ⟨lx, least, hlx, heach, hcounts, hbefore⟩ := h.source hex
  obtain ⟨lx₀, hlx₀, hopen⟩ := hsource hex
  obtain rfl := Option.some.inj (hlx₀.symm.trans hlx)
  simp only [Window.pull, hex, hlx, Bool.false_eq_true, if_false] at hpull
  cases hbatch : TokenSupply.nextBatch count lx₀ with
  | mk result lx' =>
  rw [hbatch] at hpull
  cases result with
  | error e => cases hpull
  | ok batch =>
  cases hpull
  obtain ⟨tokens, hsame, hyields, hclosed⟩ :=
    Lexer.batchWith_yields heach.dialect.isTame hopen (nextBatch_eq_ok hbatch)
  obtain rfl : batch = tokens := by simpa using hsame
  have hne : batch ≠ [] := ne_nil_of_closed hcount hclosed
  obtain ⟨horder, hfrom, later, hle, hlater, hcounts'⟩ := hyields.counts hcounts
  obtain ⟨hstrings, heach'⟩ :=
    hyields.eachString (Lexer.sectionTokens_cutsEachString heach.dialect _) heach
  have hjoined : InOrder (past ++ (w.ahead ++ batch)) := by
    rw [← List.append_assoc]
    exact inOrder_append.mpr ⟨h.inOrder, horder, fun t ht u hu ↦
      Nat.lt_of_lt_of_le (hbefore t ht) (hfrom u hu)⟩
  have hall : ∀ t ∈ w.ahead ++ batch, t.lexeme.EachString SectionsInOrder := fun t ht ↦
    (List.mem_append.mp ht).elim (h.strings t) (hstrings t)
  refine ⟨?_, fun t ht ↦ ?_, fun hmore ↦ ⟨lx', later, rfl, heach', hcounts', fun t ht ↦ ?_⟩⟩
  · dsimp only
    split
    · exact inOrder_terminated hjoined (List.append_ne_nil_of_right_ne_nil _ hne)
    · exact hjoined
  · dsimp only at ht
    split at ht
    · exact eachString_of_mem_terminated hall ht
    · exact hall t ht
  · dsimp only at hmore ht
    rw [if_neg (by simp [hmore]), ← List.append_assoc] at ht
    exact (List.mem_append.mp ht).elim (fun ht ↦ Nat.lt_of_lt_of_le (hbefore t ht) hle) (hlater t)

/-- Numbers keep growing, and no token that is passed has a number that is still to come. -/
theorem Move.numbered (hmove : Move True w read w') (hfirm : Firm E w) (h : Numbered past w) :
    Numbered (past ++ read) w' := by
  cases hmove with
  | pull hcount hpull =>
    rw [List.append_nil]
    exact h.pull (fun hex ↦ (hfirm.source hex).imp fun _ h ↦ ⟨h.1, h.2.1⟩) hcount hpull
  | pass hahead ht =>
    obtain ⟨horder, hstrings, hsource⟩ := h
    rw [hahead, ← List.singleton_append, ← List.append_assoc] at horder hsource
    exact ⟨horder, fun u hu ↦ hstrings u (hahead ▸ List.mem_cons_of_mem _ hu), hsource⟩
  | forget =>
    rw [List.append_nil]
    exact ⟨h.inOrder, h.strings, h.source⟩
  | replace lexeme hnot => exact absurd trivial hnot

theorem Leads.numbered (hleads : Leads True w read w') (hfirm : Firm E w) (h : Numbered past w) :
    Numbered (past ++ read) w' := by
  induction hleads with
  | refl => rwa [List.append_nil]
  | tail hleads hmove ih =>
    rw [← List.append_assoc]
    exact hmove.numbered (hleads.firm hfirm) ih

/-- What was passed may be forgotten. -/
theorem Numbered.here (h : Numbered past w) : Numbered [] w :=
  ⟨(inOrder_append.mp h.inOrder).2.1, h.strings, fun hex ↦ by
    obtain ⟨lx, least, hlx, heach, hcounts, hbefore⟩ := h.source hex
    exact ⟨lx, least, hlx, heach, hcounts, fun t ht ↦ hbefore t (List.mem_append_right _ ht)⟩⟩

/-- The tokens passed come first among those held before. -/
theorem Leads.isPrefix (h : Leads True w read w') (hfirm : Firm E w) :
    w.ahead <+: read ++ w'.ahead := by
  induction h with
  | refl => exact List.prefix_refl _
  | @tail w₁ w₂ read more hleads hmove ih =>
    refine ih.trans ?_
    rw [List.append_assoc]
    refine List.prefix_append_right_inj _ |>.mpr ?_
    cases hmove with
    | pull hcount hpull =>
      rcases (hleads.firm hfirm).pulled hcount hpull with ⟨-, rfl⟩ | ⟨-, hpulled⟩
      · exact List.prefix_refl _
      · obtain ⟨pulled, hpulled, -⟩ := hpulled.ahead
        exact hpulled ▸ List.prefix_append _ _
    | pass hahead ht => exact hahead ▸ List.prefix_refl _
    | forget => exact List.prefix_refl _
    | replace lexeme hnot => exact absurd trivial hnot

/-- **Moving is noticed.** If any token was passed, the current one has a greater number than
before. -/
theorem Leads.index_lt (h : Leads True w read w') (hfirm : Firm E w) (hnumbered : Numbered past w)
    (hne : read ≠ []) : w.current.index < w'.current.index := by
  obtain ⟨t, passed, rfl⟩ := List.exists_cons_of_ne_nil hne
  obtain ⟨rest, hrest⟩ := hfirm.exists_cons
  obtain ⟨rest', hrest'⟩ := (h.firm hfirm).exists_cons
  obtain ⟨more, hmore⟩ := h.isPrefix hfirm
  obtain rfl : w.current = t := by
    rw [hrest, List.cons_append, List.cons_append] at hmore
    exact (List.cons.inj hmore).1
  have horder := (inOrder_append.mp (h.numbered hfirm hnumbered.here).inOrder).2.2
  exact horder _ (by simp) _ (by simp [hrest'])

/-! ## Windows a parser can start from -/

/-- The end of the tokens is held or still to come, and the window does not stand on a blank or a
comment. If `numbered` holds, the tokens are numbered upwards. -/
structure Ready (numbered : Prop) (w : Window Lexer) : Prop where
  /-- The end of the tokens is held or still to come. -/
  firm : Firm ScriptError.IsLexical w
  /-- A token that is not passed over is current. -/
  rested : isPassedOver false w.current = false
  /-- The tokens are numbered. -/
  numbers : numbered → Numbered [] w

variable {numbered : Prop}

theorem Ready.leads (h : Ready numbered w) (hleads : Leads True w read w')
    (hrested : isPassedOver false w'.current = false) : Ready numbered w' :=
  ⟨hleads.firm h.firm, hrested, fun hn ↦ (hleads.numbered h.firm (h.numbers hn)).here⟩

/-- What stands there is passed. -/
theorem Ready.advance_ensures (h : Ready numbered w) (count : Nat) (passNewLine : Bool) :
    Ensures ScriptError.IsLexical (advance count passNewLine) w fun _ w' ↦
      isPassedOver false w'.current = false ∧ ∃ read, Leads True w read w' ∧
        (0 < count → w.current.isContent = true → 0 < content read) := by
  refine (h.firm.advance_ensures passNewLine count).mono fun _ w' ⟨read, hleads, hfirst, hrested⟩ ↦
    ⟨hrested h.rested, read, hleads, fun hcount hcontent ↦ ?_⟩
  have hend : w.current.isEnd = false := by
    rw [Token.isContent, Bool.and_eq_true] at hcontent
    simpa using hcontent.2
  obtain ⟨more, rfl⟩ := hfirst hcount hend
  rw [content, List.countP_cons, if_pos hcontent]
  exact Nat.succ_pos _

theorem Ready.isTrivia_eq (h : Ready numbered w) : w.current.lexeme.isTrivia = false :=
  (Bool.or_eq_false_iff.mp h.rested).1

/-- Sections of the current token are numbered. -/
theorem Ready.current_eachString (h : Ready numbered w) (hn : numbered) :
    w.current.lexeme.EachString SectionsInOrder := by
  obtain ⟨rest, hrest⟩ := h.firm.exists_cons
  exact (h.numbers hn).strings _ (hrest ▸ List.mem_cons_self ..)

theorem current_dropWhile {passNewLine : Bool} {tokens : List Token} (h : IsTerminated tokens) :
    isPassedOver passNewLine ((tokens.dropWhile (isPassedOver passNewLine)).headD default) =
    false := by
  have hterminated : IsTerminated (tokens.dropWhile (isPassedOver passNewLine)) :=
    isTerminated_dropWhile h
  cases hdrop : tokens.dropWhile (isPassedOver passNewLine) with
  | nil =>
    rw [hdrop] at hterminated
    obtain ⟨t, ht, -⟩ := hterminated
    simp at ht
  | cons t rest =>
    have := List.head?_dropWhile_not (isPassedOver passNewLine) tokens
    simpa [hdrop] using this

/-- Any list of tokens makes a window to start from. -/
theorem ready_ofTokens {list : List Token} (lookahead : Nat)
    (h : numbered → InOrder list ∧ TokensEachString SectionsInOrder list) :
    Ready numbered (ofTokens list lookahead) := by
  have hsound : Sound False (ofTokens list lookahead) := sound_ofTokens list lookahead False.elim
  refine ⟨⟨hsound.held, hsound.sight, hsound.ended, fun hex ↦ absurd hex (by simp [ofTokens])⟩, ?_,
    fun hn ↦ numbered_ofTokens (h hn).1 (h hn).2 lookahead⟩
  rw [current, ahead_ofTokens]
  exact current_dropWhile (isTerminated_terminated list)

/-- The window on a text is one to start from, and if there is none, the text is to blame. -/
theorem ready_ofText {d : Dialect} (hextensions : d.extensions = [])
    (h : numbered → d.rules.EachString SectionsInOrder) (text : String) (lookahead : Nat) :
    (∀ w, ofSource (Lexer.ofText d text) lookahead = .ok w → Ready numbered w) ∧
      ∀ e, ofSource (Lexer.ofText d text) lookahead = .error e → e.IsLexical := by
  have htame : d.IsTame := by
    intro e he
    rw [hextensions] at he
    simp at he
  obtain ⟨hok, herror⟩ := ofSource_firm (Lexer.isOpen_ofText d text) htame
    (Dialect.failsOnly_isLexical hextensions) lookahead
  refine ⟨fun w hw ↦ ?_, herror⟩
  obtain ⟨hrested, count, w₁, read, hcount, hpull, hfirm, hleads⟩ := hok w hw
  refine ⟨hleads.firm hfirm, hrested, fun hn ↦ ?_⟩
  have hfresh :
      Numbered [] (⟨0, [], max lookahead minLookahead, some (Lexer.ofText d text), false⟩ :
      Window Lexer) :=
    ⟨.nil, by simp, fun _ ↦ ⟨_, 0, rfl, Lexer.eachString_of_fresh rfl ((h hn).dialect hextensions),
      Lexer.counts_of_fresh rfl, by simp⟩⟩
  have hpulled := hfresh.pull (fun _ ↦ ⟨_, rfl, Lexer.isOpen_ofText d text⟩) hcount hpull
  exact (hleads.numbered hfirm hpulled).here

end Window

end ScriptFront
