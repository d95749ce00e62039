import Mathlib.Data.List.Infix
import ScriptFront.Proofs.Lexer.Endings
import ScriptFront.Proofs.Window.Operations

/-!
# What a window holds

The token under the cursor has to be held, or there is nothing to read. Only a move can lose it: it
leaves the current token before it asks for the next one, and if the source fails then, the cursor
is left behind all tokens held. Looking ahead asks for tokens too, but does not move, and passed
tokens are forgotten only where others follow. So the first failure of the source under a move is
the only way off the tokens held.

How many tokens are held is not bounded by the lookahead alone. A window pulls a lookahead's worth
of tokens whenever its cursor or its sight comes to the last one held, and later it asks for one new
token for each that it forgets, however many it holds. So it never holds less again than its longest
operation needed.
-/

namespace ScriptFront

namespace Window

section

variable {σ : Type} [TokenSupply σ] {α β : Type}

/-! ## The cursor and failures -/

/-- The failure is one of the source, which is left as the failure left it. -/
def LeftBy (e : ScriptError) (w : Window σ) : Prop :=
  ∃ count source source', TokenSupply.nextBatch count source = (.error e, source') ∧
    w.source = some source'

/-- The cursor is on a token that is held, unless the computation has failed and `lost` holds. -/
def Rests (lost : ScriptError → Window σ → Prop) : EStateM.Result ScriptError (Window σ) α → Prop
  | .ok _ w => w.ahead ≠ []
  | .error e w => w.ahead ≠ [] ∨ lost e w

/-- Run on a token that is held, the computation leaves the cursor on one, unless it fails and
`lost` holds. -/
def Stays (lost : ScriptError → Window σ → Prop) (x : WindowM σ α) : Prop :=
  ∀ w : Window σ, w.ahead ≠ [] → Rests lost (x w)

/-- The cursor stays on a token that is held, also after a failure. -/
abbrev StaysPut (x : WindowM σ α) : Prop := Stays (fun _ _ ↦ False) x

namespace Stays

variable {lost : ScriptError → Window σ → Prop} {x : WindowM σ α} {f : α → WindowM σ β}

omit [TokenSupply σ] in
theorem bind (hx : Stays lost x) (hf : ∀ a, Stays lost (f a)) : Stays lost (x >>= f) := by
  intro w hw
  have hrun := hx w hw
  cases hresult : x w with
  | ok a w₁ =>
    rw [hresult] at hrun
    rw [bind_eq_of_ok hresult]
    exact hf a w₁ hrun
  | error e w₁ =>
    rw [hresult] at hrun
    rw [bind_eq_of_error hresult]
    exact hrun

omit [TokenSupply σ] in
theorem pure (a : α) : Stays lost (pure a) := fun _ hw ↦ hw

omit [TokenSupply σ] in
theorem get_bind {f : Window σ → WindowM σ β} (hf : ∀ w, Stays lost (f w)) :
    Stays lost (get >>= f) := fun w hw ↦ hf w w hw

omit [TokenSupply σ] in
theorem mono {lost' : ScriptError → Window σ → Prop} (hx : Stays lost x)
    (h : ∀ e w, lost e w → lost' e w) : Stays lost' x := by
  intro w hw
  have hrun := hx w hw
  cases hresult : x w with
  | ok a w₁ => rwa [hresult] at hrun
  | error e w₁ =>
    rw [hresult] at hrun
    exact hrun.imp_right (h e w₁)

end Stays

omit [TokenSupply σ] in
theorem StaysPut.stays {x : WindowM σ α} (h : StaysPut x) (lost : ScriptError → Window σ → Prop) :
    Stays lost x := h.mono fun _ _ ↦ False.elim

theorem isPrefix_terminated (tokens : List Token) : tokens <+: terminated tokens := by
  rcases terminated_cases tokens with ⟨heq, -⟩ | ⟨t, -, heq, -⟩
  · exact ⟨[], by rw [heq, List.append_nil]⟩
  · exact ⟨[t], heq.symm⟩

theorem terminated_ne_nil (tokens : List Token) : terminated tokens ≠ [] := by
  obtain ⟨t, ht, -⟩ := isTerminated_terminated tokens
  exact fun hnil ↦ by simp [hnil] at ht

/-- Pulling keeps what is held, and from a source that may have more it comes back with something,
or the source fails. -/
theorem pull_cases (count : Nat) (w : Window σ) :
    match Window.pull count w with
    | .ok _ w' => w.ahead <+: w'.ahead ∧ (w.exhausted = false → w.source.isSome → w'.ahead ≠ [])
    | .error e w' => w'.ahead = w.ahead ∧ w'.LeftBy e := by
  unfold Window.pull
  cases hexhausted : w.exhausted with
  | true => simp
  | false =>
    cases hsource : w.source with
    | none => simp
    | some source =>
      simp only [Bool.false_eq_true, if_false]
      cases hbatch : TokenSupply.nextBatch count source with
      | mk result source' =>
        cases result with
        | error e => exact ⟨rfl, count, source, source', hbatch, rfl⟩
        | ok batch =>
          by_cases hends : (batch.isEmpty || batch.any Token.isEnd) = true
          · simp only [if_pos hends]
            exact ⟨(List.prefix_append _ _).trans (isPrefix_terminated _), fun _ _ ↦
              terminated_ne_nil _⟩
          · simp only [if_neg hends]
            refine ⟨List.prefix_append _ _, fun _ _ hnil ↦ hends ?_⟩
            simp [(List.append_eq_nil_iff.mp hnil).2]

theorem pull_staysPut (count : Nat) : StaysPut (Window.pull count : WindowM σ Unit) := by
  intro w hw
  have hcases := pull_cases count w
  cases hresult : Window.pull count w with
  | ok _ w' =>
    rw [hresult] at hcases
    exact fun hnil ↦ hw (List.prefix_nil.mp (hnil ▸ hcases.1))
  | error e w' =>
    rw [hresult] at hcases
    exact .inl (hcases.1 ▸ hw)

theorem hold_staysPut (n : Nat) : StaysPut (Window.hold n : WindowM σ Unit) := by
  intro w hw
  unfold Window.hold
  split
  · exact pull_staysPut w.lookahead w hw
  · exact hw

/-- Holding a token fails only if the source does. -/
theorem leftBy_of_hold {n : Nat} {w w' : Window σ} {e : ScriptError}
    (h : Window.hold n w = .error e w') : w'.LeftBy e := by
  unfold Window.hold at h
  split at h
  · have hcases := pull_cases w.lookahead w
    rw [h] at hcases
    exact hcases.2
  · cases h

/-- A step may lose the token, if the source fails. -/
theorem step_stays : Stays (fun e w ↦ w.LeftBy e) (Window.step : WindowM σ Unit) := by
  intro w hw
  have hstays := hold_staysPut 1 w hw
  unfold Window.step
  cases hresult : Window.hold 1 w with
  | error e w' => exact .inr (show LeftBy e w' from leftBy_of_hold hresult)
  | ok _ w' =>
    rw [hresult] at hstays
    simp only
    split
    · exact List.cons_ne_nil _ _
    · exact hstays

theorem skipWithin_stays (passNewLine : Bool) (fuel : Nat) :
    Stays (fun e w ↦ w.LeftBy e) (Window.skipWithin passNewLine fuel : WindowM σ Unit) := by
  induction fuel with
  | zero => exact .pure _
  | succ fuel ih =>
    refine .get_bind fun w ↦ ?_
    split
    · exact step_stays.bind fun _ ↦ ih
    · exact .pure _

theorem skip_stays (passNewLine : Bool) :
    Stays (fun e w ↦ w.LeftBy e) (Window.skip passNewLine : WindowM σ Unit) := by
  intro w hw
  unfold Window.skip
  split
  · exact skipWithin_stays passNewLine w.tokensLeft w hw
  · exact hw

/-- Passed tokens are forgotten where others follow. -/
theorem forget_staysPut (rounds : Nat) : StaysPut (Window.forget rounds : WindowM σ Unit) := by
  induction rounds with
  | zero => exact .pure _
  | succ rounds ih =>
    refine Stays.bind (fun w hw ↦ hw) fun _ ↦ .get_bind fun w ↦ ?_
    exact (pull_staysPut w.lookahead).bind fun _ ↦ ih

theorem forgetPassed_staysPut : StaysPut (Window.forgetPassed : WindowM σ Unit) :=
  fun w hw ↦ forget_staysPut (w.passed / w.lookahead) w hw

theorem advanceBy_stays (passNewLine : Bool) (count : Nat) :
    Stays (fun e w ↦ w.LeftBy e) (Window.advanceBy passNewLine count : WindowM σ Unit) := by
  induction count with
  | zero => exact .pure _
  | succ count ih =>
    refine .get_bind fun w ↦ ?_
    split
    · exact step_stays.bind fun _ ↦ (skip_stays passNewLine).bind fun _ ↦ ih
    · exact .pure _

theorem advance_stays (count : Nat) (passNewLine : Bool) :
    Stays (fun e w ↦ w.LeftBy e) (Window.advance count passNewLine : WindowM σ Unit) :=
  (advanceBy_stays passNewLine count).bind fun _ ↦ forgetPassed_staysPut.stays _

theorem reach_staysPut (passNewLine : Bool) (fuel count n : Nat) :
    StaysPut (Window.reach passNewLine fuel count n : WindowM σ Nat) := by
  induction fuel generalizing count n with
  | zero => exact .pure _
  | succ fuel ih =>
    cases count with
    | zero => exact .pure _
    | succ count =>
      refine .get_bind fun w ↦ ?_
      split
      · exact .pure _
      · exact (hold_staysPut (n + 1)).bind fun _ ↦ .get_bind fun w ↦ ih _ _

theorem locate_staysPut (count : Nat) (passNewLine : Bool) :
    StaysPut (Window.locate count passNewLine : WindowM σ Nat) := by
  intro w hw
  unfold Window.locate
  split_ifs
  · exact .inl hw
  · exact hw
  · exact reach_staysPut passNewLine w.tokensLeft count 0 w hw

theorem peek_staysPut (count : Nat) (passNewLine : Bool) :
    StaysPut (Window.peek count passNewLine : WindowM σ Token) :=
  (locate_staysPut count passNewLine).bind fun _ ↦ .get_bind fun _ ↦ .pure _

theorem expectKind_stays (kind : TokenKind) (what : String) (passNewLine : Bool) :
    Stays (fun e w ↦ w.LeftBy e) (Window.expectKind kind what passNewLine : WindowM σ Token) := by
  refine .get_bind fun w ↦ ?_
  split
  · exact (advance_stays 1 passNewLine).bind fun _ ↦ .pure _
  · exact fun w hw ↦ .inl hw

theorem replace_staysPut (count : Nat) (lexeme : Lexeme) :
    StaysPut (Window.replace count lexeme : WindowM σ Unit) :=
  (locate_staysPut _ false).bind fun _ _ _ ↦ List.cons_ne_nil _ _

/-- The operations that move the cursor. -/
def Operation.Moves : Operation → Prop
  | .advance _ _ | .skipNewLines | .expect _ _ | .expectName _ | .expectKind _ _ _ => True
  | .peek _ _ | .peekIs _ _ | .is _ | .replace _ _ => False

/-- Only a move loses the token, and only if the source fails. -/
theorem Operation.perform_stays (op : Operation) :
    Stays (fun e w ↦ op.Moves ∧ w.LeftBy e) (op.perform : WindowM σ Answer) := by
  cases op with
  | advance count passNewLine =>
    exact ((advance_stays count passNewLine).mono fun _ _ h ↦ ⟨trivial, h⟩).bind fun _ ↦ .pure _
  | skipNewLines =>
    have hskip : Stays (fun e w ↦ w.LeftBy e) (Window.skipNewLines : WindowM σ Unit) :=
      (skip_stays true).bind fun _ ↦ forgetPassed_staysPut.stays _
    exact (hskip.mono fun _ _ h ↦ ⟨trivial, h⟩).bind fun _ ↦ .pure _
  | peek count passNewLine => exact ((peek_staysPut count passNewLine).stays _).bind fun _ ↦ .pure _
  | peekIs count text =>
    have hpeek := (peek_staysPut (σ := σ) count false).bind fun t ↦ Stays.pure (t.is text)
    exact (hpeek.mono fun _ _ ↦ False.elim).bind fun _ ↦ .pure _
  | is text => exact .get_bind fun _ ↦ .pure _
  | expect text passNewLine =>
    have hexpect :
        Stays (fun e w ↦ w.LeftBy e) (Window.expect text passNewLine : WindowM σ Unit) := by
      refine .get_bind fun w ↦ ?_
      split
      · exact advance_stays 1 passNewLine
      · exact fun w hw ↦ .inl hw
    exact (hexpect.mono fun _ _ h ↦ ⟨trivial, h⟩).bind fun _ ↦ .pure _
  | expectName passNewLine =>
    have hname := (expectKind_stays (σ := σ) .ident "identifier" passNewLine).bind
      fun t ↦ Stays.pure (t.text)
    exact (hname.mono fun _ _ h ↦ ⟨trivial, h⟩).bind fun _ ↦ .pure _
  | expectKind kind what passNewLine =>
    exact ((expectKind_stays kind what passNewLine).mono fun _ _ h ↦ ⟨trivial, h⟩).bind
      fun _ ↦ .pure _
  | replace count lexeme => exact ((replace_staysPut count lexeme).stays _).bind fun _ ↦ .pure _

omit [TokenSupply σ] in
theorem onToken_iff {w : Window σ} : w.onToken = true ↔ w.ahead ≠ [] := by
  simp [onToken]

/-- A new window is on a token. -/
theorem ofSource_onToken {source : σ} {lookahead : Nat} {w : Window σ}
    (h : ofSource source lookahead = .ok w) : w.onToken = true := by
  rw [onToken_iff]
  rw [ofSource] at h
  have hcases := pull_cases (2 * max lookahead minLookahead)
    (⟨0, [], max lookahead minLookahead, some source, false⟩ : Window σ)
  cases hpull : Window.pull (2 * max lookahead minLookahead)
    (⟨0, [], max lookahead minLookahead, some source, false⟩ : Window σ) with
  | error e w₁ =>
    simp only [bind_eq_of_error hpull] at h
    cases h
  | ok _ w₁ =>
    rw [hpull] at hcases
    have hskip := skip_stays false w₁ (hcases.2 rfl rfl)
    simp only [bind_eq_of_ok hpull] at h
    cases hresult : Window.skip false w₁ with
    | error e w₂ =>
      rw [hresult] at h
      cases h
    | ok _ w₂ =>
      rw [hresult] at h hskip
      cases h
      exact hskip

/-- The first operation after which the cursor is not on a token that is held, is a move that fails
with a failure of the source. -/
structure LosesToken (ops : List Operation) (w : Window σ) (n : Nat) : Prop where
  /-- Before, the cursor is on a token that is held. -/
  before : ∀ entry ∈ (history ops w).take n, entry.2.onToken = true
  /-- The operation is a move. -/
  moves : ∃ op, ops[n]? = some op ∧ op.Moves
  /-- It fails with a failure of the source. -/
  fails : ∃ e w', (history ops w)[n]? = some (.error e, w') ∧ w'.LeftBy e

theorem history_onToken_of_held {w : Window σ} (hw : w.ahead ≠ []) (ops : List Operation) :
    (∀ entry ∈ history ops w, entry.2.onToken = true) ∨ ∃ n, LosesToken ops w n := by
  induction ops generalizing w with
  | nil => exact .inl (by simp [history])
  | cons op ops ih =>
    have hnext (hheld : (op.run w).2.ahead ≠ []) :
        (∀ entry ∈ history (op :: ops) w, entry.2.onToken = true) ∨
        ∃ n, LosesToken (op :: ops) w n := by
      rcases ih hheld with hall | ⟨n, hbefore, hmoves, hfails⟩
      · exact .inl (List.forall_mem_cons.mpr ⟨onToken_iff.mpr hheld, hall⟩)
      · refine .inr ⟨n + 1, ?_, hmoves, hfails⟩
        rw [history, List.take_succ_cons]
        exact List.forall_mem_cons.mpr ⟨onToken_iff.mpr hheld, hbefore⟩
    have hstays := op.perform_stays w hw
    cases hresult : op.perform w with
    | ok answer w' =>
      rw [hresult] at hstays
      exact hnext (by rwa [Operation.run_of_ok hresult])
    | error e w' =>
      rw [hresult] at hstays
      rcases hstays with hheld | ⟨hmoves, hleft⟩
      · exact hnext (by rwa [Operation.run_of_error hresult])
      · refine .inr ⟨0, by simp, ⟨op, rfl, hmoves⟩, e, w', ?_, hleft⟩
        rw [history, Operation.run_of_error hresult]
        rfl

/-- **The cursor leaves the tokens held only if the source fails under a move.** Whatever the source
does and whatever is asked for, the cursor is on a token that is held after every operation, also
after those that fail; or the first operation for which this is not so is a move, and has failed
with a failure of the source. -/
theorem history_onToken {source : σ} {lookahead : Nat} {w : Window σ}
    (h : ofSource source lookahead = .ok w) (ops : List Operation) :
    w.onToken = true ∧
      ((∀ entry ∈ history ops w, entry.2.onToken = true) ∨ ∃ n, LosesToken ops w n) :=
  ⟨ofSource_onToken h, history_onToken_of_held (onToken_iff.mp (ofSource_onToken h)) ops⟩

end

/-- Eight names in front of a character that no token starts with. -/
def brokenText : Lexer := .ofText (.plain '#') "a b c d e f g h @"

/-- The source fails when tokens are forgotten, when the window looks ahead, and under a move. -/
def brokenOperations : List Operation :=
  [.advance 4 false, .peek 4 false, .expect "e" false, .skipNewLines, .advance 3 false]

/-- Of three failures of the source, the last one loses the token. -/
theorem history_onToken_brokenText : ∃ w, ofSource brokenText 4 = .ok w ∧ w.onToken = true ∧
    ∃ n, LosesToken brokenOperations w n := by
  obtain ⟨w, hw, hflags⟩ : ∃ w, ofSource brokenText 4 = .ok w ∧
      (history brokenOperations w).map (fun entry ↦ (entry.1.toOption.isSome, entry.2.onToken)) =
        [(false, true), (false, true), (true, true), (true, true), (false, false)] :=
    exists_eq_ok_of_map_eq_some (by decide +kernel)
  obtain ⟨hon, hhistory⟩ := history_onToken hw brokenOperations
  refine ⟨w, hw, hon, hhistory.resolve_left fun hall ↦ ?_⟩
  have hmem : (false, false) ∈ (history brokenOperations w).map
      fun entry ↦ (entry.1.toOption.isSome, entry.2.onToken) := by
    rw [hflags]
    decide
  obtain ⟨entry, hentry, hnot⟩ := List.mem_map.mp hmem
  exact absurd ((hall entry hentry).symm.trans (Prod.mk.inj hnot).2) (by simp)

/-- **A failed move can lose the token.** The names are held when the move begins, it passes all of
them, and the pull for what follows fails. -/
theorem not_forall_onToken :
    ¬ ∀ (source : Lexer) (lookahead : Nat) (w : Window Lexer) (ops : List Operation),
    ofSource source lookahead = .ok w → ∀ entry ∈ history ops w, entry.2.onToken = true := by
  intro h
  obtain ⟨w, hw, hlost⟩ : ∃ w, ofSource brokenText 4 = .ok w ∧
      ((history [.advance 8 false] w).all fun entry ↦ entry.2.onToken) = false :=
    exists_eq_ok_of_map_eq_some (by decide +kernel)
  have hall := List.all_eq_true.mpr (h brokenText 4 w [.advance 8 false] hw)
  exact absurd (hall.symm.trans hlost) (by simp)

/-! ## How many tokens are held -/

section

variable {σ : Type} [TokenSupply σ] {w w' w₁ : Window σ} {tokens rest : List Token} {t : Token}
  {passNewLine : Bool} {far more r n k count : Nat}

/-- The source never fails and never delivers more than it is asked for. -/
def IsModest (source : σ) : Prop :=
  ∃ M : σ → Prop, M source ∧ ∀ source count, M source → ∃ batch source',
    TokenSupply.nextBatch count source = (.ok batch, source') ∧ batch.length ≤ count ∧ M source'

theorem IsModest.next {source source' : σ} {batch : List Token} (h : IsModest source)
    (hbatch : TokenSupply.nextBatch count source = (.ok batch, source')) :
    batch.length ≤ count ∧ IsModest source' := by
  obtain ⟨M, hsource, hnext⟩ := h
  obtain ⟨batch, source', hbatch', hlength, hlater⟩ := hnext source count hsource
  rw [hbatch] at hbatch'
  cases hbatch'
  exact ⟨hlength, M, hlater, hnext⟩

/-- The source of the window, if it has one, is modest. -/
def Modest (w : Window σ) : Prop := ∀ source, w.source = some source → IsModest source

/-- Nowhere in the list are more than so many tokens in a row passed over. -/
def RunsWithin (r : Nat) (tokens : List Token) : Prop :=
  ∀ rest ∈ tokens.tails, (rest.takeWhile (isPassedOver true)).length ≤ r

/-- `w'` comes from `w` by looking over `far` tokens: tokens were pulled only while fewer were
held. -/
structure LooksOver (far : Nat) (w w' : Window σ) : Prop where
  /-- The last pull began with at most so many tokens. -/
  size_le : w'.size ≤ max w.size (w.passed + far + w.lookahead)
  /-- Nothing is passed. -/
  passed_eq : w'.passed = w.passed
  /-- Sight stays as it is. -/
  lookahead_eq : w'.lookahead = w.lookahead
  /-- The source stays modest. -/
  modest : w'.Modest

/-- `w'` comes from `w` by moving over `far` tokens: tokens were pulled only at the end of those
held. -/
structure MovesOver (far : Nat) (w w' : Window σ) : Prop where
  /-- The last pull began with at most so many tokens. -/
  size_le : w'.size ≤ max w.size (w.passed + far + w.lookahead)
  /-- The tokens are passed. -/
  passed_eq : w'.passed = w.passed + far
  /-- Sight stays as it is. -/
  lookahead_eq : w'.lookahead = w.lookahead
  /-- The source stays modest. -/
  modest : w'.Modest

omit [TokenSupply σ] in
theorem size_def (w : Window σ) : w.size = w.passed + w.ahead.length := rfl

theorem MovesOver.refl (h : w.Modest) : MovesOver 0 w w := ⟨Nat.le_max_left _ _, rfl, rfl, h⟩

theorem MovesOver.trans (h : MovesOver far w w₁) (h' : MovesOver more w₁ w') :
    MovesOver (far + more) w w' := by
  refine ⟨?_, by rw [h'.passed_eq, h.passed_eq, Nat.add_assoc],
    h'.lookahead_eq.trans h.lookahead_eq, h'.modest⟩
  have hsize := h'.size_le
  rw [h.passed_eq, h.lookahead_eq] at hsize
  have := h.size_le
  omega

theorem LooksOver.trans (h : LooksOver far w w₁) (h' : LooksOver more w₁ w') (hle : far ≤ more) :
    LooksOver more w w' := by
  refine ⟨?_, h'.passed_eq.trans h.passed_eq, h'.lookahead_eq.trans h.lookahead_eq, h'.modest⟩
  have hsize := h'.size_le
  rw [h.passed_eq, h.lookahead_eq] at hsize
  have := h.size_le
  omega

/-- A pull holds at most as many tokens more as it asks for. -/
theorem Streams.pull_modest (h : w.Streams tokens) (hmodest : w.Modest) (hcount : 0 < count) :
    ∃ w', Window.pull count w = .ok () w' ∧ w'.Streams tokens ∧ w'.passed = w.passed ∧
      w'.lookahead = w.lookahead ∧ w.ahead <+: w'.ahead ∧ w'.size ≤ w.size + count ∧ w'.Modest := by
  obtain ⟨w', hpull, hstreams, hpassed, hlook, more, hmore, -, hsource⟩ := h.pull hcount
  refine ⟨w', hpull, hstreams, hpassed, hlook, ⟨more, hmore.symm⟩, ?_⟩
  rw [size_def, size_def, hpassed, hmore, List.length_append]
  rcases hsource with rfl | ⟨source, source', hsource, hbatch, hsource'⟩
  · have hlength := congrArg List.length hmore
    rw [List.length_append] at hlength
    exact ⟨by omega, hmodest⟩
  · obtain ⟨hlength, hmodest'⟩ := (hmodest source hsource).next hbatch
    refine ⟨by omega, fun found hfound ↦ ?_⟩
    rw [hsource', Option.some.injEq] at hfound
    exact hfound ▸ hmodest'

/-- A token is pulled only if those held end in front of it. -/
theorem Streams.looksOver_of_hold (h : w.Streams tokens) (hmodest : w.Modest)
    (hrun : Window.hold n w = .ok () w') : LooksOver n w w' ∧ w'.Streams tokens := by
  unfold Window.hold at hrun
  split at hrun
  · next hempty =>
    obtain ⟨w₁, hpull, hstreams, hpassed, hlook, -, hsize, hmodest'⟩ :=
      h.pull_modest hmodest h.lookahead_pos
    rw [hpull] at hrun
    cases hrun
    rw [List.isEmpty_iff, List.drop_eq_nil_iff] at hempty
    refine ⟨⟨?_, hpassed, hlook, hmodest'⟩, hstreams⟩
    rw [size_def w] at hsize
    omega
  · cases hrun
    exact ⟨⟨Nat.le_max_left _ _, rfl, rfl, hmodest⟩, h⟩

theorem Streams.movesOver_of_step (h : w.Streams (t :: rest)) (hheld : w.ahead ≠ [])
    (hmodest : w.Modest)
    (hne : rest ≠ []) : ∃ w', Window.step w = .ok () w' ∧ w'.Streams rest ∧ w'.ahead ≠ [] ∧
      MovesOver 1 w w' := by
  obtain ⟨w', hstep, hstreams, hheld', hlook⟩ := h.step hheld hne
  refine ⟨w', hstep, hstreams, hheld', ?_⟩
  obtain ⟨w₁, hhold, -, -, ahead, hahead, hlast⟩ := h.hold_one hheld
  obtain ⟨hlooks, -⟩ := h.looksOver_of_hold hmodest hhold
  obtain ⟨next, later, rfl⟩ := List.exists_cons_of_ne_nil fun hnil ↦ hne (hlast hnil)
  unfold Window.step at hstep
  simp only [hhold, hahead, EStateM.Result.ok.injEq, true_and] at hstep
  subst hstep
  refine ⟨?_, by rw [← hlooks.passed_eq], hlooks.lookahead_eq, hlooks.modest⟩
  have hsize := hlooks.size_le
  rw [size_def w₁, hahead] at hsize
  simp only [size_def, List.length_cons] at hsize ⊢
  omega

theorem Streams.movesOver_of_skipWithin {fuel : Nat} (h : w.Streams tokens) (hheld : w.ahead ≠ [])
    (hmodest : w.Modest) (hrun : Window.skipWithin passNewLine fuel w = .ok () w') :
    ∃ far, far ≤ (tokens.takeWhile (isPassedOver passNewLine)).length ∧ MovesOver far w w' := by
  induction fuel generalizing w tokens with
  | zero =>
    cases hrun
    exact ⟨0, Nat.zero_le _, .refl hmodest⟩
  | succ fuel ih =>
    obtain ⟨t, rest, rfl⟩ := List.exists_cons_of_ne_nil h.closed.ne_nil
    rw [Window.skipWithin, get_bind_run, ite_run, current_eq h hheld] at hrun
    cases hpassed : isPassedOver passNewLine t with
    | false =>
      rw [hpassed, if_neg (by simp)] at hrun
      cases hrun
      exact ⟨0, Nat.zero_le _, .refl hmodest⟩
    | true =>
      have hne : rest ≠ [] := by
        rintro rfl
        rcases closed_cons_iff.mp h.closed with ⟨hend, -⟩ | ⟨-, hclosed⟩
        · exact absurd (hend.symm.trans (isEnd_of_isPassedOver hpassed)) (by simp)
        · exact hclosed.ne_nil rfl
      obtain ⟨w₁, hstep, hstreams, hheld₁, hmoves⟩ := h.movesOver_of_step hheld hmodest hne
      rw [hpassed, if_pos rfl, bind_eq_of_ok hstep] at hrun
      obtain ⟨far, hfar, hmoves'⟩ := ih hstreams hheld₁ hmoves.modest hrun
      refine ⟨1 + far, ?_, hmoves.trans hmoves'⟩
      rw [List.takeWhile_cons, if_pos hpassed, List.length_cons]
      omega

/-- Passing over blanks, comments and perhaps line breaks moves over as many tokens. -/
theorem Streams.movesOver_of_skip (passNewLine : Bool) (h : w.Streams tokens) (hheld : w.ahead ≠ [])
    (hmodest : w.Modest) : ∃ w' far, Window.skip passNewLine w = .ok () w' ∧
      w'.Streams (tokens.dropWhile (isPassedOver passNewLine)) ∧ w'.ahead ≠ [] ∧
      far ≤ (tokens.takeWhile (isPassedOver passNewLine)).length ∧ MovesOver far w w' := by
  obtain ⟨w', hskip, hstreams, hheld', -⟩ := h.skip passNewLine hheld
  obtain ⟨far, hfar, hmoves⟩ : ∃ far, far ≤ (tokens.takeWhile (isPassedOver passNewLine)).length ∧
      MovesOver far w w' := by
    unfold Window.skip at hskip
    split at hskip
    · exact h.movesOver_of_skipWithin hheld hmodest hskip
    · cases hskip
      exact ⟨0, Nat.zero_le _, .refl hmodest⟩
  exact ⟨w', far, hskip, hstreams, hheld', hfar, hmoves⟩

theorem RunsWithin.of_suffix (h : RunsWithin r tokens) (hle : rest <:+ tokens) :
    RunsWithin r rest :=
  fun later hlater ↦ h later ((List.mem_tails _ _).mpr (((List.mem_tails _ _).mp hlater).trans hle))

theorem runsWithin_zero (h : ∀ t ∈ tokens, isPassedOver true t = false) : RunsWithin 0 tokens := by
  intro rest hrest
  cases rest with
  | nil => exact Nat.le_refl 0
  | cons t rest =>
    have ht := h t (((List.mem_tails _ _).mp hrest).mem (List.mem_cons_self ..))
    rw [List.takeWhile_cons, if_neg (by simp [ht])]
    exact Nat.le_refl 0

/-- What is passed over at once is a run, whether line breaks are passed or not. -/
theorem RunsWithin.length_takeWhile_le (h : RunsWithin r tokens) (passNewLine : Bool) :
    (tokens.takeWhile (isPassedOver passNewLine)).length ≤ r := by
  have hsame : tokens.takeWhile (isPassedOver passNewLine) =
      (tokens.takeWhile (isPassedOver true)).takeWhile (isPassedOver passNewLine) := by
    rw [List.takeWhile_takeWhile]
    refine congrArg (tokens.takeWhile ·) (funext fun t ↦ ?_)
    rw [isPassedOver, isPassedOver]
    cases t.lexeme.isTrivia <;> cases passNewLine <;> cases t.kind == .newLine <;> rfl
  rw [hsame]
  exact Nat.le_trans (List.takeWhile_prefix _).length_le
    (h tokens ((List.mem_tails _ _).mpr (List.suffix_refl _)))

/-- Each of several moves goes over one token and a run. -/
theorem Streams.movesOver_of_advanceBy (passNewLine : Bool) (count : Nat) (h : w.Streams tokens)
    (hheld : w.ahead ≠ []) (hmodest : w.Modest) (hruns : RunsWithin r tokens) :
    ∃ w' rest far, Window.advanceBy passNewLine count w = .ok () w' ∧ w'.Streams rest ∧
    w'.ahead ≠ [] ∧
      rest <:+ tokens ∧ far ≤ count * (r + 1) ∧ MovesOver far w w' := by
  induction count generalizing w tokens with
  | zero => exact ⟨w, tokens, 0, rfl, h, hheld, List.suffix_refl _, Nat.zero_le _, .refl hmodest⟩
  | succ count ih =>
    obtain ⟨t, rest, rfl⟩ := List.exists_cons_of_ne_nil h.closed.ne_nil
    have hcurrent := current_eq h hheld
    rcases closed_cons_iff.mp h.closed with ⟨hend, -⟩ | ⟨hend, hclosed⟩
    · exact ⟨w, t :: rest, 0, advanceBy_ended (hcurrent.symm ▸ hend), h, hheld, List.suffix_refl _,
        Nat.zero_le _, .refl hmodest⟩
    · obtain ⟨w₁, hstep, hstreams₁, hheld₁, hmoves₁⟩ :=
        h.movesOver_of_step hheld hmodest hclosed.ne_nil
      obtain ⟨w₂, run, hskip, hstreams₂, hheld₂, hrun, hmoves₂⟩ :=
        hstreams₁.movesOver_of_skip passNewLine hheld₁ hmoves₁.modest
      have hsuffix : rest.dropWhile (isPassedOver passNewLine) <:+ t :: rest :=
        (List.dropWhile_suffix _).trans (List.suffix_cons _ _)
      have hrunLe := (hruns.of_suffix (List.suffix_cons t rest)).length_takeWhile_le passNewLine
      obtain ⟨w₃, later, far, hby, hstreams₃, hheld₃, hsuffix₃, hfar, hmoves₃⟩ :=
        ih hstreams₂ hheld₂ hmoves₂.modest (hruns.of_suffix hsuffix)
      refine ⟨w₃, later, 1 + run + far, ?_, hstreams₃, hheld₃, hsuffix₃.trans hsuffix, ?_,
        (hmoves₁.trans hmoves₂).trans hmoves₃⟩
      · have hended : w.isEnded = false := by
          rw [isEnded, kind, hcurrent]
          exact hend
        simp only [Window.advanceBy, get_bind_run, hended, Bool.not_false, if_true]
        rw [bind_eq_of_ok hstep, bind_eq_of_ok hskip, hby]
      · rw [Nat.succ_mul]
        omega

/-- As many tokens are pulled as are forgotten, at most. -/
theorem Streams.forget_modest (rounds : Nat) (h : w.Streams tokens) (hheld : w.ahead ≠ [])
    (hmodest : w.Modest) (hrounds : w.lookahead * rounds ≤ w.passed) :
    ∃ w', Window.forget rounds w = .ok () w' ∧ w'.Streams tokens ∧ w'.ahead ≠ [] ∧
      w'.passed = w.passed - w.lookahead * rounds ∧ w'.lookahead = w.lookahead ∧ w'.size ≤ w.size ∧
      w'.Modest := by
  induction rounds generalizing w with
  | zero => exact ⟨w, rfl, h, hheld, rfl, rfl, Nat.le_refl _, hmodest⟩
  | succ rounds ih =>
    rw [Nat.mul_succ] at hrounds
    have hless : ({ w with passed := w.passed - w.lookahead } : Window σ).Streams tokens :=
      ⟨h.sight, h.split, h.closed⟩
    obtain ⟨w₁, hpull, hstreams, hpassed, hlook, hprefix, hsize, hmodest₁⟩ :=
      hless.pull_modest hmodest h.lookahead_pos
    simp only [size_def] at hpassed hlook hsize
    obtain ⟨w₂, hforget, hstreams₂, hheld₂, hpassed₂, hlook₂, hsize₂, hmodest₂⟩ :=
      ih hstreams (fun hnil ↦ hheld (List.prefix_nil.mp (hnil ▸ hprefix))) hmodest₁
        (by rw [hlook, hpassed]; omega)
    refine ⟨w₂, ?_, hstreams₂, hheld₂, ?_, hlook₂.trans hlook, ?_, hmodest₂⟩
    · rw [Window.forget, modify_bind_run, get_bind_run, bind_eq_of_ok hpull, hforget]
    · rw [hpassed₂, hpassed, hlook, Nat.mul_succ]
      omega
    · rw [size_def, size_def] at *
      omega

/-- Forgetting leaves less than a bound's worth of passed tokens. -/
theorem Streams.forgetPassed_modest (h : w.Streams tokens) (hheld : w.ahead ≠ [])
    (hmodest : w.Modest) :
    ∃ w', Window.forgetPassed w = .ok () w' ∧ w'.Streams tokens ∧ w'.ahead ≠ [] ∧
      w'.passed < w.lookahead ∧ w'.lookahead = w.lookahead ∧ w'.size ≤ w.size ∧ w'.Modest := by
  obtain ⟨w', hforget, hstreams, hheld', hpassed, hlook, hsize, hmodest'⟩ :=
    h.forget_modest (w.passed / w.lookahead) hheld hmodest (Nat.mul_div_le _ _)
  refine ⟨w', hforget, hstreams, hheld', ?_, hlook, hsize, hmodest'⟩
  rw [hpassed, ← Nat.mod_eq_sub_mul_div]
  exact Nat.mod_lt _ h.lookahead_pos

/-! ### Looking ahead -/

/-- A walk goes over the run behind its first token, and over one token and a run for each further
one wanted. -/
theorem Walk.place_le_run {place : Nat} (h : Walk passNewLine (t :: rest) (count + 1) place)
    (hruns : RunsWithin r rest) :
    place ≤ (rest.takeWhile (isPassedOver passNewLine)).length + 1 + count * (r + 1) := by
  generalize hl : t :: rest = l at h
  generalize hn : count + 1 = m at h
  induction h generalizing t rest count with
  | here => cases hn
  | ended _ => exact Nat.zero_le _
  | @on u next more m place _ hwalk ih =>
    obtain ⟨rfl, rfl⟩ := List.cons.inj hl
    obtain rfl : count = m := Nat.succ.inj hn
    have hruns' : RunsWithin r more := hruns.of_suffix (List.suffix_cons next more)
    cases hnext : isPassedOver passNewLine next with
    | true =>
      rw [hnext, if_pos rfl] at ih
      have hle := ih hruns' rfl rfl
      rw [List.takeWhile_cons, if_pos hnext, List.length_cons]
      omega
    | false =>
      rw [hnext, if_neg (by simp)] at hwalk ih
      cases count with
      | zero =>
        obtain rfl : place = 0 := hwalk.unique .here
        omega
      | succ count =>
        have hle := ih hruns' rfl rfl
        have hrun := hruns'.length_takeWhile_le passNewLine
        rw [Nat.succ_mul]
        omega

theorem Walk.place_le {place : Nat} (h : Walk passNewLine tokens count place)
    (hruns : RunsWithin r tokens) :
    place ≤ count * (r + 1) := by
  cases h with
  | here => exact Nat.zero_le _
  | ended _ => exact Nat.zero_le _
  | @on t next rest count place ht h =>
    have hruns' := hruns.of_suffix (List.suffix_cons t (next :: rest))
    have hle := (Walk.on ht h).place_le_run hruns'
    have hrun := hruns'.length_takeWhile_le passNewLine
    rw [Nat.succ_mul]
    omega

theorem Streams.looksOver_of_reach {fuel place : Nat} (h : w.Streams tokens) (hmodest : w.Modest)
    (hrun : Window.reach passNewLine fuel count n w = .ok place w') :
    n ≤ place ∧ LooksOver place w w' := by
  induction fuel generalizing w count n with
  | zero =>
    cases hrun
    exact ⟨Nat.le_refl _, Nat.le_max_left _ _, rfl, rfl, hmodest⟩
  | succ fuel ih =>
    cases count with
    | zero =>
      cases hrun
      exact ⟨Nat.le_refl _, Nat.le_max_left _ _, rfl, rfl, hmodest⟩
    | succ count =>
      rw [Window.reach, get_bind_run, ite_run] at hrun
      split at hrun
      · cases hrun
        exact ⟨Nat.le_refl _, Nat.le_max_left _ _, rfl, rfl, hmodest⟩
      · obtain ⟨_, w₁, hhold, hrun⟩ := bind_eq_ok_iff.mp hrun
        obtain ⟨hlooks, hstreams⟩ := h.looksOver_of_hold hmodest hhold
        obtain ⟨hle, hlooks'⟩ := ih hstreams hlooks.modest hrun
        exact ⟨Nat.le_of_succ_le hle, hlooks.trans hlooks' hle⟩

/-- Looking ahead looks over one token and a run for each token wanted, or is refused. -/
theorem Streams.looksOver_of_peek (passNewLine : Bool) (count : Nat) (h : w.Streams tokens)
    (hheld : w.ahead ≠ []) (hmodest : w.Modest) (hruns : RunsWithin r tokens) :
    (∃ e, Window.peek count passNewLine w = .error e w) ∨
      ∃ found w' far, Window.peek count passNewLine w = .ok found w' ∧ w'.Streams tokens ∧
      w'.ahead ≠ [] ∧
        far ≤ count * (r + 1) ∧ LooksOver far w w' := by
  by_cases hfar : w.lookahead < count
  · have hlocate : Window.locate count passNewLine w =
        .error (w.error (.lookaheadExceeded count w.lookahead)) w := if_pos hfar
    exact .inl ⟨_, bind_eq_of_error hlocate⟩
  · obtain ⟨place, w', hlocate, hstreams, hwalk, hlength, hlook⟩ :=
      h.locate hheld passNewLine (Nat.le_of_not_lt hfar)
    refine .inr ⟨w'.held place, w', place, ?_, hstreams,
      List.ne_nil_of_length_pos (Nat.zero_lt_of_lt hlength), hwalk.place_le hruns, ?_⟩
    · rw [Window.peek, bind_eq_of_ok hlocate, get_bind_run]
      rfl
    · unfold Window.locate at hlocate
      rw [if_neg hfar] at hlocate
      split at hlocate
      · cases hlocate
        exact ⟨Nat.le_max_left _ _, rfl, rfl, hmodest⟩
      · exact (h.looksOver_of_reach hmodest hlocate).2

/-! ### Reading -/

/-- The operation moves or looks over at most so many tokens that are not passed over, and replaces
none. -/
def Operation.ReadsWithin (n : Nat) : Operation → Prop
  | .advance count _ | .peek count _ => count ≤ n
  | .skipNewLines => True
  | _ => False

/-- What is known of a window on a modest source between operations that read at most `n` tokens
each. -/
structure Bounded (tokens : List Token) (k r n : Nat) (w : Window σ) : Prop where
  /-- What is to come is a last part of the tokens. -/
  streams : ∃ rest, rest <:+ tokens ∧ w.Streams rest
  /-- The current token is held. -/
  held : w.ahead ≠ []
  /-- The source is modest. -/
  modest : w.Modest
  /-- How far the window sees. -/
  lookahead_eq : w.lookahead = k
  /-- Passed tokens are forgotten after every move, but not behind the first run. -/
  passed_le : w.passed ≤ max (k - 1) r
  /-- The bound on the tokens held. -/
  size_le : w.size ≤ max (k - 1) r + k + n * (r + 1)

/-- After a move, passed tokens are forgotten. -/
theorem Bounded.forgetPassed (h : Bounded tokens k r n w) (hrest : rest <:+ tokens)
    (hstreams : w₁.Streams rest) (hheld : w₁.ahead ≠ []) (hfar : far ≤ n * (r + 1))
    (hmoves : MovesOver far w w₁) :
    ∃ w', Window.forgetPassed w₁ = .ok () w' ∧ Bounded tokens k r n w' := by
  obtain ⟨w', hforget, hstreams', hheld', hpassed, hlook, hsize, hmodest⟩ :=
    hstreams.forgetPassed_modest hheld hmoves.modest
  have hk := hmoves.lookahead_eq.trans h.lookahead_eq
  refine ⟨w', hforget, ⟨rest, hrest, hstreams'⟩, hheld', hmodest, hlook.trans hk, ?_, ?_⟩
  · omega
  · have := hmoves.size_le
    have := h.size_le
    have := h.passed_le
    have := h.lookahead_eq
    omega

theorem Bounded.run (h : Bounded tokens k r n w) (hruns : RunsWithin r tokens) (hn : 0 < n)
    {op : Operation} (hop : op.ReadsWithin n) : Bounded tokens k r n (op.run w).2 := by
  obtain ⟨rest, hrest, hstreams⟩ := h.streams
  have hruns' := hruns.of_suffix hrest
  cases op with
  | advance count passNewLine =>
    obtain ⟨w₁, later, far, hby, hstreams₁, hheld₁, hlater, hfar, hmoves⟩ :=
      hstreams.movesOver_of_advanceBy passNewLine count h.held h.modest hruns'
    obtain ⟨w₂, hforget, hbounded⟩ := h.forgetPassed (hlater.trans hrest) hstreams₁ hheld₁
      (Nat.le_trans hfar (Nat.mul_le_mul_right _ hop)) hmoves
    have hadvance : Window.advance count passNewLine w = .ok () w₂ := by
      rw [Window.advance, bind_eq_of_ok hby, hforget]
    rwa [Operation.run_of_ok (bind_eq_of_ok hadvance)]
  | skipNewLines =>
    obtain ⟨w₁, far, hskip, hstreams₁, hheld₁, hfar, hmoves⟩ :=
      hstreams.movesOver_of_skip true h.held h.modest
    have hrun := Nat.le_trans hfar (hruns'.length_takeWhile_le true)
    obtain ⟨w₂, hforget, hbounded⟩ :=
      h.forgetPassed ((List.dropWhile_suffix _).trans hrest) hstreams₁ hheld₁
      (Nat.le_trans hrun (Nat.le_trans (Nat.le_succ r) (Nat.le_mul_of_pos_left _ hn))) hmoves
    have hskipNewLines : Window.skipNewLines w = .ok () w₂ := by
      rw [Window.skipNewLines, bind_eq_of_ok hskip, hforget]
    rwa [Operation.run_of_ok (bind_eq_of_ok hskipNewLines)]
  | peek count passNewLine =>
    rcases hstreams.looksOver_of_peek passNewLine count h.held h.modest hruns' with
      ⟨e, hpeek⟩ | ⟨found, w', far, hpeek, hstreams', hheld', hfar, hlooks⟩
    · rwa [Operation.run_of_error (bind_eq_of_error hpeek)]
    · rw [Operation.run_of_ok (bind_eq_of_ok hpeek)]
      refine ⟨⟨rest, hrest, hstreams'⟩, hheld', hlooks.modest,
        hlooks.lookahead_eq.trans h.lookahead_eq, hlooks.passed_eq ▸ h.passed_le, ?_⟩
      have hle : far ≤ n * (r + 1) := Nat.le_trans hfar (Nat.mul_le_mul_right _ hop)
      have := hlooks.size_le
      have := h.size_le
      have := h.passed_le
      have := h.lookahead_eq
      dsimp only
      omega
  | peekIs | is | expect | expectName | expectKind | replace => exact hop.elim

theorem Bounded.history (h : Bounded tokens k r n w) (hruns : RunsWithin r tokens) (hn : 0 < n)
    {ops : List Operation} (hops : ∀ op ∈ ops, op.ReadsWithin n) :
    ∀ entry ∈ history ops w, Bounded tokens k r n entry.2 := by
  induction ops generalizing w with
  | nil => simp [Window.history]
  | cons op ops ih =>
    obtain ⟨hop, hops⟩ := List.forall_mem_cons.mp hops
    have hrun := h.run hruns hn hop
    exact List.forall_mem_cons.mpr ⟨hrun, ih hrun hops⟩

/-- A new window has pulled twice its lookahead, or as much as the first run needed. -/
theorem exists_ofSource_bounded {source : σ} (hsource : Supplies source tokens)
    (hclosed : Closed tokens)
    (hmodest : IsModest source) (hruns : RunsWithin r tokens) (hk : minLookahead ≤ k) (hn : 0 < n) :
    ∃ w, ofSource source k = .ok w ∧ Bounded tokens k r n w := by
  have hnew : (⟨0, [], k, some source, false⟩ : Window σ).Streams tokens :=
    ⟨hk, ⟨tokens, rfl, by simp [Pending, hclosed.ne_nil, hsource]⟩, hclosed⟩
  have hnewModest : (⟨0, [], k, some source, false⟩ : Window σ).Modest :=
    fun found hfound ↦ Option.some.inj hfound ▸ hmodest
  obtain ⟨w₁, hpull, hstreams₁, hpassed₁, hlook₁, -, hsize₁, hmodest₁⟩ :=
    hnew.pull_modest hnewModest (show 0 < 2 * k from Nat.mul_pos Nat.two_pos hnew.lookahead_pos)
  have hheld₁ : w₁.ahead ≠ [] := by
    have hcases := pull_cases (2 * k) (⟨0, [], k, some source, false⟩ : Window σ)
    rw [hpull] at hcases
    exact hcases.2 rfl rfl
  obtain ⟨w₂, far, hskip, hstreams₂, hheld₂, hfar, hmoves⟩ :=
    hstreams₁.movesOver_of_skip false hheld₁ hmodest₁
  have hrun := Nat.le_trans hfar (hruns.length_takeWhile_le false)
  refine ⟨w₂, ?_, ⟨_, List.dropWhile_suffix _, hstreams₂⟩, hheld₂, hmoves.modest,
    hmoves.lookahead_eq.trans hlook₁, ?_, ?_⟩
  · rw [ofSource, Nat.max_eq_left hk]
    simp only [bind_eq_of_ok hpull, hskip]
  · have hpassed := hmoves.passed_eq
    simp only at hpassed₁
    omega
  · have hsize := hmoves.size_le
    have hfirst : 1 ≤ n * (r + 1) := Nat.mul_pos hn (Nat.succ_pos r)
    have hnone : (⟨0, [], k, some source, false⟩ : Window σ).size = 0 := rfl
    simp only at hpassed₁ hlook₁
    omega

/-- **How many tokens a window holds.** Let a source deliver tokens of which at most `r` in a row
are passed over, and never more at once than it is asked for. If every operation moves or looks over
at most `n` tokens, besides those that are passed over, then after each of them a window with the
lookahead `k` holds at most `max (k - 1) r + k + n * (r + 1)` tokens. Where nothing is passed over
and every operation reads one token, these are `2 * k`. -/
theorem exists_ofSource_size_le {source : σ} (hsource : Supplies source tokens)
    (hclosed : Closed tokens)
    (hmodest : IsModest source) (hruns : RunsWithin r tokens) (hk : minLookahead ≤ k) (hn : 0 < n)
    {ops : List Operation} (hops : ∀ op ∈ ops, op.ReadsWithin n) :
    ∃ w, ofSource source k = .ok w ∧
      ∀ entry ∈ history ops w, entry.2.size ≤ max (k - 1) r + k + n * (r + 1) := by
  obtain ⟨w, hw, hbounded⟩ := exists_ofSource_bounded hsource hclosed hmodest hruns hk hn
  exact ⟨w, hw, fun entry hentry ↦ (hbounded.history hruns hn hops entry hentry).size_le⟩

end

end Window

/-- A lexer that delivers its tokens is modest. -/
theorem Lexer.Delivers.isModest {lx : Lexer} {tokens : List Token} (h : Lexer.Delivers lx tokens) :
    Window.IsModest lx := by
  refine ⟨fun lx ↦ ∃ tokens, Lexer.Delivers lx tokens, ⟨tokens, h⟩, ?_⟩
  rintro lx count ⟨tokens, h⟩
  obtain ⟨lx', hbatch, hlater⟩ := h.batchWith_eq count []
  refine ⟨tokens.take count, lx', ?_, List.length_take_le _ _, _, hlater⟩
  simp [TokenSupply.nextBatch, Lexer.batch, hbatch]

namespace Window

/-- Twenty names. -/
def namesText : Lexer := .ofText (.plain '#') "a b c d e f g h i j k l m n o p q r s t"

/-- The tokens of the names, none of which is passed over. -/
theorem exists_namesText_delivers : ∃ tokens, Lexer.Delivers namesText tokens ∧ Closed tokens ∧
    ∀ t ∈ tokens, isPassedOver true t = false := by
  obtain ⟨tokens, h, htokens⟩ : ∃ tokens, namesText.tokenize = .ok tokens ∧
      (tokens.all fun t ↦ !isPassedOver true t) = true :=
    exists_eq_ok_of_map_eq_some (by decide +kernel)
  obtain ⟨hdelivers, hclosed⟩ := Lexer.delivers_ofText_plain h
  exact ⟨tokens, hdelivers, hclosed, by simpa using htokens⟩

/-- Where nothing is passed over and every operation reads one token, twice the lookahead is
enough. -/
theorem exists_ofSource_size_le_namesText :
    (∃ tokens, Supplies namesText tokens ∧ Closed tokens ∧ IsModest namesText ∧
      RunsWithin 0 tokens) ∧
      ∃ w, ofSource namesText 4 = .ok w ∧
        ∀ entry ∈ history (List.replicate 20 (.advance 1 true)) w, entry.2.size ≤ 2 * 4 := by
  obtain ⟨tokens, hdelivers, hclosed, hnone⟩ := exists_namesText_delivers
  have hruns := runsWithin_zero hnone
  refine ⟨⟨tokens, hdelivers.supplies, hclosed, hdelivers.isModest, hruns⟩, ?_⟩
  exact exists_ofSource_size_le (n := 1) hdelivers.supplies hclosed hdelivers.isModest
    hruns (by decide)
    Nat.one_pos fun op hop ↦ List.eq_of_mem_replicate hop ▸ Nat.le_refl 1

/-- **A window can hold more than twice its lookahead.** It pulls the tokens it needs for a move
over eight of them, and then one more for each that it forgets. -/
theorem not_size_le_two_mul :
    ¬ ∀ (source : Lexer) (tokens : List Token) (k n : Nat) (w : Window Lexer)
    (ops : List Operation), Supplies source tokens → Closed tokens → IsModest source →
      (∀ t ∈ tokens, isSignificant t = true) → minLookahead ≤ k → (∀ op ∈ ops, op.ReadsWithin n) →
      ofSource source k = .ok w → ∀ entry ∈ history ops w, entry.2.size ≤ 2 * k := by
  intro h
  obtain ⟨tokens, hdelivers, hclosed, hnone⟩ := exists_namesText_delivers
  obtain ⟨w, hw, hsize⟩ : ∃ w, ofSource namesText 4 = .ok w ∧
      ((history [.advance 8 false] w).all fun entry ↦ entry.2.size ≤ 2 * 4) = false :=
    exists_eq_ok_of_map_eq_some (by decide +kernel)
  have hall :=
    h namesText tokens 4 8 w [.advance 8 false] hdelivers.supplies hclosed hdelivers.isModest
    (fun t ht ↦ isSignificant_of_not_isPassedOver (hnone t ht)) (by decide)
    (fun op hop ↦ List.mem_singleton.mp hop ▸ Nat.le_refl 8) hw
  have hsmall : ((history [.advance 8 false] w).all fun entry ↦ entry.2.size ≤ 2 * 4) = true :=
    List.all_eq_true.mpr fun entry hentry ↦ decide_eq_true (hall entry hentry)
  exact absurd (hsmall.symm.trans hsize) (by simp)

end Window

end ScriptFront
