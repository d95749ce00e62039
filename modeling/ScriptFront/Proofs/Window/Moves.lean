import ScriptFront.Proofs.Lexer.Failures
import ScriptFront.Proofs.Lexer.Genuine

/-!
# How a window moves

For any rules and any extensions, a window on a lexer changes in four ways: it pulls more tokens, it
passes the current one, it forgets how many were passed, and an extension may put a token in place
of some that are held. `Window.Move` lists these, and `Window.Leads` closes them under repetition
and collects the tokens that were passed. So an invariant of windows is proved for four moves, and
holds then after everything a parser does.

A window is *firm* if the end of its tokens is held or still to be asked for. Firm windows never run
out of fuel, they fail only as their lexer does, and every token passed lowers the bound that the
window states on the number of tokens left. This is what the loops of the parser are bounded by. A
*sound* window is one whose lexer may have any rules and any tame extensions.
-/

namespace ScriptFront.Window

/-- The last token is the end. -/
def IsTerminated (tokens : List Token) : Prop := ∃ t ∈ tokens.getLast?, t.isEnd = true

/-- The end of the tokens is held or still to come, and pulling fails in no other way than `E`
says. -/
structure Firm (E : ScriptError → Prop) (w : Window Lexer) : Prop where
  /-- A token is current. -/
  held : w.ahead ≠ []
  /-- A window is never made with less sight. -/
  sight : minLookahead ≤ w.lookahead
  /-- If no further tokens come, the last one held is the end. -/
  ended : w.exhausted = true → IsTerminated w.ahead
  /-- Otherwise the lexer has not yielded the end. -/
  source : w.exhausted = false → ∃ lx, w.source = some lx ∧ lx.IsOpen ∧ lx.dialect.IsTame ∧
    lx.dialect.FailsOnly E

/-- The end of the tokens is held or still to come. In a `plain` window all tokens are held, and
they are such as a text can have. -/
structure Sound (plain : Prop) (w : Window Lexer) : Prop where
  /-- A token is current. -/
  held : w.ahead ≠ []
  /-- A window is never made with less sight. -/
  sight : minLookahead ≤ w.lookahead
  /-- If no further tokens come, the last one held is the end. -/
  ended : w.exhausted = true → IsTerminated w.ahead
  /-- Otherwise the lexer has not yielded the end. -/
  source : w.exhausted = false → ∃ lx, w.source = some lx ∧ lx.IsOpen ∧ lx.dialect.IsTame
  /-- What is known of the tokens of a plain window. -/
  genuine : plain → w.exhausted = true ∧ ∀ t ∈ w.ahead, t.IsGenuine

/-- One change of a window, and the tokens passed by it. If the window is `plain`, no extension
takes part. -/
inductive Move (plain : Prop) : Window Lexer → List Token → Window Lexer → Prop
  /-- More tokens are pulled. -/
  | pull {w w' : Window Lexer} {count : Nat} (hcount : 0 < count)
      (h : Window.pull count w = .ok () w') : Move plain w [] w'
  /-- The current token is passed. -/
  | pass {w : Window Lexer} {t next : Token} {rest : List Token}
      (hahead : w.ahead = t :: next :: rest)
      (ht : t.isEnd = false) :
      Move plain w [t] { w with passed := w.passed + 1, ahead := next :: rest }
  /-- Another number of tokens counts as passed. -/
  | forget (w : Window Lexer) (passed : Nat) : Move plain w [] { w with passed }
  /-- A token is put in place of those held up to one that is not the end. -/
  | replace {w : Window Lexer} {t : Token} {n : Nat} (lexeme : Lexeme) (hplain : ¬ plain)
      (ht : w.ahead[n]? = some t) (hend : t.isEnd = false) (hlexeme : lexeme.kind ≠ .endOfInput) :
      Move plain w [] { w with ahead := w.current.withLexeme lexeme :: w.ahead.drop (n + 1) }

/-- Some moves, and the tokens passed by them. -/
inductive Leads (plain : Prop) (w : Window Lexer) : List Token → Window Lexer → Prop
  | refl : Leads plain w [] w
  | tail {w₁ w₂ : Window Lexer} {read more : List Token} (h : Leads plain w read w₁)
      (hmove : Move plain w₁ more w₂) : Leads plain w (read ++ more) w₂

variable {plain : Prop} {E : ScriptError → Prop} {w w₁ w₂ : Window Lexer} {read more : List Token}

theorem Sound.firm (h : Sound plain w) : Firm ScriptError.IsOfLexer w := by
  refine ⟨h.held, h.sight, h.ended, fun hex ↦ ?_⟩
  obtain ⟨lx, hlx, hopen, htame⟩ := h.source hex
  exact ⟨lx, hlx, hopen, htame, htame.failsOnly⟩

/-- More failures may be expected. -/
theorem Firm.loosen {E' : ScriptError → Prop} (h : Firm E w) (hE : ∀ e, E e → E' e) :
    Firm E' w := by
  refine ⟨h.held, h.sight, h.ended, fun hex ↦ ?_⟩
  obtain ⟨lx, hlx, hopen, htame, hfails⟩ := h.source hex
  exact ⟨lx, hlx, hopen, htame, fun lx lx' count e hd hbatch ↦
    hE e (hfails lx lx' count e hd hbatch)⟩

theorem Firm.sound (h : Firm E w) (hgenuine : plain → w.exhausted = true ∧ ∀ t ∈ w.ahead,
    t.IsGenuine) :
    Sound plain w := by
  refine ⟨h.held, h.sight, h.ended, fun hex ↦ ?_, hgenuine⟩
  obtain ⟨lx, hlx, hopen, htame, -⟩ := h.source hex
  exact ⟨lx, hlx, hopen, htame⟩

theorem Leads.trans (h : Leads plain w read w₁) (h' : Leads plain w₁ more w₂) :
    Leads plain w (read ++ more) w₂ := by
  induction h' with
  | refl => simpa using h
  | tail _ hmove ih =>
    rw [← List.append_assoc]
    exact .tail ih hmove

theorem Move.leads (h : Move plain w read w₁) : Leads plain w read w₁ := .tail .refl h

theorem Leads.trans_nil (h : Leads plain w read w₁) (h' : Leads plain w₁ [] w₂) :
    Leads plain w read w₂ := by
  have := h.trans h'
  rwa [List.append_nil] at this

/-! ## What pulling does -/

theorem isTerminated_append {front back : List Token} (h : IsTerminated back) :
    IsTerminated (front ++ back) := by
  obtain ⟨t, ht, hend⟩ := h
  refine ⟨t, ?_, hend⟩
  rw [List.getLast?_append, Option.mem_def.mp ht]
  rfl

theorem isTerminated_of_cons {t : Token} {tokens : List Token} (h : IsTerminated (t :: tokens))
    (hne : tokens ≠ []) : IsTerminated tokens := by
  obtain ⟨u, rest, rfl⟩ := List.exists_cons_of_ne_nil hne
  obtain ⟨last, hlast, hend⟩ := h
  rw [List.getLast?_cons_cons] at hlast
  exact ⟨last, hlast, hend⟩

/-- A list is closed by nothing or by an end token. -/
theorem terminated_cases (tokens : List Token) :
    terminated tokens = tokens ∧ IsTerminated tokens ∨
      ∃ t, t.isEnd = true ∧ terminated tokens = tokens ++ [t] ∧ ¬ IsTerminated tokens := by
  unfold terminated
  cases hlast : tokens.getLast? with
  | none =>
    have hnil : tokens = [] := List.getLast?_eq_none_iff.mp hlast
    refine .inr ⟨endAfter none, rfl, by rw [hnil]; rfl, ?_⟩
    rintro ⟨t, ht, -⟩
    simp [hlast] at ht
  | some t =>
    by_cases hend : t.isEnd = true
    · exact .inl ⟨by simp [hend], t, hlast, hend⟩
    · refine .inr ⟨endAfter (some t), rfl, by simp [hend], ?_⟩
      rintro ⟨u, hu, huend⟩
      rw [hlast] at hu
      obtain rfl : t = u := by simpa using hu
      exact hend huend

theorem isTerminated_terminated (tokens : List Token) : IsTerminated (terminated tokens) := by
  rcases terminated_cases tokens with ⟨heq, h⟩ | ⟨t, hend, heq, -⟩
  · rwa [heq]
  · rw [heq]
    exact isTerminated_append ⟨t, rfl, hend⟩

/-- What a successful pull does to a window that is not exhausted. -/
structure Pulled (w w' : Window Lexer) : Prop where
  /-- Tokens are added behind those held. -/
  ahead : ∃ more, w'.ahead = w.ahead ++ more ∧ more ≠ []
  /-- The bound on the tokens left does not rise. -/
  left : w'.tokensLeft ≤ w.tokensLeft
  /-- Sight stays as it is. -/
  lookahead : w'.lookahead = w.lookahead
  /-- If no further tokens come, the last one held is the end. -/
  ended : w'.exhausted = true → IsTerminated w'.ahead
  /-- Otherwise the lexer has not yielded the end, and cuts as before. -/
  source : w'.exhausted = false → ∃ lx lx', w.source = some lx ∧ w'.source = some lx' ∧ lx'.IsOpen ∧
    lx'.dialect = lx.dialect

theorem nextBatch_of_ok {count : Nat} {lx lx' : Lexer} {batch : List Token}
    (h : Lexer.batch count lx = .ok batch lx') :
    TokenSupply.nextBatch count lx = (.ok batch, lx') := by
  simp only [TokenSupply.nextBatch, h]

theorem nextBatch_of_error {count : Nat} {lx lx' : Lexer} {e : ScriptError}
    (h : Lexer.batch count lx = .error e lx') :
    TokenSupply.nextBatch count lx = (.error e, lx') := by
  simp only [TokenSupply.nextBatch, h]

theorem nextBatch_eq_ok {count : Nat} {lx lx' : Lexer} {batch : List Token}
    (h : TokenSupply.nextBatch count lx = (.ok batch, lx')) :
    Lexer.batch count lx = .ok batch lx' := by
  cases hbatch : Lexer.batch count lx with
  | ok tokens lexer =>
    rw [nextBatch_of_ok hbatch] at h
    cases h
    rfl
  | error e lexer =>
    rw [nextBatch_of_error hbatch] at h
    cases h

theorem nextBatch_eq_error {count : Nat} {lx lx' : Lexer} {e : ScriptError}
    (h : TokenSupply.nextBatch count lx = (.error e, lx')) :
    Lexer.batch count lx = .error e lx' := by
  cases hbatch : Lexer.batch count lx with
  | ok tokens lexer =>
    rw [nextBatch_of_ok hbatch] at h
    cases h
  | error e lexer =>
    rw [nextBatch_of_error hbatch] at h
    cases h
    rfl

/-- A batch that was asked for is not empty. -/
theorem ne_nil_of_closed {batch : List Token} {count : Nat} {p q : Prop} (hcount : 0 < count)
    (h : p ∧ batch.length = count ∨ (∃ t ∈ batch.getLast?, t.isEnd = true) ∧ q) : batch ≠ [] := by
  rintro rfl
  rcases h with ⟨-, hlength⟩ | ⟨⟨t, ht, -⟩, -⟩
  · exact absurd hlength (Nat.ne_of_lt hcount)
  · simp at ht

theorem pulled_of_batch {batch : List Token} {count : Nat} {lx lx' : Lexer} (hcount : 0 < count)
    (hex : w.exhausted = false) (hsource : w.source = some lx) (hopen : lx.IsOpen)
    (htame : lx.dialect.IsTame) (h : Lexer.batch count lx = .ok batch lx') :
    Pulled w { w with
      ahead := if batch.isEmpty || batch.any Token.isEnd then terminated (w.ahead ++ batch)
        else w.ahead ++ batch
      source := some lx'
      exhausted := batch.isEmpty || batch.any Token.isEnd } := by
  obtain ⟨tokens, hsame, hyields, hclosed⟩ := Lexer.batchWith_yields htame hopen h
  obtain rfl : batch = tokens := by simpa using hsame
  have htokens : batch ≠ [] := ne_nil_of_closed hcount hclosed
  have hempty : batch.isEmpty = false := by simpa using htokens
  have hpace := hyields.length_le htame
  rw [hempty, Bool.false_or]
  cases hany : batch.any Token.isEnd with
  | false =>
    have hopen' : lx'.IsOpen := by
      refine (hclosed.resolve_right ?_).1
      rintro ⟨⟨t, ht, hend⟩, -⟩
      rw [List.any_eq_false] at hany
      exact hany t (List.mem_of_getLast? ht) hend
    refine ⟨⟨batch, by simp, htokens⟩, ?_, rfl, by simp, fun _ ↦
      ⟨lx, lx', hsource, rfl, hopen', hyields.dialect_eq⟩⟩
    simp only [tokensLeft, hex, hsource, List.length_append, Bool.false_eq_true, if_false,
      Option.map_some, Option.getD_some, TokenSupply.tokensLeft] at *
    omega
  | true =>
    have hahead : ∃ more, terminated (w.ahead ++ batch) = w.ahead ++ more ∧ more ≠ [] ∧
        more.length ≤ lx.tokensLeft := by
      rcases terminated_cases (w.ahead ++ batch) with ⟨heq, -⟩ | ⟨t, -, heq, hnot⟩
      · exact ⟨batch, heq, htokens, by omega⟩
      · refine ⟨batch ++ [t], by rw [heq, List.append_assoc], by simp, ?_⟩
        -- the end that is added takes the place of the one that the lexer still holds
        have hopen' : lx'.IsOpen := by
          refine (hclosed.resolve_right ?_).1
          rintro ⟨hlast, -⟩
          exact hnot (isTerminated_append hlast)
        have := hopen'.tokensLeft_pos
        rw [List.length_append, List.length_singleton]
        omega
    obtain ⟨more, hmore, hmoreNe, hlength⟩ := hahead
    refine ⟨⟨more, by simpa using hmore, hmoreNe⟩, ?_, rfl, fun _ ↦ ?_, by simp⟩
    · simp only [tokensLeft, hex, hsource, hmore, List.length_append, Bool.false_eq_true, if_true,
        if_false, Option.map_some, Option.getD_some, TokenSupply.tokensLeft] at *
      omega
    · simpa using isTerminated_terminated (w.ahead ++ batch)

/-- Pulling fails only as the lexer does. -/
theorem pull_ensures {count : Nat} (hcount : 0 < count)
    (hsource : w.exhausted = false → ∃ lx, w.source = some lx ∧ lx.IsOpen ∧ lx.dialect.IsTame ∧
      lx.dialect.FailsOnly E) :
    Ensures E (pull count) w fun _ w' ↦
      w.exhausted = true ∧ w' = w ∨ w.exhausted = false ∧ Pulled w w' := by
  unfold Ensures pull
  cases hex : w.exhausted with
  | true => simp
  | false =>
    obtain ⟨lx, hlx, hopen, htame, hfails⟩ := hsource hex
    simp only [hlx, Bool.false_eq_true, if_false]
    cases hbatch : TokenSupply.nextBatch count lx with
    | mk result lx' =>
      cases result with
      | error e => exact hfails lx lx' count e rfl (nextBatch_eq_error hbatch)
      | ok batch =>
        exact .inr ⟨trivial, pulled_of_batch hcount hex hlx hopen htame (nextBatch_eq_ok hbatch)⟩

/-! ## Invariants of moves -/

theorem Firm.pulled {count : Nat} (h : Firm E w) (hcount : 0 < count)
    (hpull : pull count w = .ok () w₁) : w.exhausted = true ∧ w₁ = w ∨ w.exhausted = false ∧
    Pulled w w₁ :=
  (pull_ensures hcount h.source).of_ok hpull

theorem Pulled.firm (h : Pulled w w₁) (hfirm : Firm E w) (hex : w.exhausted = false) :
    Firm E w₁ := by
  obtain ⟨more, hmore, -⟩ := h.ahead
  refine ⟨?_, h.lookahead ▸ hfirm.sight, h.ended, fun hex₁ ↦ ?_⟩
  · rw [hmore]
    exact List.append_ne_nil_of_left_ne_nil hfirm.held _
  · obtain ⟨lx, lx', hlx, hlx', hopen, hdialect⟩ := h.source hex₁
    obtain ⟨lx₀, hlx₀, -, htame, hfails⟩ := hfirm.source hex
    obtain rfl := Option.some.inj (hlx₀.symm.trans hlx)
    exact ⟨lx', hlx', hopen, hdialect ▸ htame, hdialect ▸ hfails⟩

theorem Move.firm (h : Move plain w read w₁) (hfirm : Firm E w) : Firm E w₁ := by
  cases h with
  | pull hcount hpull =>
    rcases hfirm.pulled hcount hpull with ⟨-, rfl⟩ | ⟨hex, hpulled⟩
    · exact hfirm
    · exact hpulled.firm hfirm hex
  | pass hahead ht =>
    refine ⟨by simp, hfirm.sight, fun hex ↦ ?_, hfirm.source⟩
    have hended := hfirm.ended hex
    rw [hahead] at hended
    exact isTerminated_of_cons hended (by simp)
  | forget => exact ⟨hfirm.held, hfirm.sight, hfirm.ended, hfirm.source⟩
  | @replace t n lexeme hplain ht hend hlexeme =>
    refine ⟨by simp, hfirm.sight, fun hex ↦ ?_, hfirm.source⟩
    -- the last token is the end, so it is not among those replaced
    obtain ⟨last, hlast, hlastEnd⟩ := hfirm.ended hex
    have hn : n < w.ahead.length := (List.getElem?_eq_some_iff.mp ht).1
    have hdrop : w.ahead.drop (n + 1) ≠ [] := by
      intro hnil
      have hlength := List.drop_eq_nil_iff.mp hnil
      have hlast' : w.ahead.getLast? = some t := by
        rw [List.getLast?_eq_getElem?, show w.ahead.length - 1 = n by omega, ht]
      rw [hlast'] at hlast
      obtain rfl : t = last := by simpa using hlast
      rw [hend] at hlastEnd
      exact absurd hlastEnd (by simp)
    refine ⟨last, ?_, hlastEnd⟩
    obtain ⟨u, rest, hcons⟩ := List.exists_cons_of_ne_nil hdrop
    rw [hcons, List.getLast?_cons_cons, ← hcons, List.getLast?_drop, if_neg ?_]
    · exact hlast
    · intro hle
      exact hdrop (List.drop_eq_nil_iff.mpr hle)

theorem Move.sound (h : Move plain w read w₁) (hsound : Sound plain w) : Sound plain w₁ := by
  refine (h.firm hsound.firm).sound fun hplain ↦ ?_
  obtain ⟨hex, hall⟩ := hsound.genuine hplain
  cases h with
  | pull hcount hpull =>
    rcases hsound.firm.pulled hcount hpull with ⟨-, rfl⟩ | ⟨hnot, -⟩
    · exact ⟨hex, hall⟩
    · exact absurd hex (by simp [hnot])
  | pass hahead ht => exact ⟨hex, fun u hu ↦ hall u (hahead ▸ List.mem_cons_of_mem _ hu)⟩
  | forget => exact ⟨hex, hall⟩
  | replace lexeme hnot => exact absurd hplain hnot

theorem Leads.firm (h : Leads plain w read w₁) (hfirm : Firm E w) : Firm E w₁ := by
  induction h with
  | refl => exact hfirm
  | tail _ hmove ih => exact hmove.firm ih

theorem Leads.sound (h : Leads plain w read w₁) (hsound : Sound plain w) : Sound plain w₁ := by
  induction h with
  | refl => exact hsound
  | tail _ hmove ih => exact hmove.sound ih

theorem Move.length_le (h : Move plain w read w₁) (hfirm : Firm E w) :
    read.length + w₁.tokensLeft ≤ w.tokensLeft := by
  cases h with
  | pull hcount hpull =>
    rcases hfirm.pulled hcount hpull with ⟨-, rfl⟩ | ⟨-, hpulled⟩
    · simp
    · simpa using hpulled.left
  | pass hahead ht =>
    simp only [tokensLeft, hahead, List.length_cons, List.length_nil]
    omega
  | forget => simp [tokensLeft]
  | replace lexeme hplain ht hend hlexeme =>
    have hn := (List.getElem?_eq_some_iff.mp ht).1
    simp only [tokensLeft, List.length_cons, List.length_drop, List.length_nil]
    omega

/-- **Progress.** The bound on the tokens left falls with every token passed. -/
theorem Leads.length_le_of_firm (h : Leads plain w read w₁) (hfirm : Firm E w) :
    read.length + w₁.tokensLeft ≤ w.tokensLeft := by
  induction h with
  | refl => simp
  | tail hleads hmove ih =>
    have := hmove.length_le (hleads.firm hfirm)
    rw [List.length_append]
    omega

theorem Leads.length_le (h : Leads plain w read w₁) (hsound : Sound plain w) :
    read.length + w₁.tokensLeft ≤ w.tokensLeft := h.length_le_of_firm hsound.firm

/-- A plain window holds all tokens, so nothing but those passed is missing afterwards. -/
theorem Leads.ahead_eq (h : Leads plain w read w₁) (hplain : plain) (hex : w.exhausted = true) :
    w.ahead = read ++ w₁.ahead ∧ w₁.exhausted = true := by
  induction h with
  | refl => exact ⟨rfl, hex⟩
  | @tail w₁ w₂ read more _ hmove ih =>
    obtain ⟨hahead, hex₁⟩ := ih
    cases hmove with
    | pull hcount hpull =>
      rw [pull, if_pos hex₁] at hpull
      cases hpull
      exact ⟨by rw [hahead, List.append_nil], hex₁⟩
    | pass hcons ht => exact ⟨by rw [hahead, hcons, List.append_assoc]; rfl, hex₁⟩
    | forget => exact ⟨by rw [hahead, List.append_nil], hex₁⟩
    | replace lexeme hnot => exact absurd hplain hnot

/-! ## What the operations of a window do -/

/-- A window moved on without passing a token: those held are held still. -/
structure Holds (plain : Prop) (w w' : Window Lexer) : Prop where
  /-- No token was passed. -/
  leads : Leads plain w [] w'
  /-- The tokens held come first. -/
  ahead : w.ahead <+: w'.ahead

theorem Holds.refl : Holds plain w w := ⟨.refl, List.prefix_refl _⟩

theorem Holds.trans (h : Holds plain w w₁) (h' : Holds plain w₁ w₂) : Holds plain w w₂ :=
  ⟨h.leads.trans_nil h'.leads, h.ahead.trans h'.ahead⟩

theorem Holds.current_eq (h : Holds plain w w₁) (hheld : w.ahead ≠ []) :
    w₁.current = w.current := by
  obtain ⟨t, rest, hcons⟩ := List.exists_cons_of_ne_nil hheld
  obtain ⟨more, hmore⟩ := h.ahead
  rw [hcons, List.cons_append] at hmore
  simp [current, hcons, ← hmore]

theorem Firm.pull_ensures {count : Nat} (h : Firm E w) (hcount : 0 < count) :
    Ensures E (pull count) w fun _ w' ↦
      Holds True w w' ∧ (w.exhausted = false → w.ahead.length < w'.ahead.length) := by
  refine .intro (fun _ w' hpull ↦ ?_) fun e w' hpull ↦
    (Window.pull_ensures hcount h.source).of_error hpull
  have hleads : Leads True w [] w' := (Move.pull hcount hpull).leads
  rcases h.pulled hcount hpull with ⟨hex, rfl⟩ | ⟨-, hpulled⟩
  · exact ⟨.refl, fun hnot ↦ absurd (hex.symm.trans hnot) (by simp)⟩
  · obtain ⟨more, hmore, hne⟩ := hpulled.ahead
    refine ⟨⟨hleads, hmore ▸ List.prefix_append _ _⟩, fun _ ↦ ?_⟩
    have := List.length_pos_iff.mpr hne
    rw [hmore, List.length_append]
    omega

theorem Firm.lookahead_pos (h : Firm E w) : 0 < w.lookahead :=
  Nat.lt_of_lt_of_le (by decide) h.sight

/-- The token behind one that is held and not the end can be held. -/
theorem Firm.hold_ensures {n : Nat} {t : Token} (h : Firm E w) (ht : w.ahead[n]? = some t)
    (hend : t.isEnd = false) :
    Ensures E (hold (n + 1)) w fun _ w' ↦
      Holds True w w' ∧ n + 1 < w'.ahead.length := by
  have hn : n < w.ahead.length := (List.getElem?_eq_some_iff.mp ht).1
  by_cases hdrop : (w.ahead.drop (n + 1)).isEmpty = true
  · have hlength : w.ahead.length = n + 1 := by
      have := List.drop_eq_nil_iff.mp (List.isEmpty_iff.mp hdrop)
      omega
    have hex : w.exhausted = false := by
      rw [← Bool.not_eq_true]
      intro hex
      obtain ⟨last, hlast, hlastEnd⟩ := h.ended hex
      rw [List.getLast?_eq_getElem?, hlength, Nat.add_sub_cancel, ht] at hlast
      obtain rfl : t = last := by simpa using hlast
      exact absurd (hend.symm.trans hlastEnd) (by simp)
    have hpull := h.pull_ensures h.lookahead_pos
    rw [Ensures, hold, if_pos hdrop]
    refine hpull.mono ?_
    rintro _ w' ⟨hholds, hmore⟩
    exact ⟨hholds, hlength ▸ hmore hex⟩
  · rw [Ensures, hold, if_neg hdrop]
    refine ⟨.refl, ?_⟩
    have := mt List.drop_eq_nil_iff.mpr (mt List.isEmpty_iff.mpr hdrop)
    omega

theorem Firm.exists_cons (h : Firm E w) : ∃ rest, w.ahead = w.current :: rest := by
  obtain ⟨t, rest, hcons⟩ := List.exists_cons_of_ne_nil h.held
  exact ⟨rest, by rw [current, hcons]; rfl⟩

/-- A step passes the current token. -/
theorem Firm.step_ensures (h : Firm E w) (hend : w.current.isEnd = false) :
    Ensures E step w fun _ w' ↦ Leads True w [w.current] w' := by
  obtain ⟨rest, hcons⟩ := h.exists_cons
  have hhold := h.hold_ensures (n := 0) (by rw [hcons]; rfl) hend
  unfold Ensures step
  cases hrun : hold 1 w with
  | error e w₁ => exact hhold.of_error hrun
  | ok u w₁ =>
    obtain ⟨hholds, hlength⟩ := hhold.of_ok hrun
    have hcurrent := hholds.current_eq h.held
    obtain ⟨rest₁, hcons₁⟩ := (hholds.leads.firm h).exists_cons
    cases rest₁ with
    | nil => simp [hcons₁] at hlength
    | cons next rest₁ =>
      simp only [hcons₁]
      have hpass := hholds.leads.trans (Move.pass hcons₁ (hcurrent ▸ hend)).leads
      rwa [hcurrent] at hpass

/-- Some tokens were passed over, and the current one is not of this kind. -/
structure Skips (plain : Prop) (passNewLine : Bool) (w w' : Window Lexer) : Prop where
  /-- The tokens passed over. -/
  leads : ∃ read, Leads plain w read w' ∧ ∀ t ∈ read, isPassedOver passNewLine t = true
  /-- The next one is not passed over. -/
  stops : isPassedOver passNewLine w'.current = false

theorem isEnd_of_isPassedOver {passNewLine : Bool} {t : Token}
    (h : isPassedOver passNewLine t = true) : t.isEnd = false := by
  rw [← Bool.not_eq_true]
  intro hend
  rw [not_isPassedOver_of_isEnd passNewLine hend] at h
  exact absurd h (by simp)

theorem Firm.skipWithin_ensures {passNewLine : Bool} {fuel : Nat} (h : Firm E w)
    (hfuel : w.tokensLeft ≤ fuel) :
    Ensures E (skipWithin passNewLine fuel) w fun _ w' ↦
      Skips True passNewLine w w' := by
  induction fuel generalizing w with
  | zero =>
    rw [tokensLeft] at hfuel
    omega
  | succ fuel ih =>
    rw [skipWithin]
    refine .get_bind ?_
    by_cases hpassed : isPassedOver passNewLine w.current = true
    · rw [if_pos hpassed]
      refine (h.step_ensures (isEnd_of_isPassedOver hpassed)).bind fun _ w₁ hleads ↦ ?_
      have hlength := hleads.length_le_of_firm h
      rw [List.length_singleton] at hlength
      refine (ih (hleads.firm h) (by omega)).mono fun _ w₂ hskips ↦ ⟨?_, hskips.stops⟩
      obtain ⟨read, hread, hall⟩ := hskips.leads
      refine ⟨_, hleads.trans hread, ?_⟩
      simpa [hpassed] using hall
    · rw [if_neg hpassed]
      exact .pure ⟨⟨[], .refl, by simp⟩, by simpa using hpassed⟩

theorem Firm.skip_ensures {passNewLine : Bool} (h : Firm E w) :
    Ensures E (skip passNewLine) w fun _ w' ↦ Skips True passNewLine w w' := by
  by_cases hpassed : isPassedOver passNewLine w.current = true
  · rw [Ensures, skip, if_pos hpassed]
    exact h.skipWithin_ensures (Nat.le_refl _)
  · rw [Ensures, skip, if_neg hpassed]
    exact ⟨⟨[], .refl, by simp⟩, by simpa using hpassed⟩

theorem Firm.forget_ensures (h : Firm E w) (rounds : Nat) :
    Ensures E (forget rounds) w fun _ w' ↦ Holds True w w' := by
  induction rounds generalizing w with
  | zero => exact .pure .refl
  | succ rounds ih =>
    rw [forget]
    have hforget : Holds True w { w with passed := w.passed - w.lookahead } :=
      ⟨(Move.forget w _).leads, List.prefix_refl _⟩
    have hsound := hforget.leads.firm h
    refine .modify_bind (.get_bind ?_)
    refine (hsound.pull_ensures h.lookahead_pos).bind ?_
    rintro _ w₂ ⟨hholds, -⟩
    exact (ih (hholds.leads.firm hsound)).mono fun _ w₃ hrest ↦
      hforget.trans (hholds.trans hrest)

theorem Firm.forgetPassed_ensures (h : Firm E w) :
    Ensures E forgetPassed w fun _ w' ↦ Holds True w w' :=
  h.forget_ensures (w.passed / w.lookahead)

/-- A step over the current token and over what is passed over behind it. -/
structure Passes (plain : Prop) (passNewLine : Bool) (w w' : Window Lexer) : Prop where
  /-- The tokens passed. -/
  leads : ∃ read, Leads plain w (w.current :: read) w' ∧
    ∀ t ∈ read, isPassedOver passNewLine t = true
  /-- The next one is not passed over. -/
  stops : isPassedOver passNewLine w'.current = false

/-- What is never passed over is not passed over now. -/
theorem isPassedOver_false_of_not {passNewLine : Bool} {t : Token}
    (h : isPassedOver passNewLine t = false) : isPassedOver false t = false := by
  rw [isPassedOver, Bool.or_eq_false_iff] at h
  rw [isPassedOver, h.1]
  rfl

/-- Moving over more than one token begins with a step over the first. -/
theorem Firm.advanceBy_succ_ensures {passNewLine : Bool} {count : Nat}
    {Q : Unit → Window Lexer → Prop} (h : Firm E w) (hend : w.current.isEnd = false)
    (hrest : ∀ w', Passes True passNewLine w w' →
      Ensures E (advanceBy passNewLine count) w' Q) :
    Ensures E (advanceBy passNewLine (count + 1)) w Q := by
  rw [advanceBy]
  refine .get_bind ?_
  have hnot : w.isEnded = false := hend
  rw [hnot, if_pos (by rfl)]
  refine (h.step_ensures hend).bind fun _ w₁ hleads ↦ ?_
  refine (hleads.firm h).skip_ensures.bind fun _ w₂ hskips ↦ hrest w₂ ⟨?_, hskips.stops⟩
  obtain ⟨read, hread, hall⟩ := hskips.leads
  exact ⟨read, hleads.trans hread, hall⟩

theorem advanceBy_ended {σ : Type} [TokenSupply σ] {w : Window σ} {passNewLine : Bool} {count : Nat}
    (hend : w.current.isEnd = true) : advanceBy passNewLine count w = .ok () w := by
  cases count with
  | zero => rfl
  | succ count =>
    have hended : w.isEnded = true := hend
    rw [advanceBy, get_bind_run, hended, if_neg (by simp)]
    rfl

/-- Moving over one token. -/
theorem Firm.advance_one_ensures (passNewLine : Bool) (h : Firm E w)
    (hend : w.current.isEnd = false) :
    Ensures E (advance 1 passNewLine) w fun _ w' ↦
      Passes True passNewLine w w' := by
  have hby : Ensures E (advanceBy passNewLine 1) w fun _ w' ↦
      Passes True passNewLine w w' := h.advanceBy_succ_ensures hend fun w' hpasses ↦ .pure hpasses
  refine hby.bind fun _ w₁ hpasses ↦ ?_
  obtain ⟨read, hleads, hall⟩ := hpasses.leads
  have hsound := hleads.firm h
  refine hsound.forgetPassed_ensures.mono fun _ w₂ hholds ↦ ⟨⟨read, ?_, hall⟩, ?_⟩
  · exact hleads.trans_nil hholds.leads
  · rw [hholds.current_eq hsound.held]
    exact hpasses.stops

/-- Moving over two tokens, the second of which may be the end. -/
theorem Firm.advance_two_ensures (passNewLine : Bool) (h : Firm E w)
    (hend : w.current.isEnd = false) :
    Ensures E (advance 2 passNewLine) w fun _ w' ↦
      ∃ w₁, Passes True passNewLine w w₁ ∧ (w₁.current.isEnd = true ∧ Leads True w₁ [] w' ∨
        ∃ read, Leads True w₁ (w₁.current :: read) w' ∧
          ∀ t ∈ read, isPassedOver passNewLine t = true) := by
  have hby : Ensures E (advanceBy passNewLine 2) w fun _ w' ↦
      Firm E w' ∧ ∃ w₁, Passes True passNewLine w w₁ ∧
        (w₁.current.isEnd = true ∧ w' = w₁ ∨ Passes True passNewLine w₁ w') := by
    refine h.advanceBy_succ_ensures hend fun w₁ hpasses ↦ ?_
    obtain ⟨read, hleads, -⟩ := hpasses.leads
    have hsound := hleads.firm h
    by_cases hend₁ : w₁.current.isEnd = true
    · rw [Ensures, advanceBy_ended hend₁]
      exact ⟨hsound, w₁, hpasses, .inl ⟨hend₁, rfl⟩⟩
    · refine hsound.advanceBy_succ_ensures (by simpa using hend₁) fun w₂ hpasses₂ ↦ .pure ?_
      obtain ⟨read₂, hleads₂, -⟩ := hpasses₂.leads
      exact ⟨hleads₂.firm hsound, w₁, hpasses, .inr hpasses₂⟩
  refine hby.bind ?_
  rintro _ w₂ ⟨hsound₂, w₁, hpasses, hcases⟩
  refine hsound₂.forgetPassed_ensures.mono fun _ w₃ hholds ↦ ⟨w₁, hpasses, ?_⟩
  rcases hcases with ⟨hend₁, rfl⟩ | hpasses₂
  · exact .inl ⟨hend₁, hholds.leads⟩
  · obtain ⟨read, hleads, hall⟩ := hpasses₂.leads
    exact .inr ⟨read, hleads.trans_nil hholds.leads, hall⟩

/-- Moving over any number of tokens stops at the end, and never in front of what is passed over. -/
theorem Firm.advance_ensures (passNewLine : Bool) (count : Nat) (h : Firm E w) :
    Ensures E (advance count passNewLine) w fun _ w' ↦ ∃ read, Leads True w read w' ∧
      (0 < count → w.current.isEnd = false → ∃ more, read = w.current :: more) ∧
        (isPassedOver false w.current = false → isPassedOver false w'.current = false) := by
  have hby : Ensures E (advanceBy passNewLine count) w fun _ w' ↦ ∃ read, Leads True w read w' ∧
      (0 < count → w.current.isEnd = false → ∃ more, read = w.current :: more) ∧
        (isPassedOver false w.current = false → isPassedOver false w'.current = false) := by
    induction count generalizing w with
    | zero => exact .pure ⟨[], .refl, fun h ↦ absurd h (Nat.lt_irrefl 0), id⟩
    | succ count ih =>
      by_cases hend : w.current.isEnd = true
      · rw [Ensures, advanceBy_ended hend]
        exact ⟨[], .refl, fun _ hnot ↦ absurd (hend.symm.trans hnot) (by simp), id⟩
      · refine h.advanceBy_succ_ensures (by simpa using hend) fun w₁ hpasses ↦ ?_
        obtain ⟨read, hleads, -⟩ := hpasses.leads
        refine (ih (hleads.firm h)).mono ?_
        rintro _ w₂ ⟨more, hmore, -, hrested⟩
        refine ⟨_, hleads.trans hmore, fun _ _ ↦ ⟨read ++ more, by simp⟩, fun _ ↦ hrested ?_⟩
        exact isPassedOver_false_of_not hpasses.stops
  refine hby.bind ?_
  rintro _ w₁ ⟨read, hleads, hfirst, hrested⟩
  have hfirm := hleads.firm h
  exact hfirm.forgetPassed_ensures.mono fun _ w₂ hholds ↦
    ⟨read, hleads.trans_nil hholds.leads, hfirst, fun hw ↦ by
      rw [hholds.current_eq hfirm.held]
      exact hrested hw⟩

/-- Moving over line breaks. -/
theorem Firm.skipNewLines_ensures (h : Firm E w) :
    Ensures E skipNewLines w fun _ w' ↦ Skips True true w w' := by
  refine h.skip_ensures.bind fun _ w₁ hskips ↦ ?_
  obtain ⟨read, hleads, hall⟩ := hskips.leads
  have hsound := hleads.firm h
  refine hsound.forgetPassed_ensures.mono fun _ w₂ hholds ↦ ⟨⟨read, ?_, hall⟩, ?_⟩
  · exact hleads.trans_nil hholds.leads
  · rw [hholds.current_eq hsound.held]
    exact hskips.stops

/-! ### Windows with any lexer -/

theorem Leads.weaken (h : Leads True w read w₁) : Leads plain w read w₁ := by
  induction h with
  | refl => exact .refl
  | tail _ hmove ih =>
    refine ih.tail ?_
    cases hmove with
    | pull hcount hpull => exact .pull hcount hpull
    | pass hahead ht => exact .pass hahead ht
    | forget passed => exact .forget _ passed
    | replace _ hnot => exact absurd trivial hnot

theorem Holds.weaken (h : Holds True w w₁) : Holds plain w w₁ := ⟨h.leads.weaken, h.ahead⟩

theorem Skips.weaken {passNewLine : Bool} (h : Skips True passNewLine w w₁) :
    Skips plain passNewLine w w₁ :=
  ⟨h.leads.imp fun _ h ↦ ⟨h.1.weaken, h.2⟩, h.stops⟩

theorem Passes.weaken {passNewLine : Bool} (h : Passes True passNewLine w w₁) :
    Passes plain passNewLine w w₁ :=
  ⟨h.leads.imp fun _ h ↦ ⟨h.1.weaken, h.2⟩, h.stops⟩

theorem Sound.exists_cons (h : Sound plain w) : ∃ rest, w.ahead = w.current :: rest :=
  h.firm.exists_cons

theorem Sound.forgetPassed_ensures (h : Sound plain w) :
    Ensures ScriptError.WithinFuel forgetPassed w fun _ w' ↦ Holds plain w w' :=
  h.firm.forgetPassed_ensures.withinFuel.mono fun _ _ h ↦ h.weaken

theorem Sound.advance_one_ensures (passNewLine : Bool) (h : Sound plain w)
    (hend : w.current.isEnd = false) :
    Ensures ScriptError.WithinFuel (advance 1 passNewLine) w fun _ w' ↦
      Passes plain passNewLine w w' :=
  (h.firm.advance_one_ensures passNewLine hend).withinFuel.mono fun _ _ h ↦ h.weaken

theorem Sound.advance_two_ensures (passNewLine : Bool) (h : Sound plain w)
    (hend : w.current.isEnd = false) :
    Ensures ScriptError.WithinFuel (advance 2 passNewLine) w fun _ w' ↦
      ∃ w₁, Passes plain passNewLine w w₁ ∧ (w₁.current.isEnd = true ∧ Leads plain w₁ [] w' ∨
        ∃ read, Leads plain w₁ (w₁.current :: read) w' ∧
          ∀ t ∈ read, isPassedOver passNewLine t = true) :=
  (h.firm.advance_two_ensures passNewLine hend).withinFuel.mono fun _ _ ⟨w₁, hpasses, hcases⟩ ↦
    ⟨w₁, hpasses.weaken, hcases.imp (fun h ↦ ⟨h.1, h.2.weaken⟩) fun ⟨more, h, hall⟩ ↦
      ⟨more, h.weaken, hall⟩⟩

theorem Sound.advance_ensures (passNewLine : Bool) (count : Nat) (h : Sound plain w) :
    Ensures ScriptError.WithinFuel (advance count passNewLine) w fun _ w' ↦
      ∃ read, Leads plain w read w' ∧ (0 < count → w.current.isEnd = false → read ≠ []) :=
  (h.firm.advance_ensures passNewLine count).withinFuel.mono fun _ _ ⟨read, h, hfirst, _⟩ ↦
    ⟨read, h.weaken, fun hcount hend ↦ by
      obtain ⟨more, rfl⟩ := hfirst hcount hend
      simp⟩

theorem Sound.skipNewLines_ensures (h : Sound plain w) :
    Ensures ScriptError.WithinFuel skipNewLines w fun _ w' ↦ Skips plain true w w' :=
  h.firm.skipNewLines_ensures.withinFuel.mono fun _ _ h ↦ h.weaken

/-! ## New windows -/

theorem isTerminated_dropWhile {passNewLine : Bool} {tokens : List Token}
    (h : IsTerminated tokens) :
    IsTerminated (tokens.dropWhile (isPassedOver passNewLine)) := by
  induction tokens with
  | nil => exact h
  | cons t tokens ih =>
    rw [List.dropWhile_cons]
    split
    · next hpassed =>
      refine ih (isTerminated_of_cons h ?_)
      rintro rfl
      obtain ⟨last, hlast, hend⟩ := h
      obtain rfl : t = last := by simpa using hlast
      exact absurd (hend.symm.trans (isEnd_of_isPassedOver hpassed)) (by simp)
    · exact h

theorem isGenuine_of_isEnd {t : Token} (h : t.isEnd = true) : t.IsGenuine := by
  obtain ⟨lexeme, place, offset, index⟩ := t
  have hkind : lexeme.kind = .endOfInput := by simpa [Token.isEnd, Token.kind, Token.lexeme] using h
  cases lexeme <;> simp_all [Lexeme.kind, Token.IsGenuine, Token.lexeme, Lexeme.IsGenuine]

/-- A window on a list of tokens is sound. -/
theorem sound_ofTokens (list : List Token) (lookahead : Nat) (h : plain → TokensGenuine list) :
    Sound plain (ofTokens list lookahead) := by
  have hterminated : IsTerminated (ofTokens list lookahead : Window Lexer).ahead := by
    rw [ahead_ofTokens]
    exact isTerminated_dropWhile (isTerminated_terminated list)
  refine ⟨?_, Nat.le_max_right _ _, fun _ ↦ hterminated, fun hex ↦ absurd hex (by simp [ofTokens]),
    fun hplain ↦ ⟨rfl, fun t ht ↦ ?_⟩⟩
  · intro hnil
    rw [hnil] at hterminated
    obtain ⟨t, ht, -⟩ := hterminated
    simp at ht
  · rw [ahead_ofTokens] at ht
    have hgenuine := tokensGenuine_iff.mp (h hplain)
    have hmem := (List.dropWhile_suffix _).mem ht
    rcases terminated_cases list with ⟨heq, -⟩ | ⟨u, hu, heq, -⟩
    · exact hgenuine t (heq ▸ hmem)
    · rw [heq, List.mem_append, List.mem_singleton] at hmem
      rcases hmem with hmem | rfl
      · exact hgenuine t hmem
      · exact isGenuine_of_isEnd hu

theorem ofSource_eq_outcome (lx : Lexer) (lookahead : Nat) :
    ofSource lx lookahead = outcome (fun _ w ↦ w)
      ((pull (2 * max lookahead minLookahead) >>= fun _ ↦ skip false : WindowM Lexer Unit)
        ⟨0, [], max lookahead minLookahead, some lx, false⟩) := by
  cases hrun : (pull (2 * max lookahead minLookahead) >>= fun _ ↦ skip false : WindowM Lexer Unit)
    ⟨0, [], max lookahead minLookahead, some lx, false⟩ with
  | ok _ w => simp only [ofSource, hrun, outcome]
  | error e w => simp only [ofSource, hrun, outcome]

/-- A window on a lexer is firm. It pulls tokens and passes over the first of them. -/
theorem ofSource_firm {lx : Lexer} (hopen : lx.IsOpen) (htame : lx.dialect.IsTame)
    (hfails : lx.dialect.FailsOnly E) (lookahead : Nat) :
    (∀ w, ofSource lx lookahead = .ok w → isPassedOver false w.current = false ∧
      ∃ count w₁ read, 0 < count ∧
        pull count ⟨0, [], max lookahead minLookahead, some lx, false⟩ = .ok () w₁ ∧
          Firm E w₁ ∧ Leads True w₁ read w) ∧
      ∀ e, ofSource lx lookahead = .error e → E e := by
  have hcount : 0 < 2 * max lookahead minLookahead := by
    have : 0 < minLookahead := by decide
    omega
  have hrun : Ensures E
      (pull (2 * max lookahead minLookahead) >>= fun _ ↦ skip false : WindowM Lexer Unit)
      ⟨0, [], max lookahead minLookahead, some lx, false⟩ fun _ w ↦
        isPassedOver false w.current = false ∧ ∃ count w₁ read, 0 < count ∧
          pull count ⟨0, [], max lookahead minLookahead, some lx, false⟩ = .ok () w₁ ∧
            Firm E w₁ ∧ Leads True w₁ read w := by
    refine (pull_ensures hcount fun _ ↦ ⟨lx, rfl, hopen, htame, hfails⟩).remember.bind
      fun _ w₁ ⟨hpull, hpulled⟩ ↦ ?_
    have hpulled := (hpulled.resolve_left fun h ↦ absurd h.1 (by simp)).2
    obtain ⟨more, hmore, hne⟩ := hpulled.ahead
    have hfirm : Firm E w₁ := by
      refine ⟨by simpa [hmore] using hne, hpulled.lookahead ▸ Nat.le_max_right _ _, hpulled.ended,
        fun hex ↦ ?_⟩
      obtain ⟨lx₀, lx', hlx, hlx', hopen', hdialect⟩ := hpulled.source hex
      obtain rfl := Option.some.inj hlx
      exact ⟨lx', hlx', hopen', hdialect ▸ htame, hdialect ▸ hfails⟩
    refine hfirm.skip_ensures.mono fun _ w₂ hskips ↦ ?_
    obtain ⟨read, hleads, -⟩ := hskips.leads
    exact ⟨hskips.stops, _, w₁, read, hcount, hpull, hfirm, hleads⟩
  rw [ofSource_eq_outcome]
  refine ⟨fun w hw ↦ ?_, fun e he ↦ hrun.of_outcome_error he⟩
  obtain ⟨_, w', hresult, rfl⟩ := hrun.of_outcome_ok hw
  exact hresult

theorem ofSource_ensures {lx : Lexer} (hopen : lx.IsOpen) (htame : lx.dialect.IsTame)
    (lookahead : Nat) :
    (∀ w, ofSource lx lookahead = .ok w → Sound False w ∧ ∃ count w₁ read, 0 < count ∧
      pull count ⟨0, [], max lookahead minLookahead, some lx, false⟩ = .ok () w₁ ∧
        Leads False w₁ read w) ∧
      ∀ e, ofSource lx lookahead = .error e → e.WithinFuel := by
  obtain ⟨hok, herror⟩ := ofSource_firm hopen htame htame.failsOnly lookahead
  refine ⟨fun w hw ↦ ?_, fun e he ↦ (herror e he).withinFuel⟩
  obtain ⟨-, count, w₁, read, hcount, hpull, hfirm, hleads⟩ := hok w hw
  exact ⟨(hleads.firm hfirm).sound False.elim, count, w₁, read, hcount, hpull, hleads.weaken⟩

end ScriptFront.Window
