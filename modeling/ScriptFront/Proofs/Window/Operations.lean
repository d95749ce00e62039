import Mathlib.Logic.Function.Iterate
import ScriptFront.Proofs.Window.Walk

/-!
# Windows and cursors in lists

Whoever uses a window asks it for operations, one after the other, and sees the answer to each and
the token that is current afterwards. `Window.history` lists what a window answers to a list of
operations and where it stands after each, also after those that fail.

A `ListCursor` answers the same operations on a list of tokens that is there from the start, with
blanks and comments removed. It has no source to ask, no batches to put together and nothing to
forget: an operation is described by what it drops from the list. The main statement is that a
window cannot be told from a cursor in the list that its source delivers.
-/

namespace ScriptFront

namespace Window

/-- What a window can be asked for. -/
inductive Operation where
  /-- Move over so many tokens, and over the line breaks behind each if asked to. -/
  | advance (count : Nat) (passNewLine : Bool)
  /-- Move over line breaks. -/
  | skipNewLines
  /-- Look at the token so many places ahead. -/
  | peek (count : Nat) (passNewLine : Bool)
  /-- Whether the token so many places ahead has a spelling. -/
  | peekIs (count : Nat) (text : String)
  /-- Whether the current token has a spelling. -/
  | is (text : String)
  /-- Require a spelling and move on. -/
  | expect (text : String) (passNewLine : Bool)
  /-- Require a name and move on. -/
  | expectName (passNewLine : Bool)
  /-- Require a kind and move on. -/
  | expectKind (kind : TokenKind) (what : String) (passNewLine : Bool)
  /-- Put a lexeme in place of so many tokens. -/
  | replace (count : Nat) (lexeme : Lexeme)

/-- What an operation that succeeds answers. -/
inductive Answer where
  /-- It is done. -/
  | done
  /-- A token. -/
  | token (t : Token)
  /-- A name. -/
  | name (text : String)
  /-- Yes or no. -/
  | truth (value : Bool)

section

variable {σ : Type} [TokenSupply σ]

/-- Ask a window for an operation. -/
def Operation.perform : Operation → WindowM σ Answer
  | .advance count passNewLine => do
    Window.advance count passNewLine
    return .done
  | .skipNewLines => do
    Window.skipNewLines
    return .done
  | .peek count passNewLine => return .token (← Window.peek count passNewLine)
  | .peekIs count text => return .truth (← Window.peekIs count text)
  | .is text => return .truth ((← get).is text)
  | .expect text passNewLine => do
    Window.expect text passNewLine
    return .done
  | .expectName passNewLine => return .name (← Window.expectName passNewLine)
  | .expectKind kind what passNewLine => return .token (← Window.expectKind kind what passNewLine)
  | .replace count lexeme => do
    Window.replace count lexeme
    return .done

/-- The answer to an operation, or its failure, and the window afterwards. -/
def Operation.run (op : Operation) (w : Window σ) : Except ScriptError Answer × Window σ :=
  match op.perform w with
  | .ok answer w => (.ok answer, w)
  | .error e w => (.error e, w)

/-- The answers to operations that are asked for one after the other, whether they fail or not, each
with the window afterwards. -/
def history : List Operation → Window σ → List (Except ScriptError Answer × Window σ)
  | [], _ => []
  | op :: ops, w => op.run w :: history ops (op.run w).2

theorem Operation.run_of_ok {op : Operation} {w w' : Window σ} {answer : Answer}
    (h : op.perform w = .ok answer w') : op.run w = (.ok answer, w') := by
  rw [run, h]

theorem Operation.run_of_error {op : Operation} {w w' : Window σ} {e : ScriptError}
    (h : op.perform w = .error e w') : op.run w = (.error e, w') := by
  rw [run, h]

end

end Window

/-! ## Cursors in lists -/

/-- A cursor on the first token of a list that holds no blanks and comments. -/
structure ListCursor where
  /-- The tokens from the cursor on; the last one is the end. -/
  tokens : List Token
  /-- How far ahead one may look. -/
  sight : Nat

namespace ListCursor

open Window (Operation Answer isNewLine isSignificant)

/-- The first token. -/
def current (c : ListCursor) : Token := c.tokens.headD default

/-- A failure at the first token. -/
def error (c : ListCursor) (cause : Cause) : ScriptError := .ofCause c.current.position cause

/-- The tokens after a move: the first one is dropped unless it is the end, and so are the line
breaks behind it if asked to. -/
def moved (passNewLine : Bool) : List Token → List Token
  | [] => []
  | t :: rest => if t.isEnd then t :: rest else rest.dropWhile fun t ↦ passNewLine && isNewLine t

/-- Move so many times. -/
def advance (count : Nat) (passNewLine : Bool) (c : ListCursor) : ListCursor :=
  { c with tokens := (moved passNewLine)^[count] c.tokens }

/-- The token that would be current after so many moves. -/
def peek (count : Nat) (passNewLine : Bool) (c : ListCursor) : Except ScriptError Token :=
  if c.sight < count then .error (c.error (.lookaheadExceeded count c.sight))
  else .ok (c.advance count passNewLine).current

/-- Move if the condition holds, and fail otherwise because `wanted` was required. -/
def require (condition : Bool) (wanted : String) (passNewLine : Bool) (answer : Answer)
    (c : ListCursor) : Except ScriptError Answer × ListCursor :=
  if condition then (.ok answer, c.advance 1 passNewLine)
  else (.error (c.error (.expected wanted c.current.text)), c)

/-- The answer to an operation, or its failure, and the cursor afterwards. -/
def run (c : ListCursor) : Operation → Except ScriptError Answer × ListCursor
  | .advance count passNewLine => (.ok .done, c.advance count passNewLine)
  | .skipNewLines => (.ok .done, { c with tokens := c.tokens.dropWhile isNewLine })
  | .peek count passNewLine => ((c.peek count passNewLine).map .token, c)
  | .peekIs count text => ((c.peek count false).map fun t ↦ .truth (t.is text), c)
  | .is text => (.ok (.truth (c.current.is text)), c)
  | .expect text passNewLine => c.require (c.current.is text) text passNewLine .done
  | .expectName passNewLine =>
    c.require (c.current.kind == .ident) "identifier" passNewLine (.name c.current.text)
  | .expectKind kind what passNewLine =>
    c.require (c.current.kind == kind) what passNewLine (.token c.current)
  | .replace count lexeme =>
    if c.sight < max count 1 - 1 then
      (.error (c.error (.lookaheadExceeded (max count 1 - 1) c.sight)), c)
    else
      (.ok .done, { c with tokens := c.current.withLexeme lexeme :: c.tokens.drop (max count 1) })

/-- The answers to operations that are asked for one after the other, each with the cursor
afterwards. -/
def history : List Operation → ListCursor → List (Except ScriptError Answer × ListCursor)
  | [], _ => []
  | op :: ops, c => c.run op :: history ops (c.run op).2

/-- An operation leaves the end alone: what it puts in place of tokens is neither the end nor passed
over, and the tokens that it takes away come before the end. -/
def Admits (c : ListCursor) : Operation → Prop
  | .replace count lexeme =>
    lexeme.isTrivia = false ∧ lexeme.kind ≠ .endOfInput ∧
      (max count 1 - 1 ≤ c.sight → max count 1 < c.tokens.length)
  | _ => True

/-- All of the operations leave the end alone, each where it is asked for. -/
def AdmitsAll : List Operation → ListCursor → Prop
  | [], _ => True
  | op :: ops, c => c.Admits op ∧ AdmitsAll ops (c.run op).2

/-! ## Moves on lists -/

section

variable {passNewLine : Bool} {t : Token} {tokens raw : List Token} {count place : Nat}

theorem moved_of_isEnd (h : t.isEnd = true) : moved passNewLine (t :: tokens) = t :: tokens := by
  rw [moved, if_pos h]

theorem moved_of_not_isEnd (h : t.isEnd = false) :
    moved passNewLine (t :: tokens) = tokens.dropWhile fun t ↦ passNewLine && isNewLine t := by
  rw [moved, if_neg (by simp [h])]

theorem iterate_moved_of_isEnd (h : t.isEnd = true) (count : Nat) :
    (moved passNewLine)^[count] (t :: tokens) = t :: tokens :=
  Function.iterate_fixed (moved_of_isEnd h) count

/-- Moves that keep line breaks drop as many tokens, as long as they stay in front of the end. -/
theorem iterate_moved_false (h : Closed tokens) (hcount : count < tokens.length) :
    (moved false)^[count] tokens = tokens.drop count := by
  induction count generalizing tokens with
  | zero => rfl
  | succ count ih =>
    obtain ⟨t, rest, rfl⟩ := List.exists_cons_of_ne_nil h.ne_nil
    rcases closed_cons_iff.mp h with ⟨-, rfl⟩ | ⟨hend, hclosed⟩
    · simp at hcount
    · have hstay : moved false (t :: rest) = rest := by
        rw [moved_of_not_isEnd hend]
        exact Window.dropWhile_false rest
      rw [Function.iterate_succ_apply, hstay, ih hclosed (Nat.lt_of_succ_lt_succ hcount),
        List.drop_succ_cons]

end

end ListCursor

theorem Closed.drop {tokens : List Token} {n : Nat} (h : Closed tokens) (hne : tokens.drop n ≠ []) :
    Closed (tokens.drop n) := by
  rw [← List.take_append_drop n tokens] at h
  rcases h.append_cases with ⟨-, hnil⟩ | ⟨-, hclosed⟩
  · exact absurd hnil hne
  · exact hclosed

/-! ## Walks are moves -/

namespace Window

open ListCursor (moved moved_of_not_isEnd iterate_moved_of_isEnd)

/-- The token at the place is significant, and these are the significant tokens from it on. -/
def LandsOn (raw : List Token) (place : Nat) (tokens : List Token) : Prop :=
  ∃ t later, raw.drop place = t :: later ∧ isSignificant t = true ∧
    t :: later.filter isSignificant = tokens

section Walks

variable {passNewLine : Bool} {t : Token} {rest : List Token} {count place : Nat}

theorem landsOn_zero (ht : isSignificant t = true) :
    LandsOn (t :: rest) 0 ((t :: rest).filter isSignificant) :=
  ⟨t, rest, rfl, ht, (List.filter_cons_of_pos ht).symm⟩

theorem isSignificant_of_not_isPassedOver (h : isPassedOver passNewLine t = false) :
    isSignificant t = true := by
  have htrivia : t.lexeme.isTrivia = false := (Bool.or_eq_false_iff.mp h).1
  rw [isSignificant, htrivia]
  rfl

/-- A walk from a significant token is as many moves, if this is so after the first of them. -/
theorem Walk.landsOn_of_rest (h : Walk passNewLine (t :: rest) count place)
    (ht : isSignificant t = true)
    (hrest : ∀ n, count = n + 1 → t.isEnd = false →
      LandsOn (t :: rest) place ((moved passNewLine)^[n]
      ((rest.filter isSignificant).dropWhile fun t ↦ passNewLine && isNewLine t))) :
    LandsOn (t :: rest) place ((moved passNewLine)^[count] ((t :: rest).filter isSignificant)) := by
  rw [List.filter_cons_of_pos ht]
  cases count with
  | zero =>
    obtain rfl : place = 0 := h.unique .here
    exact List.filter_cons_of_pos ht ▸ landsOn_zero ht
  | succ n =>
    cases hend : t.isEnd with
    | true =>
      obtain rfl : place = 0 := h.unique (.ended hend)
      rw [iterate_moved_of_isEnd hend]
      exact List.filter_cons_of_pos ht ▸ landsOn_zero ht
    | false =>
      rw [Function.iterate_succ_apply, moved_of_not_isEnd hend]
      exact hrest n rfl hend

/-- Behind a token, whatever it is, a walk drops what is passed over and then moves. The induction
is along the walk, each token of which is passed over or counted. -/
theorem Walk.landsOn_behind (h : Walk passNewLine (t :: rest) (count + 1) place)
    (hclosed : Closed (t :: rest)) (ht : t.isEnd = false) :
    LandsOn (t :: rest) place ((moved passNewLine)^[count]
      ((rest.filter isSignificant).dropWhile fun t ↦ passNewLine && isNewLine t)) := by
  generalize hl : t :: rest = l at h
  generalize hn : count + 1 = n at h
  induction h generalizing t rest count with
  | here => cases hn
  | ended hend =>
    obtain ⟨rfl, rfl⟩ := List.cons.inj hl
    exact absurd (ht.symm.trans hend) (by simp)
  | @on u next more n place hu hwalk ih =>
    obtain ⟨rfl, rfl⟩ := List.cons.inj hl
    obtain rfl : count = n := Nat.succ.inj hn
    have hclosed' : Closed (next :: more) :=
      ((closed_cons_iff.mp hclosed).resolve_left fun h ↦ absurd (hu.symm.trans h.1) (by simp)).2
    rw [LandsOn, List.drop_succ_cons]
    rw [← filter_dropWhile_isPassedOver]
    cases hnext : isPassedOver passNewLine next with
    | true =>
      rw [hnext, if_pos rfl] at hwalk ih
      rw [List.dropWhile_cons, if_pos hnext, filter_dropWhile_isPassedOver]
      exact ih hclosed' (isEnd_of_isPassedOver hnext) rfl rfl
    | false =>
      rw [hnext, if_neg (by simp)] at hwalk ih
      rw [List.dropWhile_cons, if_neg (by simp [hnext])]
      exact hwalk.landsOn_of_rest (isSignificant_of_not_isPassedOver hnext)
        fun n hn hend ↦ ih hclosed' hend rfl hn.symm

/-- A walk from a significant token is as many moves. -/
theorem Walk.landsOn (h : Walk passNewLine (t :: rest) count place) (hclosed : Closed (t :: rest))
    (ht : isSignificant t = true) :
    LandsOn (t :: rest) place ((moved passNewLine)^[count] ((t :: rest).filter isSignificant)) :=
  h.landsOn_of_rest ht fun n hn hend ↦ by
    subst hn
    exact h.landsOn_behind hclosed hend

end Walks

/-! ## Windows are cursors -/

section Shows

variable {σ : Type} [TokenSupply σ] {w : Window σ} {tokens : List Token} {c : ListCursor}

theorem Shows.advanceBy (passNewLine : Bool) (count : Nat) (h : w.Shows tokens) :
    ∃ w', Window.advanceBy passNewLine count w = .ok () w' ∧
      w'.Shows ((moved passNewLine)^[count] tokens) ∧ w'.lookahead = w.lookahead := by
  induction count generalizing w tokens with
  | zero => exact ⟨w, rfl, h, rfl⟩
  | succ count ih =>
    obtain ⟨t, rest, rfl⟩ := List.exists_cons_of_ne_nil h.closed.ne_nil
    cases hend : t.isEnd with
    | true =>
      refine ⟨w, advanceBy_ended (h.current_eq.symm ▸ hend), ?_, rfl⟩
      rwa [iterate_moved_of_isEnd hend]
    | false =>
      have hne : rest ≠ [] := fun hnil ↦ by simp [h.isEnd_iff.mpr hnil] at hend
      obtain ⟨w₁, hby, hshows₁, hlook₁⟩ := h.advanceBy_succ passNewLine count hne
      obtain ⟨w₂, hby₂, hshows₂, hlook₂⟩ := ih hshows₁
      refine ⟨w₂, hby.trans hby₂, ?_, hlook₂.trans hlook₁⟩
      rwa [Function.iterate_succ_apply, moved_of_not_isEnd hend]

theorem Shows.advance (passNewLine : Bool) (count : Nat) (h : w.Shows tokens) :
    ∃ w', Window.advance count passNewLine w = .ok () w' ∧
      w'.Shows ((moved passNewLine)^[count] tokens) ∧ w'.lookahead = w.lookahead := by
  obtain ⟨w₁, hby, hshows₁, hlook₁⟩ := h.advanceBy passNewLine count
  obtain ⟨w₂, hforget, hshows₂, hlook₂⟩ := hshows₁.forgetPassed
  exact ⟨w₂, by rw [Window.advance, bind_eq_of_ok hby, hforget], hshows₂, hlook₂.trans hlook₁⟩

/-- Looking ahead finds the token that as many moves would make current. -/
theorem Shows.locate (passNewLine : Bool) (count : Nat) (h : w.Shows tokens)
    (hcount : count ≤ w.lookahead) :
    ∃ place w' raw, Window.locate count passNewLine w = .ok place w' ∧ w'.Streams raw ∧
      w'.Shows tokens ∧ w'.lookahead = w.lookahead ∧ place < w'.ahead.length ∧
        LandsOn raw place ((moved passNewLine)^[count] tokens) := by
  obtain ⟨t, rest, rfl⟩ := List.exists_cons_of_ne_nil h.closed.ne_nil
  obtain ⟨raw, hstreams, rfl⟩ := h.streams_cons
  have ht : isSignificant t = true := h.current_eq ▸ h.current_significant
  obtain ⟨place, w', hlocate, hstreams', hwalk, hlength, hlook⟩ :=
    hstreams.locate h.held passNewLine hcount
  have hheld : w'.ahead ≠ [] := List.ne_nil_of_length_pos (Nat.zero_lt_of_lt hlength)
  have hlands := hwalk.landsOn hstreams.closed ht
  rw [List.filter_cons_of_pos ht] at hlands
  refine ⟨place, w', _, hlocate, hstreams', ⟨⟨_, hstreams', List.filter_cons_of_pos ht⟩, hheld, ?_⟩,
    hlook, hlength, hlands⟩
  rwa [Window.current_eq hstreams' hheld]

theorem Shows.current_eq_headD (h : w.Shows tokens) : w.current = tokens.headD default := by
  obtain ⟨t, rest, rfl⟩ := List.exists_cons_of_ne_nil h.closed.ne_nil
  exact h.current_eq

/-- A window may hold another token in place of those up to a place, as long as more tokens
follow. -/
theorem Streams.replaced {raw : List Token} {place : Nat} {t : Token} (h : w.Streams raw)
    (hplace : place < w.ahead.length) (hne : raw.drop (place + 1) ≠ []) (ht : t.isEnd = false) :
    ({ w with ahead := t :: w.ahead.drop (place + 1) } : Window σ).Streams
      (t :: raw.drop (place + 1)) := by
  refine ⟨h.sight, ?_, (h.closed.drop hne).cons ht⟩
  obtain ⟨later, rfl, hlater⟩ := h.split
  refine ⟨later, ?_, hlater⟩
  rw [List.drop_append_of_le_length hplace, List.cons_append]

/-- The result of a computation with this answer or failure, which leaves the window `w`. -/
def resultOf {α : Type} (answer : Except ScriptError α) (w : Window σ) :
    EStateM.Result ScriptError (Window σ) α :=
  match answer with
  | .ok a => .ok a w
  | .error e => .error e w

omit [TokenSupply σ] in
theorem bind_pure_eq_resultOf {α β : Type} {x : WindowM σ α} {answer : Except ScriptError α}
    {w w' : Window σ} (f : α → β) (h : x w = resultOf answer w') :
    (x >>= fun a ↦ pure (f a)) w = resultOf (answer.map f) w' := by
  cases answer with
  | ok a => exact bind_eq_of_ok h
  | error e => exact bind_eq_of_error h

/-- A window and a cursor that cannot be told apart. -/
structure Agrees (w : Window σ) (c : ListCursor) : Prop where
  /-- The window shows the tokens of the cursor. -/
  same : w.Shows c.tokens
  /-- They see equally far. -/
  sight : w.lookahead = c.sight

namespace Agrees

theorem current_eq (h : w.Agrees c) : w.current = c.current := h.same.current_eq_headD

theorem error_eq (h : w.Agrees c) (cause : Cause) : w.error cause = c.error cause := by
  rw [error, position, h.current_eq, ListCursor.error]

theorem advance (h : w.Agrees c) (count : Nat) (passNewLine : Bool) :
    ∃ w', Window.advance count passNewLine w = .ok () w' ∧
    w'.Agrees (c.advance count passNewLine) := by
  obtain ⟨w', hrun, hshows, hlook⟩ := h.same.advance passNewLine count
  exact ⟨w', hrun, hshows, hlook.trans h.sight⟩

theorem skipNewLines (h : w.Agrees c) :
    ∃ w', Window.skipNewLines w = .ok () w' ∧
      w'.Agrees { c with tokens := c.tokens.dropWhile isNewLine } := by
  obtain ⟨w', hrun, hshows, hlook⟩ := h.same.skipNewLines
  exact ⟨w', hrun, hshows, hlook.trans h.sight⟩

/-- A look too far ahead is refused. -/
theorem locate_far (h : w.Agrees c) {count : Nat} (passNewLine : Bool) (hfar : c.sight < count) :
    Window.locate count passNewLine w = .error (c.error (.lookaheadExceeded count c.sight)) w := by
  rw [locate, h.sight, if_pos hfar, h.error_eq]

theorem peek (h : w.Agrees c) (count : Nat) (passNewLine : Bool) :
    ∃ w', Window.peek count passNewLine w = resultOf (c.peek count passNewLine) w' ∧
    w'.Agrees c := by
  by_cases hfar : c.sight < count
  · refine ⟨w, ?_, h⟩
    rw [ListCursor.peek, if_pos hfar]
    exact bind_eq_of_error (h.locate_far passNewLine hfar)
  · obtain ⟨place, w', raw, hlocate, hstreams, hshows, hlook, hlength, t, later, hdrop,
      -, htokens⟩ :=
      h.same.locate passNewLine count (by rw [h.sight]; omega)
    refine ⟨w', ?_, hshows, hlook.trans h.sight⟩
    have hplace : raw[place]? = some t := by
      rw [← List.head?_drop, hdrop]
      rfl
    obtain ⟨more, rfl⟩ := hstreams.ahead_prefix
    rw [List.getElem?_append_left hlength] at hplace
    have hcurrent : (c.advance count passNewLine).current = t := by
      rw [ListCursor.current, ListCursor.advance, ← htokens]
      rfl
    rw [ListCursor.peek, if_neg hfar, hcurrent, Window.peek, bind_eq_of_ok hlocate, get_bind_run,
      held_eq_of_getElem? hplace]
    rfl

/-- What is required is there and passed, or is missing and nothing moves. -/
theorem require (h : w.Agrees c) {condition : Bool} {wanted : String} {passNewLine : Bool}
    {answer : Answer} {x : WindowM σ Answer}
    (hthen : condition = true → ∀ w', Window.advance 1 passNewLine w = .ok () w' →
      x w = .ok answer w')
    (helse : condition = false → x w = .error (w.error (.expected wanted w.current.text)) w) :
    ∃ w', x w = resultOf (c.require condition wanted passNewLine answer).1 w' ∧
      w'.Agrees (c.require condition wanted passNewLine answer).2 := by
  cases condition with
  | false =>
    refine ⟨w, ?_, h⟩
    rw [helse rfl, h.error_eq, h.current_eq]
    rfl
  | true =>
    obtain ⟨w', hrun, hagrees⟩ := h.advance 1 passNewLine
    exact ⟨w', hthen rfl w' hrun, hagrees⟩

theorem expectKind (h : w.Agrees c) (kind : TokenKind) (what : String) (passNewLine : Bool)
    (answer : Token → Answer) :
    ∃ w', (Window.expectKind kind what passNewLine >>= fun t ↦
      pure (answer t) : WindowM σ Answer) w =
        resultOf (c.require (c.current.kind == kind) what passNewLine (answer c.current)).1 w' ∧
      w'.Agrees (c.require (c.current.kind == kind) what passNewLine (answer c.current)).2 := by
  refine h.require (fun hkind w' hrun ↦ ?_) fun hkind ↦ ?_
  · have hwkind : w.kind = kind := by rwa [Window.kind, h.current_eq, ← beq_iff_eq]
    have hexpect : Window.expectKind kind what passNewLine w = .ok c.current w' := by
      rw [Window.expectKind, get_bind_run, ite_run, if_pos hwkind, bind_eq_of_ok hrun, h.current_eq]
      rfl
    exact bind_eq_of_ok hexpect
  · have hwkind : ¬ w.kind = kind := by
      rwa [Window.kind, h.current_eq, ← ne_eq, ← beq_eq_false_iff_ne]
    refine bind_eq_of_error ?_
    rw [Window.expectKind, get_bind_run, ite_run, if_neg hwkind]
    rfl

/-- A replacement puts one token in place of those from the current one to the last one named. -/
theorem replace (h : w.Agrees c) {count : Nat} {lexeme : Lexeme}
    (hadmits : c.Admits (.replace count lexeme))
    (hnear : max count 1 - 1 ≤ c.sight) :
    ∃ w', Window.replace count lexeme w = .ok () w' ∧
      w'.Agrees
        { c with tokens := c.current.withLexeme lexeme :: c.tokens.drop (max count 1) } := by
  obtain ⟨htrivia, hend, hroom⟩ := hadmits
  have hlength := hroom hnear
  obtain ⟨place, w', raw, hlocate, hstreams, hshows, hlook, hheld, t, later, hdrop, -, htokens⟩ :=
    h.same.locate false (max count 1 - 1) (by rwa [h.sight])
  rw [ListCursor.iterate_moved_false h.same.closed (by omega)] at htokens
  have hrest : raw.drop (place + 1) = later := by
    rw [← List.tail_drop, hdrop]
    rfl
  have hlater : later.filter isSignificant = c.tokens.drop (max count 1) := by
    rw [show max count 1 = max count 1 - 1 + 1 by omega, ← List.tail_drop, ← htokens]
    rfl
  have hne : raw.drop (place + 1) ≠ [] := by
    rintro hnil
    rw [← hrest, hnil, List.filter_nil, eq_comm, List.drop_eq_nil_iff] at hlater
    omega
  have hcurrent : w'.current = c.current := hshows.current_eq_headD
  have hsig : isSignificant (c.current.withLexeme lexeme) = true := by
    rw [isSignificant, Token.withLexeme, Token.lexeme, htrivia]
    rfl
  have hreplaced := hstreams.replaced (t := c.current.withLexeme lexeme) hheld hne
    (by simpa [Token.isEnd, Token.kind, Token.withLexeme, Token.lexeme] using hend)
  refine ⟨_, by rw [Window.replace, bind_eq_of_ok hlocate, modify_run, hcurrent],
    ⟨⟨_, hreplaced, ?_⟩, by simp, hsig⟩, hlook.trans h.sight⟩
  rw [List.filter_cons_of_pos hsig, hrest, hlater]

/-- Whatever is asked for, the answers are the same, and the two still cannot be told apart. -/
theorem perform (h : w.Agrees c) (op : Operation) (hadmits : c.Admits op) :
    ∃ w', op.perform w = resultOf (c.run op).1 w' ∧ w'.Agrees (c.run op).2 := by
  cases op with
  | advance count passNewLine =>
    obtain ⟨w', hrun, hagrees⟩ := h.advance count passNewLine
    exact ⟨w', bind_eq_of_ok hrun, hagrees⟩
  | skipNewLines =>
    obtain ⟨w', hrun, hagrees⟩ := h.skipNewLines
    exact ⟨w', bind_eq_of_ok hrun, hagrees⟩
  | peek count passNewLine =>
    obtain ⟨w', hrun, hagrees⟩ := h.peek count passNewLine
    exact ⟨w', bind_pure_eq_resultOf Answer.token hrun, hagrees⟩
  | peekIs count text =>
    obtain ⟨w', hrun, hagrees⟩ := h.peek count false
    refine ⟨w', ?_, hagrees⟩
    rw [Operation.perform, Window.peekIs, bind_assoc]
    simp only [pure_bind]
    exact bind_pure_eq_resultOf (fun t ↦ Answer.truth (t.is text)) hrun
  | is text =>
    refine ⟨w, ?_, h⟩
    have his : w.is text = c.current.is text := by rw [Window.is, h.current_eq]
    rw [Operation.perform, get_bind_run, his]
    rfl
  | expect text passNewLine =>
    have his : w.is text = c.current.is text := by rw [Window.is, h.current_eq]
    refine h.require (fun htext w' hrun ↦ ?_) fun htext ↦ ?_
    · have hexpect : Window.expect text passNewLine w = .ok () w' := by
        rw [Window.expect, get_bind_run, ite_run, if_pos (his.trans htext), hrun]
      exact bind_eq_of_ok hexpect
    · refine bind_eq_of_error ?_
      rw [Window.expect, get_bind_run, ite_run, if_neg (by simp [his, htext])]
      rfl
  | expectName passNewLine =>
    obtain ⟨w', hrun, hagrees⟩ := h.expectKind .ident "identifier" passNewLine fun t ↦ .name t.text
    refine ⟨w', ?_, hagrees⟩
    rw [Operation.perform, Window.expectName, bind_assoc]
    simp only [pure_bind]
    exact hrun
  | expectKind kind what passNewLine => exact h.expectKind kind what passNewLine .token
  | replace count lexeme =>
    rw [ListCursor.run]
    split
    · next hfar =>
      exact ⟨w, bind_eq_of_error (bind_eq_of_error (h.locate_far false hfar)), h⟩
    · next hnear =>
      obtain ⟨w', hrun, hagrees⟩ := h.replace hadmits (Nat.le_of_not_lt hnear)
      exact ⟨w', bind_eq_of_ok hrun, hagrees⟩

theorem run (h : w.Agrees c) (op : Operation) (hadmits : c.Admits op) :
    ∃ w', op.run w = ((c.run op).1, w') ∧ w'.Agrees (c.run op).2 := by
  obtain ⟨w', hperform, hagrees⟩ := h.perform op hadmits
  refine ⟨w', ?_, hagrees⟩
  rw [Operation.run, hperform]
  cases (c.run op).1 <;> rfl

/-- What can be seen of two histories is the same. -/
theorem history (h : w.Agrees c) {ops : List Operation} (hadmits : c.AdmitsAll ops) :
    (Window.history ops w).map (fun entry ↦ (entry.1, entry.2.current)) =
      (c.history ops).map fun entry ↦ (entry.1, entry.2.current) := by
  induction ops generalizing w c with
  | nil => rfl
  | cons op ops ih =>
    obtain ⟨w', hrun, hagrees⟩ := h.run op hadmits.1
    rw [Window.history, ListCursor.history, List.map_cons, List.map_cons, hrun, hagrees.current_eq,
      ih hagrees hadmits.2]

end Agrees

end Shows

/-! ## Windows on sources -/

end Window

/-- Batches deliver their tokens in order, if none of them is empty. -/
theorem Batches.supplies {batches : List (List Token)} (h : ∀ batch ∈ batches, batch ≠ []) :
    Supplies (⟨batches⟩ : Batches) batches.flatten := by
  refine ⟨fun source tokens ↦ (∀ batch ∈ source.batches, batch ≠ []) ∧
    tokens = source.batches.flatten, ⟨?_, ?_⟩, h, rfl⟩
  · rintro ⟨batches⟩ _ count ⟨hbatches, rfl⟩ hne -
    cases batches with
    | nil => exact absurd rfl hne
    | cons batch later =>
      obtain ⟨hbatch, hlater⟩ := List.forall_mem_cons.mp hbatches
      exact ⟨batch, later.flatten, ⟨later⟩, rfl, hbatch, rfl, hlater, rfl⟩
  · rintro ⟨batches⟩ _ ⟨-, rfl⟩
    exact Nat.le_refl _

/-- A cursor on the first significant token of a list. -/
def ListCursor.ofTokens (tokens : List Token) (lookahead : Nat) : ListCursor :=
  ⟨tokens.filter Window.isSignificant, max lookahead Window.minLookahead⟩

namespace Window

variable {σ : Type} [TokenSupply σ]

/-- **A window is a cursor in a list.** Let a source deliver a list of tokens whose only end is the
last one, in batches of any sizes. Whatever the window on it is asked for, as long as no replacement
touches the end, it answers and fails as a cursor in the list less its blanks and comments does, and
the same token is current before and after every operation. -/
theorem exists_ofSource_history_eq {source : σ} {tokens : List Token}
    (hsource : Supplies source tokens)
    (hclosed : Closed tokens) (lookahead : Nat) {ops : List Operation}
    (hadmits : (ListCursor.ofTokens tokens lookahead).AdmitsAll ops) :
    ∃ w, ofSource source lookahead = .ok w ∧
      w.current = (ListCursor.ofTokens tokens lookahead).current ∧
      (history ops w).map (fun entry ↦ (entry.1, entry.2.current)) =
        ((ListCursor.ofTokens tokens lookahead).history ops).map
          fun entry ↦ (entry.1, entry.2.current) := by
  obtain ⟨w, hw, hshows, hlook⟩ := exists_ofSource_shows hsource hclosed lookahead
  have hagrees : w.Agrees (ListCursor.ofTokens tokens lookahead) := ⟨hshows, hlook⟩
  exact ⟨w, hw, hagrees.current_eq, hagrees.history hadmits⟩

/-- A sum in front of a comment and a line break, in batches that separate them. -/
def sampleBatches : List (List Token) :=
  [[.mk (.ident "a") .start 0 0],
    [.mk (.symbol "+") .start 1 1, .mk (.comment "/**/") .start 2 2, .mk (.ident "b") .start 6 3],
    [.mk (.newLine "\n") .start 7 4],
    [.mk (.ident "c") .start 8 5, .mk .endOfInput .start 9 6]]

/-- Looks ahead, too far as well, a replacement of the sum, and moves over what follows. -/
def sampleOperations : List Operation :=
  [.peek 2 false, .peek 5 false, .replace 3 (.ident "d"), .expect "d" true,
    .expectKind .number "number" true, .advance 7 false]

/-- The sum becomes one name, and the moves stop at the end. -/
theorem exists_ofSource_history_eq_sampleBatches :
    (∀ batch ∈ sampleBatches, batch ≠ []) ∧ Closed sampleBatches.flatten ∧
      (ListCursor.ofTokens sampleBatches.flatten 0).AdmitsAll sampleOperations ∧
      ∃ w, ofSource (Batches.mk sampleBatches) 0 = .ok w ∧
        (history sampleOperations w).map (fun entry ↦ entry.2.current.text) =
        ["a", "a", "d", "c", "c", ""] := by
  have hbatches : ∀ batch ∈ sampleBatches, batch ≠ [] := by decide
  have hclosed : Closed sampleBatches.flatten :=
    ⟨sampleBatches.flatten.dropLast, .mk .endOfInput .start 9 6, rfl, rfl, by decide⟩
  have hadmits : (ListCursor.ofTokens sampleBatches.flatten 0).AdmitsAll sampleOperations :=
    ⟨trivial, trivial, ⟨rfl, by decide, fun _ ↦ by decide⟩, trivial, trivial, trivial, trivial⟩
  refine ⟨hbatches, hclosed, hadmits, ?_⟩
  obtain ⟨w, hw, -, hhistory⟩ :=
    exists_ofSource_history_eq (Batches.supplies hbatches) hclosed 0 hadmits
  refine ⟨w, hw, ?_⟩
  have htexts := congrArg (List.map fun entry ↦ entry.2.text) hhistory
  rw [List.map_map, List.map_map] at htexts
  refine htexts.trans ?_
  decide

end Window

end ScriptFront
