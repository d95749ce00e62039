import ScriptFront.Proofs.Agreement
import ScriptFront.Proofs.Lexer.Matches
import ScriptFront.Proofs.Parse.Rounds
import ScriptFront.Proofs.Parse.Yields

/-!
# Two parsers on tokens that decide alike

Two runs of a parser can differ in many ways and still take the same decisions: the bounds may be
wider, the windows may hold other tokens at the same moment, the tokens may have other offsets or
spell their line breaks in another way. A `Likeness` says what two runs have in common, and
`Likeness.IsKept` what is asked of it: moving keeps it, and the tokens that are shown match.

## What results have in common

Most computations have the `Same` results. Those that look at a token `Show` related tokens. Those
that yield an operand or an expression `Place` it: the results are the same, and their position is
one that the likeness allows. This matters because two failures are noticed at a node that was built
before and not at the current token, so that the places of failures depend on those of nodes.
-/

namespace ScriptFront

/-- The states agree in everything but their windows, which are related. -/
structure ParserState.Like (W : Window Lexer → Window Lexer → Prop) (s t : ParserState) : Prop where
  /-- The windows are related. -/
  tokens : W s.tokens t.tokens
  /-- Everything else is the same. -/
  rest : t = { s with tokens := t.tokens }

/-- Failures of the first run are not compared, nor is a statement that the second one has read
without moving. -/
structure Leeway.Forgives (lee : Leeway) : Prop where
  /-- The first run may fail as it likes. -/
  first : ∀ e, lee.first e
  /-- The second run may notice that it did not move. -/
  second : ∀ (e : ScriptError) (text : String), e.cause = .noProgress text → lee.second e

/-- What two runs of a parser have in common. -/
structure Likeness where
  /-- What the runs may do differently. -/
  lee : Leeway
  /-- How their windows are related. -/
  windows : Window Lexer → Window Lexer → Prop
  /-- How the tokens that they show are related. -/
  tokens : Token → Token → Prop
  /-- Where tokens, operands and failures stand. -/
  places : Position → Prop

namespace Likeness

variable {c : Likeness} {α β γ δ : Type} {v w : Window Lexer} {t u : Token}

/-- The computations agree, with results related by `Q`. -/
abbrev Pairs (c : Likeness) (Q : α → β → Prop) (x : Parse α) (y : Parse β) : Prop :=
  Paired c.lee (ParserState.Like c.windows) Q x y

/-- The computations agree, with the same results. -/
abbrev Same (c : Likeness) (x y : Parse α) : Prop := Twin c.lee (ParserState.Like c.windows) x y

/-- The computations show tokens that are related. -/
abbrev Shows (c : Likeness) (x y : Parse Token) : Prop := c.Pairs c.tokens x y

/-- The nodes are the same and stand at a place that is allowed. -/
def SameNode (c : Likeness) (e e' : Expr) : Prop := e' = e ∧ c.places e.position

/-- The computations yield the same node at a place that is allowed. -/
abbrev Places (c : Likeness) (x y : Parse Expr) : Prop := c.Pairs c.SameNode x y

/-- What is asked of a likeness: moving keeps it, the tokens shown match, and failures are allowed
for. -/
structure IsKept (c : Likeness) : Prop where
  /-- The current tokens are related. -/
  current : ∀ {v w : Window Lexer}, c.windows v w → c.tokens v.current w.current
  /-- Both can move on. -/
  advances : ∀ (count : Nat) (passNewLine : Bool),
    Twin c.lee c.windows (Window.advance count passNewLine) (Window.advance count passNewLine)
  /-- Both can move over line breaks. -/
  skips : Twin c.lee c.windows Window.skipNewLines Window.skipNewLines
  /-- Both can look ahead, as far as every window reaches. -/
  peeks : ∀ {count : Nat} (passNewLine : Bool), count ≤ Window.minLookahead →
    Paired c.lee c.windows c.tokens (Window.peek count passNewLine) (Window.peek count passNewLine)
  /-- New windows on related tokens are related. -/
  nested : ∀ {v w : Window Lexer} {list list' : List Token}, c.windows v w →
    List.Forall₂ c.tokens list list' →
      c.windows (.ofTokens list v.lookahead) (.ofTokens list' w.lookahead)
  /-- Related tokens have matching lexemes. -/
  lexeme : ∀ {t u : Token}, c.tokens t u → Token.Matches c.tokens t u
  /-- They stand at the same position. -/
  position : ∀ {t u : Token}, c.tokens t u → u.position = t.position
  /-- This is a place that is allowed. -/
  placed : ∀ {t u : Token}, c.tokens t u → c.places t.position
  /-- They are equal, or failures need not be compared. -/
  exact : (∀ t u, c.tokens t u → u = t) ∨ c.lee.Forgives
  /-- Both runs may fail at a place that is allowed. -/
  common : ∀ e : ScriptError, c.places e.position → c.lee.common e
  /-- Either run may exceed the fuel it was given. -/
  fuel : ∀ e : ScriptError, e.cause = .outOfFuel → c.lee.first e ∧ c.lee.second e

/-! ## Nodes -/

theorem Places.bind {x y : Parse Expr} {f g : Expr → Parse α} {Q : α → α → Prop}
    (h : c.Places x y) (hfg : ∀ e, c.places e.position → c.Pairs Q (f e) (g e)) :
    c.Pairs Q (x >>= f) (y >>= g) := by
  refine Paired.bind h fun e e' he ↦ ?_
  obtain ⟨rfl, hplace⟩ := he
  exact hfg _ hplace

/-- A node that is the same, wherever it stands. -/
theorem Places.same {x y : Parse Expr} (h : c.Places x y) : c.Same x y :=
  h.mono fun _ _ he ↦ he.1.symm

/-! ## Asking the state -/

/-- Questions whose answers do not depend on the window. -/
theorem same_asks {g : ParserState → α} (hg : ∀ s t, ParserState.Like c.windows s t → g s = g t) :
    c.Same (fun s ↦ .ok (g s) s) (fun s ↦ .ok (g s) s) :=
  fun s t hst ↦ .ok ⟨hg s t hst, hst⟩

theorem same_scope : c.Same Parse.scope Parse.scope := same_asks fun s t hst ↦ by rw [hst.rest]

theorem same_symbols (g : SymbolTable → α) : c.Same (Parse.symbols g) (Parse.symbols g) :=
  same_asks fun s t hst ↦ by rw [hst.rest]

theorem same_node (form : Form) (place : Position) :
    c.Same (Parse.node form place) (Parse.node form place) := same_scope.bind fun _ ↦ .pure _

theorem places_node {place : Position} (h : c.places place) (form : Form) :
    c.Places (Parse.node form place) (Parse.node form place) :=
  same_scope.paired fun _ ↦ .pure ⟨rfl, h⟩

/-- Changes of names and counters. -/
theorem same_modify {m : ParserState → ParserState}
    (hm : ∀ (s : ParserState) (w : Window Lexer),
      m { s with tokens := w } = { m s with tokens := w })
    (htokens : ∀ s, (m s).tokens = s.tokens) : c.Same (modify m) (modify m) := by
  refine .modify fun s t hst ↦ ⟨?_, ?_⟩
  · rw [htokens, htokens]
    exact hst.tokens
  · rw [htokens, ← hm, ← hst.rest]

theorem same_modifySymbols (g : SymbolTable → SymbolTable) :
    c.Same (Parse.modifySymbols g) (Parse.modifySymbols g) :=
  same_modify (fun _ _ ↦ rfl) fun _ ↦ rfl

theorem same_pushScope (kind : ScopeKind) :
    c.Same (Parse.pushScope kind) (Parse.pushScope kind) := by
  intro s t hst
  refine .ok ⟨?_, hst.tokens, ?_⟩
  · rw [hst.rest]
  · rw [hst.rest]

theorem pairs_onTokens {Q : α → β → Prop} {f : WindowM Lexer α} {g : WindowM Lexer β}
    (h : Paired c.lee c.windows Q f g) : c.Pairs Q (Parse.onTokens f) (Parse.onTokens g) := by
  intro s t hst
  rw [Parse.onTokens_run, Parse.onTokens_run]
  refine (h s.tokens t.tokens hst.tokens).mapState ?_
  rintro a b v w ⟨hab, hvw⟩
  exact ⟨hab, hvw, by rw [hst.rest]⟩

/-- The number of rounds may differ. -/
theorem pairs_rounds {Q : α → β → Prop} {f : Nat → Parse α} {g : Nat → Parse β}
    (h : ∀ m n, c.Pairs Q (f m) (g n)) : c.Pairs Q (Parse.rounds >>= f) (Parse.rounds >>= g) :=
  fun s t hst ↦ h _ _ s t hst

/-- The windows may differ, within the relation. -/
theorem pairs_tokens {Q : α → β → Prop} {f : Window Lexer → Parse α} {g : Window Lexer → Parse β}
    (h : ∀ v w, c.windows v w → c.Pairs Q (f v) (g w)) :
    c.Pairs Q (Parse.tokens >>= f) (Parse.tokens >>= g) :=
  fun s t hst ↦ h _ _ hst.tokens s t hst

/-- A step that is taken or not, before what follows in any case. -/
theorem pairs_branch {p : Prop} [Decidable p] {Q : α → α → Prop} {x y : Parse Unit}
    {f g : Unit → Parse α} (hxy : c.Same x y) (hfg : ∀ u, c.Pairs Q (f u) (g u)) :
    c.Pairs Q (if p then x >>= f else f ()) (if p then y >>= g else g ()) :=
  .ite (hxy.paired hfg) (hfg ())

/-! ## Loops -/

/-- The rounds go on with the same, of which `I` holds, or are done with results related by `Q`. -/
inductive SameRound (I : α → Prop) (Q : β → γ → Prop) : Parse.Round α β → Parse.Round α γ → Prop
  /-- Another round follows. -/
  | again {a : α} (h : I a) : SameRound I Q (.again a) (.again a)
  /-- The loop is over. -/
  | done {b : β} {b' : γ} (h : Q b b') : SameRound I Q (.done b) (.done b')

/-- The computations are rounds of loops that agree. -/
abbrev Rounds (c : Likeness) (I : α → Prop) (Q : β → γ → Prop) (x : Parse (Parse.Round α β))
    (y : Parse (Parse.Round α γ)) : Prop := c.Pairs (SameRound I Q) x y

theorem rounds_again {I : α → Prop} {Q : β → γ → Prop} {a : α} (h : I a) :
    c.Rounds I Q (pure (.again a)) (pure (.again a)) := .pure (.again h)

theorem rounds_done {I : α → Prop} {Q : β → γ → Prop} {b : β} {b' : γ} (h : Q b b') :
    c.Rounds I Q (pure (.done b)) (pure (.done b')) := .pure (.done h)

namespace IsKept

variable (h : c.IsKept)

include h

/-! ## The current token -/

theorem current_shows : c.Shows Parse.current Parse.current :=
  fun _ _ hst ↦ .ok ⟨h.current hst.tokens, hst⟩

theorem is_eq (hvw : c.windows v w) {text : String} (htext : Lexeme.IsAsked text) :
    w.is text = v.is text := (h.lexeme (h.current hvw)).is_eq htext

theorem kind_eq (hvw : c.windows v w) : w.kind = v.kind := (h.lexeme (h.current hvw)).kind_eq

theorem position_eq (hvw : c.windows v w) : w.position = v.position := h.position (h.current hvw)

theorem isEnded_eq (hvw : c.windows v w) : w.isEnded = v.isEnded := by
  rw [Window.isEnded, Window.isEnded, h.kind_eq hvw]

theorem isExplicitEnd_eq (hvw : c.windows v w) : w.isExplicitEnd = v.isExplicitEnd := by
  rw [Window.isExplicitEnd, Window.isExplicitEnd, h.is_eq hvw (by decide), h.kind_eq hvw]

theorem isEndOfStatementOrBlock_eq (hvw : c.windows v w) :
    w.isEndOfStatementOrBlock = v.isEndOfStatementOrBlock := by
  rw [Window.isEndOfStatementOrBlock, Window.isEndOfStatementOrBlock, Window.isEndOfStatement,
    Window.isEndOfStatement, h.isExplicitEnd_eq hvw, h.isEnded_eq hvw, h.is_eq hvw (by decide)]

theorem is {text : String} (htext : Lexeme.IsAsked text) : c.Same (Parse.is text) (Parse.is text) :=
  same_asks fun _ _ hst ↦ (h.is_eq hst.tokens htext).symm

theorem kind : c.Same Parse.kind Parse.kind := same_asks fun _ _ hst ↦ (h.kind_eq hst.tokens).symm

theorem isEnded : c.Same Parse.isEnded Parse.isEnded :=
  same_asks fun _ _ hst ↦ (h.isEnded_eq hst.tokens).symm

/-- The position of the current token is one that is allowed. -/
theorem position_bind {Q : α → β → Prop} {f : Position → Parse α} {g : Position → Parse β}
    (hfg : ∀ place, c.places place → c.Pairs Q (f place) (g place)) :
    c.Pairs Q (Parse.position >>= f) (Parse.position >>= g) := by
  have hposition : c.Pairs (fun place place' ↦ place' = place ∧ c.places place) Parse.position
      Parse.position := fun s t hst ↦
    .ok ⟨⟨h.position_eq hst.tokens, h.placed (h.current hst.tokens)⟩, hst⟩
  refine hposition.bind fun place place' hplace ↦ ?_
  obtain ⟨rfl, hplace⟩ := hplace
  exact hfg _ hplace

/-! ## Moving -/

theorem advance (count : Nat) (passNewLine : Bool) :
    c.Same (Parse.advance count passNewLine) (Parse.advance count passNewLine) :=
  pairs_onTokens (h.advances count passNewLine)

theorem skipNewLines : c.Same Parse.skipNewLines Parse.skipNewLines := pairs_onTokens h.skips

theorem peek {count : Nat} (hcount : count ≤ Window.minLookahead) (passNewLine : Bool) :
    c.Shows (Parse.peek count passNewLine) (Parse.peek count passNewLine) :=
  pairs_onTokens (h.peeks passNewLine hcount)

/-! ## Failing -/

/-- Failures at the current token, with causes that depend on that token. -/
theorem fails {σ : Type} {S : σ → σ → Prop} {Q : α → β → Prop} {x : EStateM ScriptError σ α}
    {y : EStateM ScriptError σ β} {s s' : σ} {cause cause' : Cause} (hvw : c.windows v w)
    (hx : x s = .error (v.error cause) s) (hy : y s' = .error (w.error cause') s')
    (hcause : (∀ t u, c.tokens t u → u = t) → cause' = cause) :
    Agree c.lee (fun a b s t ↦ Q a b ∧ S s t) (x s) (y s') := by
  rw [hx, hy]
  rcases h.exact with hexact | hforgives
  · have hsame : w.error cause' = v.error cause := by
      rw [Window.error, Window.error, h.position_eq hvw, hcause hexact]
    rw [hsame]
    exact .error (h.common _ (h.placed (h.current hvw)))
  · exact .first (hforgives.first _)

theorem fail {Q : α → β → Prop} {cause cause' : Cause}
    (hcause : (∀ t u, c.tokens t u → u = t) → cause' = cause) :
    c.Pairs Q (Parse.fail cause) (Parse.fail cause') :=
  fun _ _ hst ↦ h.fails hst.tokens rfl rfl hcause

theorem failExpected {Q : α → β → Prop} (wanted : String) :
    c.Pairs Q (Parse.failExpected wanted) (Parse.failExpected wanted) :=
  h.current_shows.bind fun t u htu ↦ h.fail fun hexact ↦ by rw [hexact t u htu]

/-- A loop without fuel is allowed for on the first side. -/
theorem failFuel_first {Q : α → β → Prop} (y : Parse β) : c.Pairs Q Parse.failFuel y :=
  fun s _ _ ↦ .first (e := s.tokens.error .outOfFuel) (h.fuel _ rfl).1

/-- A loop without fuel is allowed for on the second side. -/
theorem failFuel_second {Q : α → β → Prop} (x : Parse α) : c.Pairs Q x Parse.failFuel :=
  fun _ t _ ↦ .second (e := t.tokens.error .outOfFuel) (h.fuel _ rfl).2

/-- Loops agree if their rounds do. -/
theorem rounded {I : α → Prop} {Q : β → γ → Prop} {f : α → Parse (Parse.Round α β)}
    {g : α → Parse (Parse.Round α γ)} (hfg : ∀ a, I a → c.Rounds I Q (f a) (g a))
    (m n : Nat) {a : α}
    (ha : I a) : c.Pairs Q (Parse.rounded f m a) (Parse.rounded g n a) := by
  induction m generalizing n a with
  | zero => exact h.failFuel_first _
  | succ m ih =>
    cases n with
    | zero => exact h.failFuel_second _
    | succ n =>
      refine (hfg a ha).bind fun r r' hr ↦ ?_
      cases hr with
      | again hI => exact ih n hI
      | done hQ => exact .pure hQ

/-! ## Requiring -/

theorem expect {text : String} (htext : Lexeme.IsAsked text) (passNewLine : Bool) :
    c.Same (Parse.expect text passNewLine) (Parse.expect text passNewLine) := by
  refine pairs_onTokens (.get_bind fun v w hvw ↦ ?_)
  rw [h.is_eq hvw htext]
  refine .ite (h.advances 1 passNewLine) fun v' w' hvw' ↦ ?_
  exact h.fails hvw' rfl rfl fun hexact ↦ by rw [hexact _ _ (h.current hvw')]

theorem expectName (passNewLine : Bool) :
    c.Same (Parse.expectName passNewLine) (Parse.expectName passNewLine) := by
  refine pairs_onTokens (Paired.bind (Q := fun t u ↦ u.text = t.text) (.get_bind fun v w hvw ↦ ?_)
    fun t u htu ↦ .pure htu.symm)
  rw [h.kind_eq hvw]
  by_cases hkind : v.kind = .ident
  · rw [if_pos hkind, if_pos hkind]
    have hlexeme : v.current.lexeme.kind = .ident := hkind
    have hsame : w.current.lexeme = v.current.lexeme :=
      (h.lexeme (h.current hvw)).eq_of_kind (by simp [hlexeme]) (by simp [hlexeme])
    exact (h.advances 1 passNewLine).paired fun _ ↦ .pure (congrArg Lexeme.text hsame)
  · rw [if_neg hkind, if_neg hkind]
    exact fun v' w' hvw' ↦ h.fails hvw' rfl rfl fun hexact ↦ by rw [hexact _ _ (h.current hvw')]

/-! ## Scopes and progress -/

theorem popScope : c.Same Parse.popScope Parse.popScope := by
  refine .get_bind fun s t hst ↦ ?_
  have hsymbols : t.symbols = s.symbols := by rw [hst.rest]
  rw [hsymbols]
  cases s.symbols.pop with
  | ok popped => exact same_modify (fun _ _ ↦ rfl) fun _ ↦ rfl
  | error cause => exact h.fail fun _ ↦ rfl

/-- Tokens that were seen before are at the same place, or it does not matter. -/
def SamePlace (c : Likeness) (place place' : Nat × Nat) : Prop := place' = place ∨ c.lee.Forgives

theorem place : c.Pairs (SamePlace c) Parse.place Parse.place := by
  intro s t hst
  refine .ok ⟨?_, hst⟩
  rcases h.exact with hexact | hforgives
  · exact .inl (by rw [hexact _ _ (h.current hst.tokens)])
  · exact .inr hforgives

/-- Both have moved since, or neither has. If that is forgiven, nothing is to be shown. -/
theorem requireProgress {before before' : Nat × Nat} (hbefore : SamePlace c before before') :
    c.Same (Parse.requireProgress before) (Parse.requireProgress before') := by
  by_cases hforgives : c.lee.Forgives
  · intro s t hst
    rw [Parse.requireProgress_run, Parse.requireProgress_run]
    split
    · exact .first (hforgives.first _)
    · split
      · exact .second (hforgives.second _ _ rfl)
      · exact .ok ⟨rfl, hst⟩
  · obtain rfl := hbefore.resolve_right hforgives
    refine h.place.bind fun place place' hplace ↦ ?_
    obtain rfl := hplace.resolve_right hforgives
    refine h.isEnded.paired fun _ ↦ .ite ?_ (.pure rfl)
    exact h.current_shows.bind fun t u htu ↦ h.fail fun hexact ↦ by rw [hexact t u htu]

end IsKept

end Likeness

/-! ## Bounds and extensions -/

namespace Parse

/-- The second bound is the first one, or it is wider and the first run may fail at its own. -/
def Widens (lee : Leeway) (max₁ max₂ : Nat) : Prop :=
  max₁ = max₂ ∨ max₁ ≤ max₂ ∧ ∀ e : ScriptError, e.category = .limit → lee.first e

/-- Every bound that a parser has is widened, or stays as it is. -/
structure Bounded (lee : Leeway) (limits₁ limits₂ : Limits) : Prop where
  /-- Bounds on blocks. -/
  statements : Widens lee limits₁.maxStatementDepth limits₂.maxStatementDepth
  /-- Bounds on argument lists. -/
  calls : Widens lee limits₁.maxCallDepth limits₂.maxCallDepth
  /-- Bounds on links. -/
  members : Widens lee limits₁.maxMemberDepth limits₂.maxMemberDepth
  /-- Bounds on parentheses. -/
  parens : Widens lee limits₁.maxParenDepth limits₂.maxParenDepth
  /-- Bounds on operands. -/
  operands : Widens lee limits₁.maxExpressionDepth limits₂.maxExpressionDepth
  /-- Bounds on parameters. -/
  params : Widens lee limits₁.maxParams limits₂.maxParams
  /-- Bounds on aliases. -/
  aliases : Widens lee limits₁.maxAliases limits₂.maxAliases

theorem Bounded.refl {lee : Leeway} (limits : Limits) : Bounded lee limits limits :=
  ⟨.inl rfl, .inl rfl, .inl rfl, .inl rfl, .inl rfl, .inl rfl, .inl rfl⟩

end Parse

namespace Likeness

variable {c : Likeness} {ctx₁ ctx₂ : ParseContext} {sub₁ sub₂ : Subparser} {α : Type}

/-- The subparsers agree on every goal. -/
structure Serves (c : Likeness) (sub₁ sub₂ : Subparser) : Prop where
  /-- On statements. -/
  statement : c.Same (sub₁ .statement) (sub₂ .statement)
  /-- On conditionals. -/
  conditional : c.Same (sub₁ .conditional) (sub₂ .conditional)
  /-- On expressions. -/
  expression : ∀ grouped, c.Places (sub₁ (.expression grouped)) (sub₂ (.expression grouped))
  /-- On operands. -/
  operand : c.Places (sub₁ .operand) (sub₂ .operand)
  /-- On embedded sections with related tokens. -/
  embedded : ∀ {list list' : List Token}, List.Forall₂ c.tokens list list' →
    c.Same (sub₁ (.embedded list)) (sub₂ (.embedded list'))

/-- What is asked of the surroundings of two parsers that are to agree. -/
structure Kindred (c : Likeness) (ctx₁ ctx₂ : ParseContext) : Prop
    extends Parse.Bounded c.lee ctx₁.limits ctx₂.limits where
  /-- What the runs have in common is kept. -/
  kept : c.IsKept
  /-- Extensions replace the same tokens. -/
  replaceTokens : c.Same ctx₁.replaceTokens ctx₂.replaceTokens
  /-- Extensions build the same nodes. -/
  build? : ∀ {sub₁ sub₂ : Subparser}, c.Serves sub₁ sub₂ → ∀ kind,
    c.Pairs (fun e e' ↦ e' = e ∧ ∀ node ∈ e, c.places node.position) (ctx₁.build? sub₁ kind)
      (ctx₂.build? sub₂ kind)

/-- Without extensions, nothing is asked but that the bounds are widened. -/
theorem IsKept.kindred (h : c.IsKept) (h₁ : ctx₁.registry.entries = [])
    (h₂ : ctx₂.registry.entries = []) (hbounds : Parse.Bounded c.lee ctx₁.limits ctx₂.limits) :
    c.Kindred ctx₁ ctx₂ where
  toBounded := hbounds
  kept := h
  replaceTokens s t hst := by
    rw [Parse.replaceTokens_run h₁, Parse.replaceTokens_run h₂]
    exact .ok ⟨rfl, hst⟩
  build? _ kind s t hst := by
    rw [Parse.build?_run h₁, Parse.build?_run h₂]
    exact .ok ⟨⟨rfl, by simp⟩, hst⟩

namespace Kindred

variable (h : c.Kindred ctx₁ ctx₂)

include h

/-- A check of a bound that the second side may have wider. -/
theorem check {max₁ max₂ n : Nat} (hmax : Parse.Widens c.lee max₁ max₂) {cause : Nat → Cause}
    (hcause : ∀ max, (cause max).category = .limit) :
    c.Same (if max₁ < n then Parse.fail (cause max₁) else pure ())
      (if max₂ < n then Parse.fail (cause max₂) else pure ()) := by
  rcases hmax with rfl | ⟨hle, hlimit⟩
  · exact .ite (h.kept.fail fun _ ↦ rfl) (.pure _)
  · by_cases hn : max₁ < n
    · rw [if_pos hn]
      exact fun s _ _ ↦ .first (e := s.tokens.error (cause max₁)) (hlimit _ (hcause max₁))
    · rw [if_neg hn, if_neg (by omega)]
      exact .pure _

/-- A check of a bound, before what follows. -/
theorem check_bind {max₁ max₂ n : Nat} (hmax : Parse.Widens c.lee max₁ max₂) {cause : Nat → Cause}
    (hcause : ∀ max, (cause max).category = .limit) {Q : α → α → Prop} {f g : Unit → Parse α}
    (hfg : ∀ u, c.Pairs Q (f u) (g u)) :
    c.Pairs Q (if max₁ < n then Parse.fail (cause max₁) >>= f else f ())
      (if max₂ < n then Parse.fail (cause max₂) >>= g else g ()) := by
  have hsplit {max : Nat} (k : Unit → Parse α) :
      (if max < n then Parse.fail (cause max) >>= k else k ()) =
        (if max < n then Parse.fail (cause max) else pure ()) >>= k := by
    rw [Parse.ite_bind, pure_bind]
  rw [hsplit, hsplit]
  exact (h.check hmax hcause).paired hfg

theorem limit {max₁ max₂ : Nat} (hmax : Parse.Widens c.lee max₁ max₂) (depth : Nat)
    (what : Nesting) :
    c.Same (ParseContext.limit depth max₁ what) (ParseContext.limit depth max₂ what) :=
  h.check hmax fun _ ↦ rfl

/-- Behind the entrance of something counted, whose depth is `depth`. -/
theorem enter {m : ParserState → ParserState} {depth : ParserState → Nat} {max₁ max₂ : Nat}
    {what : Nesting}
    (hm : ∀ (s : ParserState) (w : Window Lexer),
      m { s with tokens := w } = { m s with tokens := w })
    (htokens : ∀ s, (m s).tokens = s.tokens)
    (hdepth : ∀ (s : ParserState) (w : Window Lexer), depth { s with tokens := w } = depth s)
    (hmax : Parse.Widens c.lee max₁ max₂) :
    c.Same (do modify m; ParseContext.limit (depth (← get)) max₁ what)
      (do modify m; ParseContext.limit (depth (← get)) max₂ what) := by
  refine (same_modify hm htokens).bind fun _ ↦ .get_bind fun s t hst ↦ ?_
  have hsame : depth t = depth s := by rw [hst.rest, hdepth]
  rw [hsame]
  exact h.limit hmax _ what

theorem enterParen : c.Same ctx₁.enterParen ctx₂.enterParen :=
  h.enter (fun _ _ ↦ rfl) (fun _ ↦ rfl) (fun _ _ ↦ rfl) h.parens

theorem enterCall : c.Same ctx₁.enterCall ctx₂.enterCall :=
  h.enter (fun _ _ ↦ rfl) (fun _ ↦ rfl) (fun _ _ ↦ rfl) h.calls

theorem enterBlock : c.Same ctx₁.enterBlock ctx₂.enterBlock :=
  h.enter (fun _ _ ↦ rfl) (fun _ ↦ rfl) (fun _ _ ↦ rfl) h.statements

omit h in
theorem leaveParen : c.Same ParseContext.leaveParen ParseContext.leaveParen :=
  same_modify (fun _ _ ↦ rfl) fun _ ↦ rfl

omit h in
theorem leaveCall : c.Same ParseContext.leaveCall ParseContext.leaveCall :=
  same_modify (fun _ _ ↦ rfl) fun _ ↦ rfl

omit h in
theorem leaveBlock : c.Same ParseContext.leaveBlock ParseContext.leaveBlock :=
  same_modify (fun _ _ ↦ rfl) fun _ ↦ rfl

theorem deeper {Q : α → α → Prop} {x y : Parse α} (hxy : c.Pairs Q x y) :
    c.Pairs Q (ctx₁.deeper x) (ctx₂.deeper y) := by
  have hlimited : c.Pairs Q
      (do
        ParseContext.limit (← get).expressionDepth ctx₁.limits.maxExpressionDepth .expression
        x)
      (do
        ParseContext.limit (← get).expressionDepth ctx₂.limits.maxExpressionDepth .expression
        y) := by
    refine .get_bind fun s t hst ↦ ?_
    have hsame : t.expressionDepth = s.expressionDepth := by rw [hst.rest]
    rw [hsame]
    exact (h.limit h.operands _ _).paired fun _ ↦ hxy
  intro s t hst
  rw [Parse.deeper_run, Parse.deeper_run]
  refine (hlimited { s with expressionDepth := s.expressionDepth + 1 }
    { t with expressionDepth := t.expressionDepth + 1 } ⟨hst.tokens, by rw [hst.rest]⟩).mapState ?_
  rintro a b s' t' ⟨hab, hst'⟩
  exact ⟨hab, hst'.tokens, by rw [hst'.rest]⟩

theorem aside {Q : α → α → Prop} {x y : Parse α} {list list' : List Token}
    (hlist : List.Forall₂ c.tokens list list') (hxy : c.Pairs Q x y) :
    c.Pairs Q (Parse.aside list x) (Parse.aside list' y) := by
  intro s t hst
  rw [Parse.aside_run, Parse.aside_run]
  refine (hxy { s with tokens := .ofTokens list s.tokens.lookahead }
    { t with tokens := .ofTokens list' t.tokens.lookahead }
    ⟨h.kept.nested hst.tokens hlist, by rw [hst.rest]⟩).mapState ?_
  rintro a b s' t' ⟨hab, hst'⟩
  exact ⟨hab, hst.tokens, by rw [hst'.rest]⟩

end Kindred

end Likeness

end ScriptFront
