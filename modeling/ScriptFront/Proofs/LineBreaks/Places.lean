import ScriptFront.Parse.Operand
import ScriptFront.Proofs.Window.Separators

/-!
# Where a line break may stand

Inside brackets a line break mostly means nothing, but not everywhere: between an operand and its
links it ends the operand, and between a function and the argument that it is called with it ends
the call. Which is the case depends on the brackets that are open and on what the last token was. A
`Place` records both, and every token leads from one place to the next.

Behind an operand it matters which bracket is the innermost one. In a group an operator may follow
in the next line, in a list of any kind only the comma or the closing bracket. Once a function is
called without parentheses, its arguments take up the rest of the bracket, and a line break is their
end: only the closing bracket may follow in the next line then.

The body of a function without a name is a block, where line breaks separate statements. In a block
no place is free, however the brackets inside it are nested.

A place *refines* another one if that frees whatever it does. Where it is not known which of two
places was reached, the one that frees more can be taken.
-/

namespace ScriptFront

/-! ## Places -/

/-- What an open bracket holds. -/
inductive Level where
  /-- An expression in parentheses. -/
  | group
  /-- Arguments, items, entries or parameters, or an index. -/
  | list
  /-- The arguments of a call without parentheses, up to the end of the bracket. -/
  | bare
deriving DecidableEq, Repr

/-- What the tokens so far end with. -/
inductive Lately where
  /-- A prefix operator, whose operand comes in the same line. -/
  | sign
  /-- An opening bracket, a comma, a colon or an infix operator: the next line may go on with
  anything. -/
  | fresh
  /-- The dot before the name of a member. -/
  | dot
  /-- An operand. -/
  | operand
  /-- A name, which is an operand and may be that of a function. -/
  | callee
deriving DecidableEq, Repr

/-- A place between two tokens of an expression. -/
inductive Place where
  /-- Inside brackets, the innermost one first. -/
  | inside (levels : List Level) (lately : Lately)
  /-- In a block, with so many brackets open in it, and others around it. -/
  | block (depth : Nat) (outer : List Level)
deriving DecidableEq, Repr

/-- Whether an operand was read last. -/
def Lately.isBehind : Lately → Bool
  | .operand | .callee => true
  | _ => false

/-- Whether an infix operator has this spelling. -/
def isInfix (text : String) : Bool := (Operator.ofSymbol? text).isSome

/-- The symbols that may stand in the next line behind an operand. Closing brackets are among them,
and the brace that begins a body. -/
def Level.breaks : Level → List String
  | .group => [")", "]", "\x7d", "\x7b"] ++ Operator.all.map Operator.symbol
  | .list => [")", "]", "\x7d", "\x7b", ","]
  | .bare => [")", "]", "\x7d", "\x7b"]

/-- In the innermost bracket, a call without parentheses begins. -/
def bareLevels : List Level → List Level
  | [] => []
  | _ :: outer => .bare :: outer

namespace Place

/-- The same place with something else read last. In a block that makes no difference. -/
def now (p : Place) (lately : Lately) : Place :=
  match p with
  | .inside levels _ => .inside levels lately
  | .block depth outer => .block depth outer

/-- The place where the arguments of a call without parentheses begin. -/
def bared : Place → Place
  | .inside levels _ => .inside (bareLevels levels) .fresh
  | .block depth outer => .block depth outer

/-- The place inside one more bracket. -/
def within (p : Place) (level : Level) : Place :=
  match p with
  | .inside levels _ => .inside (level :: levels) .fresh
  | .block depth outer => .block (depth + 1) outer

/-- The place in the body of a function. -/
def inBody : Place → Place
  | .inside levels _ => .block 0 levels
  | .block depth outer => .block (depth + 1) outer

/-- The place behind the bracket that closes the innermost one. -/
def closed : Place → Place
  | .inside levels _ => .inside levels.tail .operand
  | .block 0 outer => .inside outer .operand
  | .block (depth + 1) outer => .block depth outer

/-- Whether an operand was read last. -/
def isBehind : Place → Bool
  | .inside _ lately => lately.isBehind
  | .block _ _ => false

/-- The place behind a symbol. A bracket behind an operand holds arguments or an index, and a brace
there begins a body. -/
def afterSymbol (p : Place) (text : String) : Place :=
  match text with
  | "(" => p.within (if p.isBehind then .list else .group)
  | "[" => p.within .list
  | "\x7b" => if p.isBehind then p.inBody else p.within .list
  | ")" | "]" | "\x7d" => p.closed
  | "," | ":" => p.now .fresh
  | "." => p.now .dot
  | "!" => p.now .sign
  | "++" | "--" => p.now (if p.isBehind then .operand else .sign)
  | text => p.now (if p.isBehind && isInfix text then .fresh else .sign)

/-- The place behind a name. The name of a member is not that of a function. -/
def afterName : Place → Place
  | .inside levels .dot => .inside levels .operand
  | p => p.now .callee

/-- The place in front of a token. A token that opens an operand behind a name is the first argument
of a call without parentheses: between two operands an operator would be missing. A square bracket
may also begin an index. The tokens do not tell whether the name is that of a function, so the call
is assumed then too, which frees less. -/
def inFront (p : Place) (t : Token) : Place :=
  match p with
  | .inside levels .callee =>
    if Parse.opensOperand t then .inside (bareLevels levels) .fresh else .inside levels .callee
  | p => p

/-- The place behind a token. Nothing changes at a line break. -/
def after (p : Place) (t : Token) : Place :=
  match t.lexeme with
  | .newLine _ => p
  | .symbol text => (p.inFront t).afterSymbol text
  | .ident _ => (p.inFront t).afterName
  | .keyword word => p.now (if word = "function" then .operand else .sign)
  | _ => (p.inFront t).now .operand

/-- Whether the token may stand in the next line. -/
def frees : Place → Token → Bool
  | .block _ _, _ => false
  | .inside levels lately, t =>
    match lately with
    | .sign => false
    | .fresh | .dot => true
    | .operand | .callee => t.kind == .symbol && (levels.head?.elim [] Level.breaks).contains t.text

end Place

variable {p q : Place} {text : String}

/-! ## Places that tokens lead to -/

namespace Place

section

variable (p : Place) (lately lately' : Lately) (level : Level)

@[simp] theorem now_now : (p.now lately).now lately' = p.now lately' := by cases p <;> rfl

@[simp] theorem within_now : (p.now lately).within level = p.within level := by cases p <;> rfl

@[simp] theorem inBody_now : (p.now lately).inBody = p.inBody := by cases p <;> rfl

@[simp] theorem bared_now : (p.now lately).bared = p.bared := by cases p <;> rfl

@[simp] theorem closed_now : (p.now lately).closed = p.closed := by
  rcases p with _ | ⟨_ | _, _⟩ <;> rfl

@[simp] theorem now_fresh_within : (p.within level).now .fresh = p.within level := by
  cases p <;> rfl

@[simp] theorem now_fresh_bared : p.bared.now .fresh = p.bared := by cases p <;> rfl

@[simp] theorem closed_within : (p.within level).closed = p.now .operand := by cases p <;> rfl

@[simp] theorem closed_inBody : p.inBody.closed = p.now .operand := by cases p <;> rfl

theorem after_newLine {p : Place} {t : Token} (h : Window.isNewLine t = true) : p.after t = p := by
  have hkind : t.lexeme.kind = .newLine := beq_iff_eq.mp h
  unfold after
  cases hlexeme : t.lexeme with
  | newLine text => rfl
  | _ => rw [hlexeme] at hkind; cases hkind

theorem afterSymbol_fresh :
    (p.now .fresh).afterSymbol "(" = p.within .group ∧ (p.now .fresh).afterSymbol "[" =
    p.within .list ∧
      (p.now .fresh).afterSymbol "\x7b" = p.within .list := by
  cases p <;> exact ⟨rfl, rfl, rfl⟩

theorem afterSymbol_sign (h : text ∈ ["-", "!", "++", "--"]) :
    (p.now .fresh).afterSymbol text = p.now .sign := by
  simp only [List.mem_cons, List.not_mem_nil, or_false] at h
  rcases h with rfl | rfl | rfl | rfl <;> cases p <;> rfl

theorem afterSymbol_operand :
    (p.now .operand).afterSymbol "(" = p.within .list ∧
      (p.now .operand).afterSymbol "[" = p.within .list ∧
      (p.now .operand).afterSymbol "\x7b" = p.inBody ∧
      (p.now .operand).afterSymbol "." = p.now .dot ∧
      (p.now .operand).afterSymbol "++" = p.now .operand ∧
      (p.now .operand).afterSymbol "--" = p.now .operand := by
  cases p <;> exact ⟨rfl, rfl, rfl, rfl, rfl, rfl⟩

theorem afterSymbol_operator (op : Operator) :
    (p.now .operand).afterSymbol op.symbol = p.now .fresh := by
  rcases op with op | op | op <;> cases op <;> cases p <;> rfl

theorem afterSymbol_separator (h : text ∈ [",", ":"]) : p.afterSymbol text = p.now .fresh := by
  simp only [List.mem_cons, List.not_mem_nil, or_false] at h
  rcases h with rfl | rfl <;> rfl

theorem afterSymbol_close (h : text ∈ [")", "]", "\x7d"]) : p.afterSymbol text = p.closed := by
  simp only [List.mem_cons, List.not_mem_nil, or_false] at h
  rcases h with rfl | rfl | rfl <;> rfl

end

theorem afterName_fresh (p : Place) : (p.now .fresh).afterName = p.now .callee := by cases p <;> rfl

theorem afterName_dot (p : Place) : (p.now .dot).afterName = p.now .operand := by cases p <;> rfl

/-- Only a name makes a difference to what opens an operand. -/
theorem inFront_now {p : Place} {t : Token} {lately : Lately} (h : lately ≠ .callee) :
    (p.now lately).inFront t = p.now lately := by
  cases p with
  | inside levels _ =>
    cases lately with
    | callee => exact absurd rfl h
    | _ => rfl
  | block depth outer => rfl

theorem inFront_eq {p : Place} {t : Token} (h : Parse.opensOperand t = false) :
    p.inFront t = p := by
  rcases p with ⟨levels, _ | _ | _ | _ | _⟩ | ⟨depth, outer⟩
  case inside.callee => exact if_neg (by simp [h])
  all_goals rfl

/-- Behind a name, what opens an operand is the first argument. -/
theorem inFront_callee {p : Place} {t : Token} (h : Parse.opensOperand t = true) :
    (p.now .callee).inFront t = p.bared := by
  cases p with
  | inside levels _ => exact if_pos h
  | block depth outer => rfl

/-- Behind a literal. -/
theorem after_literal {p : Place} {t : Token}
    (h : t.lexeme.isLiteral = true ∨ t.kind = .interpolated) :
    (p.now .fresh).after t = p.now .operand := by
  rw [Token.kind] at h
  unfold after
  rw [inFront_now (by simp)]
  cases hlexeme : t.lexeme with
  | newLine text | symbol text | ident name | keyword word =>
    simp [hlexeme, Lexeme.isLiteral, Lexeme.kind] at h
  | _ => exact now_now ..

theorem after_ident {p : Place} {t : Token} {name : String} (h : t.lexeme = .ident name) :
    (p.now .fresh).after t = p.now .callee := by
  unfold after
  rw [h, inFront_now (by simp)]
  exact afterName_fresh p

theorem after_function {p : Place} {t : Token} (h : t.lexeme = .keyword "function") :
    (p.now .fresh).after t = p.now .operand := by
  unfold after
  rw [h]
  exact now_now ..

/-- Behind a prefix operator, the same leads on as at the beginning of an expression. -/
theorem after_sign {p : Place} {t : Token} (h : Window.isNewLine t = false) :
    (p.now .sign).after t = (p.now .fresh).after t := by
  unfold after
  cases hlexeme : t.lexeme with
  | newLine text =>
    rw [Window.isNewLine, Token.kind, hlexeme] at h
    cases h
  | _ => cases p <;> rfl

/-- Behind a name, the first argument leads on from where the arguments begin. -/
theorem after_callee {p : Place} {t : Token} (h : Parse.opensOperand t = true) :
    (p.now .callee).after t = p.bared.after t := by
  have hfront : p.bared.inFront t = p.bared := by
    rw [← now_fresh_bared]
    exact inFront_now (by simp)
  unfold after
  rw [inFront_callee h, hfront]
  cases hlexeme : t.lexeme with
  | newLine text | keyword word =>
    simp [Parse.opensOperand, Lexeme.isLiteral, Token.kind, Token.isSymbol, hlexeme,
      Lexeme.kind] at h
  | _ => rfl

/-! ## Brackets that are open -/

/-- The brackets that are open, if this is not in a block. -/
def levels : Place → List Level
  | .inside levels _ => levels
  | .block _ _ => []

/-- The innermost bracket is no group, so a line break ends an expression. -/
def IsUngrouped (p : Place) : Prop := .group ∉ p.levels.head?

theorem isUngrouped_list (p : Place) : (p.within .list).IsUngrouped := by
  cases p <;> simp [IsUngrouped, within, levels]

theorem isUngrouped_bared (p : Place) : p.bared.IsUngrouped := by
  rcases p with ⟨_ | _, _⟩ | _ <;> simp [IsUngrouped, bared, bareLevels, levels]

theorem isUngrouped_block (depth : Nat) (outer : List Level) : (block depth outer).IsUngrouped := by
  simp [IsUngrouped, levels]

/-- Behind an operand, the innermost bracket says what may stand in the next line. -/
theorem exists_of_frees {p : Place} {t : Token} {lately : Lately}
    (h : (p.now lately).frees t = true)
    (hbehind : lately.isBehind = true) :
    ∃ level ∈ p.levels.head?, t.kind = .symbol ∧ t.text ∈ level.breaks := by
  cases p with
  | block => cases h
  | inside levels _ =>
    have hfrees :
        (t.kind == .symbol && (levels.head?.elim [] Level.breaks).contains t.text) = true := by
      cases lately with
      | operand | callee => exact h
      | _ => cases hbehind
    obtain ⟨hkind, htext⟩ := Bool.and_eq_true_iff.mp hfrees
    cases hlevels : levels.head? with
    | none =>
      rw [hlevels] at htext
      cases htext
    | some level =>
      rw [hlevels] at htext
      exact ⟨level, hlevels, beq_iff_eq.mp hkind, List.contains_iff_mem.mp htext⟩

/-- No token of this spelling may stand in the next line. -/
def Withholds (p : Place) (text : String) : Prop :=
  ∀ t : Token, t.is text = true → p.frees t = false

theorem withholds_now {p : Place} {lately : Lately} (hbehind : lately.isBehind = true)
    (h : ∀ level ∈ p.levels.head?, text ∉ level.breaks) : (p.now lately).Withholds text := by
  intro t his
  rw [← Bool.not_eq_true]
  intro hfrees
  obtain ⟨level, hlevel, -, htext⟩ := exists_of_frees hfrees hbehind
  exact h level hlevel (beq_iff_eq.mp his ▸ htext)

/-! ## Places that free more -/

/-- Brackets that hold the same, or of which the first holds arguments without parentheses. -/
abbrev LevelsRefine : List Level → List Level → Prop :=
  List.Forall₂ fun level level' ↦ level = .bare ∨ level = level'

/-- Whatever a place frees, the second one does: in its brackets no call without parentheses has
begun, and it does not matter there whether a name is that of a function. -/
inductive Refines : Place → Place → Prop
  /-- Inside brackets. -/
  | inside {levels levels' : List Level} {a b : Lately} (hlevels : LevelsRefine levels levels')
    (hab : a = b ∨ a = .callee ∧ b = .operand) : Refines (.inside levels a) (.inside levels' b)
  /-- In a block. -/
  | block (depth : Nat) {outer outer' : List Level} (houter : LevelsRefine outer outer') :
    Refines (.block depth outer) (.block depth outer')

theorem levelsRefine_refl (levels : List Level) : LevelsRefine levels levels :=
  List.forall₂_same.mpr fun _ _ ↦ .inr rfl

theorem levelsRefine_bareLevels {levels levels' : List Level} (h : LevelsRefine levels levels') :
    LevelsRefine (bareLevels levels) levels' := by
  cases h with
  | nil => exact .nil
  | cons _ h => exact .cons (.inl rfl) h

theorem levelsRefine_bare {levels levels' : List Level} (h : LevelsRefine levels levels') :
    LevelsRefine (bareLevels levels) (bareLevels levels') := by
  cases h with
  | nil => exact .nil
  | cons _ h => exact .cons (.inl rfl) h

namespace Refines

theorem callee_operand (p : Place) : (p.now .callee).Refines (p.now .operand) := by
  rcases p with ⟨levels, lately⟩ | ⟨depth, outer⟩
  · exact .inside (levelsRefine_refl levels) (.inr ⟨rfl, rfl⟩)
  · exact .block depth (levelsRefine_refl outer)

theorem refl (p : Place) : p.Refines p := by
  cases p with
  | inside levels lately => exact .inside (levelsRefine_refl levels) (.inl rfl)
  | block depth outer => exact .block depth (levelsRefine_refl outer)

theorem bared_operand (p : Place) : (p.bared.now .operand).Refines (p.now .operand) := by
  rcases p with ⟨levels, lately⟩ | ⟨depth, outer⟩
  · exact .inside (levelsRefine_bareLevels (levelsRefine_refl levels)) (.inl rfl)
  · exact .block depth (levelsRefine_refl outer)

variable (h : p.Refines q)

include h

theorem isBehind_eq : q.isBehind = p.isBehind := by
  cases h with
  | inside _ hab => rcases hab with rfl | ⟨rfl, rfl⟩ <;> rfl
  | block => rfl

theorem now (lately : Lately) : (p.now lately).Refines (q.now lately) := by
  cases h with
  | inside hlevels _ => exact .inside hlevels (.inl rfl)
  | block depth houter => exact .block depth houter

theorem within (level : Level) : (p.within level).Refines (q.within level) := by
  cases h with
  | inside hlevels _ => exact .inside (.cons (.inr rfl) hlevels) (.inl rfl)
  | block depth houter => exact .block (depth + 1) houter

theorem inBody : p.inBody.Refines q.inBody := by
  cases h with
  | inside hlevels _ => exact .block 0 hlevels
  | block depth houter => exact .block (depth + 1) houter

theorem closed : p.closed.Refines q.closed := by
  cases h with
  | inside hlevels _ =>
    refine .inside ?_ (.inl rfl)
    cases hlevels with
    | nil => exact .nil
    | cons _ hlevels => exact hlevels
  | block depth houter =>
    cases depth with
    | zero => exact .inside houter (.inl rfl)
    | succ depth => exact .block depth houter

theorem afterSymbol (text : String) : (p.afterSymbol text).Refines (q.afterSymbol text) := by
  unfold Place.afterSymbol
  rw [h.isBehind_eq]
  split
  · exact h.within _
  · exact h.within _
  · split
    · exact h.inBody
    · exact h.within _
  · exact h.closed
  · exact h.closed
  · exact h.closed
  all_goals exact h.now _

theorem afterName : p.afterName.Refines q.afterName := by
  cases h with
  | @inside levels levels' a b hlevels hab =>
    have hnow (lately : Lately) : (Place.inside levels lately).Refines (.inside levels' lately) :=
      .inside hlevels (.inl rfl)
    rcases hab with rfl | ⟨rfl, rfl⟩
    · cases a <;> exact hnow _
    · exact hnow _
  | block depth houter => exact .block depth houter

theorem inFront (t : Token) : (p.inFront t).Refines (q.inFront t) ∨
    Parse.opensOperand t = true ∧ ∃ levels levels', LevelsRefine levels levels' ∧
      p.inFront t = .inside (bareLevels levels) .fresh ∧
      q.inFront t = .inside levels' .operand := by
  cases h with
  | @inside levels levels' a b hlevels hab =>
    by_cases hopens : Parse.opensOperand t = true
    · have hcallee (levels : List Level) :
          (Place.inside levels .callee).inFront t = .inside (bareLevels levels) .fresh :=
        if_pos hopens
      rcases hab with rfl | ⟨rfl, rfl⟩
      · refine .inl ?_
        cases a with
        | callee =>
          rw [hcallee, hcallee]
          exact .inside (levelsRefine_bare hlevels) (.inl rfl)
        | _ => exact .inside hlevels (.inl rfl)
      · exact .inr ⟨hopens, levels, levels', hlevels, hcallee levels, rfl⟩
    · have hfront (levels : List Level) (a : Lately) :
          (Place.inside levels a).inFront t = .inside levels a := by
        cases a with
        | callee => exact if_neg hopens
        | _ => rfl
      rw [hfront, hfront]
      exact .inl (.inside hlevels hab)
  | block depth houter => exact .inl (.block depth houter)

/-- Behind a token, too, a place frees whatever the first one did. -/
theorem after (t : Token) : (p.after t).Refines (q.after t) := by
  have hnow := h.now
  have hsame := h
  rcases h.inFront t with hfront | ⟨hopens, levels, levels', hlevels, hp, hq⟩
  · unfold Place.after
    split
    · exact hsame
    · exact hfront.afterSymbol _
    · exact hfront.afterName
    · exact hnow _
    · exact hfront.now _
  -- behind the name of a function, the first argument begins
  · have hbare := levelsRefine_bareLevels hlevels
    unfold Place.after
    rw [hp, hq]
    split
    · exact hsame
    · next text hlexeme =>
      have htext : text = "!" ∨ text = "[" := by
        simpa [Parse.opensOperand, Lexeme.isLiteral, Token.kind, Token.isSymbol, Token.is,
          Lexeme.is, hlexeme, Lexeme.kind, Lexeme.text] using hopens
      rcases htext with rfl | rfl
      · exact .inside hbare (.inl rfl)
      · exact .inside (.cons (.inr rfl) hbare) (.inl rfl)
    · exact .inside hbare (.inl rfl)
    · exact hnow _
    · exact .inside hbare (.inl rfl)

theorem frees {t : Token} (hp : p.frees t = true) : q.frees t = true := by
  cases h with
  | @inside levels levels' a b hlevels hab =>
    have hbehind (hp : (Place.inside levels .operand).frees t = true) :
        (Place.inside levels' .operand).frees t = true := by
      cases hlevels with
      | nil => exact hp
      | @cons level level' levels levels' hlevel _ =>
        have hbreaks : ∀ text ∈ level.breaks, text ∈ level'.breaks := by
          rcases hlevel with rfl | rfl
          · cases level' <;> decide
          · exact fun _ ↦ id
        simp only [Place.frees, List.head?_cons, Option.elim_some, Bool.and_eq_true,
          List.contains_iff_mem] at hp ⊢
        exact ⟨hp.1, hbreaks _ hp.2⟩
    rcases hab with rfl | ⟨rfl, rfl⟩
    · cases a with
      | sign | fresh | dot => exact hp
      | operand | callee => exact hbehind hp
    · exact hbehind hp
  | block => exact hp

end Refines
end Place

end ScriptFront
