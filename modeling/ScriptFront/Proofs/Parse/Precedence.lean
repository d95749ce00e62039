import ScriptFront.Proofs.Parse.Stacks
import ScriptFront.Proofs.Parse.Steps

/-!
# Operator parsing is the precedence grammar

The loop over operands and operators, run on the tokens of a phrase, performs on its stacks exactly
what the phrase asks for. Since the stacks hold a spine, what comes out in the end is the grouped
tree of the phrase, the only one with that reading.

There are two ways through the parser, which the statements keep apart. Between operators a factor
is read by the loop itself, and a parenthesis is a mark on its stack. Behind a negation a factor is
an operand, and a parenthesis opens an expression of its own.

What the loop finds in its tokens depends on the extensions, which may replace them and are asked
for operands. `IsPhrase` says that it finds a phrase in them, and whatever it finds it gets past.
Without extensions it finds every phrase in the lexemes of it.
-/

namespace ScriptFront.Parse

/-! ## Line breaks -/

section Breaks

variable {t : Token} {tokens rest : List Token} {grouped : Bool} {groups : Nat}

theorem dropWhile_append_breaks {spellings : List String}
    (h : tokens.map Token.lexeme = breaks spellings) :
    (tokens ++ rest).dropWhile Window.isNewLine = rest.dropWhile Window.isNewLine := by
  have hbreak : ∀ t ∈ tokens, Window.isNewLine t = true := by
    intro t ht
    have hmem : t.lexeme ∈ breaks spellings := h ▸ List.mem_map_of_mem ht
    obtain ⟨spelling, -, hspelling⟩ := List.mem_map.mp hmem
    simp [Window.isNewLine, Token.kind, ← hspelling, Lexeme.kind]
  rw [List.dropWhile_append_of_pos hbreak]

/-- At the beginning of a round, line breaks are passed over where they may stand. -/
theorem roundTokens_breaks {spellings : List String} (hsolid : StartsSolid rest)
    (h : tokens.map Token.lexeme = breaks spellings)
    (hinside : (grouped || decide (0 < groups)) = false → spellings = []) :
    roundTokens grouped groups (tokens ++ rest) = rest := by
  rw [roundTokens]
  split
  · rw [dropWhile_append_breaks h, hsolid.dropWhile_eq]
  · next houtside =>
    have hnil : tokens = [] := by
      rw [hinside (by simpa using houtside)] at h
      exact List.map_eq_nil_iff.mp h
    rw [hnil, List.nil_append]

theorem followsOperand_breaks {spellings : List String}
    (h : tokens.map Token.lexeme = breaks spellings) (hrest : FollowsOperand rest) :
    FollowsOperand (tokens ++ rest) := by
  cases tokens with
  | nil => exact hrest
  | cons t tokens =>
    refine ⟨t, tokens ++ rest, rfl, ?_⟩
    obtain ⟨spelling, spellings, -, hspelling, -⟩ := List.map_eq_cons_iff.mp h.symm
    simp [opensLink, Token.kind, ← hspelling, Lexeme.kind]

theorem followsOperand_operator {op : Operator} (ht : t.lexeme = .symbol op.symbol) :
    FollowsOperand (t :: rest) := by
  refine ⟨t, rest, rfl, ?_⟩
  rw [opensLink_of_symbol ht]
  rcases op with op | op | op <;> cases op <;> decide

theorem followsOperand_closing (ht : t.lexeme = .symbol ")") : FollowsOperand (t :: rest) := by
  refine ⟨t, rest, rfl, ?_⟩
  rw [opensLink_of_symbol ht]
  decide

end Breaks

/-! ## Room for a phrase -/

/-- The bounds leave room for so many more parentheses and operands. -/
structure PhraseRoom (ctx : ParseContext) (base : ParserState) (parens depth : Nat) : Prop where
  /-- Room for parentheses. -/
  parens_le : base.parenDepth + parens ≤ ctx.limits.maxParenDepth
  /-- Room for operands. -/
  depth_le : base.expressionDepth + depth ≤ ctx.limits.maxExpressionDepth

namespace PhraseRoom

variable {ctx : ParseContext} {base : ParserState} {parens depth parens' depth' : Nat}

theorem mono (h : PhraseRoom ctx base parens depth) (hparens : parens' ≤ parens)
    (hdepth : depth' ≤ depth) :
    PhraseRoom ctx base parens' depth' where
  parens_le := Nat.le_trans (Nat.add_le_add_left hparens _) h.parens_le
  depth_le := Nat.le_trans (Nat.add_le_add_left hdepth _) h.depth_le

theorem openParen (h : PhraseRoom ctx base (1 + parens) depth) :
    PhraseRoom ctx { base with parenDepth := base.parenDepth + 1 } parens depth where
  parens_le := by
    have := h.parens_le
    simp only
    omega
  depth_le := h.depth_le

theorem openOperand (h : PhraseRoom ctx base parens (1 + depth)) :
    PhraseRoom ctx { base with expressionDepth := base.expressionDepth + 1 } parens depth where
  parens_le := h.parens_le
  depth_le := by
    have := h.depth_le
    simp only
    omega

theorem parenDepth_lt (h : PhraseRoom ctx base (1 + parens) depth) :
    base.parenDepth + 1 ≤ ctx.limits.maxParenDepth := by
  have := h.parens_le
  omega

theorem expressionDepth_lt (h : PhraseRoom ctx base parens depth) (hdepth : 1 ≤ depth) :
    base.expressionDepth + 1 ≤ ctx.limits.maxExpressionDepth := by
  have := h.depth_le
  omega

end PhraseRoom

/-! ## Phrases in tokens -/

/-- A change of trees that changes nothing but the leaves of operations and negations. -/
structure IsLeafwise (h : Expr → Expr) : Prop where
  /-- Operations stay as they are. -/
  operation : Yard.KeepsOperations h
  /-- Negations stay as they are. -/
  negation : ∀ e position scope,
    h (.mk (.unary .not e) position scope) = .mk (.unary .not (h e)) position scope

theorem isLeafwise_id : IsLeafwise id := ⟨fun _ _ _ ↦ rfl, fun _ _ _ ↦ rfl⟩

/-- The first token is no line break. -/
def BeginsSolid (tokens : List Token) : Prop :=
  ∃ t rest, tokens = t :: rest ∧ Window.isNewLine t = false

namespace BeginsSolid

variable {tokens : List Token}

theorem startsSolid (h : BeginsSolid tokens) (rest : List Token) :
    StartsSolid (tokens ++ rest) := by
  obtain ⟨t, tokens, rfl, ht⟩ := h
  exact startsSolid_cons ht

theorem length_pos (h : BeginsSolid tokens) : 0 < tokens.length := by
  obtain ⟨t, tokens, rfl, -⟩ := h
  exact Nat.succ_pos _

theorem append (h : BeginsSolid tokens) (rest : List Token) : BeginsSolid (tokens ++ rest) := by
  obtain ⟨t, tokens, rfl, ht⟩ := h
  exact ⟨t, tokens ++ rest, rfl, ht⟩

end BeginsSolid

/-- What ends the call of a function that is named without arguments. -/
def EndsCall (tokens : List Token) : Prop :=
  ∃ t rest, tokens = t :: rest ∧ t.is "(" = false ∧ t.is "." = false ∧ opensOperand t = false

section Found

variable (ctx : ParseContext) (table : SymbolTable) (h : Expr → Expr)

mutual

/-- Before `rest`, the loop finds the phrase in the tokens; the change `h` says what names stand
for. -/
inductive IsPhrase : Bool → Phrase → List Token → List Token → Prop
  /-- One factor. -/
  | single {inside : Bool} {factor : Factor} {tokens rest : List Token}
    (hfactor : IsFactor factor tokens rest) : IsPhrase inside (.single factor) tokens rest
  /-- A phrase, line breaks, what an operator is made of, line breaks, and a last factor. -/
  | more {inside : Bool} {init : Phrase} {before after : List String} {op : Operator}
      {last : Factor}
    {t : Token} {front lead words trail back rest : List Token}
    (hinit : IsPhrase inside init front (lead ++ (words ++ (trail ++ (back ++ rest)))))
    (hlead : lead.map Token.lexeme = breaks before) (hbefore : inside = false → before = [])
    (hsolid : BeginsSolid words)
    (hop : Replaces ctx table (words ++ (trail ++ (back ++ rest))) (t :: (trail ++ (back ++ rest))))
    (ht : t.lexeme = .symbol op.symbol) (htrail : trail.map Token.lexeme = breaks after)
    (hlast : IsFactor last back rest) :
    IsPhrase inside (.more init before op after last)
      (front ++ (lead ++ (words ++ (trail ++ back)))) rest

/-- Where an operand is wanted, the loop finds the factor in the tokens. -/
inductive IsFactor : Factor → List Token → List Token → Prop
  /-- What the tokens are replaced by is an operand. -/
  | operand {factor : Factor} {t : Token} {tokens seen rest : List Token}
      (hsolid : BeginsSolid tokens)
    (hseen : Replaces ctx table (tokens ++ rest) (t :: (seen ++ rest)))
    (ht : t.isSymbol "(" = false)
    (hoperand : IsOperand factor (t :: seen) rest) : IsFactor factor tokens rest
  /-- A parenthesis is a mark on the stack. -/
  | group {factor : Factor} {tokens rest : List Token}
    (hopens : Replaces ctx table (tokens ++ rest) (tokens ++ rest))
    (hgroup : IsGroup factor tokens rest) :
    IsFactor factor tokens rest

/-- The tokens are parsed as an operand, which is the factor. -/
inductive IsOperand : Factor → List Token → List Token → Prop
  /-- A name that stands for no function. -/
  | name {text : String} {t : Token} {rest : List Token} (ht : t.lexeme = .ident text)
    (hleaves : Leaves ctx .expression table (t :: rest)) (hrest : FollowsOperand rest)
    (hfunction : table.isFunction text = false)
    (hname : h (.mk (.var text) .start table.current) = .mk (.var text) .start table.current) :
    IsOperand (.name text) [t] rest
  /-- A name that stands for a function. -/
  | call {text : String} {t : Token} {rest : List Token} (ht : t.lexeme = .ident text)
    (hleaves : Leaves ctx .expression table (t :: rest)) (hrest : EndsCall rest)
    (hfunction : table.isFunction text = true)
    (hname : h (.mk (.var text) .start table.current) = .mk (.call (.named text) []) .start
      table.current) :
    IsOperand (.name text) [t] rest
  /-- A negation. -/
  | not {factor : Factor} {t : Token} {tokens rest : List Token} (ht : t.lexeme = .symbol "!")
    (hleaves : Leaves ctx .expression table (t :: (tokens ++ rest)))
    (hfactor : IsOperand factor tokens rest) :
    IsOperand (.not factor) (t :: tokens) rest
  /-- A parenthesis opens an expression of its own. -/
  | group {factor : Factor} {tokens rest : List Token}
    (hleaves : Leaves ctx .expression table (tokens ++ rest))
    (hgroup : IsGroup factor tokens rest) :
    IsOperand factor tokens rest

/-- The tokens are a phrase in parentheses. -/
inductive IsGroup : Factor → List Token → List Token → Prop
  /-- The parenthesis, line breaks, the phrase, line breaks, and the parenthesis. -/
  | mk {before after : List String} {phrase : Phrase} {opening closing : Token}
    {lead middle trail rest : List Token} (hopening : opening.lexeme = .symbol "(")
    (hlead : lead.map Token.lexeme = breaks before)
    (hphrase : IsPhrase true phrase middle (trail ++ closing :: rest))
    (htrail : trail.map Token.lexeme = breaks after) (hclosing : closing.lexeme = .symbol ")")
    (hcloses : Replaces ctx table (closing :: rest) (closing :: rest))
    (hrest : FollowsOperand rest) :
    IsGroup (.group before phrase after)
      (opening :: (lead ++ (middle ++ (trail ++ [closing])))) rest

end

end Found

section Solid

variable {ctx : ParseContext} {table : SymbolTable} {h : Expr → Expr} {inside : Bool}
    {factor : Factor}
  {tokens rest : List Token}

theorem IsGroup.beginsSolid (hgroup : IsGroup ctx table h factor tokens rest) :
    BeginsSolid tokens := by
  cases hgroup with
  | mk hopening => exact ⟨_, _, rfl, isNewLine_of_symbol hopening⟩

theorem IsFactor.beginsSolid (hfactor : IsFactor ctx table h factor tokens rest) :
    BeginsSolid tokens := by
  cases hfactor with
  | operand hsolid => exact hsolid
  | group _ hgroup => exact hgroup.beginsSolid

theorem IsPhrase.beginsSolid : ∀ {phrase : Phrase} {tokens rest : List Token},
    IsPhrase ctx table h inside phrase tokens rest → BeginsSolid tokens
  | .single _, _, _, .single hfactor => hfactor.beginsSolid
  | .more _ _ _ _ _, _, _, .more hinit _ _ _ _ _ _ _ => hinit.beginsSolid.append _

end Solid

/-! ## Two ways through the parser -/

section Ways

variable (ctx : ParseContext) (inner : (fuel : Nat) → List Token → Parse Expr) (table : SymbolTable)
  (h : Expr → Expr)

/-- The loop, wanting an operand before the tokens, gets past them; on the stacks it does what
`effect` says, positions aside. -/
def LoopPasses (tokens rest : List Token) (parens depth : Nat) (inside : Bool)
    (effect : Yard → Option Yard) : Prop :=
  ∀ {grouped : Bool} {groups n fuel : Nat} {base base' s : ParserState} {out : List Token}
    {y y₀ z : Yard} {Q : Expr → Prop},
    (grouped || decide (0 < groups)) = inside → base.At (tokens ++ rest) s → base.symbols = table →
    PhraseRoom ctx base parens depth → 2 * depth ≤ n + 1 → (tokens ++ rest).length < fuel →
    y.unplaced = y₀.mapOperands h → effect y₀ = some z →
    (∀ fuel' s' y', rest.length < fuel' → base.At rest s' → y'.unplaced = z.mapOperands h →
      (expressionWithin ctx (runWith ctx inner n) grouped fuel' groups false y').Yields
        s' base' out Q) →
    (expressionWithin ctx (runWith ctx inner n) grouped fuel groups true y).Yields s base' out Q

/-- The tokens are parsed as one operand. -/
def OperandPasses (tokens rest : List Token) (parens depth : Nat) (expr : Expr) : Prop :=
  ∀ {n : Nat} {base s : ParserState}, base.At (tokens ++ rest) s → base.symbols = table →
    PhraseRoom ctx base parens depth → 2 * depth ≤ n + 1 →
    Yields (runWith ctx inner n .operand) s base rest fun e ↦ e.unplaced = h expr

end Ways

/-- What a factor does on the stacks: it becomes an operand. -/
def pushAtom (atom : Atom) (scope : ScopeId) (y : Yard) : Option Yard :=
  some (y.pushOperand (atom.expr scope))

section Passing

variable {ctx : ParseContext} {inner : (fuel : Nat) → List Token → Parse Expr} {table : SymbolTable}
  {h : Expr → Expr} {factor last : Factor} {phrase init : Phrase} {tokens rest : List Token}

/-! ## Factors as operands -/

theorem operandPasses_name {text : String} {t : Token} (ht : t.lexeme = .ident text)
    (hleaves : Leaves ctx .expression table (t :: rest)) (hrest : FollowsOperand rest)
    (hfunction : table.isFunction text = false)
    (hname : h (.mk (.var text) .start table.current) = .mk (.var text) .start table.current) :
    OperandPasses ctx inner table h [t] rest 0 1 ((Atom.name text).expr table.current) := by
  rintro n base s hat rfl hroom hn
  obtain ⟨next, rest, rfl, hnext⟩ := hrest
  obtain ⟨n, rfl⟩ := Nat.exists_eq_succ_of_ne_zero (show n ≠ 0 by omega)
  rw [runWith]
  refine operand_yields hat hleaves (hroom.expressionDepth_lt (Nat.le_refl _)) fun s₁ h₁ ↦ ?_
  exact plainOperand_name h₁ ht hfunction fun s₂ h₂ ↦ links_stop h₂ hnext hname.symm

theorem operandPasses_call {text : String} {t : Token} (ht : t.lexeme = .ident text)
    (hleaves : Leaves ctx .expression table (t :: rest)) (hrest : EndsCall rest)
    (hfunction : table.isFunction text = true)
    (hname : h (.mk (.var text) .start table.current) = .mk (.call (.named text) []) .start
      table.current) :
    OperandPasses ctx inner table h [t] rest 0 1 ((Atom.name text).expr table.current) := by
  rintro n base s hat rfl hroom hn
  obtain ⟨next, rest, rfl, hparen, hdot, hnext⟩ := hrest
  obtain ⟨n, rfl⟩ := Nat.exists_eq_succ_of_ne_zero (show n ≠ 0 by omega)
  rw [runWith]
  refine operand_yields hat hleaves (hroom.expressionDepth_lt (Nat.le_refl _)) fun s₁ h₁ ↦ ?_
  exact plainOperand_call h₁ ht hfunction hparen hdot hnext hname.symm

theorem operandPasses_not (hh : IsLeafwise h) {t : Token} (ht : t.lexeme = .symbol "!")
    (hleaves : Leaves ctx .expression table (t :: (tokens ++ rest)))
    (hfactor : OperandPasses ctx inner table h tokens rest factor.parens factor.operandDepth
      (factor.atom.expr table.current)) :
    OperandPasses ctx inner table h (t :: tokens) rest (Factor.not factor).parens
      (Factor.not factor).operandDepth ((Factor.not factor).atom.expr table.current) := by
  rintro n base s hat rfl hroom hn
  rw [Factor.operandDepth] at hn hroom
  obtain ⟨n, rfl⟩ := Nat.exists_eq_succ_of_ne_zero (show n ≠ 0 by omega)
  rw [runWith]
  refine operand_yields hat hleaves (hroom.expressionDepth_lt (Nat.le_add_right 1 _)) fun s₁ h₁ ↦ ?_
  refine plainOperand_not h₁ ht (fun s₂ h₂ ↦ hfactor h₂ rfl hroom.openOperand (by omega))
    fun e he ↦ ?_
  rw [Factor.atom, Atom.expr, hh.negation, ← he]
  rfl

/-! ## Groups -/

/-- A phrase that the loop gets past is parsed as an expression, up to what ends it. -/
theorem expression_yields_phrase (hh : IsLeafwise h) {grouped : Bool}
    (hphrase : LoopPasses ctx inner table h tokens rest phrase.parens phrase.depth grouped
      (phrase.stack table.current))
    {n : Nat} {base s : ParserState} {rest' : List Token} {t : Token}
    (hat : base.At (tokens ++ rest) s)
    (htable : base.symbols = table) (hroom : PhraseRoom ctx base phrase.parens phrase.depth)
    (hn : 2 * phrase.depth ≤ n + 1)
    (hround : Replaces ctx table (roundTokens grouped 0 rest) (t :: rest'))
    (hends : EndsExpression t) :
    (expression ctx (runWith ctx inner n) grouped).Yields s base (t :: rest')
      fun e ↦ e.unplaced = h (phrase.tree.expr table.current) := by
  refine expression_yields hat fun fuel hfuel ↦ ?_
  have hempty : Yard.empty.unplaced = Yard.empty.mapOperands h := rfl
  refine hphrase (by simp) hat htable hroom hn hfuel hempty
    (phrase.stack_eq Yard.isFloor_empty _) fun fuel s' y hfuel h' hy ↦ ?_
  have hfinished := (Yard.finish_mapOperands hh.operation _).trans
    (congrArg (Option.map h) (Yard.finish_withSpine table.current phrase.spine))
  obtain ⟨e, hfinish, he⟩ := Yard.exists_of_unplaced_finish (hy ▸ hfinished)
  obtain ⟨fuel, rfl⟩ := Nat.exists_eq_succ_of_ne_zero (Nat.ne_zero_of_lt hfuel)
  exact expressionWithin_done h' (htable ▸ hround) hends hfinish he

/-- Behind a negation a group is an expression of its own. -/
theorem operandPasses_group (hh : IsLeafwise h) {before after : List String}
    {opening closing : Token}
    {lead middle trail : List Token} (hopening : opening.lexeme = .symbol "(")
    (hleaves : Leaves ctx .expression table
      (opening :: (lead ++ (middle ++ (trail ++ closing :: rest)))))
    (hlead : lead.map Token.lexeme = breaks before)
    (hsolid : StartsSolid (middle ++ (trail ++ closing :: rest)))
    (hphrase : LoopPasses ctx inner table h middle (trail ++ closing :: rest)
      phrase.parens phrase.depth
      true (phrase.stack table.current))
    (htrail : trail.map Token.lexeme = breaks after) (hclosing : closing.lexeme = .symbol ")")
    (hcloses : Replaces ctx table (closing :: rest) (closing :: rest))
    (hrest : FollowsOperand rest) :
    OperandPasses ctx inner table h (opening :: (lead ++ (middle ++ (trail ++ [closing])))) rest
      (1 + phrase.parens) (1 + phrase.depth)
      ((Factor.group before phrase after).atom.expr table.current) := by
  rintro n base s hat rfl hroom hn
  simp only [List.cons_append, List.append_assoc, List.nil_append] at hat
  have hpos := phrase.depth_pos
  obtain ⟨n, rfl⟩ := Nat.exists_eq_add_of_le (show 2 ≤ n by omega)
  rw [Nat.add_comm 2 n, runWith]
  refine operand_yields hat hleaves (hroom.expressionDepth_lt (Nat.le_add_right 1 _)) fun s₁ h₁ ↦ ?_
  have hinside := hroom.openOperand
  apply plainOperand_paren h₁ hopening hclosing hinside.parenDepth_lt
  · intro s₂ h₂
    rw [dropWhile_append_breaks hlead, hsolid.dropWhile_eq] at h₂
    have hround : roundTokens true 0 (trail ++ closing :: rest) = closing :: rest :=
      roundTokens_breaks (startsSolid_cons (isNewLine_of_symbol hclosing)) htrail (by simp)
    rw [runWith]
    exact expression_yields_phrase hh hphrase h₂ rfl hinside.openParen (by omega)
      (hcloses.cast hround)
      (endsExpression_of_symbol hclosing (by decide) (by decide) (by decide))
  · intro e s₂ he h₂
    obtain ⟨next, rest, rfl, hnext⟩ := hrest
    exact links_stop h₂ hnext he

/-! ## Factors between operators -/

/-- A factor that does not begin with a parenthesis is an operand of the loop. -/
theorem loopPasses_of_operandPasses {t : Token} {seen : List Token}
    {parens depth : Nat} {atom : Atom}
    {inside : Bool} (hsolid : BeginsSolid tokens)
    (hseen : Replaces ctx table (tokens ++ rest) (t :: (seen ++ rest)))
    (ht : t.isSymbol "(" = false)
    (hoperand : OperandPasses ctx inner table h (t :: seen) rest parens depth
      (atom.expr table.current)) :
    LoopPasses ctx inner table h tokens rest parens depth inside (pushAtom atom table.current) := by
  rintro grouped groups n fuel base base' s out y y₀ z Q hinside hat rfl hroom hn hfuel hy hz hrest
  obtain ⟨fuel, rfl⟩ := Nat.exists_eq_succ_of_ne_zero (Nat.ne_zero_of_lt hfuel)
  refine expressionWithin_operand hat (hseen.cast (hsolid.startsSolid rest).roundTokens_eq) ht
    (fun s' h' ↦ hoperand h' rfl hroom hn) fun e s' he h' ↦ ?_
  refine hrest fuel s' _ ?_ h' ?_
  · have := hsolid.length_pos
    rw [List.length_append] at hfuel
    omega
  · obtain rfl := Option.some.inj hz
    rw [Yard.unplaced_pushOperand, he, hy, Yard.mapOperands_pushOperand]

/-- Between operators a group is a mark on the stack. -/
theorem loopPasses_group (hh : IsLeafwise h) {before after : List String} {opening closing : Token}
    {lead middle trail : List Token} {inside : Bool} (hopening : opening.lexeme = .symbol "(")
    (hopens : Replaces ctx table (opening :: (lead ++ (middle ++ (trail ++ closing :: rest))))
      (opening :: (lead ++ (middle ++ (trail ++ closing :: rest)))))
    (hlead : lead.map Token.lexeme = breaks before)
    (hsolid : StartsSolid (middle ++ (trail ++ closing :: rest)))
    (hphrase : LoopPasses ctx inner table h middle (trail ++ closing :: rest)
      phrase.parens phrase.depth
      true (phrase.stack table.current))
    (htrail : trail.map Token.lexeme = breaks after) (hclosing : closing.lexeme = .symbol ")")
    (hcloses : Replaces ctx table (closing :: rest) (closing :: rest))
    (hrest : FollowsOperand rest) :
    LoopPasses ctx inner table h (opening :: (lead ++ (middle ++ (trail ++ [closing])))) rest
      (1 + phrase.parens) phrase.depth inside
      (pushAtom (Factor.group before phrase after).atom table.current) := by
  rintro grouped groups n fuel base base' s out y y₀ z Q hinside hat rfl hroom hn hfuel hy hz hgoes
  simp only [List.cons_append, List.append_assoc, List.nil_append] at hat hfuel
  obtain ⟨fuel, rfl⟩ := Nat.exists_eq_succ_of_ne_zero (Nat.ne_zero_of_lt hfuel)
  have hstarts : StartsSolid (opening :: (lead ++ (middle ++ (trail ++ closing :: rest)))) :=
    startsSolid_cons (isNewLine_of_symbol hopening)
  refine expressionWithin_open hat (hopens.cast hstarts.roundTokens_eq) hopening hroom.parenDepth_lt
    fun s₁ h₁ ↦ ?_
  rw [dropWhile_append_breaks hlead, hsolid.dropWhile_eq] at h₁
  have hopened : y.openParen.unplaced = y₀.openParen.mapOperands h := by
    rw [Yard.unplaced_openParen, hy, Yard.mapOperands_openParen]
  refine hphrase (by simp) h₁ rfl hroom.openParen hn ?_ hopened
    (phrase.stack_eq (Yard.isFloor_openParen _) _) fun fuel s₂ y₂ hfuel h₂ hy₂ ↦ ?_
  · simp only [List.length_cons, List.length_append] at hfuel ⊢
    omega
  have hclosed := (Yard.closeParen_mapOperands hh.operation _).trans
    (congrArg (Option.map (Prod.map h (Yard.mapOperands h)))
      (Yard.closeParen_withSpine base.symbols.current y₀ phrase.spine))
  obtain ⟨group, y₃, hclose, hgroup, hy₃⟩ := Yard.exists_of_unplaced_closeParen (hy₂ ▸ hclosed)
  obtain ⟨fuel, rfl⟩ := Nat.exists_eq_succ_of_ne_zero (Nat.ne_zero_of_lt hfuel)
  have hround : roundTokens grouped (groups + 1) (trail ++ closing :: rest) = closing :: rest :=
    roundTokens_breaks (startsSolid_cons (isNewLine_of_symbol hclosing)) htrail (by simp)
  obtain ⟨next, rest, rfl, hnext⟩ := hrest
  refine expressionWithin_close h₂ (hcloses.cast hround) hclosing hclose rfl
    (hroom.expressionDepth_lt phrase.depth_pos)
    (fun s₃ h₃ ↦ links_stop h₃ hnext (Q := fun e ↦ e = group) rfl) fun e s₃ he h₃ ↦ ?_
  refine hgoes fuel s₃ _ ?_ h₃ ?_
  · simp only [List.length_cons, List.length_append] at hfuel ⊢
    omega
  · obtain rfl := Option.some.inj hz
    rw [he, Yard.unplaced_pushOperand, hy₃, hgroup]
    rfl

/-! ## Phrases -/

/-- One more operator and factor. -/
theorem loopPasses_more (hh : IsLeafwise h) {before after : List String} {op : Operator} {t : Token}
    {front lead words trail back : List Token} {inside : Bool}
    (hinit : LoopPasses ctx inner table h front
      (lead ++ (words ++ (trail ++ (back ++ rest)))) init.parens
      init.depth inside (init.stack table.current))
    (hlead : lead.map Token.lexeme = breaks before) (hbefore : inside = false → before = [])
    (hsolid : BeginsSolid words)
    (hop : Replaces ctx table (words ++ (trail ++ (back ++ rest))) (t :: (trail ++ (back ++ rest))))
    (ht : t.lexeme = .symbol op.symbol) (htrail : trail.map Token.lexeme = breaks after)
    (hback : BeginsSolid back)
    (hlast : LoopPasses ctx inner table h back rest last.parens last.depth inside
      (pushAtom last.atom table.current)) :
    LoopPasses ctx inner table h (front ++ (lead ++ (words ++ (trail ++ back)))) rest
      (Phrase.more init before op after last).parens
      (Phrase.more init before op after last).depth inside
      ((Phrase.more init before op after last).stack table.current) := by
  rintro grouped groups n fuel base base' s out y y₀ z Q hinside hat rfl hroom hn hfuel hy hz hrest
  simp only [List.append_assoc] at hat hfuel
  rw [Phrase.depth] at hn
  -- the effect of the phrase is that of its beginning, then of the operator, then of the last
  -- factor
  obtain ⟨z₁, hz₁, hz⟩ := Option.bind_eq_some_iff.mp hz
  obtain ⟨z₂, hz₂, hz⟩ := Option.map_eq_some_iff.mp hz
  refine hinit hinside hat rfl (hroom.mono (Nat.le_max_left _ _) (Nat.le_max_left _ _))
    (by omega) hfuel
    hy hz₁ fun fuel s₁ y₁ hfuel h₁ hy₁ ↦ ?_
  have hpushed : (z₁.mapOperands h).pushOperator op = some (z₂.mapOperands h) := by
    rw [Yard.pushOperator_mapOperands hh.operation, hz₂, Option.map_some]
  obtain ⟨y₂, hpush, hy₂⟩ := Yard.exists_of_unplaced_pushOperator (hy₁ ▸ hpushed)
  obtain ⟨fuel, rfl⟩ := Nat.exists_eq_succ_of_ne_zero (Nat.ne_zero_of_lt hfuel)
  have hround : roundTokens grouped groups (lead ++ (words ++ (trail ++ (back ++ rest)))) =
      words ++ (trail ++ (back ++ rest)) :=
    roundTokens_breaks (hsolid.startsSolid _) hlead fun houtside ↦ hbefore (hinside ▸ houtside)
  refine expressionWithin_operator h₁ (hop.cast hround) ht hpush fun s₂ h₂ ↦ ?_
  rw [dropWhile_append_breaks htrail, (hback.startsSolid rest).dropWhile_eq] at h₂
  refine hlast hinside h₂ rfl (hroom.mono (Nat.le_max_right _ _) (Nat.le_max_right _ _))
    (by omega) ?_
    hy₂ (congrArg some hz) hrest
  have := hsolid.length_pos
  simp only [List.length_append] at hfuel ⊢
  omega

end Passing

section

variable {ctx : ParseContext} {inner : (fuel : Nat) → List Token → Parse Expr} {table : SymbolTable}
  {h : Expr → Expr}

/-- What the loop hands on as an operand does not begin with a parenthesis, so it is no group. -/
theorem IsOperand.depth_eq {factor : Factor} {t : Token} {tokens rest : List Token}
    (hoperand : IsOperand ctx table h factor (t :: tokens) rest) (ht : t.isSymbol "(" = false) :
    factor.operandDepth = factor.depth := by
  cases factor with
  | name text => rfl
  | not factor => rfl
  | group before phrase after =>
    cases hoperand with
    | group _ hgroup =>
      cases hgroup with
      | mk hopening => exact absurd ((isSymbol_iff.mpr hopening).symm.trans ht) (by simp)

mutual

/-- The loop gets past every phrase that it finds. -/
theorem IsPhrase.loopPasses (hh : IsLeafwise h) : ∀ (phrase : Phrase) {inside : Bool}
    {tokens rest : List Token}, IsPhrase ctx table h inside phrase tokens rest →
    LoopPasses ctx inner table h tokens rest phrase.parens phrase.depth inside
      (phrase.stack table.current)
  | .single factor, _, _, _, .single hfactor => IsFactor.loopPasses hh factor hfactor
  | .more init _ _ _ last, _, _, _, .more hinit hlead hbefore hsolid hop ht htrail hlast =>
    loopPasses_more hh (IsPhrase.loopPasses hh init hinit) hlead hbefore hsolid hop ht htrail
      hlast.beginsSolid (IsFactor.loopPasses hh last hlast)
termination_by phrase => (sizeOf phrase, 2)

theorem IsFactor.loopPasses (hh : IsLeafwise h) : ∀ (factor : Factor) {inside : Bool}
    {tokens rest : List Token}, IsFactor ctx table h factor tokens rest →
    LoopPasses ctx inner table h tokens rest factor.parens factor.depth inside
      (pushAtom factor.atom table.current)
  | factor, _, _, _, .operand hsolid hseen ht hoperand =>
    hoperand.depth_eq ht ▸
      loopPasses_of_operandPasses hsolid hseen ht (IsOperand.operandPasses hh factor hoperand)
  | .group _ phrase _, _, _, _, .group hopens hgroup => by
    cases hgroup with
    | mk hopening hlead hphrase htrail hclosing hcloses hrest =>
      simp only [List.cons_append, List.append_assoc, List.nil_append] at hopens
      exact loopPasses_group hh hopening hopens hlead (hphrase.beginsSolid.startsSolid _)
        (IsPhrase.loopPasses hh phrase hphrase) htrail hclosing hcloses hrest
termination_by factor => (sizeOf factor, 1)

theorem IsOperand.operandPasses (hh : IsLeafwise h) :
    ∀ (factor : Factor) {tokens rest : List Token},
    IsOperand ctx table h factor tokens rest →
    OperandPasses ctx inner table h tokens rest factor.parens factor.operandDepth
      (factor.atom.expr table.current)
  | .name _, _, _, .name ht hleaves hrest hfunction hname =>
    operandPasses_name ht hleaves hrest hfunction hname
  | .name _, _, _, .call ht hleaves hrest hfunction hname =>
    operandPasses_call ht hleaves hrest hfunction hname
  | .not factor, _, _, .not ht hleaves hfactor =>
    operandPasses_not hh ht hleaves (IsOperand.operandPasses hh factor hfactor)
  | .group _ phrase _, _, _, .group hleaves hgroup => by
    cases hgroup with
    | mk hopening hlead hphrase htrail hclosing hcloses hrest =>
      simp only [List.cons_append, List.append_assoc, List.nil_append] at hleaves
      exact operandPasses_group hh hopening hleaves hlead (hphrase.beginsSolid.startsSolid _)
        (IsPhrase.loopPasses hh phrase hphrase) htrail hclosing hcloses hrest
termination_by factor => (sizeOf factor, 0)

end

end

/-! ## Without extensions -/

/-- Names stand for no functions and modules, and the bounds leave room for so many more
parentheses and operands. -/
structure Fits (ctx : ParseContext) (base : ParserState) (lexemes : List Lexeme)
    (parens depth : Nat) : Prop where
  /-- No name stands for a function. -/
  no_function : ∀ name, .ident name ∈ lexemes → base.symbols.isFunction name = false
  /-- No name stands for a module. -/
  no_module : ∀ name, .ident name ∈ lexemes → base.symbols.isModule name = false
  /-- Room for parentheses. -/
  parens_le : base.parenDepth + parens ≤ ctx.limits.maxParenDepth
  /-- Room for operands. -/
  depth_le : base.expressionDepth + depth ≤ ctx.limits.maxExpressionDepth

theorem Fits.phraseRoom {ctx : ParseContext} {base : ParserState} {lexemes : List Lexeme}
    {parens depth : Nat}
    (h : Fits ctx base lexemes parens depth) : PhraseRoom ctx base parens depth :=
  ⟨h.parens_le, h.depth_le⟩

section Plain

variable {ctx : ParseContext} {table : SymbolTable} {tokens rest : List Token}

/-- Without extensions an operand is a factor of the loop too. -/
theorem IsOperand.isFactor {factor : Factor} (hctx : ctx.registry.entries = [])
    (h : IsOperand ctx table id factor tokens rest) : IsFactor ctx table id factor tokens rest := by
  have hsame {tokens : List Token} : Replaces ctx table tokens tokens :=
    replaces_of_entries hctx rfl
  cases h with
  | @name text t _ ht hleaves hrest hfunction hname =>
    have hsolid : Window.isNewLine t = false := by
      simp [Window.isNewLine, Token.kind, ht, Lexeme.kind]
    have hparen : t.isSymbol "(" = false := by simp [Token.isSymbol, Token.kind, ht, Lexeme.kind]
    exact .operand ⟨t, [], rfl, hsolid⟩ hsame hparen (.name ht hleaves hrest hfunction hname)
  | @call text t _ ht hleaves hrest hfunction hname => cases hname
  | @not factor t tokens _ ht hleaves hfactor =>
    exact .operand ⟨t, tokens, rfl, isNewLine_of_symbol ht⟩ hsame (isSymbol_eq_of_lexeme ht)
      (.not ht hleaves hfactor)
  | group _ hgroup => exact .group hsame hgroup

mutual

/-- Without extensions the loop finds every phrase that is laid out in its own lexemes. -/
theorem isPhrase_of_lexemes (hctx : ctx.registry.entries = []) : ∀ (phrase : Phrase) {inside : Bool}
    {tokens rest : List Token}, phrase.LaidOut inside → tokens.map Token.lexeme = phrase.lexemes →
    (∀ name, .ident name ∈ phrase.lexemes → table.isFunction name = false) → FollowsOperand rest →
    IsPhrase ctx table id inside phrase tokens rest
  | .single factor, _, _, _, hlayout, htokens, hnames, hrest =>
    .single ((isOperand_of_lexemes hctx factor hlayout htokens hnames hrest).isFactor hctx)
  | .more init before op after last, inside, tokens, rest, hlayout, htokens, hnames, hrest => by
    obtain ⟨hinit, hbefore, hlast⟩ := hlayout
    obtain ⟨front, tokens, rfl, hfront, h⟩ := List.map_eq_append_iff.mp htokens
    obtain ⟨lead, tokens, rfl, hlead, h⟩ := List.map_eq_append_iff.mp h
    obtain ⟨t, tokens, rfl, ht, h⟩ := List.map_eq_cons_iff.mp h
    obtain ⟨trail, back, rfl, htrail, hback⟩ := List.map_eq_append_iff.mp h
    have hfollows : FollowsOperand (lead ++ ([t] ++ (trail ++ (back ++ rest)))) :=
      followsOperand_breaks hlead (followsOperand_operator ht)
    have hsolid : BeginsSolid [t] := ⟨t, [], rfl, isNewLine_of_symbol ht⟩
    have hinit := isPhrase_of_lexemes hctx init hinit hfront
      (fun name hname ↦ hnames name (by simp [Phrase.lexemes, hname])) hfollows
    have hlast := (isOperand_of_lexemes hctx last hlast hback
      (fun name hname ↦ hnames name (by simp [Phrase.lexemes, hname])) hrest).isFactor hctx
    exact .more hinit hlead hbefore hsolid (replaces_of_entries hctx rfl) ht htrail hlast

theorem isOperand_of_lexemes (hctx : ctx.registry.entries = []) : ∀ (factor : Factor)
    {tokens rest : List Token}, factor.LaidOut → tokens.map Token.lexeme = factor.lexemes →
    (∀ name, .ident name ∈ factor.lexemes → table.isFunction name = false) → FollowsOperand rest →
    IsOperand ctx table id factor tokens rest
  | .name text, _, _, _, htokens, hnames, hrest => by
    obtain ⟨t, none, rfl, ht, hnone⟩ := List.map_eq_cons_iff.mp htokens
    obtain rfl := List.map_eq_nil_iff.mp hnone
    exact .name ht (leaves_of_entries hctx) hrest (hnames text (by simp [Factor.lexemes])) rfl
  | .not factor, _, _, hlayout, htokens, hnames, hrest => by
    obtain ⟨t, tokens, rfl, ht, htokens⟩ := List.map_eq_cons_iff.mp htokens
    exact .not ht (leaves_of_entries hctx) (isOperand_of_lexemes hctx factor hlayout htokens
      (fun name hname ↦ hnames name (by simp [Factor.lexemes, hname])) hrest)
  | .group before phrase after, _, rest, hlayout, htokens, hnames, hrest => by
    obtain ⟨opening, tokens, rfl, hopening, h⟩ := List.map_eq_cons_iff.mp htokens
    obtain ⟨lead, tokens, rfl, hlead, h⟩ := List.map_eq_append_iff.mp h
    obtain ⟨middle, tokens, rfl, hmiddle, h⟩ := List.map_eq_append_iff.mp h
    obtain ⟨trail, tokens, rfl, htrail, h⟩ := List.map_eq_append_iff.mp h
    obtain ⟨closing, tokens, rfl, hclosing, h⟩ := List.map_eq_cons_iff.mp h
    obtain rfl := List.map_eq_nil_iff.mp h
    have hfollows : FollowsOperand (trail ++ closing :: rest) :=
      followsOperand_breaks htrail (followsOperand_closing hclosing)
    have hphrase := isPhrase_of_lexemes hctx phrase hlayout hmiddle
      (fun name hname ↦ hnames name (by simp [Factor.lexemes, hname])) hfollows
    exact .group (leaves_of_entries hctx)
      (.mk hopening hlead hphrase htrail hclosing (replaces_of_entries hctx rfl) hrest)

end

/-- Wherever the lexemes of the phrase stand before what may follow an operand, the loop finds it
there. -/
def LoopFinds (ctx : ParseContext) (phrase : Phrase) (inside : Bool) : Prop :=
  ∀ {base : ParserState} {tokens rest : List Token} {parens depth : Nat},
    tokens.map Token.lexeme = phrase.lexemes → Fits ctx base phrase.lexemes parens depth →
    FollowsOperand rest → IsPhrase ctx base.symbols id inside phrase tokens rest

/-- The loop finds every phrase that is laid out. -/
theorem loopPasses_phrase (hctx : ctx.registry.entries = []) {inside : Bool} (e : Phrase)
    (hlayout : e.LaidOut inside) : LoopFinds ctx e inside :=
  fun htokens hfits ↦ isPhrase_of_lexemes hctx e hlayout htokens hfits.no_function

/-- A phrase that the loop finds is parsed as an expression, up to what ends it. -/
theorem expression_phrase (hctx : ctx.registry.entries = []) {phrase : Phrase} {grouped : Bool}
    (hphrase : LoopFinds ctx phrase grouped) {inner : (fuel : Nat) → List Token → Parse Expr}
    {n : Nat} {base s : ParserState} {rest' : List Token} {t : Token}
    (h : base.At (tokens ++ rest) s) (htokens : tokens.map Token.lexeme = phrase.lexemes)
    (hfits : Fits ctx base phrase.lexemes phrase.parens phrase.depth)
    (hn : 2 * phrase.depth ≤ n + 1) (hfollows : FollowsOperand rest)
    (hround : roundTokens grouped 0 rest = t :: rest') (hends : EndsExpression t) :
    (expression ctx (runWith ctx inner n) grouped).Yields s base (t :: rest')
      fun e ↦ e.unplaced = phrase.tree.expr base.symbols.current :=
  expression_yields_phrase isLeafwise_id
    (IsPhrase.loopPasses isLeafwise_id phrase (hphrase htokens hfits hfollows)) h rfl
    hfits.phraseRoom hn
    (replaces_of_entries hctx hround) hends

end Plain

/-! ## The main statement -/

/-- **Operator parsing is the precedence grammar.** Without extensions, an expression that is laid
out, whose names stand for no functions and modules, and for which the bounds leave room, is parsed
up to the token that ends it. The result is, positions aside, the tree of the grammar: the only
grouped one whose reading is the expression without its line breaks. The parser is the one that
reads programs, with the fuel that it starts with. -/
theorem expression_eq_grouped_tree {ctx : ParseContext} (levels left : Nat) {e : Phrase}
    {s : ParserState} {tokens rest : List Token} {next : Token}
    (hctx : ctx.registry.entries = []) (hlayout : e.LaidOut false)
    (htokens : tokens.map Token.lexeme = e.lexemes)
    (hshows : s.tokens.Shows (tokens ++ next :: rest)) (hnext : EndsPhrase next)
    (hfunctions : ∀ name, .ident name ∈ e.lexemes → s.symbols.isFunction name = false)
    (hmodules : ∀ name, .ident name ∈ e.lexemes → s.symbols.isModule name = false)
    (hparens : s.parenDepth + e.parens ≤ ctx.limits.maxParenDepth)
    (hdepth : s.expressionDepth + e.depth ≤ ctx.limits.maxExpressionDepth) :
    ∃ (result : Expr) (s' : ParserState) (tree : OperatorTree),
      run ctx levels (depth ctx left) (.expression false) s = .ok result s' ∧
      s' = { s with tokens := s'.tokens } ∧ s'.tokens.current = next ∧
      s'.tokens.Shows (next :: rest) ∧ result.unplaced = tree.expr s.symbols.current ∧
      tree.reading = e.lexemes.filter Lexeme.isSolid ∧ tree.Grouped ∧
      ∀ other : OperatorTree, other.reading = e.lexemes.filter Lexeme.isSolid → other.Grouped →
        other = tree := by
  obtain ⟨inner, hrun⟩ := exists_run_eq ctx levels
  have hfuel : 2 * e.depth + 1 ≤ depth ctx left := by
    rw [depth]
    omega
  obtain ⟨fuel, hfuelEq⟩ := Nat.exists_eq_succ_of_ne_zero (Nat.ne_zero_of_lt hfuel)
  have h : s.At (tokens ++ next :: rest) s := ⟨rfl, hshows⟩
  have hfits : Fits ctx s e.lexemes e.parens e.depth := ⟨hfunctions, hmodules, hparens, hdepth⟩
  have hround : roundTokens false 0 (next :: rest) = next :: rest := rfl
  obtain ⟨result, s', hresult, hat, hexpr⟩ := expression_phrase hctx
    (loopPasses_phrase hctx e hlayout) h htokens hfits (show 2 * e.depth ≤ fuel + 1 by omega)
    ⟨next, rest, rfl, hnext.opensLink_eq⟩ hround hnext.endsExpression
  refine ⟨result, s', e.tree, ?_, hat.same, hat.current_eq, hat.shows, hexpr, e.reading_tree,
    e.grouped_tree, fun other hreading hgrouped ↦ ?_⟩
  · rw [hrun, hfuelEq]
    exact hresult
  · exact hgrouped.eq_of_reading_eq e.grouped_tree (hreading.trans e.reading_tree.symm)

/-- The phrase `a || !(b + c) * d`, with line breaks behind the first operator, inside the
parentheses and before the sum. -/
def samplePhrase : Phrase :=
  .more (.more (.single (.name "a")) [] (.logical .or) ["\n"]
      (.not (.group ["\n"] (.more (.single (.name "b")) ["\n"] (.math .add) [] (.name "c")) [])))
    [] (.math .mul) [] (.name "d")

/-- Its tree: the product binds tighter than the disjunction, and the negation tighter than both. -/
def sampleTree : OperatorTree :=
  .node (.logical .or) (.leaf (.name "a"))
    (.node (.math .mul)
      (.leaf (.not (.group (.node (.math .add) (.leaf (.name "b")) (.leaf (.name "c"))))))
      (.leaf (.name "d")))

/-- The tokens of lexemes, all in one place. -/
def unplacedTokens (lexemes : List Lexeme) : List Token := lexemes.map fun l ↦ .mk l .start 0 0

/-- A state before the sample phrase, a semicolon and the end of the text. -/
def sampleState : ParserState :=
  .initial (.ofTokens (unplacedTokens (samplePhrase.lexemes ++ [.symbol ";", .endOfInput])) 4)
    .empty

theorem expression_eq_grouped_tree_sample :
    samplePhrase.LaidOut false ∧ samplePhrase.parens = 1 ∧ samplePhrase.depth = 3 ∧
      ∃ result s', run ⟨.standard, .empty⟩ 1 (depth ⟨.standard, .empty⟩ 14) (.expression false)
          sampleState = .ok result s' ∧
        s'.tokens.current.lexeme = .symbol ";" ∧
        result.unplaced = sampleTree.expr globalScope := by
  have hlayout : samplePhrase.LaidOut false := by
    simp [samplePhrase, Phrase.LaidOut, Factor.LaidOut]
  have hclosed : Closed (unplacedTokens (samplePhrase.lexemes ++ [.symbol ";", .endOfInput])) :=
    ⟨unplacedTokens (samplePhrase.lexemes ++ [.symbol ";"]), .mk .endOfInput .start 0 0, rfl, rfl,
      by decide⟩
  have hshows : sampleState.tokens.Shows (unplacedTokens samplePhrase.lexemes ++
      .mk (.symbol ";") .start 0 0 :: [.mk .endOfInput .start 0 0]) :=
    Window.ofTokens_shows hclosed 4
  have hctx : (⟨.standard, .empty⟩ : ParseContext).registry.entries = [] := rfl
  refine ⟨hlayout, by decide, by decide, ?_⟩
  obtain ⟨result, s', tree, hrun, -, hcurrent, -, hresult, -, -, hunique⟩ :=
    expression_eq_grouped_tree 1 14 hctx hlayout rfl hshows (Or.inl rfl) (fun _ _ ↦ rfl)
      (fun _ _ ↦ rfl) (by decide) (by decide)
  have hgrouped : sampleTree.Grouped := by
    simp [sampleTree, OperatorTree.Grouped, Atom.Grouped, OperatorTree.BindsAtLeast,
      Operator.precedence]
  refine ⟨result, s', hrun, by rw [hcurrent]; rfl, ?_⟩
  rw [hresult, ← hunique sampleTree rfl hgrouped]
  rfl

end ScriptFront.Parse
