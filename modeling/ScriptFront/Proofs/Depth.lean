import ScriptFront.Proofs.Parse.Derived
import ScriptFront.Proofs.Parse.Precedence
import ScriptFront.Proofs.RoundTrip
import ScriptFront.Proofs.Tree.Depth

/-!
# Trees of accepted scripts are as deep as their chains

The bounds of a host limit how deep the goals of a parser are nested, whatever the script. They
limit the nesting of the trees as well, since every level of a tree that is not the way from an
operation to its left operand comes from a goal inside a goal, or from a link of a chain, and links
are bounded too.

Nothing bounds how many operations of equal strength stand in a row. The loop over operators needs
no goal inside a goal for them, but the tree gets one level deeper with each. So the depth of a tree
is bounded by the limits and its longest chain of operations, and by nothing less.
-/

namespace ScriptFront

/-! ## Nesting of derivations -/

/-- How much may still be opened. -/
def Openings.left (limits : Limits) (d : Openings) : Nat :=
  (limits.maxExpressionDepth - d.operands) + (limits.maxStatementDepth - d.blocks) +
    (limits.maxParenDepth - d.parens)

/-- The levels that one opening can add to a tree. -/
def Limits.levels (limits : Limits) : Nat := limits.maxMemberDepth + 8

/-- The nesting of the trees of accepted scripts. -/
def Limits.treeNesting (limits : Limits) : Nat :=
  limits.levels * (limits.maxExpressionDepth + limits.maxStatementDepth + limits.maxParenDepth) + 10

/-- The levels of a tree in a part that come without an opening. -/
def Role.levels (limits : Limits) : Role → Nat
  | .chain links => min links limits.maxMemberDepth + 8
  | .operand => limits.maxMemberDepth + 9
  | .atom => 1
  | .expression least => max 1 (7 - least)
  | .part => 7
  | .declaration => 8
  | .simple => 9
  | .block _ => 3
  | .alternative => 3
  | .conditional => 8
  | .statement => 10

namespace Openings

variable {limits : Limits} {d : Openings}

theorem left_inBlock (h : d.blocks + 1 ≤ limits.maxStatementDepth) :
    d.left limits = d.inBlock.left limits + 1 := by
  simp only [left, inBlock]
  omega

theorem left_inParen (h : d.parens + 1 ≤ limits.maxParenDepth) :
    d.left limits = d.inParen.left limits + 1 := by
  simp only [left, inParen]
  omega

theorem left_inOperand (h : d.operands + 1 ≤ limits.maxExpressionDepth) :
    d.left limits = d.inOperand.left limits + 1 := by
  simp only [left, inOperand]
  omega

theorem left_le_inOperand (limits : Limits) (d : Openings) :
    d.left limits ≤ d.inOperand.left limits + 1 := by
  simp only [left, inOperand]
  omega

end Openings

theorem Operator.precedence_le (op : Operator) : op.precedence ≤ 5 := by
  rcases op with op | op | op <;> cases op <;> decide

/-- Some trees are nested as deep as the openings that are left allow, and `k` levels more. -/
def Nests (limits : Limits) (d : Openings) (k : Nat) (es : List Expr) : Prop :=
  ∀ e ∈ es, e.nesting ≤ limits.levels * d.left limits + k

namespace Nests

variable {limits : Limits} {d inner : Openings} {k l : Nat} {es more : List Expr} {form : Form}
  {position : Position} {scope : ScopeId}

theorem nil : Nests limits d 0 [] := by
  intro e he
  cases he

theorem append (h : Nests limits d k es) (h' : Nests limits d k more) :
    Nests limits d k (es ++ more) :=
  List.forall_mem_append.mpr ⟨h, h'⟩

theorem mono (h : Nests limits d k es) (hle : k ≤ l) : Nests limits d l es :=
  fun e he ↦ Nat.le_trans (h e he) (Nat.add_le_add_left hle _)

/-- Trees inside one more opening. -/
theorem opened (h : Nests limits inner k es) (hleft : d.left limits = inner.left limits + 1)
    (hle : k ≤ limits.levels + l) : Nests limits d l es := by
  intro e he
  have hinner := h e he
  rw [hleft, Nat.mul_succ]
  omega

/-- Trees inside a group are those of the operand it stands for, if that is no deeper inside. -/
theorem regrouped (h : Nests limits inner k es) (hleft : inner.left limits ≤ d.left limits)
    (hle : k ≤ l) : Nests limits d l es := by
  intro e he
  have hinner := h e he
  have hmul := Nat.mul_le_mul_left limits.levels hleft
  omega

/-- An operation is as deep as its left operand, and one level above the right one. -/
theorem operation {left right : Expr} (op : Operator) (h : Nests limits d k [left])
    (h' : Nests limits d l [right]) {m : Nat} (hk : k ≤ m) (hl : l + 1 ≤ m) :
    Nests limits d m [.operation op left right] := by
  intro e he
  have hleft := h left List.mem_cons_self
  have hright := h' right List.mem_cons_self
  rw [List.mem_singleton.mp he, Expr.nesting_of_operands
    (Expr.isOperation_operation op left right) (Expr.children_operation op left right)]
  omega

/-- A node that is no operation is one level above its children. -/
theorem node (hform : ∀ position scope, (Expr.mk form position scope).isOperation = false)
    (h : Nests limits d k form.children) (hle : k + 1 ≤ l) :
    Nests limits d l [.mk form position scope] := by
  intro e he
  rw [List.mem_singleton.mp he]
  have hnode := Expr.nesting_le_of_children (hform position scope) h
  omega

end Nests

namespace Derives

variable {limits : Limits} {r : Role} {d : Openings} {t t' : SymbolTable} {es : List Expr}

/-- **Trees are nested as deep as the limits allow.** -/
theorem nests (h : Derives limits r d t es t') : Nests limits d (r.levels limits) es := by
  have hlevels : limits.levels = limits.maxMemberDepth + 8 := rfl
  induction h with
  | nil => exact Nests.nil.mono (Nat.zero_le _)
  | append _ _ ih ih' => exact ih.append ih'
  | constant | var | partConstant | breakLoop | continueLoop =>
    exact .node (fun _ _ ↦ rfl) .nil (by simp [Role.levels])
  | array _ ih | declarations _ ih | returning _ ih | throwing _ ih =>
    exact .node (fun _ _ ↦ rfl) ih (by simp [Role.levels])
  | member _ hbound ih | callQualified _ hbound ih =>
    exact .node (fun _ _ ↦ rfl) ih (by simp only [Role.levels]; omega)
  | postChange _ ih | callLoose _ ih | prefixed _ ih | map _ ih | interpolated _ ih =>
    exact .node (fun _ _ ↦ rfl) ih (by simp only [Role.levels]; omega)
  | index _ _ hbound ih ih' | callComputed _ _ hbound ih ih' =>
    have hboth := ih.append (ih'.mono (by simp only [Role.levels]; omega))
    exact .node (fun _ _ ↦ rfl) hboth (by simp only [Role.levels]; omega)
  | links _ ih | single _ ih | partExpression _ ih | simpleExpression _ ih | alternativeBlock _ ih
  | simple _ ih | branching _ ih | nested _ ih => exact ih.mono (by simp only [Role.levels]; omega)
  | parens _ hbound ih =>
    exact ih.opened (Openings.left_inParen hbound) (by simp only [Role.levels]; omega)
  | @group d _ _ _ _ hbound ih =>
    -- one operand more is open, but not the parenthesis
    have hparen := Openings.left_inParen hbound
    have hoperand := Openings.left_le_inOperand limits d
    exact ih.regrouped (by omega) (by simp only [Role.levels]; omega)
  | atom _ hbound ih =>
    exact ih.opened (Openings.left_inOperand hbound) (by simp only [Role.levels]; omega)
  | chained _ hbound ih =>
    exact ih.opened (Openings.left_inBlock hbound) (by simp only [Role.levels]; omega)
  | lambda _ _ hbound ih | block _ _ hbound ih | function _ _ hbound hdecl ih =>
    try subst hdecl
    have hbody :=
      ih.opened (l := 2) (Openings.left_inBlock hbound) (by simp only [Role.levels]; omega)
    exact .node (fun _ _ ↦ rfl) hbody (by simp only [Role.levels]; omega)
  | @operation _ _ _ _ _ _ op _ _ _ hleast ih ih' =>
    have hprecedence := op.precedence_le
    exact ih.operation op ih' (by simp only [Role.levels]; omega)
      (by simp only [Role.levels]; omega)
  | @declaration d t t₁ name value position _ ih =>
    have hvar : Nests limits d 1 [.mk (.var name) position t₁.current] :=
      .node (fun _ _ ↦ rfl) .nil (Nat.le_refl 1)
    exact .node (fun _ _ ↦ rfl) ((hvar.mono (by simp [Role.levels])).append ih)
      (by simp [Role.levels])
  | assignment _ _ ih ih' => exact .node (fun _ _ ↦ rfl) (ih.append ih') (by simp [Role.levels])
  | @declared d t t₁ e position _ ih =>
    intro moved hmoved
    rw [List.mem_singleton.mp hmoved, Expr.nesting_moveTo]
    exact ih.mono (by simp [Role.levels]) e List.mem_cons_self
  | conditional _ _ _ ih₁ ih₂ ih₃ =>
    have hthen := ih₂.mono (l := 7) (by simp [Role.levels])
    have helse := ih₃.mono (l := 7) (by simp [Role.levels])
    exact .node (fun _ _ ↦ rfl) ((ih₁.append hthen).append helse) (by simp [Role.levels])
  | whileLoop _ _ ih ih' | forEach _ _ ih ih' =>
    have hbody := ih'.mono (l := 7) (by simp [Role.levels])
    exact .node (fun _ _ ↦ rfl) (ih.append hbody) (by simp [Role.levels])
  | forLoop _ _ _ _ _ ih₁ ih₂ ih₃ ih₄ =>
    have htest := ih₂.mono (l := 9) (by simp [Role.levels])
    have hbody := ih₄.mono (l := 9) (by simp [Role.levels])
    exact .node (fun _ _ ↦ rfl) (((ih₁.append htest).append ih₃).append hbody)
      (by simp [Role.levels])
  | tryCatch _ _ ih ih' => exact .node (fun _ _ ↦ rfl) (ih.append ih') (by simp [Role.levels])

end Derives

namespace Frontend

variable {f : Frontend} {text : String} {p : Program}

/-- **Trees are as deep as their chains of operations**: without extensions, the depth of a
statement is bounded by a number that the limits on nesting determine, times the length of its
longest chain. -/
theorem parse_depth_le (hf : f.registry.entries = []) (h : f.parse text = .ok p) :
    ∀ e ∈ p.statements, e.depth ≤ f.settings.limits.treeNesting * (e.longestRun + 1) := by
  intro e he
  have hnesting : e.nesting ≤ f.settings.limits.treeNesting := (parse_derives hf h).nests e he
  exact Nat.le_trans e.depth_le_nesting_mul (Nat.mul_le_mul_right _ hnesting)

/-- A chain of operations in an argument, behind links. -/
def sampleArgument : String := "x = a.b(1 - 2 - 3 - 4, -5)"

theorem parse_depth_le_sampleArgument :
    ∃ p, standard.parse sampleArgument = .ok p ∧
      ∀ e ∈ p.statements, e.depth ≤ Limits.standard.treeNesting * (e.longestRun + 1) := by
  obtain ⟨p, h⟩ : ∃ p, standard.parse sampleArgument = .ok p :=
    exists_eq_ok_of_isSome (by decide +kernel)
  exact ⟨p, h, parse_depth_le rfl h⟩

end Frontend

/-! ## Phrases as scripts

A phrase that stands alone in a text is one statement, and its tree is the one of the precedence
grammar. Unlike the canonical text of a tree, a phrase needs no parentheses around its operations,
so this is the way to scripts with long chains of them.
-/

namespace Parse

variable {ctx : ParseContext} {inner : (fuel : Nat) → List Token → Parse Expr}
  {base s : ParserState} {t first : Token} {tokens rest left : List Token}
  {phrase : Phrase} {n k : Nat}

/-- Room for a phrase. -/
theorem Room.fits (h : Room ctx base n k) (hparens : phrase.parens ≤ k)
    (hdepth : phrase.depth ≤ k) :
    Fits ctx base phrase.lexemes phrase.parens phrase.depth where
  no_function name _ := h.no_function name
  no_module name _ := h.no_module name
  parens_le := Nat.le_trans (Nat.add_le_add_left hparens _) h.parens
  depth_le := Nat.le_trans (Nat.add_le_add_left hdepth _) h.depth

/-- A phrase that begins like an expression is a statement. -/
theorem statement_phrase (hctx : ctx.registry.entries = []) (hlayout : phrase.LaidOut false)
    (hroom : Room ctx base n k) (hparens : phrase.parens ≤ k) (hdepth : 2 * phrase.depth ≤ k)
    (h : base.At (first :: tokens ++ t :: rest) s)
    (htokens : (first :: tokens).map Token.lexeme = phrase.lexemes)
    (hbegins : BeginsOperand first.lexeme)
    (ht : EndsStatement t rest left) :
    (statement ctx (runWith ctx inner n)).Yields s base left
      fun found ↦ ∃ e, found = some e ∧ e.unplaced = phrase.tree.expr base.symbols.current := by
  have hpos := phrase.depth_pos
  have hfuel := hroom.fuel
  obtain ⟨n, rfl⟩ := Nat.exists_eq_succ_of_ne_zero (show n ≠ 0 by omega)
  rw [statement]
  refine (passSeparators_yields h hbegins.isNewLine_eq
    (hbegins.own _ (by simp [foreignMarks]))).bind fun _ s₁ h₁ _ ↦ ?_
  refine yields_bind_of_ok isEnded_run ?_
  rw [h₁.isEnded_eq, hbegins.isEnd_eq, if_neg Bool.false_ne_true]
  refine yields_bind_of_ok (replaceTokens_run hctx) ?_
  refine yields_bind_of_ok (build?_run hctx _ _) ?_
  refine plainStatement_yields h₁ hbegins (ended_yields ?_ ht)
  refine yields_bind_of_ok position_run ?_
  have hround : roundTokens false 0 (t :: rest) = t :: rest := rfl
  refine (expression_phrase hctx (loopPasses_phrase hctx phrase hlayout) h₁ htokens
    (hroom.fits hparens (by omega)) (by omega) ⟨t, rest, rfl, ht.endsPhrase.opensLink_eq⟩ hround
    ht.endsPhrase.endsExpression).bind fun e s₂ h₂ he ↦ ?_
  refine yields_bind_of_ok (a := none) ?_ (yields_pure h₂ he)
  rw [assignOp?, bind_eq_of_ok current_run, h₂.current_eq, if_neg ht.kind_ne_symbol]
  rfl

/-- A phrase alone is a script of one statement. -/
theorem programWithin_phrase (hctx : ctx.registry.entries = []) (hlayout : phrase.LaidOut false)
    (hroom : Room ctx base n k) (hparens : phrase.parens ≤ k) (hdepth : 2 * phrase.depth ≤ k)
    {fuel : Nat} {last : Token} (h : base.At (first :: tokens ++ [last]) s)
    (htokens : (first :: tokens).map Token.lexeme = phrase.lexemes)
    (hbegins : BeginsOperand first.lexeme)
    (hlast : last.kind = .endOfInput)
    (hindices : ((first :: tokens ++ [last]).map Token.index).Pairwise (· < ·))
    (hfuel : (first :: tokens ++ [last]).length < fuel) :
    (programWithin (runWith ctx inner (n + 1)) fuel []).Yields s base [last]
      fun found ↦ ∃ e, found = [e] ∧ e.unplaced = phrase.tree.expr base.symbols.current := by
  have hindex : first.index < last.index := by
    rw [List.cons_append, List.map_cons, List.pairwise_cons] at hindices
    exact hindices.1 _ (by simp)
  rw [List.length_append, List.length_cons, List.length_singleton] at hfuel
  obtain ⟨fuel, rfl⟩ := Nat.exists_eq_add_of_le' (show 2 ≤ fuel by omega)
  refine programWithin_statement h hindex
    (statement_phrase hctx hlayout hroom hparens hdepth h htokens hbegins (.endOfInput hlast))
    fun e s₁ he h₁ ↦ ?_
  refine (programWithin_end h₁ hlast).mono fun found hfound ↦ ?_
  exact ⟨e, hfound, he⟩

end Parse

/-- **A phrase is a script**: a text that spells one is parsed to its tree. -/
theorem Frontend.exists_parse_phrase_eq {f : Frontend} (hf : f.IsPlain) {phrase : Phrase}
    {text : String} (hspells : Lexer.Spells text phrase.lexemes) (hlayout : phrase.LaidOut false)
    (hbegins : ∃ l ls, phrase.lexemes = l :: ls ∧ Parse.BeginsOperand l) {k : Nat}
    (hlimits : f.settings.limits.Admits k) (hparens : phrase.parens ≤ k)
    (hdepth : 2 * phrase.depth ≤ k)
    (hlength : text.length ≤ f.settings.limits.maxScriptLength) :
    ∃ p e, f.parse text = .ok p ∧ p.statements = [e] ∧
    e.unplaced = phrase.tree.expr globalScope := by
  have hlexes := hspells.lexes Lexer.endsWord_nil .nil
  rw [List.append_nil, List.append_nil] at hlexes
  obtain ⟨c, cs, hsplit, hstarts⟩ := hspells.starts
  have hstart : text.toList.head? ≠ some '\uFEFF' := by
    simpa [hsplit] using hstarts.notByteOrder
  obtain ⟨l, ls, hfirst, hl⟩ := hbegins
  obtain ⟨p, hparse, e, hstatements, he⟩ := parse_eq_of_lexes
    (P := fun statements ↦ ∃ e, statements = [e] ∧ e.unplaced = phrase.tree.expr globalScope)
    hf hstart hlexes hlength fun w tokens last hshows htokens hlast hindices ↦ by
      obtain ⟨first, others, rfl, hlexeme, -⟩ := List.map_eq_cons_iff.mp (htokens.trans hfirst)
      exact ⟨.initial w .empty, [last], Parse.program_yields hlimits hshows fun hat hroom hfuel ↦
        Parse.programWithin_phrase hf.entries hlayout hroom hparens hdepth hat htokens
          (hlexeme ▸ hl) hlast hindices hfuel⟩
  exact ⟨p, e, hparse, hstatements, he⟩

/-! ## Flat chains -/

/-- The sum of a name and itself, so many times. -/
def chainPhrase : Nat → Phrase
  | 0 => .single (.name "x")
  | n + 1 => .more (chainPhrase n) [] (.math .add) [] (.name "x")

/-- The sum as a text. -/
def chainText : Nat → String
  | 0 => "x"
  | n + 1 => chainText n ++ " " ++ "+" ++ " " ++ "x"

/-- The sum as a tree, which leans to the left. -/
def chainTree : Nat → OperatorTree
  | 0 => .leaf (.name "x")
  | n + 1 => .node (.math .add) (chainTree n) (.leaf (.name "x"))

theorem spells_chainText (n : Nat) : Lexer.Spells (chainText n) (chainPhrase n).lexemes := by
  have hname : Lexer.Spells "x" [.ident "x"] :=
    .name ⟨⟨'x', [], rfl, by decide, by simp⟩, by decide, by decide⟩
  induction n with
  | zero => exact hname
  | succ n ih => exact ih.joined hname (Lexer.Lexes.isBlankedMark_operator (.math .add))

theorem laidOut_chainPhrase (n : Nat) : (chainPhrase n).LaidOut false := by
  induction n with
  | zero => trivial
  | succ n ih => exact ⟨ih, fun _ ↦ rfl, trivial⟩

/-- No parentheses and no operand within an operand are needed, whatever the length. -/
theorem parens_chainPhrase (n : Nat) : (chainPhrase n).parens = 0 := by
  induction n with
  | zero => rfl
  | succ n ih =>
    rw [chainPhrase, Phrase.parens, ih]
    rfl

theorem depth_chainPhrase (n : Nat) : (chainPhrase n).depth = 1 := by
  induction n with
  | zero => rfl
  | succ n ih =>
    rw [chainPhrase, Phrase.depth, ih]
    rfl

theorem exists_lexemes_chainPhrase (n : Nat) :
    ∃ ls, (chainPhrase n).lexemes = .ident "x" :: ls := by
  induction n with
  | zero => exact ⟨[], rfl⟩
  | succ n ih =>
    obtain ⟨ls, hls⟩ := ih
    exact ⟨_, by rw [chainPhrase, Phrase.lexemes, hls]; rfl⟩

theorem tree_chainPhrase (n : Nat) : (chainPhrase n).tree = chainTree n := by
  have hspine (n : Nat) : (chainPhrase (n + 1)).spine =
      ⟨[(chainTree n, .math .add)], .leaf (.name "x")⟩ := by
    induction n with
    | zero => rfl
    | succ n ih =>
      rw [chainPhrase, Phrase.spine, ih]
      rfl
  cases n with
  | zero => rfl
  | succ n =>
    rw [Phrase.tree, hspine]
    rfl

theorem lt_depth_chainTree (n : Nat) (scope : ScopeId) : n < ((chainTree n).expr scope).depth := by
  induction n with
  | zero =>
    rw [Expr.depth_eq]
    exact Nat.succ_pos _
  | succ n ih =>
    have hoperand : (chainTree n).expr scope ∈ ((chainTree (n + 1)).expr scope).children := by
      rw [chainTree, OperatorTree.expr, Expr.children_operation]
      exact List.mem_cons_self
    exact Nat.lt_of_le_of_lt ih (Expr.depth_lt_of_mem_children hoperand)

namespace Frontend

/-- The standard set-up, for scripts of another length. -/
def ofLength (n : Nat) : Frontend :=
  .ofSettings { Settings.standard with limits := { Limits.standard with maxScriptLength := n } }

/-- A sum is accepted whatever its length, and its tree is deeper than the sum is long. -/
theorem exists_parse_chainText (n : Nat) :
    ∃ p e, (ofLength (chainText n).length).parse (chainText n) = .ok p ∧ p.statements = [e] ∧
      n < e.depth := by
  obtain ⟨ls, hls⟩ := exists_lexemes_chainPhrase n
  have hbegins : Parse.BeginsOperand (.ident "x") :=
    ⟨by decide, by decide, by decide, by decide⟩
  have hplain : (ofLength (chainText n).length).IsPlain := ⟨rfl, rfl, rfl, rfl, rfl⟩
  have hstandard : Limits.standard.Admits 2 := ⟨by decide, by decide, by decide, by decide⟩
  have hadmits : (ofLength (chainText n).length).settings.limits.Admits 2 :=
    ⟨hstandard.calls, hstandard.members, hstandard.parens, hstandard.depth⟩
  obtain ⟨p, e, hparse, hstatements, he⟩ :=
    exists_parse_phrase_eq hplain (spells_chainText n) (laidOut_chainPhrase n) ⟨_, ls, hls, hbegins⟩
      hadmits (by rw [parens_chainPhrase]; decide) (Nat.le_of_eq (by rw [depth_chainPhrase]))
      (Nat.le_refl _)
  refine ⟨p, e, hparse, hstatements, ?_⟩
  rw [← Expr.depth_relocate (fun _ ↦ .start) id e]
  change n < e.unplaced.depth
  rw [he, tree_chainPhrase]
  exact lt_depth_chainTree n _

/-- **The limits on nesting alone bound no depth.** Whatever a bound makes of the limits, if the
length of scripts plays no part, some accepted script has a deeper tree. -/
theorem not_exists_depth_le :
    ¬ ∃ bound : Limits → Nat,
      (∀ limits n, bound { limits with maxScriptLength := n } = bound limits) ∧
        ∀ (f : Frontend) (text : String) (p : Program), f.registry.entries = [] →
          f.parse text = .ok p → ∀ e ∈ p.statements, e.depth ≤ bound f.settings.limits := by
  rintro ⟨bound, hlength, hbound⟩
  obtain ⟨p, e, hparse, hstatements, hdepth⟩ := exists_parse_chainText (bound .standard)
  have hle := hbound _ _ p rfl hparse e (by rw [hstatements]; exact List.mem_singleton_self e)
  have hsame : bound (ofLength (chainText (bound .standard)).length).settings.limits =
      bound .standard := hlength .standard _
  rw [hsame] at hle
  exact Nat.not_lt.mpr hle hdepth

end Frontend

end ScriptFront
