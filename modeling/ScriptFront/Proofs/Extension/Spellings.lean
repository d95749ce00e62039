import Mathlib.Data.List.Chain
import ScriptFront.Proofs.Extension.Synonyms
import ScriptFront.Proofs.Parse.Precedence

/-!
# Phrases in words and symbols

An operator may be written by its symbol or by the words of a phrase that stands for it, and so may
the negation. `SpellsPhrase` relates the expressions of the precedence grammar to all the ways to
write them.

Words are replaced where the loop over operands and operators looks at a token. Behind a negation no
loop runs, so there the next negation must be written by its symbol; everywhere else the loop finds
the phrase. Two more places need care. The word `is` right before the word `not` is another
operator, and the name of a function takes a word behind it for its argument.
-/

namespace ScriptFront

open Standard (synonyms wordsOf openers)

/-! ## Spellings -/

/-- The mark is written by its own symbol, or by the words of a phrase that stands for it. -/
inductive SpellsMark (mark : String) : List Lexeme → Prop
  /-- The symbol. -/
  | symbol : SpellsMark mark [.symbol mark]
  /-- The words of a phrase. -/
  | words {phrase : String} (h : (phrase, mark) ∈ synonyms) :
      SpellsMark mark ((wordsOf phrase).map .ident)

mutual

/-- The phrase may be written so. If `free` holds, negations behind negations may be words. -/
inductive SpellsPhrase (free : Bool) : Phrase → List Lexeme → Prop
  /-- One factor. -/
  | single {factor : Factor} {lexemes : List Lexeme}
      (hfactor : SpellsFactor free false factor lexemes) :
    SpellsPhrase free (.single factor) lexemes
  /-- A phrase, line breaks, an operator, line breaks, and a last factor; the word `is` does not
  stand right before the word `not`. -/
  | more {init : Phrase} {before after : List String} {op : Operator} {last : Factor}
    {front words back : List Lexeme} (hinit : SpellsPhrase free init front)
    (hop : SpellsMark op.symbol words) (hlast : SpellsFactor free false last back)
    (hnot : words = [.ident "is"] → (breaks after ++ back).head? ≠ some (.ident "not")) :
    SpellsPhrase free (.more init before op after last)
      (front ++ (breaks before ++ (words ++ (breaks after ++ back))))

/-- The factor may be written so, behind a negation or not. -/
inductive SpellsFactor (free : Bool) : (behind : Bool) → Factor → List Lexeme → Prop
  /-- A name that begins no phrase. -/
  | name {behind : Bool} {text : String} (htext : text ∉ openers) :
    SpellsFactor free behind (.name text) [.ident text]
  /-- A negation. -/
  | not {behind : Bool} {factor : Factor} {words back : List Lexeme} (hmark : SpellsMark "!" words)
    (hbehind : behind = true → free = false → words = [.symbol "!"])
    (hfactor : SpellsFactor free true factor back) :
    SpellsFactor free behind (.not factor) (words ++ back)
  /-- A phrase in parentheses. -/
  | group {behind : Bool} {before after : List String} {phrase : Phrase} {middle : List Lexeme}
    (hphrase : SpellsPhrase free phrase middle) :
    SpellsFactor free behind (.group before phrase after)
      (.symbol "(" :: (breaks before ++ (middle ++ (breaks after ++ [.symbol ")"]))))

end

/-- What the names of functions may stand before: no words, and nothing that is spelled like what
begins arguments or goes on with a name. -/
def Lexeme.EndsCall (l : Lexeme) : Prop := l.is "(" = false ∧ l.is "." = false ∧ l.kind ≠ .ident

/-- The name of a function stands before what ends its call. -/
def CallEnds (isFunction : String → Bool) (l next : Lexeme) : Prop :=
  ∀ name, l = .ident name → isFunction name = true → next.EndsCall

/-- The tree in which the names of functions are calls of them, as far as operations and negations
reach. -/
def Expr.calling (isFunction : String → Bool) : Expr → Expr
  | .mk (.var name) position scope =>
    .mk (if isFunction name then .call (.named name) [] else .var name) position scope
  | .mk (.unary .not operand) position scope =>
    .mk (.unary .not (operand.calling isFunction)) position scope
  | .mk (.binary op left right) position scope =>
    .mk (.binary op (left.calling isFunction) (right.calling isFunction)) position scope
  | .mk (.compare op left right) position scope =>
    .mk (.compare op (left.calling isFunction) (right.calling isFunction)) position scope
  | .mk (.condition op left right) position scope =>
    .mk (.condition op (left.calling isFunction) (right.calling isFunction)) position scope
  | e => e

namespace Expr

variable (isFunction : String → Bool) (e : Expr)

theorem position_calling : (e.calling isFunction).position = e.position := by
  unfold calling
  split <;> rfl

theorem scope_calling : (e.calling isFunction).scope = e.scope := by
  unfold calling
  split <;> rfl

theorem isLeafwise_calling : Parse.IsLeafwise (calling isFunction) where
  operation op left right := by
    rcases op with op | op | op <;>
      simp only [operation, calling, position_calling, scope_calling]
  negation _ _ _ := by rw [calling]

theorem calling_var {name : String} {position : Position} {scope : ScopeId}
    (h : isFunction name = false) :
    calling isFunction (.mk (.var name) position scope) = .mk (.var name) position scope := by
  simp [calling, h]

theorem calling_function {name : String} {position : Position} {scope : ScopeId}
    (h : isFunction name = true) :
    calling isFunction (.mk (.var name) position scope) = .mk (.call (.named name) [])
      position scope := by
  simp [calling, h]

end Expr

/-! ## What stands behind a factor -/

/-- What may stand behind a factor: an operator in symbols or words, a closing parenthesis, a line
break, or the end of the text. -/
inductive Lexeme.EndsFactor : Lexeme → Prop
  /-- The symbol of an operator. -/
  | mark (op : Operator) : EndsFactor (.symbol op.symbol)
  /-- A word that begins a phrase. -/
  | word {text : String} (h : text ∈ openers) : EndsFactor (.ident text)
  /-- A closing parenthesis. -/
  | closing : EndsFactor (.symbol ")")
  /-- A line break. -/
  | newLine (text : String) : EndsFactor (.newLine text)
  /-- The end of the text. -/
  | endOfInput : EndsFactor .endOfInput

/-- The first of the tokens may stand behind a factor. -/
def FollowsFactor (tokens : List Token) : Prop := ∃ t rest, tokens = t :: rest ∧ t.lexeme.EndsFactor

namespace FollowsFactor

variable {tokens : List Token}

theorem ne_nil (h : FollowsFactor tokens) : tokens ≠ [] := by
  obtain ⟨t, rest, rfl, -⟩ := h
  exact List.cons_ne_nil _ _

theorem followsOperand (h : FollowsFactor tokens) : Parse.FollowsOperand tokens := by
  obtain ⟨t, rest, rfl, ht⟩ := h
  refine ⟨t, rest, rfl, ?_⟩
  generalize hlexeme : t.lexeme = l at ht
  cases ht with
  | mark op =>
    rw [Parse.opensLink_of_symbol hlexeme]
    rcases op with op | op | op <;> cases op <;> decide
  | word => simp [Parse.opensLink, Token.kind, hlexeme, Lexeme.kind]
  | closing =>
    rw [Parse.opensLink_of_symbol hlexeme]
    decide
  | newLine => simp [Parse.opensLink, Token.kind, hlexeme, Lexeme.kind]
  | endOfInput => simp [Parse.opensLink, Token.kind, hlexeme, Lexeme.kind]

/-- A word that is the second of a phrase but begins none does not stand behind a factor. -/
theorem spoken_eq_false (h : FollowsFactor tokens) {word : String}
    (hsymbol : ∀ op : Operator, op.symbol ≠ word) (hclosing : word ≠ ")")
    (hopeners : word ∉ openers) :
    spoken [word] tokens = false := by
  obtain ⟨t, rest, rfl, ht⟩ := h
  rw [spoken, spoken, Bool.and_true, Token.spells]
  generalize hlexeme : t.lexeme = l at ht
  cases ht with
  | mark op => simp [Token.is, hlexeme, Lexeme.is, Lexeme.text, hsymbol op]
  | word hword =>
    have hne : _ ≠ word := fun heq ↦ hopeners (heq ▸ hword)
    simp [Token.is, hlexeme, Lexeme.is, Lexeme.text, hne]
  | closing => simp [Token.is, hlexeme, Lexeme.is, Lexeme.text, hclosing.symm]
  | newLine => simp [Token.kind, hlexeme, Lexeme.kind]
  | endOfInput => simp [Token.kind, hlexeme, Lexeme.kind]

/-- What stands behind the name of a function ends its call. -/
theorem endsCall (h : FollowsFactor tokens) (hcall : ∀ t ∈ tokens.head?, t.lexeme.EndsCall) :
    Parse.EndsCall tokens := by
  obtain ⟨t, rest, rfl, ht⟩ := h
  obtain ⟨hparen, hdot, hident⟩ := hcall t rfl
  refine ⟨t, rest, rfl, hparen, hdot, ?_⟩
  generalize hlexeme : t.lexeme = l at ht hident
  cases ht with
  | mark op =>
    have hnot : op.symbol ≠ "!" ∧ op.symbol ≠ "[" := by
      rcases op with op | op | op <;> cases op <;> decide
    simp [Parse.opensOperand, Parse.isSymbol_eq_of_lexeme hlexeme, Token.kind, hlexeme,
      Lexeme.isLiteral, Lexeme.kind, hnot]
  | word => exact absurd rfl hident
  | closing =>
    simp [Parse.opensOperand, Parse.isSymbol_eq_of_lexeme hlexeme, Token.kind, hlexeme,
      Lexeme.isLiteral, Lexeme.kind]
  | newLine =>
    simp [Parse.opensOperand, Token.isSymbol, Token.kind, hlexeme, Lexeme.isLiteral, Lexeme.kind]
  | endOfInput =>
    simp [Parse.opensOperand, Token.isSymbol, Token.kind, hlexeme, Lexeme.isLiteral, Lexeme.kind]

end FollowsFactor

/-! ## Longer phrases -/

/-- What stands behind the word `is` in the phrases that begin with it. -/
def isTails : List (List String) :=
  [["not"], ["less", "than"], ["greater", "than"], ["at", "most"], ["at", "least"]]

/-- Only the word `is` is a phrase that others begin with. -/
theorem isTails_of_append {pair other : String × String} {tail : List String}
    (hpair : pair ∈ synonyms)
    (hother : other ∈ synonyms) (hne : tail ≠ []) (h : wordsOf other.1 = wordsOf pair.1 ++ tail) :
    wordsOf pair.1 = ["is"] ∧ tail ∈ isTails := by
  have hall : ∀ pair ∈ synonyms, ∀ other ∈ synonyms, wordsOf pair.1 <+: wordsOf other.1 →
      wordsOf other.1 = wordsOf pair.1 ∨
        wordsOf pair.1 = ["is"] ∧ (wordsOf other.1).drop (wordsOf pair.1).length ∈ isTails := by
    decide +kernel
  rcases hall pair hpair other hother ⟨tail, h.symm⟩ with hsame | hlonger
  · rw [h, List.append_right_eq_self] at hsame
    exact absurd hsame hne
  · rwa [h, List.drop_left] at hlonger

namespace SpellsMark

variable {mark : String} {lexemes : List Lexeme}

/-- The first lexeme is the symbol or a word that begins a phrase. -/
theorem exists_head (h : SpellsMark mark lexemes) :
    ∃ l rest, lexemes = l :: rest ∧ (l = .symbol mark ∨ ∃ word ∈ openers, l = .ident word) := by
  cases h with
  | symbol => exact ⟨_, [], rfl, .inl rfl⟩
  | words hpair =>
    obtain ⟨word, more, hphrase⟩ := List.exists_cons_of_ne_nil (Standard.wordsOf_ne_nil hpair)
    refine ⟨.ident word, more.map .ident, by rw [hphrase, List.map_cons], .inr ⟨word, ?_, rfl⟩⟩
    refine List.mem_map.mpr ⟨_, hpair, ?_⟩
    rw [Standard.opener, hphrase, List.headD_cons]

theorem kind_ne_number (h : SpellsMark mark lexemes) : ∀ l ∈ lexemes, l.kind ≠ .number := by
  cases h with
  | symbol => simp [Lexeme.kind]
  | words => simp [Lexeme.kind]

/-- The negation has one word. -/
theorem eq_of_not (h : SpellsMark "!" lexemes) :
    lexemes = [.symbol "!"] ∨ lexemes = [.ident "not"] := by
  have hall : ∀ pair ∈ synonyms, pair.2 = "!" → wordsOf pair.1 = ["not"] := by decide +kernel
  cases h with
  | symbol => exact .inl rfl
  | words hpair => exact .inr (by rw [hall _ hpair rfl]; rfl)

section

variable {ctx : ParseContext} {table : SymbolTable} {words rest : List Token}

theorem beginsSolid (h : SpellsMark mark lexemes) (htokens : words.map Token.lexeme = lexemes) :
    Parse.BeginsSolid words := by
  obtain ⟨l, more, rfl, hl⟩ := h.exists_head
  obtain ⟨t, tokens, rfl, ht, -⟩ := List.map_eq_cons_iff.mp htokens
  refine ⟨t, tokens, rfl, ?_⟩
  rcases hl with rfl | ⟨word, -, rfl⟩ <;> simp [Window.isNewLine, Token.kind, ht, Lexeme.kind]

/-- The loop finds the symbol in either spelling, unless the word `is` is the beginning of something
longer. -/
theorem exists_replaces (h : SpellsMark mark lexemes) (hctx : Standard.IsStandard ctx.registry)
    (hundefined : ∀ word ∈ openers, table.contains word = false) (hmark : mark ∈ Lexeme.symbols)
    (htokens : words.map Token.lexeme = lexemes)
    (his : lexemes = [.ident "is"] → ∀ tail ∈ isTails, spoken tail rest = false)
    (hrest : rest ≠ []) :
    ∃ t, t.lexeme = .symbol mark ∧ Parse.Replaces ctx table (words ++ rest) (t :: rest) := by
  cases h with
  | symbol =>
    obtain ⟨t, none, rfl, ht, hnone⟩ := List.map_eq_cons_iff.mp htokens
    obtain rfl := List.map_eq_nil_iff.mp hnone
    exact ⟨t, ht, hctx.replaces_symbol ht hmark⟩
  | words hpair =>
    refine hctx.exists_replaces hpair htokens (hundefined _ (List.mem_map_of_mem hpair)) ?_ hrest
    intro other hother tail hne hphrase
    obtain ⟨hwords, htail⟩ := isTails_of_append hpair hother hne hphrase
    exact his (by rw [hwords]; rfl) tail htail

end

end SpellsMark

/-- A symbol goes on with no phrase. -/
theorem spoken_isTails_of_symbol {t : Token} {mark : String} (ht : t.lexeme = .symbol mark)
    (hmark : ∀ tail ∈ isTails, tail.head? ≠ some mark) (tokens : List Token) :
    ∀ tail ∈ isTails, spoken tail (t :: tokens) = false := by
  intro tail htail
  cases tail with
  | nil => exact absurd htail (by decide)
  | cons word more =>
    have hne : mark ≠ word := fun heq ↦ hmark _ htail (congrArg some heq.symm)
    simp [spoken, Token.spells, Token.is, ht, Lexeme.is, Lexeme.text, hne]

/-- A name goes on with no phrase that the word `is` begins, if it stands before what ends a
factor. -/
theorem spoken_isTails_of_name {t : Token} {text : String} {rest : List Token}
    (ht : t.lexeme = .ident text)
    (hrest : FollowsFactor rest) (hnot : text ≠ "not") :
    ∀ tail ∈ isTails, spoken tail (t :: rest) = false := by
  have hsymbol : ∀ op ∈ Operator.all, ∀ word ∈ ["than", "most", "least"], op.symbol ≠ word := by
    decide
  have hothers : ∀ word ∈ ["than", "most", "least"], word ≠ ")" ∧ word ∉ openers := by
    decide +kernel
  have hseconds : ∀ word ∈ ["than", "most", "least"], spoken [word] rest = false := fun word hword ↦
    hrest.spoken_eq_false (fun op ↦ hsymbol op op.mem_all word hword) (hothers word hword).1
      (hothers word hword).2
  intro tail htail
  have htails : ∀ tail ∈ isTails, tail = ["not"] ∨
      ∃ first second, tail = [first, second] ∧ second ∈ ["than", "most", "least"] := by
    simp [isTails]
  rcases htails tail htail with rfl | ⟨first, second, rfl, hsecond⟩
  · simp [spoken, Token.spells_ident ht, hnot]
  · rw [spoken, hseconds second hsecond, Bool.and_false]

namespace SpellsFactor

variable {free behind : Bool} {factor : Factor} {lexemes : List Lexeme} {tokens rest : List Token}

/-- A factor does not go on with a phrase that the word `is` begins, unless it begins with the word
`not`. -/
theorem spoken_isTails (h : SpellsFactor free behind factor lexemes)
    (htokens : tokens.map Token.lexeme = lexemes) (hrest : FollowsFactor rest)
    (hnot : lexemes.head? ≠ some (.ident "not")) :
    ∀ tail ∈ isTails, spoken tail (tokens ++ rest) = false := by
  cases h with
  | name htext =>
    obtain ⟨t, none, rfl, ht, hnone⟩ := List.map_eq_cons_iff.mp htokens
    obtain rfl := List.map_eq_nil_iff.mp hnone
    refine spoken_isTails_of_name ht hrest ?_
    rintro rfl
    exact hnot rfl
  | not hmark =>
    rcases hmark.eq_of_not with rfl | rfl
    · obtain ⟨t, tokens, rfl, ht, -⟩ := List.map_eq_cons_iff.mp htokens
      exact spoken_isTails_of_symbol ht (by decide) _
    · exact absurd rfl hnot
  | group =>
    obtain ⟨t, tokens, rfl, ht, -⟩ := List.map_eq_cons_iff.mp htokens
    exact spoken_isTails_of_symbol ht (by decide) _

end SpellsFactor

/-- Behind the word `is`, no longer phrase goes on through line breaks or into a factor. -/
theorem spoken_isTails_of_breaks {free : Bool} {after : List String} {factor : Factor}
    {words back : List Lexeme}
    {trail tokens rest : List Token} (h : SpellsFactor free false factor back)
    (htrail : trail.map Token.lexeme = breaks after) (htokens : tokens.map Token.lexeme = back)
    (hrest : FollowsFactor rest) (hnot : words = [.ident "is"] → (breaks after ++ back).head? ≠ some
      (.ident "not"))
    (his : words = [.ident "is"]) :
    ∀ tail ∈ isTails, spoken tail (trail ++ (tokens ++ rest)) = false := by
  have hhead := hnot his
  cases after with
  | nil =>
    obtain rfl := List.map_eq_nil_iff.mp htrail
    simp only [List.nil_append]
    exact h.spoken_isTails htokens hrest hhead
  | cons spelling after =>
    obtain ⟨t, trail, rfl, ht, -⟩ := List.map_eq_cons_iff.mp htrail
    intro tail htail
    cases tail with
    | nil => exact absurd htail (by decide)
    | cons word more => simp [spoken, Token.spells, Token.kind, ht, Lexeme.kind]

/-! ## The loop finds what is spelled -/

theorem followsFactor_breaks {spellings : List String} {tokens rest : List Token}
    (h : tokens.map Token.lexeme = breaks spellings) (hrest : FollowsFactor rest) :
    FollowsFactor (tokens ++ rest) := by
  cases tokens with
  | nil => exact hrest
  | cons t tokens =>
    obtain ⟨spelling, spellings, -, hspelling, -⟩ := List.map_eq_cons_iff.mp h.symm
    exact ⟨t, tokens ++ rest, rfl, hspelling ▸ .newLine spelling⟩

theorem SpellsMark.followsFactor {op : Operator} {lexemes : List Lexeme} {words : List Token}
    (h : SpellsMark op.symbol lexemes) (htokens : words.map Token.lexeme = lexemes)
    (rest : List Token) :
    FollowsFactor (words ++ rest) := by
  obtain ⟨l, more, rfl, hl⟩ := h.exists_head
  obtain ⟨t, tokens, rfl, ht, -⟩ := List.map_eq_cons_iff.mp htokens
  refine ⟨t, tokens ++ rest, rfl, ?_⟩
  rcases hl with rfl | ⟨word, hword, rfl⟩
  · exact ht ▸ .mark op
  · exact ht ▸ .word hword

theorem kind_breaks_ne_number {l : Lexeme} {spellings : List String} (h : l ∈ breaks spellings) :
    l.kind ≠ .number := by
  obtain ⟨spelling, -, rfl⟩ := List.mem_map.mp h
  simp [Lexeme.kind]

mutual

theorem SpellsPhrase.kind_ne_number {free : Bool} : ∀ {phrase : Phrase} {lexemes : List Lexeme},
    SpellsPhrase free phrase lexemes → ∀ l ∈ lexemes, l.kind ≠ .number
  | _, _, .single hfactor => hfactor.kind_ne_number
  | _, _, .more hinit hop hlast _ => by
    intro l hl
    simp only [List.mem_append] at hl
    rcases hl with hl | hl | hl | hl | hl
    · exact hinit.kind_ne_number l hl
    · exact kind_breaks_ne_number hl
    · exact hop.kind_ne_number l hl
    · exact kind_breaks_ne_number hl
    · exact hlast.kind_ne_number l hl

theorem SpellsFactor.kind_ne_number {free : Bool} : ∀ {behind : Bool} {factor : Factor}
    {lexemes : List Lexeme}, SpellsFactor free behind factor lexemes → ∀ l ∈ lexemes,
    l.kind ≠ .number
  | _, _, _, .name _ => by simp [Lexeme.kind]
  | _, _, _, .not hmark _ hfactor => fun l hl ↦
    (List.mem_append.mp hl).elim (hmark.kind_ne_number l) (hfactor.kind_ne_number l)
  | _, _, _, .group hphrase => by
    intro l hl
    simp only [List.mem_cons, List.mem_append, List.not_mem_nil, or_false] at hl
    rcases hl with rfl | hl | hl | hl | rfl
    · simp [Lexeme.kind]
    · exact kind_breaks_ne_number hl
    · exact hphrase.kind_ne_number l hl
    · exact kind_breaks_ne_number hl
    · simp [Lexeme.kind]

end

theorem FollowsFactor.exists_kind_ne_number {rest : List Token} (h : FollowsFactor rest) :
    ∃ next more, rest = next :: more ∧ next.kind ≠ .number := by
  obtain ⟨next, more, rfl, hnext⟩ := h
  refine ⟨next, more, rfl, ?_⟩
  rw [Token.kind]
  generalize next.lexeme = l at hnext
  cases hnext <;> simp [Lexeme.kind]

namespace Parse

/-- The names of functions stand before what ends their calls. -/
def CallsEnd (table : SymbolTable) (tokens : List Token) : Prop :=
  tokens.IsChain fun t next ↦ CallEnds table.isFunction t.lexeme next.lexeme

section Spelled

variable {ctx : ParseContext} {table : SymbolTable} {lexemes : List Lexeme}
    {tokens rest : List Token}

/-- No extension builds an operand where no number is second. -/
theorem leaves_of_kinds (hctx : Standard.IsStandard ctx.registry)
    (hlexemes : ∀ l ∈ lexemes, l.kind ≠ .number)
    (htokens : tokens.map Token.lexeme = lexemes) (hrest : FollowsFactor rest) (t : Token) :
    Leaves ctx .expression table (t :: (tokens ++ rest)) := by
  cases tokens with
  | nil =>
    obtain ⟨next, more, rfl, hnext⟩ := hrest.exists_kind_ne_number
    exact hctx.leaves_expression hnext
  | cons next tokens =>
    have hmem : next.lexeme ∈ lexemes := htokens ▸ List.mem_cons_self
    intro base s sub
    exact hctx.leaves_expression (hlexemes _ hmem) sub

/-- The loop finds what is in parentheses. -/
theorem isGroup_of_spells {h : Expr → Expr} (hctx : Standard.IsStandard ctx.registry)
    {before after : List String} {phrase : Phrase} {middle : List Lexeme}
    (hphrase : ∀ {tokens rest : List Token}, tokens.map Token.lexeme = middle →
      CallsEnd table (tokens ++ rest) → FollowsFactor rest →
      IsPhrase ctx table h true phrase tokens rest)
    (htokens : tokens.map Token.lexeme =
      .symbol "(" :: (breaks before ++ (middle ++ (breaks after ++ [.symbol ")"]))))
    (hcalls : CallsEnd table (tokens ++ rest)) (hrest : FollowsFactor rest) :
    IsGroup ctx table h (.group before phrase after) tokens rest := by
  obtain ⟨opening, tokens, rfl, hopening, htokens⟩ := List.map_eq_cons_iff.mp htokens
  obtain ⟨lead, tokens, rfl, hlead, htokens⟩ := List.map_eq_append_iff.mp htokens
  obtain ⟨middle, tokens, rfl, hmiddle, htokens⟩ := List.map_eq_append_iff.mp htokens
  obtain ⟨trail, tokens, rfl, htrail, htokens⟩ := List.map_eq_append_iff.mp htokens
  obtain ⟨closing, none, rfl, hclosing, hnone⟩ := List.map_eq_cons_iff.mp htokens
  obtain rfl := List.map_eq_nil_iff.mp hnone
  have hcloses : FollowsFactor (trail ++ closing :: rest) :=
    followsFactor_breaks htrail ⟨closing, rest, rfl, hclosing ▸ .closing⟩
  have hinner : CallsEnd table (middle ++ (trail ++ closing :: rest)) :=
    hcalls.suffix ⟨opening :: lead, by simp⟩
  exact .mk hopening hlead (hphrase hmiddle hinner hcloses) htrail hclosing
    (hctx.replaces_symbol hclosing (by decide)) hrest.followsOperand

/-- A name is an operand, by itself or as a call. -/
theorem isOperand_name {text : String} {t : Token} (hctx : Standard.IsStandard ctx.registry)
    (ht : t.lexeme = .ident text) (hcalls : CallsEnd table (t :: rest))
    (hrest : FollowsFactor rest) :
    IsOperand ctx table (Expr.calling table.isFunction) (.name text) [t] rest := by
  have hnone : ([] : List Token).map Token.lexeme = [] := rfl
  have hleaves : Leaves ctx .expression table (t :: rest) :=
    leaves_of_kinds hctx (by simp) hnone hrest t
  cases hfunction : table.isFunction text with
  | false => exact .name ht hleaves hrest.followsOperand hfunction (Expr.calling_var _ hfunction)
  | true =>
    refine .call ht hleaves (hrest.endsCall fun next hnext ↦ ?_) hfunction
      (Expr.calling_function _ hfunction)
    obtain ⟨more, rfl⟩ := List.head?_eq_some_iff.mp hnext
    exact (List.isChain_cons_cons.mp hcalls).1 text ht hfunction

mutual

/-- The loop finds a phrase in every way to write it. -/
theorem isPhrase_of_spells (hctx : Standard.IsStandard ctx.registry)
    (hundefined : ∀ word ∈ openers, table.contains word = false) :
    ∀ (phrase : Phrase) {inside : Bool}
    {lexemes : List Lexeme} {tokens rest : List Token}, SpellsPhrase false phrase lexemes →
    phrase.LaidOut inside → tokens.map Token.lexeme = lexemes → CallsEnd table (tokens ++ rest) →
    FollowsFactor rest → IsPhrase ctx table (Expr.calling table.isFunction) inside
      phrase tokens rest
  | .single factor, _, _, _, _, .single hfactor, hlayout, htokens, hcalls, hrest =>
    .single (isFactor_of_spells hctx hundefined factor hfactor hlayout htokens hcalls hrest)
  | .more init before op after last, inside, _, tokens, rest, .more hinit hop hlast hnot,
      hlayout, htokens,
      hcalls, hrest => by
    obtain ⟨hinitLayout, hbefore, hlastLayout⟩ := hlayout
    obtain ⟨front, tokens, rfl, hfront, htokens⟩ := List.map_eq_append_iff.mp htokens
    obtain ⟨lead, tokens, rfl, hlead, htokens⟩ := List.map_eq_append_iff.mp htokens
    obtain ⟨words, tokens, rfl, hwords, htokens⟩ := List.map_eq_append_iff.mp htokens
    obtain ⟨trail, back, rfl, htrail, hback⟩ := List.map_eq_append_iff.mp htokens
    simp only [List.append_assoc] at hcalls
    have hfollows : FollowsFactor (lead ++ (words ++ (trail ++ (back ++ rest)))) :=
      followsFactor_breaks hlead (hop.followsFactor hwords _)
    have hmark : ∀ op ∈ Operator.all, op.symbol ∈ Lexeme.symbols := by decide
    have his := spoken_isTails_of_breaks hlast htrail hback hrest hnot
    have hne : trail ++ (back ++ rest) ≠ [] := by simp [hrest.ne_nil]
    obtain ⟨t, ht, hreplaces⟩ :=
      hop.exists_replaces hctx hundefined (hmark op op.mem_all) hwords his hne
    exact .more (isPhrase_of_spells hctx hundefined init hinit hinitLayout hfront hcalls hfollows)
      hlead
      hbefore (hop.beginsSolid hwords) hreplaces ht htrail
      (isFactor_of_spells hctx hundefined last hlast hlastLayout hback
        (hcalls.suffix ⟨front ++ (lead ++ (words ++ trail)), by simp⟩) hrest)

/-- The loop finds a factor where an operand is wanted. -/
theorem isFactor_of_spells (hctx : Standard.IsStandard ctx.registry)
    (hundefined : ∀ word ∈ openers, table.contains word = false) : ∀ (factor : Factor)
    {lexemes : List Lexeme} {tokens rest : List Token}, SpellsFactor false false factor lexemes →
    factor.LaidOut → tokens.map Token.lexeme = lexemes → CallsEnd table (tokens ++ rest) →
    FollowsFactor rest → IsFactor ctx table (Expr.calling table.isFunction) factor tokens rest
  | .name text, _, _, _, .name htext, _, htokens, hcalls, hrest => by
    obtain ⟨t, none, rfl, ht, hnone⟩ := List.map_eq_cons_iff.mp htokens
    obtain rfl := List.map_eq_nil_iff.mp hnone
    have hsame : t.text = text := by rw [Token.text, ht, Lexeme.text]
    refine .operand ⟨t, [], rfl, ?_⟩ (hctx.replaces_self (hsame ▸ htext)) ?_
      (isOperand_name hctx ht hcalls hrest)
    · simp [Window.isNewLine, Token.kind, ht, Lexeme.kind]
    · simp [Token.isSymbol, Token.kind, ht, Lexeme.kind]
  | .not factor, _, _, rest, .not hmark _ hfactor, hlayout, htokens, hcalls, hrest => by
    obtain ⟨words, back, rfl, hwords, hback⟩ := List.map_eq_append_iff.mp htokens
    rw [List.append_assoc] at hcalls
    have hoperand := isOperand_of_spells hctx hundefined factor hfactor hlayout hback
      (hcalls.suffix ⟨words, rfl⟩) hrest
    have hmark' : "!" ∈ Lexeme.symbols := by decide
    have his : ∀ {lexemes : List Lexeme}, SpellsMark "!" lexemes → lexemes ≠ [.ident "is"] := by
      intro lexemes h
      rcases h.eq_of_not with rfl | rfl <;> simp
    have hne : back ++ rest ≠ [] := by simp [hrest.ne_nil]
    obtain ⟨t, ht, hreplaces⟩ :=
      hmark.exists_replaces hctx hundefined hmark' hwords (fun h ↦ absurd h (his hmark)) hne
    exact .operand ((hmark.beginsSolid hwords).append back)
      (hreplaces.cast (List.append_assoc _ _ _))
      (isSymbol_eq_of_lexeme ht)
      (.not ht (leaves_of_kinds hctx hfactor.kind_ne_number hback hrest t) hoperand)
  | .group before phrase after, _, tokens, rest, .group hphrase, hlayout, htokens,
      hcalls, hrest => by
    have hgroup := isGroup_of_spells hctx (fun htokens hcalls hrest ↦
      isPhrase_of_spells hctx hundefined phrase hphrase hlayout htokens hcalls hrest)
        htokens hcalls hrest
    obtain ⟨t, tokens, rfl, ht, -⟩ := List.map_eq_cons_iff.mp htokens
    exact .group (hctx.replaces_symbol ht (by decide)) hgroup

/-- Behind a negation the tokens are parsed as an operand, which is the factor. -/
theorem isOperand_of_spells (hctx : Standard.IsStandard ctx.registry)
    (hundefined : ∀ word ∈ openers, table.contains word = false) : ∀ (factor : Factor)
    {lexemes : List Lexeme} {tokens rest : List Token}, SpellsFactor false true factor lexemes →
    factor.LaidOut → tokens.map Token.lexeme = lexemes → CallsEnd table (tokens ++ rest) →
    FollowsFactor rest → IsOperand ctx table (Expr.calling table.isFunction) factor tokens rest
  | .name text, _, _, _, .name _, _, htokens, hcalls, hrest => by
    obtain ⟨t, none, rfl, ht, hnone⟩ := List.map_eq_cons_iff.mp htokens
    obtain rfl := List.map_eq_nil_iff.mp hnone
    exact isOperand_name hctx ht hcalls hrest
  | .not factor, _, _, rest, .not _ hbehind hfactor, hlayout, htokens, hcalls, hrest => by
    obtain ⟨words, back, rfl, hwords, hback⟩ := List.map_eq_append_iff.mp htokens
    rw [hbehind rfl rfl] at hwords
    obtain ⟨t, none, rfl, ht, hnone⟩ := List.map_eq_cons_iff.mp hwords
    obtain rfl := List.map_eq_nil_iff.mp hnone
    exact .not ht (leaves_of_kinds hctx hfactor.kind_ne_number hback hrest t)
      (isOperand_of_spells hctx hundefined factor hfactor hlayout hback
        (hcalls.suffix ⟨[t], rfl⟩) hrest)
  | .group before phrase after, _, tokens, rest, .group hphrase, hlayout, htokens,
      hcalls, hrest => by
    have hgroup := isGroup_of_spells hctx (fun htokens hcalls hrest ↦
      isPhrase_of_spells hctx hundefined phrase hphrase hlayout htokens hcalls hrest)
        htokens hcalls hrest
    have hfactor : SpellsFactor false true (.group before phrase after) _ := .group hphrase
    have hkinds := hfactor.kind_ne_number
    obtain ⟨t, tokens, rfl, -, hmore⟩ := List.map_eq_cons_iff.mp htokens
    exact .group (leaves_of_kinds hctx (fun l hl ↦ hkinds l (List.mem_cons_of_mem _ hl)) hmore
      hrest t) hgroup

end

end Spelled

end Parse

end ScriptFront
