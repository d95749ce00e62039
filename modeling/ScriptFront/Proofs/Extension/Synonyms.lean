import ScriptFront.Proofs.Extension.Standard
import ScriptFront.Proofs.Extension.Words

/-!
# What the standard extensions claim

Registered where nothing else is, the standard extensions are the synonyms, dates, times of day and
the print statement, in this order. The first phrase that the tokens spell takes them, and since a
phrase that begins like another stands before it, that is the longest one. Tokens that begin no
phrase stay as they are; dates and times of day leave alone what no number follows, and the print
statement all but its own word.
-/

namespace ScriptFront

open Window (minLookahead)

/-! ## Words as names -/

section

variable {words phrase : List String} {tokens rest : List Token}

/-- Names spell the words that they are. -/
theorem spoken_append (htokens : tokens.map Token.lexeme = words.map .ident) :
    spoken words (tokens ++ rest) = true := by
  induction words generalizing tokens with
  | nil => rfl
  | cons word words ih =>
    obtain ⟨t, tokens, rfl, ht, hmore⟩ := List.map_eq_cons_iff.mp htokens
    rw [List.cons_append, spoken, Token.spells_ident ht, ih hmore, beq_self_eq_true, Bool.and_self]

/-- A phrase that begins with names is no longer than they are, or goes on behind them. -/
theorem isPrefix_or_of_spoken (htokens : tokens.map Token.lexeme = words.map .ident)
    (h : spoken phrase (tokens ++ rest) = true) :
    phrase <+: words ∨ ∃ tail, phrase = words ++ tail ∧ spoken tail rest = true := by
  induction words generalizing phrase tokens with
  | nil =>
    obtain rfl := List.map_eq_nil_iff.mp htokens
    exact .inr ⟨phrase, rfl, h⟩
  | cons word words ih =>
    obtain ⟨t, tokens, rfl, ht, hmore⟩ := List.map_eq_cons_iff.mp htokens
    cases phrase with
    | nil => exact .inl (List.nil_prefix)
    | cons first phrase =>
      rw [List.cons_append, spoken, Token.spells_ident ht, Bool.and_eq_true, beq_iff_eq] at h
      obtain ⟨rfl, h⟩ := h
      rcases ih hmore h with hprefix | ⟨tail, rfl, htail⟩
      · exact .inl (List.cons_prefix_cons.mpr ⟨rfl, hprefix⟩)
      · exact .inr ⟨tail, rfl, htail⟩

end

namespace Standard

/-! ## Phrases -/

/-- The words of a phrase. -/
def wordsOf (phrase : String) : List String := (phrase.toList.splitOn ' ').map String.ofList

/-- The word that a phrase begins with. -/
def opener (phrase : String) : String := (wordsOf phrase).headD ""

/-- The words that phrases begin with. -/
def openers : List String := synonyms.map fun pair ↦ opener pair.1

/-- No symbol is a word that a phrase begins with. -/
theorem not_mem_openers_of_mem_symbols {mark : String} (h : mark ∈ Lexeme.symbols) :
    mark ∉ openers := by
  have hall : ∀ mark ∈ Lexeme.symbols, mark ∉ openers := by decide +kernel
  exact hall mark h

/-- A phrase that begins like another stands before it. -/
theorem pairwise_synonyms : synonyms.Pairwise fun a b ↦ ¬ wordsOf a.1 <+: wordsOf b.1 := by
  decide +kernel

/-- Single blanks stand between the words of a phrase, a window shows all of them, and a symbol
stands for them. -/
theorem synonyms_are_phrases : ∀ pair ∈ synonyms, phraseWords pair.1 = wordsOf pair.1 ∧
    (wordsOf pair.1).length ≤ minLookahead + 1 ∧ Lexeme.symbols.contains pair.2 = true := by
  decide +kernel

theorem phraseWords_eq {pair : String × String} (h : pair ∈ synonyms) :
    phraseWords pair.1 = wordsOf pair.1 := (synonyms_are_phrases pair h).1

theorem wordsOf_ne_nil {pair : String × String} (h : pair ∈ synonyms) : wordsOf pair.1 ≠ [] :=
  phraseWords_eq h ▸ (isPlainPhrase_of_mem_synonyms h).ne_nil

theorem length_wordsOf_le {pair : String × String} (h : pair ∈ synonyms) :
    (wordsOf pair.1).length ≤ minLookahead + 1 := (synonyms_are_phrases pair h).2.1

theorem lexemeOf_eq {pair : String × String} (h : pair ∈ synonyms) :
    lexemeOf pair.2 = .symbol pair.2 := by
  rw [lexemeOf, Lexeme.symbol?, if_pos (synonyms_are_phrases pair h).2.2]
  rfl

/-- A synonym may start at the word that its phrase begins with, if the script does not define
it. -/
theorem mayStart_opener {pair : String × String} (h : pair ∈ synonyms) (t : Token)
    (table : SymbolTable) :
    (entry pair).mayStart t table = (t.is (opener pair.1) && !table.contains t.text) := by
  obtain ⟨word, more, hphrase⟩ := List.exists_cons_of_ne_nil (wordsOf_ne_nil h)
  rw [mayStart_entry, phraseWords_eq h, opener, hphrase]
  rfl

/-! ## Patterns -/

theorem exists_ofExtension {extension : Extension} {pattern : String}
    (hpattern : extension.pattern = some pattern) (hmin : extension.minRequired = none)
    (h : (Pattern.compile pattern).toOption.any (fun elements ↦
      Matching.wantsNumber elements && decide (2 ≤ Element.requiredCount elements)) = true) :
    ∃ e, Registered.ofExtension extension = .ok e ∧ e.extension = extension ∧ e.WantsNumber := by
  cases hcompile : Pattern.compile pattern with
  | error e =>
    rw [hcompile] at h
    cases h
  | ok elements =>
    rw [hcompile, Except.toOption, Option.any_some, Bool.and_eq_true, decide_eq_true_eq] at h
    rw [Registered.ofExtension, hpattern]
    simp only [hcompile, hmin]
    exact ⟨_, rfl, rfl, elements, rfl, h⟩

theorem exists_ofExtension_date :
    ∃ e, Registered.ofExtension date = .ok e ∧ e.extension = date ∧ e.WantsNumber :=
  exists_ofExtension rfl rfl (by decide +kernel)

theorem exists_ofExtension_time :
    ∃ e, Registered.ofExtension time = .ok e ∧ e.extension = time ∧ e.WantsNumber :=
  exists_ofExtension rfl rfl (by decide +kernel)

/-! ## The registry -/

/-- The registry holds the standard extensions, compiled. -/
structure IsStandard (r : Registry) : Prop where
  /-- The synonyms come first. -/
  exists_entries : ∃ dates times : Registered, dates.extension = date ∧ dates.WantsNumber ∧
    times.extension = time ∧ times.WantsNumber ∧
    r.entries = synonyms.map entry ++ [dates, times, ⟨print, none, 0⟩]
  /-- Addresses are the only extension of the lexer. -/
  lexical_eq : r.lexical = [address]

variable {f : Frontend} {r : Registry}

/-- The standard extensions can always be registered. -/
theorem exists_registerAll (hf : f.registry = .empty) :
    ∃ r, IsStandard r ∧ registerAll f = .ok { f with registry := r } := by
  obtain ⟨dates, hdates, hdate, hdateWants⟩ := exists_ofExtension_date
  obtain ⟨times, htimes, htime, htimeWants⟩ := exists_ofExtension_time
  have hprint : Registered.ofExtension print = .ok ⟨print, none, 0⟩ := rfl
  refine ⟨⟨synonyms.map entry ++ [dates, times, ⟨print, none, 0⟩], [address]⟩,
    ⟨⟨dates, times, hdate, hdateWants, htime, htimeWants, rfl⟩, rfl⟩, ?_⟩
  rw [registerAll, foldlM_register fun _ h ↦ isPlainPhrase_of_mem_synonyms h]
  simp only [bind, Except.bind, register_eq hdates, register_eq htimes, register_eq hprint, hf]
  simp [Frontend.registerLexical, Registry.registerLexical, Registry.empty, pure, Except.pure]

/-! ## What becomes of the tokens -/

variable {ctx : ParseContext} {table : SymbolTable} {pair : String × String} {t : Token}
  {tokens words rest : List Token}

theorem min_length_le (h : pair ∈ synonyms) :
    min (phraseWords pair.1).length tokens.length ≤ minLookahead + 1 :=
  Nat.le_trans (Nat.min_le_left _ _) (phraseWords_eq h ▸ length_wordsOf_le h)

/-- At the words of its phrase a synonym may start, if the script does not define the first of
them. -/
theorem exists_mayStart (hpair : pair ∈ synonyms)
    (hwords : words.map Token.lexeme = (wordsOf pair.1).map .ident)
    (hundefined : table.contains (opener pair.1) = false) :
    ∃ t front, words = t :: front ∧ (wordsOf pair.1).length = front.length + 1 ∧
      (entry pair).mayStart t table = true := by
  obtain ⟨word, more, hphrase⟩ := List.exists_cons_of_ne_nil (wordsOf_ne_nil hpair)
  have hopener : opener pair.1 = word := by rw [opener, hphrase, List.headD_cons]
  rw [hphrase, List.map_cons] at hwords
  obtain ⟨t, front, rfl, ht, hfront⟩ := List.map_eq_cons_iff.mp hwords
  refine ⟨t, front, rfl, ?_, ?_⟩
  · rw [hphrase, List.length_cons, ← List.length_map Lexeme.ident, ← hfront, List.length_map]
  · have htext : t.text = word := by rw [Token.text, ht, Lexeme.text]
    have his : t.is word = true := by rw [Token.is, Lexeme.is, ht, Lexeme.text, beq_self_eq_true]
    rw [mayStart_opener hpair, hopener, his, htext, ← hopener, hundefined]
    rfl

/-- A phrase that stands before another one is not spelled where the other one is the longest. -/
theorem spoken_eq_false {other : String × String} (hother : ¬ wordsOf other.1 <+: wordsOf pair.1)
    (hwords : words.map Token.lexeme = (wordsOf pair.1).map .ident)
    (hlongest : ∀ tail, tail ≠ [] → wordsOf other.1 = wordsOf pair.1 ++ tail →
      spoken tail rest = false) :
    spoken (wordsOf other.1) (words ++ rest) = false := by
  rw [← Bool.not_eq_true]
  intro hspoken
  rcases isPrefix_or_of_spoken hwords hspoken with hprefix | ⟨tail, hphrase, htail⟩
  · exact hother hprefix
  · have hne : tail ≠ [] := by
      rintro rfl
      exact hother ⟨[], by rw [hphrase, List.append_nil, List.append_nil]⟩
    exact absurd htail (by simp [hlongest tail hne hphrase])

namespace IsStandard

/-- Only synonyms replace tokens. -/
theorem exists_eq_entry (h : IsStandard r) {e : Registered} (he : e ∈ r.entries)
    (hkind : e.extension.kind = .replacement) : ∃ pair ∈ synonyms, e = entry pair := by
  obtain ⟨dates, times, hdate, -, htime, -, hentries⟩ := h.exists_entries
  rw [hentries, List.mem_append] at he
  rcases he with he | he
  · obtain ⟨pair, hpair, rfl⟩ := List.mem_map.mp he
    exact ⟨pair, hpair, rfl⟩
  · simp only [List.mem_cons, List.not_mem_nil, or_false] at he
    rcases he with rfl | rfl | rfl
    · rw [hdate] at hkind
      cases hkind
    · rw [htime] at hkind
      cases hkind
    · cases hkind

/-- A token that begins no phrase stays as it is. -/
theorem replaces_self (h : IsStandard ctx.registry) (ht : t.text ∉ openers) :
    Parse.Replaces ctx table (t :: tokens) (t :: tokens) := by
  refine Parse.replaces_of_answers_none fun e he hkind ↦ ?_
  obtain ⟨pair, hpair, rfl⟩ := h.exists_eq_entry he hkind
  have hopener : t.is (opener pair.1) = false := by
    rw [← Bool.not_eq_true, Token.is, Lexeme.is, beq_iff_eq]
    exact fun htext ↦ ht (List.mem_map.mpr ⟨pair, hpair, htext.symm⟩)
  apply Registered.answers_none
  rw [mayStart_opener hpair, hopener, Bool.false_and]

/-- A symbol stays as it is. -/
theorem replaces_symbol (h : IsStandard ctx.registry) {mark : String} (ht : t.lexeme = .symbol mark)
    (hmark : mark ∈ Lexeme.symbols) : Parse.Replaces ctx table (t :: tokens) (t :: tokens) := by
  refine h.replaces_self ?_
  rw [Token.text, ht]
  exact not_mem_openers_of_mem_symbols hmark

/-- Where the words of a phrase stand, and no longer one, they are replaced by its symbol. -/
theorem exists_replaces (h : IsStandard ctx.registry) (hpair : pair ∈ synonyms)
    (hwords : words.map Token.lexeme = (wordsOf pair.1).map .ident)
    (hundefined : table.contains (opener pair.1) = false)
    (hlongest : ∀ other ∈ synonyms, ∀ tail, tail ≠ [] → wordsOf other.1 = wordsOf pair.1 ++ tail →
      spoken tail rest = false)
    (hrest : rest ≠ []) :
    ∃ t, t.lexeme = .symbol pair.2 ∧ Parse.Replaces ctx table (words ++ rest) (t :: rest) := by
  obtain ⟨dates, times, -, -, -, -, hentries⟩ := h.exists_entries
  obtain ⟨before, after, hsplit⟩ := List.append_of_mem hpair
  have hpairwise := pairwise_synonyms
  rw [hsplit, List.pairwise_append] at hpairwise
  have hspoken : spoken (wordsOf pair.1) (words ++ rest) = true := spoken_append hwords
  have hothers : ∀ other ∈ before, spoken (wordsOf other.1) (words ++ rest) = false := by
    intro other hother
    have hmem : other ∈ synonyms := hsplit ▸ List.mem_append_left _ hother
    exact spoken_eq_false (hpairwise.2.2 other hother pair List.mem_cons_self) hwords
      (hlongest other hmem)
  obtain ⟨t, front, rfl, hcount, hstart⟩ := exists_mayStart hpair hwords hundefined
  have hlength := length_wordsOf_le hpair
  have hentries' : ctx.registry.entries = before.map entry ++
      entry pair :: (after.map entry ++ [dates, times, ⟨print, none, 0⟩]) := by
    rw [hentries, hsplit]
    simp
  refine ⟨t.withLexeme (.symbol pair.2), rfl, ?_⟩
  apply Parse.replaces_of_answers hentries'
  · intro e he _ w hw
    obtain ⟨other, hother, rfl⟩ := List.mem_map.mp he
    have hmem : other ∈ synonyms := hsplit ▸ List.mem_append_left _ hother
    exact answers_entry_none (isPlainPhrase_of_mem_synonyms hmem).ne_nil (min_length_le hmem)
      ((phraseWords_eq hmem).symm ▸ hothers other hother) hw
  · rfl
  · intro w hw
    obtain ⟨w', hclaim, hw'⟩ := answers_entry (isPlainPhrase_of_mem_synonyms hpair).ne_nil
      (min_length_le hpair) hstart hw
    rw [List.cons_append] at hspoken
    rw [phraseWords_eq hpair, hspoken, if_pos rfl, hcount] at hclaim
    exact ⟨w', hclaim, hw'⟩
  · exact fun _ _ ↦ congrArg some (lexemeOf_eq hpair)
  · rfl
  · simp [Lexeme.kind]
  · omega
  · exact hrest

/-- Dates and times of day begin with two tokens of which the second is a number. -/
theorem leaves_expression (h : IsStandard ctx.registry) {next : Token}
    (hnext : next.kind ≠ .number) :
    Parse.Leaves ctx .expression table (t :: next :: rest) := by
  refine Parse.leaves_of_answers fun e he hkind ↦ ?_
  obtain ⟨dates, times, -, hdates, -, htimes, hentries⟩ := h.exists_entries
  rw [hentries, List.mem_append] at he
  rcases he with he | he
  · obtain ⟨pair, -, rfl⟩ := List.mem_map.mp he
    cases hkind
  · simp only [List.mem_cons, List.not_mem_nil, or_false] at he
    rcases he with rfl | rfl | rfl
    · exact hdates.answers_none hnext
    · exact htimes.answers_none hnext
    · cases hkind

/-- A print statement begins with its own word. -/
theorem leaves_statement (h : IsStandard ctx.registry) (ht : t.is "print" = false) :
    Parse.Leaves ctx .statement table (t :: rest) := by
  refine Parse.leaves_of_answers fun e he hkind ↦ ?_
  obtain ⟨dates, times, hdate, -, htime, -, hentries⟩ := h.exists_entries
  rw [hentries, List.mem_append] at he
  rcases he with he | he
  · obtain ⟨pair, -, rfl⟩ := List.mem_map.mp he
    cases hkind
  · simp only [List.mem_cons, List.not_mem_nil, or_false] at he
    rcases he with rfl | rfl | rfl
    · rw [hdate] at hkind
      cases hkind
    · rw [htime] at hkind
      cases hkind
    · apply Registered.answers_none
      simp [Registered.mayStart, print, Trigger.accepts, Extension.inert, ht]

end IsStandard

end Standard

end ScriptFront
