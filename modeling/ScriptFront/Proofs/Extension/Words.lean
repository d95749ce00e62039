import ScriptFront.Proofs.Extension.Claims
import ScriptFront.Proofs.Parse.Yields
import ScriptFront.Proofs.Window.Operations

/-!
# Extensions at known tokens

On a window whose tokens are known, an extension either claims them or does not. A pattern of words
claims the tokens that spell them, one after the other; a pattern whose second element is a number
claims none if no number is second. What a registry finds then follows entry by entry, and with it
what becomes of the tokens: the first phrase that they spell is replaced, or they stay as they are.
-/

namespace ScriptFront

open Window (minLookahead)

/-! ## Walks on known tokens -/

/-- The token spells the word. Line breaks and the end spell none. -/
def Token.spells (t : Token) (word : String) : Bool :=
  t.is word && !(t.kind == .endOfInput || t.kind == .newLine)

theorem Token.isEnd_of_spells {t : Token} {word : String} (h : t.spells word = true) :
    t.isEnd = false := by
  rw [Token.spells, Bool.and_eq_true, Bool.not_eq_true', Bool.or_eq_false_iff] at h
  exact h.2.1

/-- A name spells the word that it is. -/
theorem Token.spells_ident {t : Token} {text : String} (h : t.lexeme = .ident text)
    (word : String) :
    t.spells word = (text == word) := by
  simp [spells, is, Lexeme.is, kind, h, Lexeme.text, Lexeme.kind]

/-- The first tokens spell the words, one after the other. -/
def spoken : List String → List Token → Bool
  | [], _ => true
  | _ :: _, [] => false
  | word :: words, t :: tokens => t.spells word && spoken words tokens

namespace Matching

/-- The walk has passed `n` of the tokens. -/
structure State.IsAt (s : State) (tokens : List Token) (n : Nat) : Prop where
  /-- The window shows the tokens. -/
  shows : s.window.Shows tokens
  /-- So many have matched. -/
  offset_eq : s.offset = n
  /-- The walk was not too long for the window. -/
  overflowed_eq : s.overflowed = false

variable {s before : State} {tokens : List Token} {t : Token} {n : Nat} {c : Consult} {l : Leaf}

theorem State.IsAt.ne_nil {front rest : List Token} (h : s.IsAt (front ++ t :: rest) n)
    (ht : t.isEnd = false) : rest ≠ [] := by
  rintro rfl
  rcases h.shows.closed.append_cases with ⟨-, hnil⟩ | ⟨-, hclosed⟩
  · cases hnil
  · rcases closed_cons_iff.mp hclosed with ⟨hend, -⟩ | ⟨-, hnil⟩
    · exact absurd (ht.symm.trans hend) (by simp)
    · exact hnil.ne_nil rfl

/-- A look at the next token. -/
theorem State.IsAt.peekAfter (h : s.IsAt tokens n) (hn : n ≤ minLookahead)
    (ht : tokens[n]? = some t) :
    ∃ s', Matching.peekAfter 0 s = .ok (some t) s' ∧ s'.IsAt tokens n ∧
    s'.captures = s.captures := by
  obtain ⟨w, hrun, hshows⟩ := h.shows.peek_stay hn ht
  rw [← h.offset_eq] at hrun
  refine ⟨{ s with window := w }, ?_, ⟨hshows, h.offset_eq, h.overflowed_eq⟩, rfl⟩
  rw [Matching.peekAfter, get_bind_run, Nat.add_zero]
  exact peek_of_ok hrun

/-- What was matched since `before` is taken back. -/
theorem State.IsAt.restore {m : Nat} (h : s.IsAt tokens n) (hbefore : before.IsAt tokens m) :
    ∃ s', Matching.restore before s = .ok () s' ∧ s'.IsAt tokens m :=
  ⟨_, rfl, h.shows, hbefore.offset_eq, h.overflowed_eq⟩

/-- A word matches the token that spells it. -/
theorem leaf_literal {word : String} (h : s.IsAt tokens n) (hn : n ≤ minLookahead)
    (ht : tokens[n]? = some t) :
    ∃ s', leaf c (.literal word) s = .ok (t.spells word) s' ∧
      s'.IsAt tokens (if t.spells word then n + 1 else n) ∧ s'.captures = s.captures := by
  obtain ⟨s₁, hpeek, h₁, hcaptures⟩ := h.peekAfter hn ht
  rw [leaf, bind_eq_of_ok hpeek]
  cases hkind : t.kind == .endOfInput || t.kind == .newLine with
  | true =>
    exact ⟨s₁, by simp [hkind, Token.spells], by simpa [Token.spells, hkind] using h₁, hcaptures⟩
  | false =>
    cases hword : t.is word with
    | false =>
      exact ⟨s₁, by simp [hkind, hword, Token.spells], by simpa [Token.spells, hword] using h₁,
        hcaptures⟩
    | true =>
      refine ⟨{ s₁ with offset := s₁.offset + 1 }, ?_, ?_, hcaptures⟩
      · simp [hkind, hword, Token.spells]
        rfl
      · simpa [Token.spells, hword,
          hkind] using ⟨h₁.shows, by simp [h₁.offset_eq], h₁.overflowed_eq⟩

/-- A required element that fails before enough of them have matched ends the match. -/
theorem sequence_fails {e : Element} {rest : List Element} {s₁ : State}
    {minRequired matched m : Nat}
    (h : s.IsAt tokens n) (he : element c e s = .ok false s₁) (h₁ : s₁.IsAt tokens m)
    (hrequired : e.required = true) (hfew : matched < minRequired) :
    ∃ s', sequence c minRequired matched (e :: rest) s = .ok false s' ∧ s'.IsAt tokens n := by
  obtain ⟨s₂, hrestore, h₂⟩ := h₁.restore h
  refine ⟨s₂, ?_, h₂⟩
  rw [sequence, get_bind_run, bind_eq_of_ok he]
  simp only [Bool.false_eq_true, if_false]
  rw [bind_eq_of_ok hrestore, get_bind_run, h₂.overflowed_eq]
  simp only [hrequired, Bool.not_true, Bool.false_eq_true, if_false, if_neg (Nat.not_le_of_lt hfew)]
  rfl

theorem sequence_goes_on {e : Element} {rest : List Element} {s₁ : State}
    {minRequired matched : Nat}
    (he : element c e s = .ok true s₁) (hrequired : e.required = true) :
    sequence c minRequired matched (e :: rest) s = sequence c minRequired
      (matched + 1) rest s₁ := by
  rw [sequence, get_bind_run, bind_eq_of_ok he, if_pos rfl, hrequired, if_pos rfl]

/-- A pattern of words matches the tokens that spell them. No more of them are looked at than there
are. -/
theorem sequence_ofWords {words : List String} {front rest : List Token} {minRequired matched : Nat}
    (h : s.IsAt (front ++ rest) front.length) (hne : rest ≠ [])
    (hsight : front.length + min words.length rest.length ≤ minLookahead + 1)
    (hmin : matched + words.length = minRequired) :
    ∃ s', sequence c minRequired matched (Element.ofWords words) s = .ok (spoken words rest) s' ∧
      s'.window.Shows (front ++ rest) ∧ s'.overflowed = false ∧
      (spoken words rest = true → s'.offset = front.length + words.length ∧
        s'.captures = s.captures) := by
  induction words generalizing front rest s matched with
  | nil =>
    refine ⟨s, by rw [Element.ofWords, List.map_nil, sequence]; rfl, h.shows, h.overflowed_eq,
      fun _ ↦ ?_⟩
    exact ⟨h.offset_eq, rfl⟩
  | cons word words ih =>
    obtain ⟨t, rest, rfl⟩ := List.exists_cons_of_ne_nil hne
    rw [List.length_cons, List.length_cons] at hsight
    rw [List.length_cons] at hmin
    have ht : (front ++ t :: rest)[front.length]? = some t := by simp
    have hn : front.length ≤ minLookahead := by omega
    obtain ⟨s₁, hleaf, h₁, hcaptures⟩ := leaf_literal h hn ht
    have helement : element c (.leaf (.literal word) true) s = .ok (t.spells word) s₁ := by
      rw [element, hleaf]
    rw [Element.ofWords, List.map_cons, ← Element.ofWords]
    cases hspells : t.spells word with
    | false =>
      rw [hspells] at helement h₁
      have hfew : matched < minRequired := by omega
      obtain ⟨s₂, hrun, h₂⟩ := sequence_fails h helement h₁ rfl hfew
      exact ⟨s₂, by rw [hrun, spoken, hspells, Bool.false_and], h₂.shows, h₂.overflowed_eq,
        by simp [spoken, hspells]⟩
    | true =>
      rw [hspells] at helement h₁
      rw [sequence_goes_on helement rfl]
      have hsplit : front ++ t :: rest = (front ++ [t]) ++ rest := by simp
      rw [hsplit] at h₁ ⊢
      have hlength : (front ++ [t]).length = front.length + 1 := List.length_append
      have hmin' : matched + 1 + words.length = minRequired := by omega
      obtain ⟨s₂, hrun, hshows, hover, htrue⟩ := ih (hlength ▸ h₁)
        (h.ne_nil (Token.isEnd_of_spells hspells)) (by omega) hmin'
      refine ⟨s₂, by rw [hrun, spoken, hspells, Bool.true_and], hshows, hover, fun hspoken ↦ ?_⟩
      rw [spoken, hspells, Bool.true_and] at hspoken
      obtain ⟨hoffset, hsame⟩ := htrue hspoken
      exact ⟨by simpa [Nat.add_assoc, Nat.add_comm 1] using hoffset, hsame.trans hcaptures⟩

/-- The element is a required word, or a required choice of words. -/
def isVerbal : Element → Bool
  | .leaf (.literal _) true | .leaf (.oneOf _ _) true => true
  | _ => false

/-- A word matches one token or none. -/
theorem element_verbal {e : Element} (he : isVerbal e = true) (h : s.IsAt tokens n)
    (hn : n ≤ minLookahead)
    (ht : tokens[n]? = some t) :
    ∃ matched s', element c e s = .ok matched s' ∧
    s'.IsAt tokens (if matched then n + 1 else n) := by
  revert he
  unfold isVerbal
  split
  · intro _
    obtain ⟨s₁, hleaf, h₁, -⟩ := leaf_literal (c := c) h hn ht
    exact ⟨_, s₁, by rw [element, hleaf], h₁⟩
  · intro _
    obtain ⟨s₁, hpeek, h₁, -⟩ := h.peekAfter hn ht
    rw [element, leaf, bind_eq_of_ok hpeek]
    dsimp only
    split
    · exact ⟨false, s₁, rfl, h₁⟩
    · split
      · exact ⟨true, _, rfl, h₁.shows, congrArg (· + 1) h₁.offset_eq, h₁.overflowed_eq⟩
      · exact ⟨false, s₁, rfl, h₁⟩
  · simp

/-- The element is a required number or a required time of day. -/
def isNumeric : Element → Bool
  | .leaf (.typed _ .number) true | .leaf (.typed _ .time) true => true
  | _ => false

/-- A number or a time of day begins with a number. -/
theorem element_numeric {e : Element} (he : isNumeric e = true) (h : s.IsAt tokens n)
    (hn : n ≤ minLookahead)
    (ht : tokens[n]? = some t) (hkind : t.kind ≠ .number) :
    ∃ s', element c e s = .ok false s' ∧ s'.IsAt tokens n := by
  obtain ⟨s₁, hpeek, h₁, -⟩ := h.peekAfter hn ht
  have hnumber : t.lexeme.number? = none := by
    rw [Token.kind] at hkind
    cases hlexeme : t.lexeme <;> simp [hlexeme, Lexeme.kind, Lexeme.number?] at hkind ⊢
  have htime : time t s₁ = .ok none s₁ := by
    rw [time, if_pos (by simpa using hkind)]
    rfl
  refine ⟨s₁, ?_, h₁⟩
  revert he
  unfold isNumeric
  split
  · intro _
    rw [element, leaf, bind_eq_of_ok hpeek]
    dsimp only
    split
    · rfl
    · rw [typed, hnumber]
      rfl
  · intro _
    rw [element, leaf, bind_eq_of_ok hpeek]
    dsimp only
    split
    · rfl
    · rw [bind_eq_of_ok (show typed c .time t s₁ = .ok none s₁ from htime)]
      rfl
  · simp

/-- The pattern asks for a word and then for a number. -/
def wantsNumber : List Element → Bool
  | first :: second :: _ => isVerbal first && isNumeric second
  | _ => false

theorem required_of_isVerbal {e : Element} (h : isVerbal e = true) : e.required = true := by
  revert h
  unfold isVerbal
  split <;> simp [Element.required]

theorem required_of_isNumeric {e : Element} (h : isNumeric e = true) : e.required = true := by
  revert h
  unfold isNumeric
  split <;> simp [Element.required]

/-- A pattern that asks for a number matches nothing if no number is second. -/
theorem sequence_wantsNumber {elements : List Element} {minRequired : Nat} {t next : Token}
    {rest : List Token}
    (hwants : wantsNumber elements = true) (hmin : 2 ≤ minRequired)
    (h : s.IsAt (t :: next :: rest) 0)
    (hnext : next.kind ≠ .number) :
    ∃ s', sequence c minRequired 0 elements s = .ok false s' ∧
    s'.window.Shows (t :: next :: rest) := by
  match elements with
  | [] | [_] => cases hwants
  | first :: second :: more =>
    rw [wantsNumber, Bool.and_eq_true] at hwants
    obtain ⟨hfirst, hsecond⟩ := hwants
    obtain ⟨matched, s₁, helement, h₁⟩ := element_verbal (c := c) hfirst h (Nat.zero_le _) rfl
    cases matched with
    | false =>
      have hfew : 0 < minRequired := Nat.lt_of_lt_of_le (by decide) hmin
      obtain ⟨s₂, hrun, h₂⟩ := sequence_fails h helement h₁ (required_of_isVerbal hfirst) hfew
      exact ⟨s₂, hrun, h₂.shows⟩
    | true =>
      rw [sequence_goes_on helement (required_of_isVerbal hfirst)]
      obtain ⟨s₂, helement₂, h₂⟩ := element_numeric (c := c) hsecond h₁ (by decide) rfl hnext
      obtain ⟨s₃, hrun, h₃⟩ := sequence_fails h₁ helement₂ h₂ (required_of_isNumeric hsecond) hmin
      exact ⟨s₃, hrun, h₃.shows⟩

end Matching

/-! ## Claims -/

/-- With the names of `symbols`, the extension answers so on every window that shows the tokens. -/
def Registered.Answers (e : Registered) (symbols : SymbolTable) (tokens : List Token)
    (answer : Option (Nat × Captures)) : Prop :=
  ∀ {w : Window Lexer}, w.Shows tokens → ∃ w', e.claim symbols w = .ok answer w' ∧ w'.Shows tokens

namespace Registered

variable {e : Registered} {symbols : SymbolTable} {t : Token} {tokens : List Token}

/-- Tokens that the extension may not start at are not claimed. -/
theorem answers_none (h : e.mayStart t symbols = false) : e.Answers symbols (t :: tokens) none := by
  intro w hw
  refine ⟨w, ?_, hw⟩
  rw [claim, hw.current_eq, h]
  rfl

theorem isAt_start {w : Window Lexer} (hw : w.Shows tokens) :
    Matching.State.IsAt ⟨w, 0, .empty, false⟩ tokens 0 := ⟨hw, rfl, rfl⟩

/-- A pattern of words claims the tokens that spell them. -/
theorem answers_words {words : List String} (helements : e.elements = some (Element.ofWords words))
    (hmin : e.minRequired = words.length) (hwords : words ≠ [])
    (hsight : min words.length (t :: tokens).length ≤ minLookahead + 1)
    (hstart : e.mayStart t symbols = true) :
    e.Answers symbols (t :: tokens)
      (if spoken words (t :: tokens) then some (words.length, .empty) else none) := by
  intro w hw
  have hat :
      Matching.State.IsAt ⟨w, 0, .empty, false⟩ ([] ++ t :: tokens) ([] : List Token).length :=
    isAt_start hw
  obtain ⟨s, hrun, hshows, hover, htrue⟩ := Matching.sequence_ofWords (c := ⟨e.extension, symbols⟩)
    hat (List.cons_ne_nil t tokens) (by simpa using hsight) (Nat.zero_add _)
  refine ⟨s.window, ?_, hshows⟩
  rw [claim, hw.current_eq, hstart, helements, hmin]
  simp only [Bool.not_true, Bool.false_eq_true, if_false, hrun, hover]
  cases hspoken : spoken words (t :: tokens) with
  | false => rfl
  | true =>
    obtain ⟨hoffset, hcaptures⟩ := htrue hspoken
    have hpos : 0 < s.offset := by
      have := List.length_pos_iff.mpr hwords
      omega
    rw [if_pos (by simp [hpos]), hoffset, hcaptures]
    simp

/-- The pattern asks for a word and a number, and does not end before them. -/
def WantsNumber (e : Registered) : Prop :=
  ∃ elements, e.elements = some elements ∧ Matching.wantsNumber elements = true ∧ 2 ≤ e.minRequired

/-- A pattern that asks for a number claims nothing if no number is second. -/
theorem WantsNumber.answers_none {next : Token} (h : e.WantsNumber) (hnext : next.kind ≠ .number) :
    e.Answers symbols (t :: next :: tokens) none := by
  obtain ⟨elements, helements, hwants, hmin⟩ := h
  intro w hw
  cases hstart : e.mayStart t symbols with
  | false => exact Registered.answers_none hstart hw
  | true =>
    obtain ⟨s, hrun, hshows⟩ :=
      Matching.sequence_wantsNumber (c := ⟨e.extension, symbols⟩) hwants hmin
      (isAt_start hw) hnext
    refine ⟨s.window, ?_, hshows⟩
    rw [claim, hw.current_eq, hstart, helements]
    simp only [Bool.not_true, Bool.false_eq_true, if_false, hrun, Bool.false_and]

end Registered

/-! ## What is found -/

namespace Registry

variable {entries before after : List Registered} {kind : ExtensionKind} {symbols : SymbolTable}
  {tokens : List Token} {w : Window Lexer} {e : Registered} {answer : Nat × Captures} {index : Nat}

/-- Nothing is found where no extension of the kind claims the tokens. -/
theorem findFrom_eq_none
    (h : ∀ e ∈ entries, e.extension.kind = kind → e.Answers symbols tokens none)
    (hw : w.Shows tokens) :
    ∃ w', findFrom kind symbols index entries w = .ok none w' ∧ w'.Shows tokens := by
  induction entries generalizing w index with
  | nil => exact ⟨w, rfl, hw⟩
  | cons e rest ih =>
    have hrest : ∀ e ∈ rest, e.extension.kind = kind → e.Answers symbols tokens none :=
      fun e he ↦ h e (List.mem_cons_of_mem _ he)
    rw [findFrom]
    by_cases hkind : e.extension.kind = kind
    · obtain ⟨w₁, hclaim, hw₁⟩ := h e List.mem_cons_self hkind hw
      rw [if_pos hkind, bind_eq_of_ok hclaim]
      exact ih hrest hw₁
    · rw [if_neg hkind]
      exact ih hrest hw

/-- The first extension of the kind that claims the tokens is found. -/
theorem findFrom_eq_some
    (h : ∀ e ∈ before, e.extension.kind = kind → e.Answers symbols tokens none)
    (he : e.Answers symbols tokens (some answer)) (hkind : e.extension.kind = kind)
    (hw : w.Shows tokens) :
    ∃ place w', findFrom kind symbols index (before ++ e :: after) w =
      .ok (some (⟨answer.1, answer.2, place⟩, e.extension)) w' ∧ w'.Shows tokens := by
  induction before generalizing w index with
  | nil =>
    obtain ⟨w₁, hclaim, hw₁⟩ := he hw
    refine ⟨index, w₁, ?_, hw₁⟩
    rw [List.nil_append, findFrom, if_pos hkind, bind_eq_of_ok hclaim]
    rfl
  | cons other rest ih =>
    have hrest : ∀ e ∈ rest, e.extension.kind = kind → e.Answers symbols tokens none :=
      fun e he ↦ h e (List.mem_cons_of_mem _ he)
    rw [List.cons_append, findFrom]
    by_cases hother : other.extension.kind = kind
    · obtain ⟨w₁, hclaim, hw₁⟩ := h other List.mem_cons_self hother hw
      rw [if_pos hother, bind_eq_of_ok hclaim]
      exact ih hrest hw₁
    · rw [if_neg hother]
      exact ih hrest hw

end Registry

/-! ## What becomes of the tokens -/

namespace Parse

variable {ctx : ParseContext} {table : SymbolTable} {tokens : List Token} {kind : ExtensionKind}
  {base s : ParserState}

theorem find_yields_none
    (h : ∀ e ∈ ctx.registry.entries, e.extension.kind = kind → e.Answers table tokens none)
    (htable : base.symbols = table) (hat : base.At tokens s) :
    (ctx.find kind).Yields s base tokens fun found ↦ found = none := by
  obtain ⟨w, hrun, hw⟩ := Registry.findFrom_eq_none h hat.shows
  rw [ParseContext.find]
  refine yields_bind_of_ok rfl (onTokens_yields hat ⟨none, w, ?_, hw, rfl⟩)
  rw [hat.symbols_eq, htable]
  exact hrun

/-- Tokens that no extension claims are built by none. -/
theorem leaves_of_answers
    (h : ∀ e ∈ ctx.registry.entries, e.extension.kind = kind → e.Answers table tokens none) :
    Leaves ctx kind table tokens := by
  intro base s sub htable hat
  rw [ParseContext.build?]
  refine (find_yields_none h htable hat).bind fun found s₁ h₁ hfound ↦ ?_
  subst hfound
  exact yields_pure h₁ rfl

/-- Tokens that no extension claims are replaced by none. -/
theorem replaces_of_answers_none
    (h : ∀ e ∈ ctx.registry.entries, e.extension.kind = .replacement →
      e.Answers table tokens none) :
    Replaces ctx table tokens tokens := by
  intro base s htable hat
  rw [ParseContext.replaceTokens]
  refine (find_yields_none h htable hat).bind fun found s₁ h₁ hfound ↦ ?_
  subst hfound
  exact yields_pure h₁ trivial

/-- A replacement of the first tokens by one. -/
theorem replace_yields {t : Token} {front rest : List Token} {lexeme : Lexeme}
    (hat : base.At (t :: (front ++ rest)) s) (htrivia : lexeme.isTrivia = false)
    (hend : lexeme.kind ≠ .endOfInput) (hsight : front.length ≤ minLookahead) (hrest : rest ≠ []) :
    (onTokens (Window.replace (front.length + 1) lexeme)).Yields s base
    (t.withLexeme lexeme :: rest)
      fun _ ↦ True := by
  have hagrees : s.tokens.Agrees ⟨t :: (front ++ rest), s.tokens.lookahead⟩ := ⟨hat.shows, rfl⟩
  obtain ⟨raw, hstreams, -⟩ := hat.shows.streams
  have hcount : max (front.length + 1) 1 = front.length + 1 := Nat.max_eq_left (Nat.le_add_left 1 _)
  have hpos := List.length_pos_iff.mpr hrest
  have hadmits : ListCursor.Admits ⟨t :: (front ++ rest), s.tokens.lookahead⟩
      (.replace (front.length + 1) lexeme) :=
    ⟨htrivia, hend, fun _ ↦ by simp only [List.length_cons, List.length_append]; omega⟩
  obtain ⟨w, hrun, hw⟩ := hagrees.replace hadmits (by simpa using hsight.trans hstreams.sight)
  refine onTokens_yields hat ⟨(), w, hrun, ?_, trivial⟩
  have htokens := hw.same
  rw [hcount] at htokens
  simpa [ListCursor.current] using htokens

/-- The first extension that claims the tokens puts its lexeme in place of those that it claims. -/
theorem replaces_of_answers {before after : List Registered} {e : Registered} {t : Token}
    {front rest : List Token} {captures : Captures} {lexeme : Lexeme}
    (hentries : ctx.registry.entries = before ++ e :: after)
    (hbefore : ∀ e ∈ before, e.extension.kind = .replacement →
      e.Answers table (t :: (front ++ rest)) none)
    (hkind : e.extension.kind = .replacement)
    (he : e.Answers table (t :: (front ++ rest)) (some (front.length + 1, captures)))
    (hreplace : ∀ found t, e.extension.replace found t = some lexeme)
    (htrivia : lexeme.isTrivia = false)
    (hend : lexeme.kind ≠ .endOfInput) (hsight : front.length ≤ minLookahead) (hrest : rest ≠ []) :
    Replaces ctx table (t :: (front ++ rest)) (t.withLexeme lexeme :: rest) := by
  intro base s htable hat
  have hfind : (ctx.find .replacement).Yields s base (t :: (front ++ rest)) fun found ↦
      ∃ place, found = some (⟨front.length + 1, captures, place⟩, e.extension) := by
    obtain ⟨place, w, hrun, hw⟩ := Registry.findFrom_eq_some hbefore he hkind hat.shows
    rw [ParseContext.find]
    refine yields_bind_of_ok rfl (onTokens_yields hat ⟨_, w, ?_, hw, place, rfl⟩)
    rw [hat.symbols_eq, htable, Registry.find, hentries]
    exact hrun
  rw [ParseContext.replaceTokens]
  refine hfind.bind fun found s₁ h₁ hfound ↦ ?_
  obtain ⟨place, rfl⟩ := hfound
  refine yields_bind_of_ok (current_run) ?_
  rw [hreplace]
  exact replace_yields h₁ htrivia hend hsight hrest

end Parse

end ScriptFront
