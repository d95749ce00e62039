import ScriptFront.Extension.Matching
import ScriptFront.Proofs.Window.Stream

/-!
# Paths through a pattern

A walk through a pattern changes one place and one set of records, and takes both back where an
element fails. Read as a grammar, a pattern needs neither: on a given list of tokens an element
either has a path or has none, and what an element is given is what the path before it leaves.
`Element.path?` is this reading. A path is a list of *tiles*, one for each leaf on it, and a tile
holds the tokens that its leaf takes and what it records of them.

An element that has no path leaves nothing behind, so the tiles of a path are all there is: they lie
side by side from the first token on, and none of them holds a line break or the end.
-/

namespace ScriptFront

/-- Record several values, one after the other. -/
def Captures.insertAll (captures : Captures) (records : List (String × Value)) : Captures :=
  records.foldl (fun captures record ↦ captures.insert record.1 record.2) captures

@[simp] theorem Captures.insertAll_nil (captures : Captures) : captures.insertAll [] = captures :=
  rfl

@[simp] theorem Captures.insertAll_cons (captures : Captures) (record : String × Value)
    (records : List (String × Value)) :
    captures.insertAll (record :: records) = (captures.insert record.1 record.2).insertAll
      records := rfl

theorem Captures.insertAll_append (captures : Captures) (records more : List (String × Value)) :
    captures.insertAll (records ++ more) = (captures.insertAll records).insertAll more :=
  List.foldl_append

/-- A line break is spelled as one. -/
def Token.IsWellSpelled (t : Token) : Prop := t.kind = .newLine → t.text ∈ ["\n", "\r\n", "\r"]

namespace Matching

/-- What one leaf takes. -/
structure Tile where
  /-- The tokens. -/
  tokens : List Token
  /-- What is recorded of them, in this order. -/
  records : List (String × Value)

/-- The tokens of some tiles. -/
def tokensOf (tiles : List Tile) : List Token := tiles.flatMap Tile.tokens

/-- What is recorded of the tokens of some tiles. -/
def recordsOf (tiles : List Tile) : List (String × Value) := tiles.flatMap Tile.records

@[simp] theorem tokensOf_nil : tokensOf [] = [] := rfl

@[simp] theorem recordsOf_nil : recordsOf [] = [] := rfl

@[simp] theorem tokensOf_singleton (tile : Tile) : tokensOf [tile] = tile.tokens := by
  simp [tokensOf]

@[simp] theorem recordsOf_singleton (tile : Tile) : recordsOf [tile] = tile.records := by
  simp [recordsOf]

@[simp] theorem tokensOf_append (tiles more : List Tile) :
    tokensOf (tiles ++ more) = tokensOf tiles ++ tokensOf more := List.flatMap_append

@[simp] theorem recordsOf_append (tiles more : List Tile) :
    recordsOf (tiles ++ more) = recordsOf tiles ++ recordsOf more := List.flatMap_append

/-! ## Runs of tokens -/

/-- The hours and minutes that some tokens begin with, their spelling, and how many tokens they
are. -/
def clockAt? (first : Token) (rest : List Token) : Option (Nat × Nat × String × Nat) :=
  match clockOf? first.text with
  | none => none
  | some (hours, minutes, pointed) =>
    if !pointed && rest[0]?.any (·.is ":") then
      match rest[1]? with
      | none => none
      | some t =>
        if t.kind != .number || t.text.utf8ByteSize != 2 then none
        else (natural? maxWord t.text.toList).map fun minutes ↦
          (hours, minutes, first.text ++ ":" ++ t.text, 3)
    else some (hours, minutes, first.text, 1)

/-- The half of the day that a token names. -/
def halfOf? (t : Token) : Option String :=
  if t.kind == .ident && (lowerText t.text == "am" || lowerText t.text == "pm")
    then some (lowerText t.text)
  else none

/-- A stretch for a time of day, if there is one. -/
def stretchOf? (hours minutes : Nat) (text : String) (count : Nat) : Option Stretch :=
  if 23 < hours || 59 < minutes then none
  else some ⟨count, text, some (.time (hours * 3600 + minutes * 60))⟩

/-- A stretch for a time of day, of which the next token may name the half. -/
def halvedOf? (hours minutes : Nat) (text : String) (count : Nat) (next : Option Token) :
    Option Stretch :=
  match next.bind halfOf? with
  | none => stretchOf? hours minutes text count
  | some half =>
    (hourOf? half hours).bind fun hours ↦ stretchOf? hours minutes (text ++ half) (count + 1)

/-- The time of day that some tokens begin with. -/
def timeAt? (first : Token) (rest : List Token) : Option Stretch :=
  if first.kind != .number then none
  else (clockAt? first rest).bind fun (hours, minutes, text, count) ↦
    halvedOf? hours minutes text count (first :: rest)[count]?

/-- The names that some tokens list, each behind a comma. -/
def namesAt : List Token → List String
  | comma :: next :: rest =>
    if comma.is "," && next.kind == .ident then next.text :: namesAt rest else []
  | _ => []

/-- A stretch for a list of names. -/
def namesStretch (names : List String) : Stretch :=
  ⟨2 * names.length - 1, ", ".intercalate names, some (.list (names.map .str))⟩

/-- What a typed leaf matches at the front of some tokens. -/
def stretchAt? (c : Consult) (first : Token) (rest : List Token) : LeafType → Option Stretch
  | .number => first.lexeme.number?.map fun n ↦ .one first (some (.number n))
  | .word => if first.kind == .ident then some (.one first (some (.str first.text))) else none
  | .bool => (truth? first).map fun b ↦ .one first (some (.bool b))
  | .uri =>
    (first.lexeme.string?.filter Text.looksLikeAddress).map fun s ↦ .one first (some (.str s))
  | .startToken =>
    if c.extension.starts.any (·.accepts first) then some (.one first (some (.str first.text)))
      else none
  | .identSymbol =>
    if first.kind == .ident && c.symbols.contains first.text then some (.one first none) else none
  | .singularSymbol =>
    if first.kind == .ident && c.symbols.contains (first.text ++ "s")
      then some (.one first none) else none
  | .tokenMap1 => (c.extension.firstMap first.text).map fun v ↦ .one first (some v)
  | .tokenMap2 => (c.extension.secondMap first.text).map fun v ↦ .one first (some v)
  | .paramNames =>
    if first.kind == .ident then some (namesStretch (first.text :: namesAt rest)) else none
  | .time => timeAt? first rest
  | .exprTerminators => none

/-! ## Paths -/

/-- The token is a line break or the end. -/
def isBarred (t : Token) : Bool := t.kind == .endOfInput || t.kind == .newLine

/-- What is recorded of a stretch under a name: its value, if leaves of the type have one, and its
text. -/
def recordsFor (name : String) (type : LeafType) (stretch : Stretch) : List (String × Value) :=
  (if type.hasValue then stretch.value.toList.map ((Captures.valueName name, ·)) else []) ++
    [(name, .str stretch.text)]

/-- What a leaf takes of the tokens from the next one on. -/
def tile? (c : Consult) (captures : Captures) : List Token → Leaf → Option Tile
  | [], _ => none
  | first :: _, .literal text =>
    if !isBarred first && first.is text then some ⟨[first], []⟩ else none
  | first :: _, .oneOf name values =>
    if !isBarred first && values.any fun v ↦ lowerText v == lowerText first.text then
      some ⟨[first], [(name, .str first.text)]⟩
    else none
  | first :: _, .sameAs name =>
    if !isBarred first && (captures.text? name).all first.is then
      some ⟨[first], [(name, .str first.text)]⟩
    else none
  | first :: rest, .typed name type =>
    if type = .exprTerminators then
      if first.lexeme.closesExpression then some ⟨[], [(name, .str first.text)]⟩ else none
    else if isBarred first then none
    else (stretchAt? c first rest type).map fun stretch ↦
      ⟨(first :: rest).take stretch.count, recordsFor name type stretch⟩

mutual

/-- The path through an element from the next token on, if there is one: of two alternatives, the
second counts where the first has none. -/
def path? (c : Consult) (captures : Captures) (next : List Token) : Element → Option (List Tile)
  | .leaf l _ => (tile? c captures next l).map ([·])
  | .group elements _ => pathAlong? c (Element.requiredCount elements) 0 captures next elements
  | .either left right _ =>
    match path? c captures next left with
    | some tiles => some tiles
    | none => path? c captures next right

/-- The path through some elements, `matched` required ones lying behind. An optional element
without a path is passed by; at a required one the path may end, if enough lie behind and the next
token closes an expression. -/
def pathAlong? (c : Consult) (minRequired matched : Nat) (captures : Captures) (next : List Token) :
    List Element → Option (List Tile)
  | [] => some []
  | e :: rest =>
    match path? c captures next e with
    | some tiles =>
      (pathAlong? c minRequired (if e.required then matched + 1 else matched)
        (captures.insertAll (recordsOf tiles)) (next.drop (tokensOf tiles).length) rest).map
        (tiles ++ ·)
    | none =>
      if !e.required then pathAlong? c minRequired matched captures next rest
      else if minRequired ≤ matched ∧ (next.head?.any fun t ↦ t.lexeme.closesExpression)
        then some []
      else none

end

/-! ## What lies on a path -/

/-- The token may be matched: it is not the end, and no line break if that is spelled as one. -/
def IsMatchable (t : Token) : Prop := t.isEnd = false ∧ (t.IsWellSpelled → t.kind ≠ .newLine)

/-- So many of the tokens are there and may be matched. -/
structure CanTake (n : Nat) (tokens : List Token) : Prop where
  /-- They are there. -/
  le_length : n ≤ tokens.length
  /-- They may be matched. -/
  isMatchable : ∀ t ∈ tokens.take n, IsMatchable t

variable {c : Consult} {captures : Captures} {first t : Token}
    {rest next tokens : List Token} {l : Leaf}
  {tile : Tile} {tiles : List Tile} {stretch : Stretch} {type : LeafType} {n : Nat}

theorem canTake_zero : CanTake 0 tokens := ⟨Nat.zero_le _, by simp⟩

/-- One more token may be matched. -/
theorem CanTake.succ (h : CanTake n tokens) (ht : tokens[n]? = some t)
    (hmatchable : IsMatchable t) :
    CanTake (n + 1) tokens := by
  refine ⟨(List.getElem?_eq_some_iff.mp ht).1, fun u hu ↦ ?_⟩
  rw [List.take_add_one, ht, Option.toList_some, List.mem_append, List.mem_singleton] at hu
  rcases hu with hu | rfl
  · exact h.isMatchable u hu
  · exact hmatchable

theorem canTake_one (h : IsMatchable first) : CanTake 1 (first :: rest) := canTake_zero.succ rfl h

/-- A token of a kind that is matched may be matched. -/
theorem isMatchable_of_kind {kind : TokenKind} (h : t.kind = kind) (hend : kind ≠ .endOfInput)
    (hbreak : kind ≠ .newLine) : IsMatchable t := by
  subst h
  exact ⟨beq_eq_false_iff_ne.mpr hend, fun _ ↦ hbreak⟩

/-- A mark may be matched. -/
theorem isMatchable_of_is {text : String} (h : t.is text = true) (hne : text ≠ "")
    (hbreak : text ∉ ["\n", "\r\n", "\r"]) : IsMatchable t := by
  obtain rfl : t.text = text := eq_of_beq h
  refine ⟨?_, fun hspelled hkind ↦ hbreak (hspelled hkind)⟩
  obtain ⟨lexeme, position, offset, index⟩ := t
  cases lexeme with
  | endOfInput => exact absurd rfl hne
  | _ => rfl

/-! ### Runs of tokens -/

/-- A time is written in one token or in three. -/
theorem canTake_of_clockAt? {hours minutes count : Nat} {text : String} (hfirst : IsMatchable first)
    (h : clockAt? first rest = some (hours, minutes, text, count)) :
    CanTake count (first :: rest) := by
  rw [clockAt?] at h
  split at h
  · cases h
  · split at h
    · next hcolon =>
      rw [Bool.and_eq_true, Option.any_eq_true_iff_get] at hcolon
      obtain ⟨-, hsome, hcolon⟩ := hcolon
      split at h
      · cases h
      · next t ht =>
        split at h
        · cases h
        · next hnumber =>
          obtain ⟨_, -, hclock⟩ := Option.map_eq_some_iff.mp h
          cases hclock
          simp only [Bool.or_eq_true, bne_iff_ne, not_or, Decidable.not_not] at hnumber
          have hone : CanTake 2 (first :: rest) :=
            (canTake_one hfirst).succ (Option.some_get hsome).symm
            (isMatchable_of_is hcolon (by decide) (by decide))
          exact hone.succ ht (isMatchable_of_kind hnumber.1 (by decide) (by decide))
    · cases h
      exact canTake_one hfirst

theorem count_of_stretchOf? {hours minutes count : Nat} {text : String}
    (h : stretchOf? hours minutes text count = some stretch) : stretch.count = count := by
  rw [stretchOf?] at h
  split at h
  · cases h
  · cases h
    rfl

/-- A half of the day is one more token. -/
theorem canTake_of_halvedOf? {hours minutes count : Nat} {text : String} (h : CanTake count tokens)
    (hhalved : halvedOf? hours minutes text count tokens[count]? = some stretch) :
    CanTake stretch.count tokens := by
  rw [halvedOf?] at hhalved
  split at hhalved
  · rw [count_of_stretchOf? hhalved]
    exact h
  · next half hhalf =>
    obtain ⟨t, ht, hname⟩ := Option.bind_eq_some_iff.mp hhalf
    obtain ⟨hours, -, hstretch⟩ := Option.bind_eq_some_iff.mp hhalved
    rw [count_of_stretchOf? hstretch]
    refine h.succ ht ?_
    rw [halfOf?] at hname
    split at hname
    · next hident =>
      rw [Bool.and_eq_true, beq_iff_eq] at hident
      exact isMatchable_of_kind hident.1 (by decide) (by decide)
    · cases hname

theorem canTake_of_timeAt? (hfirst : IsMatchable first) (h : timeAt? first rest = some stretch) :
    CanTake stretch.count (first :: rest) := by
  rw [timeAt?] at h
  split at h
  · cases h
  · obtain ⟨⟨hours, minutes, text, count⟩, hclock, hhalved⟩ := Option.bind_eq_some_iff.mp h
    exact canTake_of_halvedOf? (canTake_of_clockAt? hfirst hclock) hhalved

/-- Of tokens that list more names, there are two for each name. -/
theorem canTake_namesAt (h : CanTake n tokens) :
    CanTake (n + 2 * (namesAt (tokens.drop n)).length) tokens := by
  generalize hdrop : tokens.drop n = rest
  induction rest using namesAt.induct generalizing n with
  | case1 comma next rest hnames ih =>
    rw [namesAt, if_pos hnames]
    rw [Bool.and_eq_true, beq_iff_eq] at hnames
    have hcomma : tokens[n]? = some comma := by rw [← List.head?_drop, hdrop]; rfl
    have hnext : tokens[n + 1]? = some next := by
      rw [← List.head?_drop, ← List.tail_drop, hdrop]
      rfl
    have htwo := (h.succ hcomma (isMatchable_of_is hnames.1 (by decide) (by decide))).succ hnext
      (isMatchable_of_kind hnames.2 (by decide) (by decide))
    have hrest := ih htwo (by rw [← List.tail_drop, ← List.tail_drop, hdrop]; rfl)
    rw [List.length_cons, show n + 2 * ((namesAt rest).length + 1) =
      n + 1 + 1 + 2 * (namesAt rest).length by omega]
    exact hrest
  | case2 comma next rest hnames =>
    rw [namesAt, if_neg hnames]
    exact h
  | case3 rest hshort =>
    rw [namesAt]
    · exact h
    · exact hshort

/-- The tokens that a typed leaf matches are there. -/
theorem canTake_of_stretchAt? (hfirst : IsMatchable first)
    (h : stretchAt? c first rest type = some stretch) :
    CanTake stretch.count (first :: rest) := by
  have hone {value : Option Value} (hvalue : Stretch.one first value = stretch) :
      CanTake stretch.count (first :: rest) := hvalue ▸ canTake_one hfirst
  have hmap {α : Type} {found : Option α} {value : α → Option Value}
      (hfound : found.map (fun a ↦ Stretch.one first (value a)) = some stretch) :
      CanTake stretch.count (first :: rest) := by
    obtain ⟨_, -, hvalue⟩ := Option.map_eq_some_iff.mp hfound
    exact hone hvalue
  have hite {p : Prop} [Decidable p] {value : Option Value}
      (hfound : (if p then some (Stretch.one first value) else none) = some stretch) :
      CanTake stretch.count (first :: rest) := by
    split at hfound
    · exact hone (Option.some.inj hfound)
    · cases hfound
  cases type with
  | number => exact hmap h
  | word => exact hite h
  | bool => exact hmap h
  | uri => exact hmap h
  | startToken => exact hite h
  | identSymbol => exact hite h
  | singularSymbol => exact hite h
  | tokenMap1 => exact hmap h
  | tokenMap2 => exact hmap h
  | paramNames =>
    rw [stretchAt?] at h
    split at h
    · cases h
      have hnames := canTake_namesAt (@canTake_one _ rest hfirst)
      rw [List.drop_one, List.tail_cons] at hnames
      rw [namesStretch, List.length_cons, show 2 * ((namesAt rest).length + 1) - 1 =
        1 + 2 * (namesAt rest).length by omega]
      exact hnames
    · cases h
  | time => exact canTake_of_timeAt? hfirst h
  | exprTerminators => cases h

/-! ### Tiles -/

/-- The tokens come first among those that follow, and may be matched. -/
structure Lie (taken next : List Token) : Prop where
  /-- They come first. -/
  isPrefix : taken <+: next
  /-- They may be matched. -/
  isMatchable : ∀ t ∈ taken, IsMatchable t

theorem lie_nil : Lie [] next := ⟨List.nil_prefix, by simp⟩

theorem CanTake.lie (h : CanTake n tokens) : Lie (tokens.take n) tokens :=
  ⟨List.take_prefix _ _, h.isMatchable⟩

/-- Tokens that lie behind others lie with them. -/
theorem Lie.append {taken more : List Token} (h : Lie taken next)
    (h' : Lie more (next.drop taken.length)) :
    Lie (taken ++ more) next := by
  obtain ⟨rest, rfl⟩ := h.isPrefix
  rw [List.drop_left] at h'
  refine ⟨(List.prefix_append_right_inj _).mpr h'.isPrefix, fun t ht ↦ ?_⟩
  rcases List.mem_append.mp ht with ht | ht
  · exact h.isMatchable t ht
  · exact h'.isMatchable t ht

theorem isMatchable_of_not_isBarred (h : isBarred t = false) : IsMatchable t := by
  rw [isBarred, Bool.or_eq_false_iff, beq_eq_false_iff_ne, beq_eq_false_iff_ne] at h
  exact isMatchable_of_kind rfl h.1 h.2

/-- A leaf takes the first of the tokens that it is given. -/
theorem lie_of_tile? (h : tile? c captures next l = some tile) : Lie tile.tokens next := by
  cases next with
  | nil =>
    rw [tile?] at h
    cases h
  | cons first rest =>
    have hone {p : Bool} {records : List (String × Value)}
        (hfound : (if !isBarred first && p then some (⟨[first], records⟩ : Tile) else none) = some
          tile) :
        Lie tile.tokens (first :: rest) := by
      split at hfound
      · next hp =>
        cases hfound
        rw [Bool.and_eq_true, Bool.not_eq_true'] at hp
        exact (canTake_one (isMatchable_of_not_isBarred hp.1)).lie
      · cases hfound
    cases l with
    | literal text => exact hone h
    | oneOf name values => exact hone h
    | sameAs name => exact hone h
    | typed name type =>
      rw [tile?] at h
      split at h
      · split at h
        · cases h
          exact lie_nil
        · cases h
      · split at h
        · cases h
        · next hbarred =>
          obtain ⟨stretch, hstretch, rfl⟩ := Option.map_eq_some_iff.mp h
          exact (canTake_of_stretchAt?
            (isMatchable_of_not_isBarred (by simpa using hbarred)) hstretch).lie

mutual

/-- **Tiles lie side by side.** The tokens of a path are the first of those it is given, and none of
them is a line break or the end. -/
theorem lie_of_path? : ∀ {captures next} (e : Element) {tiles},
    path? c captures next e = some tiles → Lie (tokensOf tiles) next
  | _, _, .leaf l _, _, h => by
    rw [path?] at h
    obtain ⟨tile, htile, rfl⟩ := Option.map_eq_some_iff.mp h
    rw [tokensOf_singleton]
    exact lie_of_tile? htile
  | _, _, .group elements _, _, h => by
    rw [path?] at h
    exact lie_of_pathAlong? elements h
  | _, _, .either left right _, _, h => by
    rw [path?] at h
    split at h
    · next hleft =>
      cases h
      exact lie_of_path? left hleft
    · exact lie_of_path? right h

theorem lie_of_pathAlong? : ∀ {minRequired matched captures next} (elements : List Element) {tiles},
    pathAlong? c minRequired matched captures next elements = some tiles → Lie (tokensOf tiles) next
  | _, _, _, _, [], _, h => by
    rw [pathAlong?] at h
    cases h
    exact lie_nil
  | _, _, _, _, e :: rest, _, h => by
    rw [pathAlong?] at h
    split at h
    · next he =>
      obtain ⟨more, hmore, rfl⟩ := Option.map_eq_some_iff.mp h
      rw [tokensOf_append]
      exact (lie_of_path? e he).append (lie_of_pathAlong? rest hmore)
    · split at h
      · exact lie_of_pathAlong? rest h
      · split at h
        · cases h
          exact lie_nil
        · cases h

end

end Matching

end ScriptFront
