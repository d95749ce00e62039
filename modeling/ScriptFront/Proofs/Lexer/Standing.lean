import ScriptFront.Proofs.Lexer.Chunks
import ScriptFront.Proofs.Lexer.Places

/-!
# Tokens stand where they say

Every token names a place of the text, by an offset and by a line and column. The claim is that the
spelling of the token is found at the offset, and that line and column are those of this place; not
only for the tokens of the text, but for those in the sections of strings as well, at any depth.

A section is cut by a lexer of its own, whose cursor knows nothing of the text around the section.
The proof puts a second cursor beside it, one that has come to the section from the beginning of the
whole text. Both stand at the same position, and in front of the same characters up to the end of
the section, so they move alike; and the second one stands where it says, because it has moved
forward all the way.

One kind of section is different. A lexer skips a byte order mark at the beginning of what it is
given, and so does that of a section, though the mark stands in the middle of the text here. The
tokens of such a section are placed one character too early.
-/

namespace ScriptFront

/-! ## Tokens at any depth -/

mutual

/-- The tokens in the sections of a lexeme, at any depth. -/
def Lexeme.insideTokens : Lexeme → List Token
  | .interpolated _ parts => sectionsTokens parts
  | _ => []

/-- The tokens in some parts of a string, at any depth. -/
def sectionsTokens : List Section → List Token
  | [] => []
  | .text _ :: rest => sectionsTokens rest
  | .tokens tokens :: rest => allTokens tokens ++ sectionsTokens rest

/-- These tokens, and those in their sections, at any depth. -/
def allTokens : List Token → List Token
  | [] => []
  | .mk lexeme position offset index :: rest =>
    .mk lexeme position offset index :: (lexeme.insideTokens ++ allTokens rest)

end

section

variable {parts : List Section} {tokens : List Token} {t : Token}

theorem mem_allTokens_iff : t ∈ allTokens tokens ↔ ∃ u ∈ tokens, t = u ∨
    t ∈ u.lexeme.insideTokens := by
  induction tokens with
  | nil => simp [allTokens]
  | cons u rest ih =>
    obtain ⟨lexeme, position, offset, index⟩ := u
    simp only [allTokens, List.mem_cons, List.mem_append, ih, exists_eq_or_imp,
      Token.lexeme, or_assoc]

theorem mem_sectionsTokens_iff :
    t ∈ sectionsTokens parts ↔ ∃ tokens, Section.tokens tokens ∈ parts ∧ t ∈ allTokens tokens := by
  induction parts with
  | nil => simp [sectionsTokens]
  | cons part rest ih =>
    cases part with
    | text value => simp [sectionsTokens, ih]
    | tokens tokens => simp [sectionsTokens, ih, or_and_right, exists_or]

theorem Lexeme.insideTokens_of_kind {l : Lexeme} (h : l.kind ≠ .interpolated) :
    l.insideTokens = [] := by
  cases l with
  | interpolated => exact absurd rfl h
  | _ => rfl

end

/-- The token stands at a place of the text, as its offset and its position say. -/
structure Token.StandsIn (s : List Char) (t : Token) : Prop where
  /-- The offset is that of a character, or of the end. -/
  offset_le : t.offset ≤ s.length
  /-- The spelling is found at the offset. -/
  ahead : t.text.toList <+: s.drop t.offset
  /-- Line and column are those of the offset. -/
  position : t.position = positionAt s t.offset

/-! ## Two cursors -/

namespace Cursor

variable {s : List Char} {c outer : Cursor}

/-- A cursor does not move on behind the last character. -/
theorem advance_min (c : Cursor) (n : Nat) : c.advance (min n c.rest.length) = c.advance n := by
  induction n generalizing c with
  | zero => rw [Nat.zero_min]
  | succ n ih =>
    rw [advance_succ, ← ih]
    cases hrest : c.rest with
    | nil => rw [step_of_rest_nil hrest, hrest, List.length_nil, Nat.min_zero, Nat.min_zero]
    | cons ch rest =>
      rw [rest_step, hrest, List.drop_one, List.tail_cons, List.length_cons, Nat.succ_min_succ,
        advance_succ]

/-- The second cursor is at the same position, in front of the same characters. If more follow, they
begin with the brace behind a section. -/
structure Mirrors (c outer : Cursor) : Prop where
  /-- The characters. -/
  rest : outer.rest = c.rest ∨ ∃ more, outer.rest = c.rest ++ '\x7d' :: more
  /-- The line and the column. -/
  position : outer.position = c.position

theorem Mirrors.refl (c : Cursor) : Mirrors c c := ⟨.inl rfl, rfl⟩

theorem Mirrors.step (h : Mirrors c outer) (hrest : c.rest ≠ []) : Mirrors c.step outer.step := by
  obtain ⟨before, rest, pos, left, line, column, hb, hr⟩ := c
  obtain ⟨before', rest', pos', left', line', column', hb', hr'⟩ := outer
  obtain ⟨hsame, hposition⟩ := h
  obtain ⟨rfl, rfl⟩ : line' = line ∧ column' = column := Position.mk.inj hposition
  obtain ⟨ch, rest, rfl⟩ := List.exists_cons_of_ne_nil hrest
  dsimp only at hsame
  rcases hsame with rfl | ⟨more, rfl⟩
  · exact ⟨.inl rfl, rfl⟩
  · refine ⟨.inr ⟨more, rfl⟩, ?_⟩
    simp only [Cursor.step, List.cons_append, endsLine_append_brace]
    rfl

theorem Mirrors.advance {n : Nat} (h : Mirrors c outer) (hn : n ≤ c.rest.length) :
    Mirrors (c.advance n) (outer.advance n) := by
  induction n generalizing c outer with
  | zero => exact h
  | succ n ih =>
    have hrest : c.rest ≠ [] := List.ne_nil_of_length_pos (Nat.lt_of_lt_of_le (Nat.succ_pos n) hn)
    rw [advance_succ, advance_succ]
    refine ih (h.step hrest) ?_
    rw [rest_step, List.length_drop]
    omega

theorem Mirrors.prefix (h : Mirrors c outer) : c.rest <+: outer.rest := by
  rcases h.rest with h | ⟨more, h⟩
  · exact h ▸ List.prefix_refl _
  · exact ⟨_, h.symm⟩

end Cursor

namespace Lexer

/-! ## Lexers in a text -/

variable {s cs : List Char} {lx : Lexer} {t : Token} {n : Nat} {parts : List Section}
    {tokens : List Token}

/-- The lexer stands at a place of the text, or at the same place of a section. -/
def StandsIn (s : List Char) (lx : Lexer) : Prop :=
  ∃ outer : Cursor, outer.Tracks s ∧ outer.pos = lx.base + lx.cursor.pos ∧ lx.cursor.Mirrors outer

theorem standsIn_ofText (d : Dialect) (text : String) :
    (ofText d text).StandsIn (Cursor.contents text) :=
  ⟨.ofText text, Cursor.tracks_ofText text, (Nat.zero_add _).symm, .refl _⟩

/-- What stands ahead of a lexer stands in the text. -/
theorem Stands.standsIn (hlx : lx.StandsIn s) (h : lx.Stands n t) : t.StandsIn s := by
  obtain ⟨outer, htracks, hpos, hmirrors⟩ := hlx
  have hmin : min n lx.cursor.rest.length ≤ lx.cursor.rest.length := Nat.min_le_right _ _
  have hposition := h.position
  have hoffset := h.offset
  have hahead := h.ahead
  rw [← Cursor.rest_advance] at hahead
  rw [← Cursor.advance_min] at hposition hoffset hahead
  generalize min n lx.cursor.rest.length = m at hmin hposition hoffset hahead
  have hmirrors' := hmirrors.advance hmin
  have htracks' := htracks.advance m
  have hoffset' : t.offset = (outer.advance m).pos := by
    rw [hoffset, Cursor.pos_advance hmin,
      Cursor.pos_advance (Nat.le_trans hmin hmirrors.prefix.length_le), hpos, Nat.add_assoc]
  refine ⟨?_, ?_, ?_⟩
  · rw [hoffset']
    exact htracks'.pos_le
  · rw [hoffset', ← htracks'.rest_eq]
    exact hahead.trans hmirrors'.prefix
  · rw [hposition, ← hmirrors'.position, htracks'.position_eq, hoffset']

/-- A section that does not begin with a byte order mark is cut by a lexer that stands in the text,
too. -/
theorem StandsIn.sectionAt (hlx : lx.StandsIn s) {body : String} {more : List Char}
    (hrest : lx.cursor.rest.drop n = body.toList ++ '\x7d' :: more)
    (hmark : body.toList.head? ≠ some '\uFEFF') :
    (lx.sectionAt n body).StandsIn s := by
  obtain ⟨outer, htracks, hpos, hmirrors⟩ := hlx
  have hn : n ≤ lx.cursor.rest.length := by
    have hne : lx.cursor.rest.drop n ≠ [] := by simp [hrest]
    exact Nat.le_of_lt (Nat.lt_of_not_le fun h ↦ hne (List.drop_eq_nil_of_le h))
  have hmirrors' := hmirrors.advance hn
  obtain ⟨rest, hsplit⟩ := hmirrors'.prefix
  refine ⟨outer.advance n, htracks.advance n, ?_, .inr ⟨more ++ rest, ?_⟩, hmirrors'.position⟩
  · change _ = lx.base + (lx.cursor.advance n).pos + 0
    rw [Cursor.pos_advance hn, Cursor.pos_advance (Nat.le_trans hn hmirrors.prefix.length_le), hpos,
      Nat.add_zero, Nat.add_assoc]
  · change (outer.advance n).rest = Cursor.contents body ++ _
    rw [← hsplit, Cursor.rest_advance, hrest, Cursor.contents_eq_toList hmark, List.append_assoc]
    rfl

/-- The place of a token does not depend on what it is. -/
theorem Decomposes.exists_stands (h : Decomposes lx t) : ∃ n, lx.Stands n t := by
  cases h with
  | interpolated hstands => exact ⟨_, hstands⟩
  | str hstands => exact ⟨_, hstands⟩
  | other hstands => exact ⟨_, hstands⟩

/-- The spelling of the token has no byte order mark where a section could begin. -/
def IsUnmarked (marker : Char) (t : Token) : Prop := ¬ [marker, '\x7b', '\uFEFF'] <:+: t.text.toList

instance (marker : Char) (t : Token) : Decidable (IsUnmarked marker t) :=
  inferInstanceAs (Decidable (¬ _))

/-- The tokens in the sections of a token stand in the text, too. The induction is on the levels
that are left, of which a section has one less. -/
theorem Decomposes.standsIn_inside (hlx : lx.StandsIn s) (h : Decomposes lx t)
    (hmark : IsUnmarked lx.dialect.marker t) : ∀ u ∈ t.lexeme.insideTokens, u.StandsIn s := by
  induction hlevels : lx.levels using Nat.strong_induction_on generalizing lx t with
  | _ levels ih =>
    cases h with
    | str _ _ _ hlexeme => simp [hlexeme, Lexeme.insideTokens]
    | other _ _ hkind => simp [Lexeme.insideTokens_of_kind hkind]
    | @interpolated _ _ n _ _ hstands hlexeme htext hchunks =>
      intro u hu
      rw [hlexeme] at hu
      obtain ⟨tokens, hmem, hu⟩ := mem_sectionsTokens_iff.mp hu
      obtain ⟨before, body, after, hpositive, rfl, hinside⟩ := hchunks.exists_section hmem
      -- the text of the section is a part of the spelling
      have hspelled : t.text.toList =
          '"' :: before ++ [lx.dialect.marker, '\x7b'] ++ (body.toList ++ '\x7d' :: after) := by
        simp [htext]
      have hopening : n + 1 + before.length + 2 =
          n + ('"' :: before ++ [lx.dialect.marker, '\x7b']).length := by simp; omega
      obtain ⟨more, hmore⟩ := hstands.ahead
      have hrest : lx.cursor.rest.drop (n + 1 + before.length + 2) =
          body.toList ++ '\x7d' :: (after ++ more) := by
        rw [hopening, ← List.drop_drop, ← hmore, hspelled, List.append_assoc, List.drop_left,
          List.append_assoc, List.cons_append]
      have hbody : body.toList.head? ≠ some '\uFEFF' := by
        intro hhead
        obtain ⟨rest, hbody⟩ := List.head?_eq_some_iff.mp hhead
        refine hmark ⟨'"' :: before, rest ++ '\x7d' :: after, ?_⟩
        simp [hspelled, hbody]
      have hsection := hlx.sectionAt hrest hbody
      obtain ⟨w, hw, hu⟩ := mem_allTokens_iff.mp hu
      have hdecomposes := hinside w hw
      obtain ⟨m, hstands⟩ := hdecomposes.exists_stands
      rcases hu with rfl | hu
      · exact hstands.standsIn hsection
      · refine ih (lx.levels - 1) (by omega) hsection hdecomposes (fun hinfix ↦ hmark ?_) rfl u hu
        have hw : w.text.toList <:+: body.toList := by
          rw [← Cursor.contents_eq_toList hbody]
          exact hstands.ahead.isInfix.trans (List.drop_suffix _ _).isInfix
        exact hinfix.trans (hw.trans ⟨_, _, (List.append_assoc ..).trans hspelled.symm⟩)

/-- **Tokens stand where they say.** Without rules and extensions, every token of a text stands in
it, and so do the tokens in its sections, at any depth, unless a section begins with a byte order
mark. -/
theorem tokenize_standsIn {d : Dialect} (hbare : d.IsBare) {text : String}
    (h : (ofText d text).tokenize = .ok tokens) :
    ∀ t ∈ tokens, t.StandsIn (Cursor.contents text) ∧
      (IsUnmarked d.marker t → ∀ u ∈ t.lexeme.insideTokens, u.StandsIn (Cursor.contents text)) := by
  intro t ht
  have hlx := standsIn_ofText d text
  have hcuts := (tokenize_eq_ok_iff ⟨hbare, rfl, rfl⟩).mp h
  have hdecomposes := hcuts.decomposes (cutsSections_sectionTokens hbare rfl) t ht
  obtain ⟨n, hstands⟩ := hdecomposes.exists_stands
  exact ⟨hstands.standsIn hlx, hdecomposes.standsIn_inside hlx⟩

/-- Behind a byte order mark, a string over two lines with a section in a section. -/
def sampleLines : String := "\uFEFFx = \"a\r\n#\x7b f(\n\"#\x7bb\x7d\")\x7d\""

theorem tokenize_standsIn_sampleLines :
    (Dialect.plain '#').IsBare ∧ ∃ tokens, (ofText (.plain '#') sampleLines).tokenize = .ok tokens ∧
      (allTokens tokens).map Token.text =
        ["x", "=", "\"a\r\n#\x7b f(\n\"#\x7bb\x7d\")\x7d\"", "f", "(", "\n", "\"#\x7bb\x7d\"", "b",
          "", ")", "", ""] ∧
      ∀ t ∈ tokens, t.StandsIn (Cursor.contents sampleLines) ∧ IsUnmarked '#' t ∧
        ∀ u ∈ t.lexeme.insideTokens, u.StandsIn (Cursor.contents sampleLines) := by
  have hbare : (Dialect.plain '#').IsBare := ⟨rfl, rfl⟩
  obtain ⟨tokens, hrun, hall⟩ : ∃ tokens, (ofText (.plain '#') sampleLines).tokenize = .ok tokens ∧
      ((allTokens tokens).map Token.text, decide (∀ t ∈ tokens, IsUnmarked '#' t)) =
        (["x", "=", "\"a\r\n#\x7b f(\n\"#\x7bb\x7d\")\x7d\"", "f", "(", "\n", "\"#\x7bb\x7d\"", "b",
          "", ")", "", ""], true) :=
    exists_eq_ok_of_map_eq_some (by decide +kernel)
  obtain ⟨htexts, hmarks⟩ := Prod.mk.inj hall
  refine ⟨hbare, tokens, hrun, htexts, fun t ht ↦ ?_⟩
  obtain ⟨hstands, hinside⟩ := tokenize_standsIn hbare hrun t ht
  have hmark := of_decide_eq_true hmarks t ht
  exact ⟨hstands, hmark, hinside hmark⟩

/-- A section that begins with a byte order mark. -/
def sampleMark : String := "\"#\x7b\uFEFFa\x7d\""

/-- The token in the section is said to stand where the mark does. -/
theorem not_tokenize_standsIn :
    ¬ ∀ text tokens, (ofText (.plain '#') text).tokenize = .ok tokens →
      ∀ t ∈ allTokens tokens, t.StandsIn (Cursor.contents text) := by
  intro hall
  obtain ⟨tokens, hrun, hahead⟩ : ∃ tokens, (ofText (.plain '#') sampleMark).tokenize = .ok tokens ∧
      decide (∀ t ∈ allTokens tokens, t.text.toList <+: (Cursor.contents sampleMark).drop
        t.offset) = false :=
    exists_eq_ok_of_map_eq_some (by decide +kernel)
  exact of_decide_eq_false hahead fun t ht ↦ (hall sampleMark tokens hrun t ht).ahead

end Lexer

end ScriptFront
