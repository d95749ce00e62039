import ScriptFront.Frontend
import ScriptFront.Proofs.Lexer.Chunks

/-!
# String constants

A string constant is written between quotes, with a backslash in front of what could not stand
there. The marker of sections is not among these characters, so a text in which it stands in front
of a brace is written as a literal that means something else. All other texts are written as
literals of themselves.

For the one direction, a text without such a place is read back. For the other one, suppose that the
written text begins with characters that say the whole of it, as those of a literal without sections
do. They are compared with the text, character by character: had it the marker in front of a brace,
so would they.
-/

namespace ScriptFront

/-- If no section begins with the first character of a text, nor later, there is none in it. -/
theorem no_section_of_cons {c : Char} {cs : List Char}
    (hfirst : ¬ (c = '#' ∧ cs.head? = some '\x7b'))
    (hcs : ¬ ['#', '\x7b'] <:+: cs) : ¬ ['#', '\x7b'] <:+: c :: cs := by
  rw [List.infix_cons_iff, List.cons_prefix_cons, not_or]
  refine ⟨fun ⟨hmarker, hbrace⟩ ↦ hfirst ⟨hmarker.symm, ?_⟩, hcs⟩
  obtain ⟨rest, rfl⟩ := hbrace
  rfl

/-- What the written text begins with, if the text begins with a brace. -/
theorem head?_flatMap_escapeChar {cs rest : List Char} (h : cs.head? = some '\x7b') :
    (cs.flatMap Text.escapeChar ++ rest).head? = some '\x7b' := by
  obtain ⟨tail, rfl⟩ := List.head?_eq_some_iff.mp h
  rfl

/-- If the written text begins with characters that say the whole of it, no section begins in it. -/
theorem Says.no_section {cs text more : List Char} (h : Says '#' ['"'] cs text)
    (hwritten : text.flatMap Text.escapeChar ++ ['"'] = cs ++ '"' :: more) :
    ¬ ['#', '\x7b'] <:+: text := by
  induction h with
  | nil => simp
  | @escape d cs text _ ih =>
    rw [List.flatMap_cons, List.append_assoc, List.cons_append, List.cons_append] at hwritten
    rcases Lexer.escapeChar_cases (Text.unescape d) with ⟨d', hd, -⟩ | ⟨hd, hslash, -⟩
    · rw [hd] at hwritten
      -- the marker is not written behind a backslash
      have hmarker : Text.unescape d ≠ '#' := by
        intro hmarker
        rw [hmarker] at hd
        cases hd
      exact no_section_of_cons (fun hopens ↦ hmarker hopens.1)
        (ih (List.cons.inj (List.cons.inj hwritten).2).2)
    · rw [hd] at hwritten
      exact absurd (List.cons.inj hwritten).1 hslash
  | @char c cs text hslash hquote hsection _ ih =>
    rw [List.flatMap_cons, List.append_assoc, List.cons_append] at hwritten
    rcases Lexer.escapeChar_cases c with ⟨d, hd, -⟩ | ⟨hc, -, -⟩
    · rw [hd] at hwritten
      exact absurd (List.cons.inj hwritten).1.symm hslash
    · rw [hc] at hwritten
      have hrest : text.flatMap Text.escapeChar ++ ['"'] = cs ++ '"' :: more :=
        (List.cons.inj hwritten).2
      refine no_section_of_cons (fun ⟨hmarker, hbrace⟩ ↦ hsection ⟨hmarker, ?_⟩) (ih hrest)
      have hhead : (text.flatMap Text.escapeChar ++ ['"']).head? = some '\x7b' :=
        head?_flatMap_escapeChar hbrace
      rw [hrest, List.head?_append] at hhead
      rwa [List.head?_append]

namespace Lexer

variable {inner : Lexer → Except ScriptError (List Token)} {lx lx₁ : Lexer} {t : Token}

/-- In front of a quote, the first token that is cut begins there. -/
theorem Cuts.decomposes_quote {rest : List Char} (h : Cuts inner lx [t] lx₁)
    (hinner : CutsSections inner lx)
    (hrest : lx.cursor.rest = '"' :: rest) :
    Decomposes lx t ∧ t.text.toList <+: '"' :: rest ∧ t.text.toList.head? = some '"' := by
  cases h with
  | blank hread hblank _ =>
    have hend := isEnd_of_kind hblank (by decide)
    have hhead := (reads_of_readTokenWith hread hend).head?_eq hrest
    cases readTokenWith_decomposes hinner (.refl lx) hread with
    | interpolated _ hlexeme => simp [Token.kind, hlexeme, Lexeme.kind] at hblank
    | str _ _ _ hlexeme => simp [Token.kind, hlexeme, Lexeme.kind] at hblank
    | other _ htext => exact absurd hhead htext
  | token hread _ hend _ =>
    have hreads := reads_of_readTokenWith hread hend
    exact ⟨(readTokenWith_decomposes hinner (.refl lx) hread).withIndex _,
      hrest ▸ hreads.passed.ahead, hreads.head?_eq hrest⟩

/-- Characters that consist of some lexemes are cut into them. -/
theorem Lexes.exists_tokenize {ls : List Lexeme} (h : Lexes lx.cursor.rest ls) (hfresh : lx.IsFresh)
    (hsuits : ∀ l ∈ ls, lx.Suits l) :
    ∃ tokens, lx.tokenize = .ok tokens ∧ tokens.map Token.lexeme = ls ++ [.endOfInput] := by
  obtain ⟨tokens, hdelivers, hlexemes, -⟩ := h.exists_delivers hfresh hsuits rfl
  obtain ⟨lx', hbatch, -⟩ := hdelivers.batchWith_eq lx.tokensLeft []
  refine ⟨tokens, ?_, hlexemes⟩
  rw [tokenize, batch, hbatch, List.take_of_length_le hdelivers.length_le]
  rfl

/-- **String constants are written as literals of themselves** exactly if no section begins in
them. -/
theorem tokenize_text_str_iff (s : String) :
    (∃ t last, ScriptFront.tokenize (Value.str s).text = .ok [t, last] ∧ t.lexeme.string? = some s ∧
      last.isEnd = true) ↔ ¬ ['#', '\x7b'] <:+: s.toList := by
  have hlist := toList_quote s
  have hbare : (Dialect.plain Dialect.defaultMarker).IsBare := ⟨rfl, rfl⟩
  have hrest :
      (ofText (.plain Dialect.defaultMarker) (Text.quote s)).cursor.rest = (Text.quote s).toList :=
    Cursor.contents_eq_toList (by simp [hlist])
  constructor
  · rintro ⟨t, last, hrun, hvalue, -⟩
    obtain ⟨body, lx₁, hcuts, -, htokens⟩ := (tokenize_eq_ok_iff ⟨hbare, rfl, rfl⟩).mp hrun
    obtain ⟨rfl, -⟩ : [t] = body ∧ [last] = [lx₁.endToken] := List.append_inj' htokens rfl
    obtain ⟨hdecomposes, ⟨more, hmore⟩, hhead⟩ :=
      hcuts.decomposes_quote (cutsSections_sectionTokens hbare rfl) (hrest.trans hlist)
    cases hdecomposes with
    | interpolated _ hlexeme => simp [hlexeme, Lexeme.string?] at hvalue
    | str _ hspelled hsaid hlexeme =>
      obtain rfl : _ = s := by simpa [hlexeme, Lexeme.string?] using hvalue
      rw [String.toList_ofList] at hmore ⊢
      rw [hspelled, List.cons_append, List.append_assoc] at hmore
      exact hsaid.no_section (List.cons.inj hmore).2.symm
    | other _ hother => exact absurd hhead hother
  · intro hsection
    have hlexes : Lexes (Text.quote s).toList [.str (Text.quote s) s] := by
      simpa using Lexes.quoted hsection .nil
    rw [← hrest] at hlexes
    obtain ⟨tokens, hrun, hlexemes⟩ :=
      hlexes.exists_tokenize ⟨rfl, rfl, rfl, rfl⟩ (fun _ _ ↦ .inl rfl)
    obtain ⟨t, more, rfl, ht, hmore⟩ := List.map_eq_cons_iff.mp hlexemes
    obtain ⟨last, none, rfl, hlast, hnone⟩ := List.map_eq_cons_iff.mp hmore
    obtain rfl := List.map_eq_nil_iff.mp hnone
    exact ⟨t, last, hrun, by rw [ht, Lexeme.string?], by rw [Token.isEnd, Token.kind, hlast]; rfl⟩

end Lexer

end ScriptFront
