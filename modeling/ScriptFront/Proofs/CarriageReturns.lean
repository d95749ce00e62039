import ScriptFront.Proofs.Composition
import ScriptFront.Proofs.Lexer.LineEndings
import ScriptFront.Proofs.Parse.Kindred
import ScriptFront.Proofs.Window.Parallel

/-!
# The way line ends are written makes no difference

A script without carriage returns is parsed to the same program if a carriage return is put in front
of every line feed, positions included. Only string literals that span lines must be left out, since
a line break in them belongs to what they stand for. The parser compares the spellings of tokens in
many places, but never with those of line breaks or comments.
-/

namespace ScriptFront

open Lexer (IsClean SamePlace)

/-- Failures of the first run are not compared, and the second one may fail in ways that are
excused. -/
def successful : Leeway where
  common _ := True
  first _ := True
  second := ScriptError.IsExcused

/-- What two runs on tokens at the same positions have in common, once all tokens are there. -/
def samePlaces : Likeness where
  lee := successful
  windows := Window.Parallel SamePlace (fun _ _ ↦ False) Eq
  tokens := SamePlace
  places _ := True

theorem isTokenwise_samePlace : Window.IsTokenwise SamePlace where
  kind h := h.lexeme.kind_eq
  shown := .mk trivial (.same (by simp [Lexeme.kind]))
  endAfter {t u} h := by
    rw [Window.endAfter, Window.endAfter, h.position_eq]
    exact .mk trivial (.same (by simp [Lexeme.kind]))

/-- There is no lexer to be asked. -/
theorem isParallel_samePlace : Window.IsParallel successful SamePlace fun _ _ ↦ False where
  toIsTokenwise := isTokenwise_samePlace
  batch _ _ _ h := h.elim
  tokensLeft h := h.elim

theorem isKept_samePlaces : samePlaces.IsKept where
  current hvw := hvw.current isTokenwise_samePlace
  advances := Window.parallel_advance isParallel_samePlace
  skips := Window.parallel_skipNewLines isParallel_samePlace
  peeks := Window.parallel_peek isParallel_samePlace
  nested hvw hlist := hvw.nested isTokenwise_samePlace hlist
  lexeme h := h.lexeme
  position h := h.position_eq
  placed _ := trivial
  exact := .inr ⟨fun _ ↦ trivial, fun _ _ hcause ↦ .inr (by rw [hcause]; trivial)⟩
  common _ _ := trivial
  fuel _ hcause := ⟨trivial, .inl fun hfuel ↦ hfuel hcause⟩

namespace Frontend

variable {f : Frontend} {text : String} {p : Program}

/-- **Line ends.** Without extensions and rules, let a text without carriage returns be parsed, and
let none of its string literals span lines. Then the text with a carriage return in front of every
line feed, if it is not too long, is parsed to the same program: the same tree, with every position,
and the same symbols. -/
theorem parse_withCrlf_eq (hf : f.IsBare) (hreturn : '\r' ∉ text.toList)
    (hstrings : ∀ tokens, f.tokenize text = .ok tokens →
      ∀ t ∈ tokens, t.kind = .str ∨ t.kind = .interpolated → '\n' ∉ t.text.toList)
    (hlength : (Text.withCrlf text).length ≤ f.settings.limits.maxScriptLength)
    (h : f.parse text = .ok p) : f.parse (Text.withCrlf text) = .ok p := by
  obtain ⟨tokens, -, htokens, hparse⟩ := exists_parseProgram_eq hf.isUnextended h
  obtain ⟨tokens', htokens', hsame⟩ := Lexer.exists_tokenize_withCrlf hf.isBare_dialect hreturn
    (named_eq_ok_iff.mp htokens) (hstrings tokens htokens)
  have hwindows : samePlaces.windows (.ofTokens tokens 0) (.ofTokens tokens' 0) :=
    Window.parallel_ofTokens isTokenwise_samePlace hsame rfl
  have hkindred : samePlaces.Kindred f.context f.context :=
    isKept_samePlaces.kindred hf.entries hf.entries (.refl _)
  have hconform := hkindred.parseProgram_conform hwindows f.host
  have hreturned := parse_eq_parseProgram hf.isUnextended hlength (named_eq_ok_iff.mpr htokens') 0
  rw [hparse 0] at hconform
  generalize hrun :
      Parse.parseProgram f.context (.ofTokens tokens' 0) f.host = r at hconform hreturned
  cases hconform with
  | ok hq =>
    rw [hreturned, ← hq]
    rfl
  | @second e _ hsecond =>
    exact absurd (show (e.inFile f.settings.file).IsExcused from hsecond)
      (hf.not_isExcused hreturned)

/-- A comment that spans lines, a line comment, an empty line, and a function with a string in
it. -/
def sampleLines : String :=
  "/* one\ntwo */ a = [1,\n  2] // three\n\nfunction f(b) \x7b\n  return \"<#\x7bb\x7d>\"\n\x7d\n"

theorem parse_withCrlf_eq_sampleLines :
    ∃ p, standard.parse sampleLines = .ok p ∧
    standard.parse (Text.withCrlf sampleLines) = .ok p := by
  obtain ⟨p, h⟩ : ∃ p, standard.parse sampleLines = .ok p :=
    exists_eq_ok_of_isSome (by decide +kernel)
  have hall : (standard.tokenize sampleLines).toOption.map (fun tokens ↦ tokens.all fun t ↦
      decide (t.kind = .str ∨ t.kind = .interpolated → '\n' ∉ t.text.toList)) = some true := by
    decide +kernel
  have hstrings (tokens : List Token) (htokens : standard.tokenize sampleLines = .ok tokens)
    (t : Token)
      (ht : t ∈ tokens) : t.kind = .str ∨ t.kind = .interpolated → '\n' ∉ t.text.toList := by
    rw [htokens] at hall
    exact of_decide_eq_true (List.all_eq_true.mp (Option.some.inj hall) t ht)
  exact ⟨p, h, parse_withCrlf_eq isBare_standard (by decide) hstrings (by decide +kernel) h⟩

end Frontend

end ScriptFront
