import ScriptFront.Proofs.Streaming

/-!
# Every operand of a text is in its tree

The tree of a script has its operands in the order of the text, none is left out and none is there
twice. The productions account for every token they pass, and a parse that succeeds has passed all
tokens of the text. So the leaves of the text become the leaves of the tree, one by one.

Rules and extensions may replace operands, so there are none of them here.
-/

namespace ScriptFront.Frontend

/-- Nothing is set up that changes tokens or makes them up. -/
structure IsBare (f : Frontend) : Prop where
  /-- No extensions of the grammar. -/
  entries : f.registry.entries = []
  /-- No extensions of the lexer. -/
  lexical : f.registry.lexical = []
  /-- No changes to the token stream. -/
  rules : f.rules = .empty

variable {f : Frontend} {text : String}

theorem IsBare.isUnextended (hf : f.IsBare) : f.IsUnextended :=
  ⟨hf.entries, hf.lexical, hf.rules ▸ SpellingRules.isEndless_empty⟩

theorem IsBare.isBare_dialect (hf : f.IsBare) : f.dialect.IsBare := ⟨hf.rules, hf.lexical⟩

/-- A text that is parsed is not too long, can be cut into tokens, and has the program of these. -/
theorem exists_parseProgram_eq (hf : f.IsUnextended) {p : Program} (h : f.parse text = .ok p) :
    ∃ tokens, text.length ≤ f.settings.limits.maxScriptLength ∧ f.tokenize text = .ok tokens ∧
      ∀ k, Parse.parseProgram f.context (.ofTokens tokens k) f.host = .ok p := by
  have hlength : text.length ≤ f.settings.limits.maxScriptLength := by
    by_contra hlong
    have hinner := named_eq_ok_iff.mp h
    rw [if_pos (Nat.lt_of_not_le hlong)] at hinner
    cases hinner
  cases htokens : f.tokenize text with
  | error e =>
    obtain ⟨e', herror⟩ := exists_parse_eq_error hf htokens
    rw [herror] at h
    cases h
  | ok tokens =>
    refine ⟨tokens, hlength, rfl, fun k ↦ ?_⟩
    rw [parse_eq_parseProgram hf hlength htokens k] at h
    exact named_eq_ok_iff.mp h

/-- **No operand is lost, doubled or moved.** The names and literals of a text that is parsed, those
of embedded sections in the place of their string, become the leaves of the tree, one by one and in
the same order. -/
theorem exists_tokens_accounts (hf : f.IsBare) {p : Program} (h : f.parse text = .ok p) :
    ∃ tokens, f.tokenize text = .ok tokens ∧ Accounts tokens (leavesList p.statements) := by
  obtain ⟨tokens, -, htokens, hparse⟩ := exists_parseProgram_eq hf.isUnextended h
  obtain ⟨hclosed, hgenuine⟩ :=
    Lexer.tokenize_genuine hf.isBare_dialect (named_eq_ok_iff.mp htokens)
  have hgenuine' : TokensGenuine tokens := tokensGenuine_iff.mpr hgenuine
  have hsound : Window.Sound True (.ofTokens tokens 0) :=
    Window.sound_ofTokens tokens 0 fun _ ↦ hgenuine'
  obtain ⟨w, read, hleads, hended, haccounts⟩ :=
    (Parse.parseProgram_ensures (Parse.accounted_of_entries hf.entries) hsound).2 p (hparse 0)
  exact ⟨tokens, htokens,
    Parse.accounts_ofTokens trivial hclosed hgenuine' hleads hended (haccounts trivial)⟩

theorem isBare_standard : standard.IsBare := ⟨rfl, rfl, rfl⟩

/-- An assignment of a map, with a negative number and an embedded section. -/
def sampleMap : String := "m = \x7ba: -1, \"b\": f.g(\"<#\x7bx + 2\x7d>\")\x7d"

theorem exists_tokens_accounts_sampleMap :
    ∃ p, standard.parse sampleMap = .ok p ∧
      ∃ tokens, standard.tokenize sampleMap = .ok tokens ∧
        Accounts tokens (leavesList p.statements) := by
  obtain ⟨p, h⟩ : ∃ p, standard.parse sampleMap = .ok p :=
    exists_eq_ok_of_isSome (by decide +kernel)
  exact ⟨p, h, exists_tokens_accounts isBare_standard h⟩

end ScriptFront.Frontend
