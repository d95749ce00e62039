import Mathlib.Data.List.Infix
import Mathlib.Data.List.TakeWhile
import ScriptFront.Proofs.Lexer.Chunks
import ScriptFront.Proofs.Parse.Steps

/-!
# Texts of sections

The text of a section ends in front of a brace, and the search for this brace does not know the
tokens of the text: it counts braces and passes over quoted text. `Lexer.IsBody` says of some
characters that the search ends right behind them. It does so behind each token of a text but the
braces, except that a comment may hold a quote or a brace, and that the strings in the sections of a
string end what the search takes for one quotation. If these are harmless and the braces are
balanced, the search ends behind the whole text.

The induction is on the tokens, and the depth of the search is one more than the braces open before
them.
-/

namespace ScriptFront

namespace Lexer

variable {inner : Lexer → Except ScriptError (List Token)} {lx lx' lx₁ lx₂ : Lexer} {t : Token}
  {tokens : List Token} {cs more : List Char} {quote : Option Char} {depth count : Nat}

/-- The characters can be the text of a section: in front of a brace, the section ends behind
them. -/
def IsBody (cs : List Char) : Prop := sectionLength? none 1 0 (cs ++ ['\x7d']) = some cs.length

instance (cs : List Char) : Decidable (IsBody cs) := inferInstanceAs (Decidable (_ = _))

/-- A search that ends at a brace behind some characters passes over them, whatever follows, and
however many more braces are open. -/
theorem sectionLength?_passes (hdepth : 1 ≤ depth)
    (h : sectionLength? quote depth count (cs ++ ['\x7d']) = some (count + cs.length))
    (deeper count' : Nat)
    (more : List Char) :
    sectionLength? quote (depth + deeper) count' (cs ++ more) =
      sectionLength? none (1 + deeper) (count' + cs.length) more := by
  have hstep (c : Char) (cs : List Char) (count : Nat) :
      count + (c :: cs).length = count + 1 + cs.length := by
    rw [List.length_cons]
    omega
  generalize hall : cs ++ ['\x7d'] = all at h
  fun_induction sectionLength? quote depth count all generalizing cs count' with
  | case1 => cases h
  | case2 => cases h
  | case3 depth count q d rest ih =>
    -- the brace is not protected by a backslash
    obtain _ | ⟨_, _ | ⟨e, cs⟩⟩ := cs
    · cases hall
    · obtain ⟨-, hrest⟩ := List.cons.inj hall
      obtain ⟨-, rfl⟩ := List.cons.inj hrest
      rw [sectionLength?] at h
      cases h
    · obtain ⟨rfl, hrest⟩ := List.cons.inj hall
      obtain ⟨rfl, rfl⟩ := List.cons.inj hrest
      rw [hstep, hstep] at h ⊢
      simpa [sectionLength?] using ih hdepth (count' + 2) rfl h
  | case4 depth count c rest q hmark ih =>
    obtain _ | ⟨c, cs⟩ := cs
    · obtain ⟨-, rfl⟩ := List.cons.inj hall
      rw [sectionLength?] at h
      cases h
    · obtain ⟨rfl, rfl⟩ := List.cons.inj hall
      rw [hstep] at h ⊢
      rw [List.cons_append, sectionLength?.eq_def]
      simpa [hmark] using ih hdepth (count' + 1) rfl h
  | case5 depth count rest ih =>
    obtain _ | ⟨c, cs⟩ := cs
    · cases hall
    · obtain ⟨rfl, rfl⟩ := List.cons.inj hall
      rw [hstep] at h ⊢
      simpa [sectionLength?, Nat.add_right_comm] using ih (Nat.le_add_left 1 depth)
        (count' + 1) rfl h
  | case6 depth count rest hle =>
    obtain rfl : cs = [] := by simpa using h
    obtain rfl : depth = 1 := Nat.le_antisymm hle hdepth
    rfl
  | case7 depth count rest hle _ ih =>
    obtain _ | ⟨c, cs⟩ := cs
    · obtain ⟨-, rfl⟩ := List.cons.inj hall
      rw [sectionLength?] at h
      cases h
    · obtain ⟨rfl, rfl⟩ := List.cons.inj hall
      have hdeeper : ¬ depth + deeper ≤ 1 := by omega
      have hpred : depth - 1 + deeper = depth + deeper - 1 := by omega
      rw [hstep] at h ⊢
      simpa [sectionLength?, hdeeper, hpred] using ih (by omega) (count' + 1) rfl h
  | case8 depth count c rest hopen hclose ih =>
    obtain _ | ⟨_, cs⟩ := cs
    · exact absurd (List.cons.inj hall).1.symm hclose
    · obtain ⟨rfl, rfl⟩ := List.cons.inj hall
      rw [hstep] at h ⊢
      rw [List.cons_append, sectionLength?.eq_def]
      simpa [hopen, hclose] using ih hdepth (count' + 1) rfl h

/-- Behind the text of a section the search goes on outside of quotes, as deep as before. -/
theorem IsBody.sectionLength?_append (h : IsBody cs) (hdepth : 1 ≤ depth) (count : Nat)
    (more : List Char) :
    sectionLength? none depth count (cs ++ more) = sectionLength? none depth
      (count + cs.length) more := by
  obtain ⟨deeper, rfl⟩ := Nat.exists_eq_add_of_le hdepth
  have hbody : sectionLength? none 1 0 (cs ++ ['\x7d']) = some (0 + cs.length) := by
    rwa [Nat.zero_add]
  exact sectionLength?_passes (Nat.le_refl 1) hbody deeper count more

theorem IsBody.append {cs' : List Char} (h : IsBody cs) (h' : IsBody cs') : IsBody (cs ++ cs') := by
  rw [IsBody, List.append_assoc, h.sectionLength?_append (Nat.le_refl 1),
    h'.sectionLength?_append (Nat.le_refl 1), Nat.zero_add, List.length_append]
  rfl

/-! ## What is passed over -/

/-- The characters that the search looks at. -/
def bodyMarks : List Char := ['\x7b', '\x7d', '"', '\'']

theorem isBody_of_any_eq_false (h : cs.any bodyMarks.contains = false) : IsBody cs := by
  have hcount :
      ∀ count, sectionLength? none 1 count (cs ++ ['\x7d']) = some (count + cs.length) := by
    induction cs with
    | nil => exact fun count ↦ rfl
    | cons c cs ih =>
      intro count
      obtain ⟨hc, hcs⟩ := Bool.or_eq_false_iff.mp h
      simp only [bodyMarks, List.contains_cons, List.contains_nil, Bool.or_false,
        Bool.or_eq_false_iff, beq_eq_false_iff_ne] at hc
      rw [List.cons_append, sectionLength?, if_neg hc.1, if_neg hc.2.1,
        if_neg (by simp [hc]), ih hcs, List.length_cons]
      congr 1
      omega
  rw [IsBody, hcount, Nat.zero_add]

/-- A run of characters that the search does not look at. -/
theorem isBody_takeWhile {p : Char → Bool} (h : bodyMarks.any p = false) :
    IsBody (cs.takeWhile p) := by
  refine isBody_of_any_eq_false (List.any_eq_false.mpr fun c hc hmark ↦ ?_)
  exact List.any_eq_false.mp h c (List.contains_iff_mem.mp hmark) (List.mem_takeWhile_imp hc)

/-- What is said inside of double quotes does not end the quotation. -/
theorem isBody_quoted {marker : Char} {value : List Char} (h : Says marker ['"'] cs value) :
    IsBody ('"' :: (cs ++ ['"'])) := by
  have hinside : ∀ count, sectionLength? (some '"') 1 count (cs ++ ['"', '\x7d']) =
      some (count + cs.length + 1) := by
    induction h with
    | nil => exact fun count ↦ rfl
    | escape _ ih =>
      intro count
      rw [List.cons_append, List.cons_append, sectionLength?, if_pos rfl, ih]
      simp only [List.length_cons]
      congr 1
      omega
    | char hslash hquote _ _ ih =>
      intro count
      rw [List.cons_append, sectionLength?.eq_def]
      simp only [if_neg hslash, if_neg hquote, ih, List.length_cons]
      congr 1
      omega
  rw [IsBody, List.cons_append, List.append_assoc, List.singleton_append, sectionLength?]
  simp only [Char.reduceEq, if_false, true_or, if_true, hinside, List.length_cons,
    List.length_append, List.length_nil]
  congr 1
  omega

/-- Quoted text that is complete ends where the search takes it to end. -/
theorem quotedExtent_passes {q : Char} {e : Cursor.Extent} (he : e.complete = false)
    (h : (Cursor.quotedExtent q '\\' cs e).complete = true) :
    ∃ read more, cs = read ++ more ∧ (Cursor.quotedExtent q '\\' cs e).taken =
    e.taken + read.length ∧
      ∀ depth count more', sectionLength? (some q) depth count (read ++ more') =
        sectionLength? none depth (count + read.length) more' := by
  generalize hmark : '\\' = mark at h ⊢
  fun_induction Cursor.quotedExtent q mark cs e with
  | case1 e => simp [he] at h
  | case2 e => simp [Cursor.Extent.skip, he] at h
  | case3 e d rest ih =>
    obtain ⟨read, more, rfl, htaken, hpasses⟩ := ih rfl h
    refine ⟨_ :: d :: read, more, rfl, ?_, fun depth count more' ↦ ?_⟩
    · rw [htaken]
      simp only [Cursor.Extent.push, List.length_cons]
      omega
    · rw [← hmark, List.cons_append, List.cons_append, sectionLength?, if_pos rfl, hpasses]
      simp only [List.length_cons]
      congr 1
      omega
  | case4 rest e hslash =>
    refine ⟨[q], rest, rfl, rfl, fun depth count more' ↦ ?_⟩
    rw [List.singleton_append, sectionLength?.eq_def]
    simp only [hmark, if_neg hslash, if_true, List.length_singleton]
  | case5 c rest e hslash hquote ih =>
    obtain ⟨read, more, rfl, htaken, hpasses⟩ := ih rfl h
    refine ⟨c :: read, more, rfl, ?_, fun depth count more' ↦ ?_⟩
    · rw [htaken]
      simp only [Cursor.Extent.push, List.length_cons]
      omega
    · rw [List.cons_append, sectionLength?.eq_def]
      simp only [hmark, if_neg hslash, if_neg hquote, hpasses, List.length_cons]
      congr 1
      omega

theorem isBody_readPlainString {l : Lexeme} {rest : List Char}
    (hrest : lx.cursor.rest = '\'' :: rest)
    (h : readPlainString lx = .ok l lx') : IsBody l.text.toList := by
  have hpassed := (readPlainString_reads (by simp [hrest]) h).passed
  rw [readPlainString, get_bind_run] at h
  obtain ⟨run, lx₁, hrun, h⟩ := bind_eq_ok_iff.mp h
  cases h
  simp only [scanExcept, scan_bind_run, Cursor.scanQuoted, Cursor.opened, if_true] at hrun
  split_ifs at hrun with hcomplete
  · obtain ⟨read, more, hread, htaken, hpasses⟩ := quotedExtent_passes rfl hcomplete
    cases hrun
    have hbehind : (lx.cursor.step.advance
        (Cursor.quotedExtent '\'' '\\' lx.cursor.step.rest .empty).taken).rest = more := by
      rw [htaken, Cursor.rest_advance, hread]
      simp [Cursor.Extent.empty]
    have hstep : lx.cursor.step.rest = rest := by
      rw [Cursor.rest_step, hrest, List.drop_one, List.tail_cons]
    have hsplit := hpassed.rest_eq
    generalize (Lexeme.str _ _).text.toList = text at hsplit ⊢
    obtain rfl : text = '\'' :: read := by
      refine List.append_cancel_right (?_ : text ++ more = '\'' :: read ++ more)
      rw [List.cons_append, ← hread, hstep, ← hrest, hsplit]
      exact congrArg _ hbehind.symm
    rw [IsBody, List.cons_append, sectionLength?]
    simp [hpasses, sectionLength?, Nat.add_comm]
  · cases hrun

/-! ## Tokens -/

theorem isBody_numberRun (cs : List Char) : IsBody (Cursor.numberRun cs) := by
  have hdigit : bodyMarks.any Char.isDigit = false := by decide
  rw [Cursor.numberRun]
  split
  · next rest _ =>
    have hpoint : bodyMarks.any (fun c ↦ c.isDigit || c == '.') = false := by decide
    dsimp only
    split
    · exact isBody_takeWhile hdigit
    · refine isBody_of_any_eq_false (List.any_eq_false.mpr fun c hc hmark ↦ ?_)
      refine List.any_eq_false.mp hpoint c (List.contains_iff_mem.mp hmark) ?_
      rw [List.mem_append, List.mem_cons] at hc
      rcases hc with hc | rfl | hc
      · rw [List.mem_takeWhile_imp hc, Bool.true_or]
      · rfl
      · rw [List.mem_takeWhile_imp hc, Bool.true_or]
  · exact isBody_takeWhile hdigit

/-- The symbols that the search takes notice of. -/
def braces : List String := ["\x7b", "\x7d"]

/-- Among the tokens that are no double-quoted strings, only comments and braces need not be passed
over. -/
theorem isBody_readLexeme {c : Char} {rest : List Char} {l : Lexeme}
    (hrest : lx.cursor.rest = c :: rest)
    (hc : c ≠ '"') (h : readLexeme inner c rest lx = .ok l lx') (hcomment : l.kind ≠ .comment)
    (hbrace : ∀ text ∈ braces, l ≠ .symbol text) : IsBody l.text.toList := by
  have hrun {p : Char → Bool} (hp : bodyMarks.any p = false) :
      IsBody (String.ofList (lx.cursor.rest.takeWhile p)).toList := by
    rw [String.toList_ofList]
    exact isBody_takeWhile hp
  obtain ⟨b, hb, hread⟩ := readLexeme_eq_ok_iff.mp h
  have hfits := fits_of_beginning? hb
  cases b with
  | blanks =>
    cases hread
    exact hrun (p := Cursor.isSpacing) (by decide)
  | lineFeed | linePair | lineReturn =>
    cases hread
    exact isBody_of_any_eq_false (by decide)
  | lineComment =>
    cases hread
    exact absurd rfl hcomment
  | blockComment =>
    rw [readFrom, readBlockComment, get_bind_run, pass_bind_run, scan_bind_run, ite_run] at hread
    split_ifs at hread
    · cases hread
      exact absurd rfl hcomment
    · cases hread
  | quoted => exact absurd hfits hc
  | plain =>
    obtain rfl : c = '\'' := hfits
    exact isBody_readPlainString hrest hread
  | number =>
    cases hread
    have hnumber := isBody_numberRun lx.cursor.rest
    rwa [← String.toList_ofList (l := Cursor.numberRun lx.cursor.rest)] at hnumber
  | name =>
    cases hread
    rw [text_ofWord]
    exact hrun (p := Text.isNameChar) (by decide)
  | symbol =>
    obtain ⟨s, hs, rfl, -⟩ := hfits
    cases hread
    have hall : ∀ s ∈ Lexeme.symbols, s ∉ braces → s.toList.any bodyMarks.contains = false := by
      decide
    exact isBody_of_any_eq_false (hall s hs fun hmem ↦ hbrace s hmem rfl)

/-- A raw token is a brace or passed over, if comments and strings with sections are. -/
theorem readTokenWith_isBody {n : Nat} (hinner : CutsSections inner lx)
    (hreached : Reached lx n lx')
    (hread : readTokenWith inner lx' = .ok t lx₁) (hend : t.isEnd = false)
    (hpassed : t.kind = .comment ∨ t.kind = .interpolated → IsBody t.text.toList) :
    (∃ text ∈ braces, t.lexeme = .symbol text) ∨ IsBody t.text.toList := by
  by_cases hbrace : ∃ text ∈ braces, t.lexeme = .symbol text
  · exact .inl hbrace
  by_cases hcomment : t.kind = .comment
  · exact .inr (hpassed (.inl hcomment))
  right
  cases readTokenWith_decomposes hinner hreached hread with
  | interpolated _ hlexeme => exact hpassed (.inr (by rw [Token.kind, hlexeme, Lexeme.kind]))
  | str _ htext hsaid =>
    rw [htext]
    exact isBody_quoted hsaid
  | other _ htext hkind =>
    have hreads := reads_of_readTokenWith hread hend
    obtain ⟨c, rest, l, hrest, hl, rfl⟩ := exists_readLexeme hread hend
    exact isBody_readLexeme hrest (fun hc ↦ htext (hc ▸ hreads.head?_eq hrest)) hl hcomment
      fun text hmem heq ↦ hbrace ⟨text, hmem, heq⟩

/-! ## Balanced braces -/

/-- The braces among the tokens are balanced: in front of each place at most as many are closed as
are opened, and in the end all are closed. -/
structure BracesBalance (tokens : List Token) : Prop where
  /-- No more are closed than are opened. -/
  closed_le : ∀ front, front <+: tokens →
    front.countP (Token.isSymbol · "\x7d") ≤ front.countP (Token.isSymbol · "\x7b")
  /-- All are closed. -/
  closed_eq : tokens.countP (Token.isSymbol · "\x7d") = tokens.countP (Token.isSymbol · "\x7b")

theorem bracesBalance_iff : BracesBalance tokens ↔
    (∀ front ∈ tokens.inits,
      front.countP (Token.isSymbol · "\x7d") ≤ front.countP (Token.isSymbol · "\x7b")) ∧
      tokens.countP (Token.isSymbol · "\x7d") = tokens.countP (Token.isSymbol · "\x7b") := by
  simp only [List.mem_inits]
  exact ⟨fun h ↦ ⟨h.closed_le, h.closed_eq⟩, fun h ↦ ⟨h.1, h.2⟩⟩

instance (tokens : List Token) : Decidable (BracesBalance tokens) :=
  decidable_of_iff' _ bracesBalance_iff

/-- With so many braces open, the tokens close all but one of them, and never the last one. -/
structure ClosesAllButOne (depth : Nat) (tokens : List Token) : Prop where
  /-- In front of each place a brace is open. -/
  closed_lt : ∀ front, front <+: tokens →
    front.countP (Token.isSymbol · "\x7d") < front.countP (Token.isSymbol · "\x7b") + depth
  /-- In the end one is. -/
  closed_eq : tokens.countP (Token.isSymbol · "\x7d") + 1 =
    tokens.countP (Token.isSymbol · "\x7b") + depth

theorem ClosesAllButOne.depth_pos (h : ClosesAllButOne depth tokens) : 0 < depth := by
  simpa using h.closed_lt [] List.nil_prefix

/-- Behind a token, as many braces are open as it leaves open. -/
theorem ClosesAllButOne.tail {deeper : Nat} (h : ClosesAllButOne depth (t :: tokens))
    (hdeeper : deeper + (if t.isSymbol "\x7d" then 1 else 0) =
      depth + if t.isSymbol "\x7b" then 1 else 0) :
    ClosesAllButOne deeper tokens := by
  refine ⟨fun front hfront ↦ ?_, ?_⟩
  · have hfronts := h.closed_lt (t :: front) (List.cons_prefix_cons.mpr ⟨rfl, hfront⟩)
    rw [List.countP_cons, List.countP_cons] at hfronts
    omega
  · have hall := h.closed_eq
    rw [List.countP_cons, List.countP_cons] at hall
    omega

/-- **The search passes over tokens.** It starts outside of quotes with some braces open, and the
tokens close all but one of them. -/
theorem Cuts.sectionLength?_eq {n : Nat} (h : Cuts inner lx' tokens lx₂)
    (hinner : CutsSections inner lx)
    (hreached : Reached lx n lx') (hrest : lx₂.cursor.rest = [])
    (hpassed : ∀ t ∈ tokens, t.kind = .comment ∨ t.kind = .interpolated → IsBody t.text.toList)
    (hcloses : ClosesAllButOne depth tokens) (count : Nat) :
    sectionLength? none depth count (lx'.cursor.rest ++ ['\x7d']) = some
      (count + lx'.cursor.rest.length) := by
  induction h generalizing n depth count with
  | nil =>
    obtain rfl : depth = 1 := by simpa using hcloses.closed_eq.symm
    rw [hrest]
    rfl
  | @blank _ _ _ t _ hread ht _ ih =>
    have hend := isEnd_of_kind ht (by decide)
    have hreads := reads_of_readTokenWith hread hend
    have hbody : IsBody t.text.toList := by
      refine (readTokenWith_isBody hinner hreached hread hend (by simp [ht])).resolve_left ?_
      rintro ⟨text, -, heq⟩
      rw [Token.kind, heq] at ht
      cases ht
    rw [hreads.passed.rest_eq, List.append_assoc, List.length_append, ← Nat.add_assoc]
    exact (hbody.sectionLength?_append hcloses.depth_pos _ _).trans
      (ih (hreached.passed hreads.passed) hrest hpassed hcloses _)
  | @token lx' lx₁ lx₂ t tokens hread ht hend _ ih =>
    have hreads := reads_of_readTokenWith hread hend
    obtain ⟨hexempt, hlater⟩ := List.forall_mem_cons.mp hpassed
    have hreached₁ := hreached.passed hreads.passed
    have hcounting : Reached lx _ lx₁.counting :=
      ⟨hreached₁.dialect, hreached₁.levels, hreached₁.base, hreached₁.cursor⟩
    have htail {deeper : Nat} (hdeeper : deeper + (if t.isSymbol "\x7d" then 1 else 0) =
        depth + if t.isSymbol "\x7b" then 1 else 0) : ClosesAllButOne deeper tokens :=
      hcloses.tail hdeeper
    rw [hreads.passed.rest_eq, List.append_assoc, List.length_append, ← Nat.add_assoc]
    rcases readTokenWith_isBody hinner hreached hread hend hexempt with
      ⟨text, hmem, hlexeme⟩ | hbody
    · simp only [hlexeme, Lexeme.text]
      rcases List.mem_pair.mp hmem with rfl | rfl
      · -- one more brace is open
        have hdeeper : ClosesAllButOne (depth + 1) tokens :=
          htail (by simp [Parse.isSymbol_eq_of_lexeme hlexeme])
        exact ih hcounting hrest hlater hdeeper _
      · obtain ⟨deeper, rfl⟩ := Nat.exists_eq_add_of_le' hcloses.depth_pos
        have hdeeper : ClosesAllButOne deeper tokens :=
          htail (by simp [Parse.isSymbol_eq_of_lexeme hlexeme])
        have hpos := hdeeper.depth_pos
        refine Eq.trans ?_ (ih hcounting hrest hlater hdeeper (count + 1))
        have hclosing : "\x7d".toList ++ (lx₁.cursor.rest ++ ['\x7d']) =
            '\x7d' :: (lx₁.cursor.rest ++ ['\x7d']) := rfl
        rw [hclosing, sectionLength?, if_neg (by decide), if_pos rfl, if_neg (by omega)]
        rfl
    · have hother (text : String) (hbrace : ¬ IsBody text.toList) : t.isSymbol text = false := by
        rw [← Bool.not_eq_true, Parse.isSymbol_iff]
        intro hlexeme
        rw [Token.text, hlexeme] at hbody
        exact hbrace hbody
      have hsame : ClosesAllButOne depth tokens := htail (by
        rw [hother "\x7b" (by decide), hother "\x7d" (by decide)])
      exact (hbody.sectionLength?_append hcloses.depth_pos _ _).trans
        (ih hcounting hrest hlater hsame _)

/-- The search passes over the comments and the strings with sections among the tokens. -/
def Harmless (tokens : List Token) : Prop :=
  ∀ t ∈ tokens, t.kind = .comment ∨ t.kind = .interpolated → IsBody t.text.toList

instance (tokens : List Token) : Decidable (Harmless tokens) :=
  inferInstanceAs (Decidable (∀ t ∈ tokens, t.kind = .comment ∨ t.kind = .interpolated →
    IsBody t.text.toList))

/-- **Texts that can be sections.** If comments and strings with sections are passed over, and the
braces among the tokens are balanced, then a section with this text ends behind it. -/
theorem isBody_of_tokenize {d : Dialect} (hbare : d.IsBare) {text : String}
    (h : (ofText d text).tokenize = .ok tokens) (hbalance : BracesBalance tokens)
    (hharmless : Harmless tokens) :
    IsBody text.toList := by
  have hbetween : (ofText d text).IsBetween := ⟨hbare, rfl, rfl⟩
  obtain ⟨body, lx₁, hcuts, hrest, rfl⟩ := (tokenize_eq_ok_iff hbetween).mp h
  have hend (symbol : String) : lx₁.endToken.isSymbol symbol = false := rfl
  have htotal := hbalance.closed_eq
  simp only [List.countP_append, List.countP_singleton, hend, Bool.false_eq_true, if_false,
    Nat.add_zero] at htotal
  have hcontents : IsBody (Cursor.contents text) := by
    have hfronts (front : List Token) (hfront : front <+: body) :
        front.countP (Token.isSymbol · "\x7d") < front.countP (Token.isSymbol · "\x7b") + 1 :=
      Nat.lt_succ_of_le (hbalance.closed_le front (hfront.trans (List.prefix_append _ _)))
    have hsearch := hcuts.sectionLength?_eq (cutsSections_sectionTokens hbare rfl)
      (.refl (ofText d text)) hrest (fun t ht ↦ hharmless t (List.mem_append_left _ ht))
      ⟨hfronts, congrArg (· + 1) htotal⟩ 0
    rwa [Nat.zero_add] at hsearch
  by_cases hmark : text.toList.head? = some '\uFEFF'
  · obtain ⟨cs, hcs⟩ := List.head?_eq_some_iff.mp hmark
    rw [Cursor.contents, hcs] at hcontents
    rw [hcs]
    exact (show IsBody ['\uFEFF'] by decide).append hcontents
  · rwa [Cursor.contents_eq_toList hmark] at hcontents

end Lexer

end ScriptFront
