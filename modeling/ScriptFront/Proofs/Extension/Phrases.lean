import ScriptFront.Extension.Standard
import ScriptFront.Proofs.Extension.Words
import ScriptFront.Proofs.Pattern.Words

/-!
# Phrases that stand for one token

A synonym claims the tokens that spell its phrase. It can be registered whenever the phrase consists
of plain words; it may start at a token that spells the first of them, unless that word is defined;
and where it may start, it claims as many tokens as the phrase has words.
-/

namespace ScriptFront.Standard

open Window (minLookahead)

/-- The words of a phrase, whatever blanks stand between them. -/
def phraseWords (phrase : String) : List String := (Text.words phrase.toList).map String.ofList

/-- The phrase consists of words that a pattern takes as they are. -/
structure IsPlainPhrase (phrase : String) : Prop where
  /-- There are words. -/
  ne_nil : phraseWords phrase ≠ []
  /-- No mark of the pattern language is in them. -/
  plain : ∀ word ∈ phraseWords phrase, ∀ c ∈ word.toList, Pattern.isPlain c = true

theorem isPlainPhrase_iff {phrase : String} : IsPlainPhrase phrase ↔
    (!(phraseWords phrase).isEmpty && (phraseWords phrase).all (·.toList.all Pattern.isPlain)) =
    true := by
  simp only [Bool.and_eq_true, Bool.not_eq_true', List.isEmpty_eq_false_iff, List.all_eq_true]
  exact ⟨fun h ↦ ⟨h.ne_nil, h.plain⟩, fun h ↦ ⟨h.1, h.2⟩⟩

instance (phrase : String) : Decidable (IsPlainPhrase phrase) :=
  decidable_of_iff' _ isPlainPhrase_iff

theorem isPlainPhrase_of_mem_synonyms {pair : String × String} (h : pair ∈ synonyms) :
    IsPlainPhrase pair.1 := by
  have hall : ∀ pair ∈ synonyms, IsPlainPhrase pair.1 := by decide +kernel
  exact hall pair h

/-- A synonym, registered. -/
def entry (pair : String × String) : Registered :=
  ⟨synonym pair.1 pair.2, some (Element.ofWords (phraseWords pair.1)), (phraseWords pair.1).length⟩

variable {pair : String × String} {phrase : String} {table : SymbolTable} {t : Token}
    {tokens : List Token}

theorem IsPlainPhrase.compile_eq (h : IsPlainPhrase phrase) :
    Pattern.compile phrase = .ok (Element.ofWords (phraseWords phrase)) := by
  refine Pattern.compile_eq (fun word hword c hc ↦ ?_) fun hnil ↦
    h.ne_nil (by rw [phraseWords, hnil]; rfl)
  exact h.plain _ (List.mem_map_of_mem hword) c (by rwa [String.toList_ofList])

/-- Synonyms for phrases of plain words can be registered. -/
theorem ofExtension_eq (h : IsPlainPhrase pair.1) :
    Registered.ofExtension (synonym pair.1 pair.2) = .ok (entry pair) := by
  have hpattern : (synonym pair.1 pair.2).pattern = some pair.1 := rfl
  have hmin : (synonym pair.1 pair.2).minRequired = none := rfl
  rw [Registered.ofExtension, hpattern]
  simp only [h.compile_eq]
  rw [entry, hmin, Option.getD_none, Element.requiredCount_ofWords]

/-- A synonym may start at the first word of its phrase, if the script does not define it. -/
theorem mayStart_entry (pair : String × String) (t : Token) (table : SymbolTable) :
    (entry pair).mayStart t table =
      ((phraseWords pair.1).head?.any (t.is ·) && !table.contains t.text) := by
  have hstarts : (synonym pair.1 pair.2).starts = (phraseWords pair.1).head?.toList.map .text := by
    change (Text.firstWord? pair.1.toList).toList.map _ = _
    rw [Text.firstWord?_eq, phraseWords, List.head?_map]
    cases (Text.words pair.1.toList).head? <;> rfl
  rw [Registered.mayStart, entry, hstarts]
  cases (phraseWords pair.1).head? <;> simp [Trigger.accepts, synonym, Extension.undefinedName]

/-- Where it may start, a synonym claims the tokens that spell its phrase. -/
theorem answers_entry (hne : phraseWords pair.1 ≠ [])
    (hsight : min (phraseWords pair.1).length (t :: tokens).length ≤ minLookahead + 1)
    (hstart : (entry pair).mayStart t table = true) :
    (entry pair).Answers table (t :: tokens)
      (if spoken (phraseWords pair.1) (t :: tokens) then some ((phraseWords pair.1).length, .empty)
        else none) :=
  Registered.answers_words rfl rfl hne hsight hstart

/-- Tokens that do not spell the phrase are not claimed. -/
theorem answers_entry_none (hne : phraseWords pair.1 ≠ [])
    (hsight : min (phraseWords pair.1).length (t :: tokens).length ≤ minLookahead + 1)
    (hspoken : spoken (phraseWords pair.1) (t :: tokens) = false) :
    (entry pair).Answers table (t :: tokens) none := by
  cases hstart : (entry pair).mayStart t table with
  | false => exact Registered.answers_none hstart
  | true =>
    intro w hw
    obtain ⟨w', hclaim, hw'⟩ := answers_entry hne hsight hstart hw
    rw [hspoken, if_neg Bool.false_ne_true] at hclaim
    exact ⟨w', hclaim, hw'⟩

theorem register_eq {f : Frontend} {extension : Extension} {e : Registered}
    (h : Registered.ofExtension extension = .ok e) :
    f.register extension =
      .ok { f with registry := { f.registry with entries := f.registry.entries ++ [e] } } := by
  rw [Frontend.register, Registry.register, h]

/-- Synonyms are registered one behind the other. -/
theorem foldlM_register {f : Frontend} {pairs : List (String × String)}
    (hpairs : ∀ pair ∈ pairs, IsPlainPhrase pair.1) :
    pairs.foldlM (fun f (phrase, replacement) ↦ f.register (synonym phrase replacement)) f =
      .ok { f with registry := { f.registry with entries := f.registry.entries ++ pairs.map entry }
        } := by
  induction pairs generalizing f with
  | nil => simp [pure, Except.pure]
  | cons pair pairs ih =>
    obtain ⟨hpair, hpairs⟩ := List.forall_mem_cons.mp hpairs
    rw [List.foldlM_cons]
    refine (congrArg (· >>= _) (register_eq (ofExtension_eq hpair))).trans ((ih hpairs).trans ?_)
    simp

end ScriptFront.Standard
