import ScriptFront.Proofs.Bounds
import ScriptFront.Proofs.Composition
import ScriptFront.Proofs.Lexer.Places
import ScriptFront.Proofs.Parse.Kindred
import ScriptFront.Proofs.Window.Parallel

/-!
# Failures point into the script

Whatever goes wrong, be it noticed by a lexer, by the lexer of an embedded section, by the parser at
a token, or at a node that was built before, is said of a place of the script. The tokens stand at
such places, and so do operands and expressions. The statement is made by running the parser beside
itself: the likeness of a run to itself keeps track of the places.
-/

namespace ScriptFront

/-! ## A run beside itself -/

/-- The token is the same and stands, with all that is embedded in it, at places of `P`. -/
def SameIn (P : Position → Prop) (t u : Token) : Prop := u = t ∧ Token.Placed P t u

/-- The lexer is the same and stays at places of `P`. -/
def StandsIn (P : Position → Prop) (lx lx' : Lexer) : Prop := lx' = lx ∧ lx.StaysIn P

/-- Failures of both runs are at places of `P`. Either may run out of fuel. -/
def leewayIn (P : Position → Prop) : Leeway where
  common := Lexer.FailsIn P
  first e := e.cause = .outOfFuel
  second e := e.cause = .outOfFuel

/-- What a run has in common with itself if it stays at places of `P`. -/
def stayingIn (P : Position → Prop) : Likeness where
  lee := leewayIn P
  windows := Window.Parallel (SameIn P) (StandsIn P) Eq
  tokens := SameIn P
  places := P

variable {P : Position → Prop}

theorem isTokenwise_sameIn (hstart : P .start) : Window.IsTokenwise (SameIn P) where
  kind := by
    rintro t _ ⟨rfl, -⟩
    rfl
  shown := ⟨rfl, .mk hstart (.same (by simp [Lexeme.kind]))⟩
  endAfter := by
    rintro t _ ⟨rfl, ht⟩
    exact ⟨rfl, .mk ht.place (.same (by simp [Lexeme.kind]))⟩

theorem isParallel_sameIn (hP : ReachesBack P) (hstart : P .start) :
    Window.IsParallel (leewayIn P) (SameIn P) (StandsIn P) where
  toIsTokenwise := isTokenwise_sameIn hstart
  batch count := by
    have hbatch (lx : Lexer) (hlx : lx.StaysIn P) : Ensures (Lexer.FailsIn P) (Lexer.batch count) lx
        fun tokens lx' ↦ (∀ t ∈ tokens, Token.Placed P t t) ∧ lx'.StaysIn P :=
      Lexer.stays_batch hP count lx hlx
    refine (Paired.of_ensures (fun _ he ↦ he) hbatch).mono ?_
    rintro tokens _ ⟨rfl, htokens⟩
    exact List.forall₂_same.mpr fun t ht ↦ ⟨rfl, htokens t ht⟩
  tokensLeft := by
    rintro lx _ ⟨rfl, -⟩
    rfl

theorem isKept_stayingIn (hP : ReachesBack P) (hstart : P .start) : (stayingIn P).IsKept := by
  have hparallel := isParallel_sameIn hP hstart
  exact {
    current := fun hvw ↦ hvw.current hparallel.toIsTokenwise
    advances := Window.parallel_advance hparallel
    skips := Window.parallel_skipNewLines hparallel
    peeks := Window.parallel_peek hparallel
    nested := fun hvw hlist ↦ hvw.nested hparallel.toIsTokenwise hlist
    lexeme := by
      rintro t _ ⟨rfl, ht⟩
      exact ht.lexeme.diagonal
    position := fun htu ↦ htu.2.position_eq
    placed := fun htu ↦ htu.2.place
    exact := .inl fun _ _ htu ↦ htu.1
    common := fun _ he ↦ he
    fuel := fun _ he ↦ ⟨he, he⟩ }

namespace Frontend

variable {f : Frontend} {text : String} {e : ScriptError}

/-- What both runs may fail with is said of a place of the text. -/
theorem conform_window (hf : f.IsBare) :
    Conform (leewayIn (IsPlaceOf (Cursor.contents text)))
      (stayingIn (IsPlaceOf (Cursor.contents text))).windows (f.window text) (f.window text) :=
  Window.parallel_ofSource
    (isParallel_sameIn (reachesBack_isPlaceOf _) ⟨0, Nat.zero_le _, rfl⟩)
    ⟨rfl, Lexer.staysIn_ofText hf.isBare_dialect text⟩ (fun _ ↦ rfl) _

/-- **Failures point into the script.** Without extensions and rules, whatever the text and the
bounds are: if a text is refused, the position of the failure is that of a place of the text, its
end included. -/
theorem exists_position_of_parse_error (hf : f.IsBare) (h : f.parse text = .error e) :
    ∃ n ≤ (Cursor.contents text).length, e.position = positionAt (Cursor.contents text) n := by
  have hcustomary : f.IsCustomary := .inl (congrArg₂ Registry.mk hf.entries hf.lexical)
  have hfuel := parse_withinFuel hcustomary h
  rw [parse_eq_named] at h
  obtain ⟨e', he'⟩ := exists_error_of_named h
  rw [he'] at h
  obtain rfl : e'.inFile f.settings.file = e := by
    cases h
    rfl
  change IsPlaceOf (Cursor.contents text) e'.position
  rw [unnamed] at he'
  split at he'
  · cases he'
    exact ⟨0, Nat.zero_le _, rfl⟩
  · have hkindred : (stayingIn (IsPlaceOf (Cursor.contents text))).Kindred f.context f.context :=
      (isKept_stayingIn (reachesBack_isPlaceOf _) ⟨0, Nat.zero_le _, rfl⟩).kindred
      hf.entries hf.entries
        (.refl _)
    have hconform := (conform_window hf).bind fun v w hvw ↦
      hkindred.parseProgram_conform hvw f.host
    rw [he'] at hconform
    cases hconform with
    | error hplace => exact hplace
    | first hfirst => exact absurd hfirst hfuel
    | second hsecond => exact absurd hsecond hfuel

/-- A section that begins with a byte order mark, and holds a character that begins no token. -/
def sampleStray : String := "a = 1\r\nb = \"<#\x7b\uFEFF(\n$)\x7d>\""

theorem exists_position_of_parse_error_sampleStray :
    ∃ e, standard.parse sampleStray = .error e ∧ e.position = ⟨3, 1⟩ ∧
      ∃ n ≤ (Cursor.contents sampleStray).length,
        e.position = positionAt (Cursor.contents sampleStray) n := by
  have hposition : (match standard.parse sampleStray with
      | .ok _ => none
      | .error e => some e.position) = some ⟨3, 1⟩ := by decide +kernel
  cases hparse : standard.parse sampleStray with
  | ok p =>
    rw [hparse] at hposition
    cases hposition
  | error e =>
    rw [hparse] at hposition
    exact ⟨e, rfl, Option.some.inj hposition, exists_position_of_parse_error isBare_standard hparse⟩

end Frontend

end ScriptFront
