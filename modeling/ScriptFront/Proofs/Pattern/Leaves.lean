import ScriptFront.Proofs.Pattern.Words

/-!
# How the leaves of a pattern are written

Which characters make up a leaf is said by `Spells`, and which characters behind it would go on with
it by `Stops`. The reader reads a leaf exactly where one is spelled: `readLeaf_spells` and
`exists_readLeaf`.
-/

namespace ScriptFront

namespace Pattern

/-! ## How a leaf is written -/

/-- A character that ends a bare word. -/
def endsWord (c : Char) : Bool := c == '(' || c == ')' || c == '|' || c == '?' || Text.isBlank c

/-- A character of the name of a type. -/
def isTypeChar (c : Char) : Bool := Text.isNameChar c || c == '-'

/-- How the text of a bare word is written. -/
inductive Written : (written text : List Char) → Prop
  /-- Nothing. -/
  | nil : Written [] []
  /-- Any character behind a backslash. -/
  | escaped (c : Char) {written text : List Char} (h : Written written text) :
    Written ('\\' :: c :: written) (c :: text)
  /-- A character that stands for itself. -/
  | plain {c : Char} {written text : List Char} (hback : c ≠ '\\') (hc : endsWord c = false)
    (h : Written written text) : Written (c :: written) (c :: text)

/-- Text that is read as a leaf. -/
inductive Spells : List Char → Leaf → Prop
  /-- A bare word, which does not begin like a capture. -/
  | literal {written text : List Char} (h : Written written text) (hne : text ≠ [])
    (hdollar : written.head? ≠ some '$')
    (hhash : ∀ c more, written = '#' :: c :: more → Text.isNameChar c = false) :
    Spells written (.literal (String.ofList text))
  /-- A typed capture, where a sign may precede the type. -/
  | typed {name sign typeName : List Char} {type : LeafType} (hname : name ≠ [])
    (hchars : ∀ c ∈ name, Text.isNameChar c = true) (hsign : sign = [] ∨ sign = ['@'])
    (htypeChars : ∀ c ∈ typeName, isTypeChar c = true)
    (htype : LeafType.ofName? (String.ofList typeName) = some type) :
    Spells ('$' :: (name ++ ':' :: (sign ++ typeName))) (.typed (String.ofList name) type)
  /-- A capture of one of several spellings. -/
  | oneOf {name body : List Char} (hname : name ≠ [])
      (hchars : ∀ c ∈ name, Text.isNameChar c = true)
    (hbody : ')' ∉ body) (hvalues : alternatives body ≠ []) :
    Spells ('$' :: (name ++ ':' :: '(' :: (body ++ [')'])))
      (.oneOf (String.ofList name) (alternatives body))
  /-- A capture that is repeated. -/
  | sameAs {name : List Char} (hname : name ≠ []) (hchars : ∀ c ∈ name, Text.isNameChar c = true) :
    Spells ('#' :: name) (.sameAs (String.ofList name))

/-- No character follows that goes on with the leaf. -/
def Stops : Leaf → (rest : List Char) → Prop
  | .literal _, rest => ∀ c ∈ rest.head?, endsWord c = true
  | .typed _ _, rest => ∀ c ∈ rest.head?, isTypeChar c = false
  | .oneOf _ _, _ => True
  | .sameAs _, rest => ∀ c ∈ rest.head?, Text.isNameChar c = false

variable {c : Char} {cs rest written text done : List Char} {l : Leaf} {r r' : Reader}
    {pos taken n : Nat}

/-! ## Bare words -/

theorem endsWord_iff : endsWord c = true ↔ c = '(' ∨ c = ')' ∨ c = '|' ∨ c = '?' ∨
    Text.isBlank c = true := by
  simp [endsWord, or_assoc]

theorem ne_backslash_of_endsWord (h : endsWord c = true) : c ≠ '\\' := by
  rintro rfl
  revert h
  decide

theorem wordExtent_escaped :
    wordExtent ('\\' :: c :: cs) done taken = wordExtent cs (c :: done) (taken + 2) := by
  rw [wordExtent.eq_def]
  rfl

theorem wordExtent_stop (h : ∀ c ∈ cs.head?, endsWord c = true) :
    wordExtent cs done taken = (done.reverse, taken, false) := by
  cases cs with
  | nil => rfl
  | cons c cs =>
    have hc := h c rfl
    rw [wordExtent.eq_def]
    exact (if_neg (ne_backslash_of_endsWord hc)).trans (if_pos (endsWord_iff.mp hc))

theorem wordExtent_plain (hback : c ≠ '\\') (hc : endsWord c = false) :
    wordExtent (c :: cs) done taken = wordExtent cs (c :: done) (taken + 1) := by
  have hnot : ¬ (c = '(' ∨ c = ')' ∨ c = '|' ∨ c = '?' ∨ Text.isBlank c = true) := by
    rw [← endsWord_iff, hc]
    simp
  rw [wordExtent.eq_def]
  exact (if_neg hback).trans (if_neg hnot)

theorem wordExtent_written (h : Written written text)
    (hrest : ∀ c ∈ rest.head?, endsWord c = true) :
    wordExtent (written ++ rest) done taken =
    (done.reverse ++ text, taken + written.length, false) := by
  induction h generalizing done taken with
  | nil => simpa using wordExtent_stop hrest
  | escaped c _ ih =>
    rw [List.cons_append, List.cons_append, wordExtent_escaped, ih]
    simp [Nat.add_assoc, Nat.add_comm 2]
  | plain hback hc _ ih =>
    rw [List.cons_append, wordExtent_plain hback hc, ih]
    simp [Nat.add_assoc, Nat.add_comm 1]

/-- A bare word that is read was written. -/
theorem exists_written (h : wordExtent cs done taken = (text, n, false)) :
    ∃ written more rest, cs = written ++ rest ∧ Written written more ∧ text = done.reverse ++ more ∧
      n = taken + written.length ∧ ∀ c ∈ rest.head?, endsWord c = true := by
  induction cs, done, taken using wordExtent.induct with
  | case1 done taken =>
    obtain ⟨rfl, rfl, -⟩ := h
    exact ⟨[], [], [], rfl, .nil, by simp, rfl, by simp⟩
  | case2 done taken => cases h
  | case3 done taken c cs ih =>
    rw [wordExtent_escaped] at h
    obtain ⟨written, more, rest, rfl, hwritten, rfl, rfl, hrest⟩ := ih h
    exact ⟨_, _, rest, rfl,
      .escaped c hwritten, by simp, by simp [Nat.add_assoc, Nat.add_comm 2], hrest⟩
  | case4 c cs done taken hback hends =>
    have hrest : ∀ d ∈ (c :: cs).head?, endsWord d = true := by simpa [endsWord_iff] using hends
    rw [wordExtent_stop hrest] at h
    obtain ⟨rfl, rfl, -⟩ := h
    exact ⟨[], [], c :: cs, rfl, .nil, by simp, rfl, hrest⟩
  | case5 c cs done taken hback hends ih =>
    have hc : endsWord c = false := by rwa [← endsWord_iff, Bool.not_eq_true] at hends
    rw [wordExtent_plain hback hc] at h
    obtain ⟨written, more, rest, rfl, hwritten, rfl, rfl, hrest⟩ := ih h
    exact ⟨_, _, rest, rfl,
      .plain hback hc hwritten, by simp, by simp [Nat.add_assoc, Nat.add_comm 1], hrest⟩

theorem pass_run : pass n r = .ok ⟨⟩ ⟨r.rest.drop n, r.pos + n⟩ := rfl

theorem readWord_written (h : Written written text) (hne : text ≠ [])
    (hrest : ∀ c ∈ rest.head?, endsWord c = true) :
    readWord ⟨written ++ rest, pos⟩ =
      .ok (.literal (String.ofList text)) ⟨rest, pos + written.length⟩ := by
  rw [readWord, get_bind_run, wordExtent_written h hrest]
  simp [pass, modify_bind_run, hne]

theorem exists_readWord (h : readWord ⟨cs, pos⟩ = .ok l r') :
    ∃ written text rest, cs = written ++ rest ∧
    Written written text ∧ text ≠ [] ∧ l = .literal (String.ofList text) ∧
      (∀ c ∈ rest.head?, endsWord c = true) ∧ r' = ⟨rest, pos + written.length⟩ := by
  rw [readWord, get_bind_run] at h
  obtain ⟨word, n, dangling, hextent⟩ :
      ∃ word n dangling, wordExtent cs [] 0 = (word, n, dangling) :=
    ⟨_, _, _, rfl⟩
  rw [hextent] at h
  dsimp only at h
  rw [bind_eq_of_ok pass_run] at h
  cases dangling with
  | true => cases h
  | false =>
    obtain ⟨written, text, rest, rfl, hwritten, hword, rfl, hrest⟩ := exists_written hextent
    rw [List.reverse_nil, List.nil_append] at hword
    subst hword
    by_cases hne : word = []
    · subst hne
      cases h
    · rw [if_neg Bool.false_ne_true, if_neg (by simpa using hne)] at h
      cases h
      exact ⟨written, word, rest, rfl, hwritten, hne, rfl, hrest, by simp⟩

/-! ## Captures -/

theorem takeWhile_append {p : Char → Bool} {run : List Char} (hrun : ∀ c ∈ run, p c = true)
    (hrest : ∀ c ∈ rest.head?, p c = false) :
    takeWhile p ⟨run ++ rest, pos⟩ = .ok run ⟨rest, pos + run.length⟩ := by
  have hnone : rest.takeWhile p = [] ∧ rest.dropWhile p = rest := by
    cases rest with
    | nil => exact ⟨rfl, rfl⟩
    | cons c rest => simp [hrest c rfl]
  rw [takeWhile_run]
  simp only [List.takeWhile_append_of_pos hrun, List.dropWhile_append_of_pos hrun, hnone,
    List.append_nil]

theorem exists_takeWhile (p : Char → Bool) (cs : List Char) (pos : Nat) :
    ∃ run rest, cs = run ++ rest ∧
    (∀ c ∈ run, p c = true) ∧ (∀ c ∈ rest.head?, p c = false) ∧
      takeWhile p ⟨cs, pos⟩ = .ok run ⟨rest, pos + run.length⟩ := by
  refine ⟨cs.takeWhile p, cs.dropWhile p, List.takeWhile_append_dropWhile.symm,
    fun c hc ↦ List.mem_takeWhile_imp hc, fun c hc ↦ ?_, takeWhile_run p⟩
  simpa [Option.mem_def.mp hc] using List.head?_dropWhile_not p cs

theorem passIf_cons : passIf c ⟨c :: rest, pos⟩ = .ok true ⟨rest, pos + 1⟩ := by
  rw [passIf, get_bind_run]
  exact (ite_run ..).trans (if_pos rfl)

theorem passIf_of_ne (h : c ∉ cs.head?) : passIf c ⟨cs, pos⟩ = .ok false ⟨cs, pos⟩ := by
  rw [passIf, get_bind_run]
  exact (ite_run ..).trans (if_neg h)

/-- The spellings of a capture, up to the parenthesis behind them. -/
def readValues (name : String) : ReadM Leaf := do
  let body ← takeWhile (· != ')')
  if !(← passIf ')') then throw "unclosed value set, expected ')'"
  if (alternatives body).isEmpty then throw "empty value set"
  return .oneOf name (alternatives body)

/-- The type of a capture. -/
def readType (name : String) : ReadM Leaf := do
  discard (passIf '@')
  let typeName ← takeWhile isTypeChar
  match LeafType.ofName? (String.ofList typeName) with
  | some type => return .typed name type
  | none => throw s!"unknown type '{String.ofList typeName}'"

theorem readCapture_eq : readCapture = (do
    let name ← takeWhile Text.isNameChar
    if (String.ofList name).isEmpty then throw "capture name expected after '$'"
    if !(← passIf ':') then throw "':' expected after capture name"
    if ← passIf '(' then readValues (String.ofList name) else readType (String.ofList name)) := rfl

variable {name body sign typeName : List Char} {captured : String} {type : LeafType}

theorem readValues_run (hbody : ')' ∉ body) (hvalues : alternatives body ≠ []) :
    readValues captured ⟨body ++ ')' :: rest, pos⟩ =
      .ok (.oneOf captured (alternatives body)) ⟨rest, pos + body.length + 1⟩ := by
  have hrun : takeWhile (· != ')') ⟨body ++ ')' :: rest, pos⟩ = .ok body
    ⟨')' :: rest, pos + body.length⟩ :=
    takeWhile_append (fun c hc ↦ by simpa using fun h : c = ')' ↦ hbody (h ▸ hc)) (by simp)
  rw [readValues, bind_eq_of_ok hrun, bind_eq_of_ok passIf_cons]
  simp [hvalues]

theorem exists_readValues (h : readValues captured ⟨cs, pos⟩ = .ok l r') : ∃ body rest,
    cs = body ++ ')' :: rest ∧ ')' ∉ body ∧ alternatives body ≠ [] ∧
    l = .oneOf captured (alternatives body) ∧
      r' = ⟨rest, pos + body.length + 1⟩ := by
  obtain ⟨body, rest, rfl, hbody, hrest, hrun⟩ := exists_takeWhile (· != ')') cs pos
  rw [readValues, bind_eq_of_ok hrun] at h
  cases rest with
  | nil =>
    rw [bind_eq_of_ok (passIf_of_ne (by simp))] at h
    cases h
  | cons c rest =>
    obtain rfl : c = ')' := by simpa using hrest c rfl
    rw [bind_eq_of_ok passIf_cons] at h
    by_cases hvalues : alternatives body = []
    · rw [hvalues] at h
      cases h
    · simp only [Bool.not_true, Bool.false_eq_true, if_false,
        List.isEmpty_eq_false_iff.mpr hvalues] at h
      cases h
      exact ⟨body, rest, rfl, fun hmem ↦ by simpa using hbody _ hmem, hvalues, rfl, rfl⟩

theorem ne_nil_of_ofName? (h : LeafType.ofName? (String.ofList typeName) = some type) :
    typeName ≠ [] := by
  rintro rfl
  revert h
  decide +revert

/-- No sign that is not part of a name of a type comes first. -/
theorem not_mem_head?_of_typeName (hchars : ∀ c ∈ typeName, isTypeChar c = true)
    (hne : typeName ≠ [])
    (hc : isTypeChar c = false) : c ∉ (typeName ++ rest).head? := by
  obtain ⟨d, typeName, rfl⟩ := List.exists_cons_of_ne_nil hne
  rintro hhead
  obtain rfl := Option.some.inj hhead
  exact absurd (hc.symm.trans (hchars d List.mem_cons_self)) (by simp)

theorem discard_run {α : Type} {x : ReadM α} {a : α} (h : x r = .ok a r') :
    (discard x : ReadM PUnit) r = .ok ⟨⟩ r' := by
  change EStateM.map (Function.const _ PUnit.unit) x r = _
  rw [EStateM.map, h]

theorem readType_run (hsign : sign = [] ∨ sign = ['@'])
    (hchars : ∀ c ∈ typeName, isTypeChar c = true)
    (htype : LeafType.ofName? (String.ofList typeName) = some type)
    (hrest : ∀ c ∈ rest.head?, isTypeChar c = false) :
    readType captured ⟨sign ++ (typeName ++ rest), pos⟩ =
      .ok (.typed captured type) ⟨rest, pos + sign.length + typeName.length⟩ := by
  have hpass : (discard (passIf '@') : ReadM PUnit) ⟨sign ++ (typeName ++ rest), pos⟩ =
      .ok ⟨⟩ ⟨typeName ++ rest, pos + sign.length⟩ := by
    rcases hsign with rfl | rfl
    · rw [List.nil_append]
      exact discard_run
        (passIf_of_ne (not_mem_head?_of_typeName hchars (ne_nil_of_ofName? htype) (by decide)))
    · exact discard_run passIf_cons
  rw [readType, bind_eq_of_ok hpass, bind_eq_of_ok (takeWhile_append hchars hrest), htype]
  rfl

theorem exists_readType (h : readType captured ⟨cs, pos⟩ = .ok l r') : ∃ sign typeName type rest,
    cs = sign ++ (typeName ++ rest) ∧ (sign = [] ∨ sign = ['@']) ∧
    (∀ c ∈ typeName, isTypeChar c = true) ∧
      LeafType.ofName? (String.ofList typeName) = some type ∧
      (∀ c ∈ rest.head?, isTypeChar c = false) ∧
        l = .typed captured type ∧ r' = ⟨rest, pos + sign.length + typeName.length⟩ := by
  obtain ⟨sign, cs, rfl, hsign, hpass⟩ :
      ∃ sign more, cs = sign ++ more ∧ (sign = [] ∨ sign = ['@']) ∧
      (discard (passIf '@') : ReadM PUnit) ⟨cs, pos⟩ = .ok ⟨⟩ ⟨more, pos + sign.length⟩ := by
    by_cases hhead : '@' ∈ cs.head?
    · obtain ⟨more, rfl⟩ := List.head?_eq_some_iff.mp hhead
      exact ⟨['@'], more, rfl, .inr rfl, discard_run passIf_cons⟩
    · exact ⟨[], cs, rfl, .inl rfl, discard_run (passIf_of_ne hhead)⟩
  obtain ⟨typeName, rest, rfl, hchars, hrest, hrun⟩ :=
    exists_takeWhile isTypeChar cs (pos + sign.length)
  rw [readType, bind_eq_of_ok hpass, bind_eq_of_ok hrun] at h
  cases htype : LeafType.ofName? (String.ofList typeName) with
  | none =>
    rw [htype] at h
    cases h
  | some type =>
    rw [htype] at h
    cases h
    exact ⟨sign, typeName, type, rest, rfl, hsign, hchars, htype, hrest, rfl, rfl⟩

/-- What is read behind the sign of a capture spells a leaf. -/
theorem exists_readCapture (h : readCapture ⟨cs, pos⟩ = .ok l r') :
    ∃ written rest, cs = written ++ rest ∧ Spells ('$' :: written) l ∧ Stops l rest ∧
      r' = ⟨rest, pos + written.length⟩ := by
  obtain ⟨name, cs, rfl, hchars, -, hrun⟩ := exists_takeWhile Text.isNameChar cs pos
  rw [readCapture_eq, bind_eq_of_ok hrun] at h
  by_cases hname : name = []
  · subst hname
    cases h
  rw [if_neg (by simpa using hname)] at h
  dsimp only at h
  by_cases hcolon : ':' ∈ cs.head?
  · obtain ⟨cs, rfl⟩ := List.head?_eq_some_iff.mp hcolon
    rw [bind_eq_of_ok passIf_cons, if_neg (by simp)] at h
    by_cases hopen : '(' ∈ cs.head?
    · obtain ⟨cs, rfl⟩ := List.head?_eq_some_iff.mp hopen
      rw [bind_eq_of_ok passIf_cons, if_pos rfl] at h
      obtain ⟨body, rest, rfl, hbody, hvalues, rfl, rfl⟩ := exists_readValues h
      refine ⟨name ++ ':' :: '(' :: (body ++ [')']),
        rest, by simp, .oneOf hname hchars hbody hvalues, trivial, ?_⟩
      simp [Nat.add_assoc]
      omega
    · rw [bind_eq_of_ok (passIf_of_ne hopen), if_neg (by simp)] at h
      obtain ⟨sign, typeName, type, rest, rfl, hsign, htypeChars, htype, hrest, rfl, rfl⟩ :=
        exists_readType h
      refine ⟨name ++ ':' :: (sign ++ typeName),
        rest, by simp, .typed hname hchars hsign htypeChars htype, hrest, ?_⟩
      simp [Nat.add_assoc]
      omega
  · rw [bind_eq_of_ok (passIf_of_ne hcolon)] at h
    cases h

/-! ## Leaves -/

theorem readCapture_spells (h : Spells ('$' :: written) l) (hrest : Stops l rest)
    (hdollar : ∀ text, l ≠ .literal text) :
    readCapture ⟨written ++ rest, pos⟩ = .ok l ⟨rest, pos + written.length⟩ := by
  have hname {name more : List Char} (hchars : ∀ c ∈ name, Text.isNameChar c = true) :
      takeWhile Text.isNameChar ⟨name ++ ':' :: more, pos⟩ = .ok name
        ⟨':' :: more, pos + name.length⟩ :=
    takeWhile_append hchars fun c hc ↦ by
      obtain rfl := Option.some.inj hc
      decide
  cases h with
  | literal => exact absurd rfl (hdollar _)
  | @typed name sign typeName type hne hchars hsign htypeChars htype =>
    have hopen : '(' ∉ (sign ++ (typeName ++ rest)).head? := by
      rcases hsign with rfl | rfl
      · rw [List.nil_append]
        exact not_mem_head?_of_typeName htypeChars (ne_nil_of_ofName? htype) (by decide)
      · simp
    rw [List.append_assoc, List.cons_append, List.append_assoc, readCapture_eq,
      bind_eq_of_ok (hname hchars),
      if_neg (by simpa using hne)]
    dsimp only
    rw [bind_eq_of_ok passIf_cons, if_neg (by simp), bind_eq_of_ok (passIf_of_ne hopen),
      if_neg (by simp), readType_run hsign htypeChars htype hrest]
    simp [Nat.add_assoc, Nat.add_comm 1]
  | @oneOf name body hne hchars hbody hvalues =>
    rw [List.append_assoc, List.cons_append, List.cons_append, List.append_assoc,
      List.singleton_append,
      readCapture_eq, bind_eq_of_ok (hname hchars), if_neg (by simpa using hne)]
    dsimp only
    rw [bind_eq_of_ok passIf_cons, if_neg (by simp), bind_eq_of_ok passIf_cons, if_pos rfl,
      readValues_run hbody hvalues]
    simp [Nat.add_assoc]
    omega

theorem isNameChar_of_endsWord (h : endsWord c = true) : Text.isNameChar c = false := by
  rw [← Bool.not_eq_true]
  intro hname
  have hplain := isPlain_of_isNameChar hname
  rcases endsWord_iff.mp h with rfl | rfl | rfl | rfl | hblank
  · exact ne_of_isPlain hplain (by decide) rfl
  · exact ne_of_isPlain hplain (by decide) rfl
  · exact ne_of_isPlain hplain (by decide) rfl
  · exact ne_of_isPlain hplain (by decide) rfl
  · exact absurd (hblank.symm.trans (isBlank_of_isPlain hplain)) (by simp)

theorem readLeaf_dollar : readLeaf ⟨'$' :: cs, pos⟩ = readCapture ⟨cs, pos + 1⟩ := rfl

theorem readLeaf_hash (hc : Text.isNameChar c = true) : readLeaf ⟨'#' :: c :: cs, pos⟩ =
    (do return .sameAs (String.ofList (← takeWhile Text.isNameChar)) : ReadM Leaf)
    ⟨c :: cs, pos + 1⟩ := by
  rw [readLeaf, get_bind_run]
  exact (ite_run ..).trans (if_pos hc)

theorem readLeaf_word (hdollar : cs.head? ≠ some '$')
    (hhash : ∀ c more, cs = '#' :: c :: more → Text.isNameChar c = false) :
    readLeaf ⟨cs, pos⟩ = readWord ⟨cs, pos⟩ := by
  rw [readLeaf, get_bind_run]
  dsimp only
  split
  · exact absurd rfl hdollar
  · next c more => rw [if_neg (by simp [hhash c more rfl])]
  · rfl

/-- **A leaf is read where it is spelled.** -/
theorem readLeaf_spells (h : Spells written l) (hrest : Stops l rest) :
    readLeaf ⟨written ++ rest, pos⟩ = .ok l ⟨rest, pos + written.length⟩ := by
  have hspells := h
  cases h with
  | @literal written text hwritten hne hdollar hhash =>
    have hfirst : written ≠ [] := by
      rintro rfl
      cases hwritten
      exact hne rfl
    obtain ⟨c, written, rfl⟩ := List.exists_cons_of_ne_nil hfirst
    have hhead : (c :: written ++ rest).head? ≠ some '$' := hdollar
    rw [readLeaf_word hhead fun d more heq ↦ ?_, readWord_written hwritten hne hrest]
    cases written with
    | nil => exact isNameChar_of_endsWord (hrest d (by simp_all))
    | cons d' written =>
      obtain ⟨rfl, hmore⟩ := List.cons.inj heq
      obtain ⟨rfl, -⟩ := List.cons.inj hmore
      exact hhash d' written rfl
  | typed =>
    rw [List.cons_append, readLeaf_dollar, readCapture_spells hspells hrest (by simp)]
    simp [Nat.add_assoc, Nat.add_comm 1]
  | oneOf =>
    rw [List.cons_append, readLeaf_dollar, readCapture_spells hspells hrest (by simp)]
    simp [Nat.add_assoc, Nat.add_comm 1]
  | @sameAs name hname hchars =>
    obtain ⟨c, more, rfl⟩ := List.exists_cons_of_ne_nil hname
    rw [List.cons_append, List.cons_append, readLeaf_hash (hchars c List.mem_cons_self),
      ← List.cons_append, bind_eq_of_ok (takeWhile_append hchars hrest)]
    simp [Nat.add_assoc, Nat.add_comm 1]

/-- Whatever is read as a leaf spells it. -/
theorem exists_readLeaf (h : readLeaf ⟨cs, pos⟩ = .ok l r') :
    ∃ written rest, cs = written ++ rest ∧ Spells written l ∧ Stops l rest ∧
      r' = ⟨rest, pos + written.length⟩ := by
  by_cases hdollar : cs.head? = some '$'
  · obtain ⟨cs, rfl⟩ := List.head?_eq_some_iff.mp hdollar
    rw [readLeaf_dollar] at h
    obtain ⟨written, rest, rfl, hspells, hrest, rfl⟩ := exists_readCapture h
    exact ⟨'$' :: written, rest, rfl, hspells, hrest, by simp [Nat.add_assoc, Nat.add_comm 1]⟩
  by_cases hhash : ∃ c more, cs = '#' :: c :: more ∧ Text.isNameChar c = true
  · obtain ⟨c, more, rfl, hc⟩ := hhash
    rw [readLeaf_hash hc] at h
    obtain ⟨name, rest, hsplit, hchars, hrest, hrun⟩ :=
      exists_takeWhile Text.isNameChar (c :: more) (pos + 1)
    rw [bind_eq_of_ok hrun] at h
    cases h
    have hname : name ≠ [] := by
      rintro rfl
      rw [List.nil_append] at hsplit
      exact absurd (hc.symm.trans (hrest c (by rw [← hsplit]; rfl))) (by simp)
    refine ⟨'#' :: name, rest, by rw [hsplit]; rfl, .sameAs hname hchars, hrest, ?_⟩
    simp [Nat.add_assoc, Nat.add_comm 1]
  · have hword (c : Char) (more : List Char) (heq : cs = '#' :: c :: more) :
        Text.isNameChar c = false :=
      Bool.eq_false_iff.mpr fun hc ↦ hhash ⟨c, more, heq, hc⟩
    rw [readLeaf_word hdollar hword] at h
    obtain ⟨written, text, rest, rfl, hwritten, hne, rfl, hrest, rfl⟩ := exists_readWord h
    refine ⟨written, rest, rfl, .literal hwritten hne (fun hhead ↦ hdollar ?_) fun c more heq ↦ ?_,
      hrest, rfl⟩
    · rw [List.head?_append, hhead]
      rfl
    · exact hword c (more ++ rest) (by rw [heq]; rfl)

/-- A leaf begins with a character that no other piece begins with. -/
theorem Spells.exists_cons (h : Spells written l) :
    ∃ c more, written = c :: more ∧ endsWord c = false := by
  cases h with
  | literal hwritten hne =>
    cases hwritten with
    | nil => exact absurd rfl hne
    | escaped c => exact ⟨'\\', _, rfl, by decide⟩
    | plain _ hc => exact ⟨_, _, rfl, hc⟩
  | typed => exact ⟨'$', _, rfl, by decide⟩
  | oneOf => exact ⟨'$', _, rfl, by decide⟩
  | sameAs => exact ⟨'#', _, rfl, by decide⟩

/-- What a text begins with spells one leaf at most. -/
theorem Spells.unique {written' rest' : List Char} {l' : Leaf} (h : Spells written l)
    (hrest : Stops l rest)
    (h' : Spells written' l') (hrest' : Stops l' rest')
    (heq : written ++ rest = written' ++ rest') :
    l = l' ∧ rest = rest' := by
  have hrun : readLeaf ⟨written ++ rest, 0⟩ = .ok l ⟨rest, 0 + written.length⟩ :=
    readLeaf_spells h hrest
  have hrun' : readLeaf ⟨written' ++ rest', 0⟩ = .ok l' ⟨rest', 0 + written'.length⟩ :=
    readLeaf_spells h' hrest'
  rw [heq, hrun'] at hrun
  obtain ⟨hl, hreader⟩ := EStateM.Result.ok.inj hrun
  exact ⟨hl.symm, (Reader.mk.inj hreader).1.symm⟩

end Pattern

end ScriptFront
