import ScriptFront.Proofs.Pattern.Pieces

/-!
# Reading a pattern piece by piece

The reader of patterns calls itself for every group. Here the same is done without recursion: a
stack holds a frame for every group that is open, and every piece changes the stack in one step,
`Stack.step`.

The element that has just ended is kept apart. A question mark directly behind it makes it optional
before it goes into its frame, where it may become the right side of a choice; a question mark
anywhere else is for the last element of the frame. `compile_eq_ok_iff` says that the reader finds
exactly what the stack does.
-/

namespace ScriptFront.Pattern

/-! ## Stacks -/

/-- What has been read of a group. -/
structure Frame where
  /-- The elements, last one first. -/
  elements : List Element
  /-- A bar was read after them. -/
  choosing : Bool

/-- What has been read of a pattern. -/
structure Stack where
  /-- The element that has just ended. -/
  atom : Option Element
  /-- The group that was opened last, or the whole pattern. -/
  frame : Frame
  /-- The groups around it, inside out. -/
  outer : List Frame

/-- Put an element behind the others, or on the right side of a choice. -/
def Frame.add : Frame → Element → Option Frame
  | ⟨elements, false⟩, element => some ⟨element :: elements, false⟩
  | ⟨left :: elements, true⟩, element => some ⟨.either left element true :: elements, false⟩
  | ⟨[], true⟩, _ => none

/-- The element that a group makes. -/
def Frame.close? (f : Frame) : Option Element :=
  if f.choosing then none else
    match f.elements.reverse with
    | [] => none
    | [element] => some element
    | elements => some (.group elements true)

/-- Nothing was read. -/
def Frame.empty : Frame := ⟨[], false⟩

namespace Stack

/-- The element that has just ended goes into its frame. -/
def settle : Stack → Option Stack
  | ⟨none, frame, outer⟩ => some ⟨none, frame, outer⟩
  | ⟨some element, frame, outer⟩ => (frame.add element).map (⟨none, ·, outer⟩)

/-- What a piece does where no element has just ended. -/
def take (frame : Frame) (outer : List Frame) : Piece → Option Stack
  | .blank => some ⟨none, frame, outer⟩
  | .leaf l => some ⟨some (.leaf l true), frame, outer⟩
  | .opening => some ⟨none, .empty, frame :: outer⟩
  | .closing =>
    match outer with
    | [] => none
    | around :: outer => frame.close?.map (⟨some ·, around, outer⟩)
  | .bar =>
    if frame.elements.isEmpty || frame.choosing then none
      else some ⟨none, ⟨frame.elements, true⟩, outer⟩
  | .mark =>
    match frame with
    | ⟨last :: elements, false⟩ => some ⟨none, ⟨last.asOptional :: elements, false⟩, outer⟩
    | _ => none

/-- What a piece does. -/
def step : Stack → Piece → Option Stack
  | ⟨some element, frame, outer⟩, .mark => settle ⟨some element.asOptional, frame, outer⟩
  | ⟨some element, frame, outer⟩, piece => (frame.add element).bind (take · outer piece)
  | ⟨none, frame, outer⟩, piece => take frame outer piece

/-- What pieces do, and the element that ends last. -/
def settled (s : Stack) (ps : List Piece) : Option Stack := (ps.foldlM step s).bind settle

end Stack

/-- The pieces make these elements. -/
def Makes (ps : List Piece) (elements : List Element) : Prop :=
  Stack.settled ⟨none, .empty, []⟩ ps = some ⟨none, ⟨elements.reverse, false⟩, []⟩ ∧ elements ≠ []

variable {f g : Frame} {outer : List Frame} {s : Stack} {p : Piece} {ps qs : List Piece}
    {element : Element}
  {elements out : List Element} {choosing : Bool} {c : Char} {cs rest : List Char}
  {fuel depth pos : Nat}
  {r r' : Reader}

namespace Stack

theorem settled_cons : s.settled (p :: ps) = (s.step p).bind (·.settled ps) := by
  rw [settled, List.foldlM_cons]
  exact Option.bind_assoc ..

theorem settled_nil : s.settled [] = s.settle := rfl

/-- Any piece but a question mark, and the end too, finds the last element in its frame. -/
theorem settled_some (hps : .mark ∉ ps.head?) :
    settled ⟨some element, f, outer⟩ ps = (f.add element).bind fun f ↦
      settled ⟨none, f, outer⟩ ps := by
  cases ps with
  | nil =>
    rw [settled_nil, settle]
    cases f.add element <;> rfl
  | cons p ps =>
    have hstep : step ⟨some element, f, outer⟩ p = (f.add element).bind (take · outer p) := by
      cases p <;> first | rfl | exact absurd rfl hps
    rw [settled_cons, hstep]
    cases f.add element with
    | none => rfl
    | some g => exact (settled_cons (s := ⟨none, g, outer⟩)).symm

theorem settled_mark : settled ⟨some element, f, outer⟩ (.mark :: ps) =
    (f.add element.asOptional).bind fun f ↦ settled ⟨none, f, outer⟩ ps := by
  rw [settled_cons, step, settle]
  cases f.add element.asOptional <;> rfl

theorem settled_of_settle (h : s.settle = some ⟨none, g, outer⟩) (hps : .mark ∉ ps.head?) :
    s.settled ps = settled ⟨none, g, outer⟩ ps := by
  obtain ⟨_ | element, f, outer'⟩ := s
  · cases Option.some.inj h
    rfl
  · rw [settle, Option.map_eq_some_iff] at h
    obtain ⟨g', hadd, heq⟩ := h
    cases heq
    rw [settled_some hps, hadd]
    rfl

/-- Pieces that are followed by other ones than a question mark. -/
theorem settled_append (h : s.settled ps = some ⟨none, g, outer⟩) (hqs : .mark ∉ qs.head?) :
    s.settled (ps ++ qs) = settled ⟨none, g, outer⟩ qs := by
  rw [settled, Option.bind_eq_some_iff] at h
  obtain ⟨s', hrun, hsettle⟩ := h
  rw [settled, List.foldlM_append]
  change ((ps.foldlM step s).bind fun s ↦ qs.foldlM step s).bind settle = _
  rw [hrun]
  exact settled_of_settle hsettle hqs

/-- Blanks do nothing where no element has just ended. -/
theorem settled_blanks (n : Nat) :
    settled ⟨none, f, outer⟩ (List.replicate n .blank ++ ps) = settled ⟨none, f, outer⟩ ps := by
  induction n with
  | zero => rfl
  | succ n ih =>
    rw [List.replicate_succ, List.cons_append, settled_cons]
    exact ih

end Stack

/-! ## Steps of the reader -/

theorem skipBlanks_append {blanks : List Char} (hblanks : ∀ c ∈ blanks, Text.isBlank c = true)
    (hcs : ∀ c ∈ cs.head?, Text.isBlank c = false) :
    (discard (takeWhile Text.isBlank) : ReadM PUnit) ⟨blanks ++ cs, pos⟩ =
      .ok ⟨⟩ ⟨cs, pos + blanks.length⟩ :=
  discard_run (takeWhile_append hblanks hcs)

theorem skipBlanks_none (hcs : ∀ c ∈ cs.head?, Text.isBlank c = false) :
    (discard (takeWhile Text.isBlank) : ReadM PUnit) ⟨cs, pos⟩ = .ok ⟨⟩ ⟨cs, pos⟩ :=
  skipBlanks_append (List.forall_mem_nil _) hcs

/-- Blanks are skipped first. -/
theorem readSequence_blanks {blanks : List Char} (hblanks : ∀ c ∈ blanks, Text.isBlank c = true)
    (hcs : ∀ c ∈ cs.head?, Text.isBlank c = false) :
    readSequence (fuel + 1) depth elements choosing ⟨blanks ++ cs, pos⟩ =
      readSequence (fuel + 1) depth elements choosing ⟨cs, pos + blanks.length⟩ := by
  rw [readSequence.eq_def]
  refine (bind_eq_of_ok (skipBlanks_append hblanks hcs)).trans ?_
  symm
  exact bind_eq_of_ok (skipBlanks_none hcs)

theorem readSequence_nil : readSequence (fuel + 1) depth elements choosing ⟨[], pos⟩ =
    (do
      if 0 < depth then throw "unclosed group, expected ')'"
      finish elements choosing : ReadM (List Element)) ⟨[], pos⟩ := by
  rw [readSequence.eq_def]
  exact bind_eq_of_ok (skipBlanks_none (by simp))

theorem readSequence_closing : readSequence (fuel + 1) depth elements choosing ⟨')' :: cs, pos⟩ =
    (do
      if depth = 0 then throw "unmatched ')'"
      pass 1
      finish elements choosing : ReadM (List Element)) ⟨')' :: cs, pos⟩ := by
  rw [readSequence.eq_def]
  exact bind_eq_of_ok (skipBlanks_none (by simp; decide))

theorem readSequence_bar : readSequence (fuel + 1) depth elements choosing ⟨'|' :: cs, pos⟩ =
    (do
      if elements.isEmpty || choosing then throw "'|' needs a match on its left"
      pass 1
      readSequence fuel depth elements true : ReadM (List Element)) ⟨'|' :: cs, pos⟩ := by
  rw [readSequence.eq_def]
  exact bind_eq_of_ok (skipBlanks_none (by simp; decide))

theorem readSequence_mark : readSequence (fuel + 1) depth elements choosing ⟨'?' :: cs, pos⟩ =
    (match elements, choosing with
      | last :: elements, false => do
        pass 1
        readSequence fuel depth (last.asOptional :: elements) false
      | _, _ => throw "'?' must follow a match" : ReadM (List Element)) ⟨'?' :: cs, pos⟩ := by
  rw [readSequence.eq_def]
  exact bind_eq_of_ok (skipBlanks_none (by simp; decide))

theorem readSequence_opening : readSequence (fuel + 1) depth elements choosing ⟨'(' :: cs, pos⟩ =
    (do
      let inner ← readSequence fuel (depth + 1) [] false
      let element ← withMark (← groupOf inner)
      readSequence fuel depth (← append elements choosing element) false : ReadM (List Element))
        ⟨cs, pos + 1⟩ := by
  rw [readSequence.eq_def]
  exact bind_eq_of_ok (skipBlanks_none (by simp; decide))

theorem readSequence_leaf (hc : endsWord c = false) :
    readSequence (fuel + 1) depth elements choosing ⟨c :: cs, pos⟩ =
    (do
      let element ← withMark (.leaf (← readLeaf) true)
      readSequence fuel depth (← append elements choosing element) false : ReadM (List Element))
        ⟨c :: cs, pos⟩ := by
  have hnot : ¬ (c = '(' ∨ c = ')' ∨ c = '|' ∨ c = '?' ∨ Text.isBlank c = true) := by
    rw [← endsWord_iff, hc]
    simp
  simp only [not_or, Bool.not_eq_true] at hnot
  obtain ⟨hopening, hclosing, hbar, hmark, hblank⟩ := hnot
  have hcs : ∀ d ∈ (c :: cs).head?, Text.isBlank d = false := fun d hd ↦ Option.some.inj hd ▸ hblank
  rw [readSequence.eq_def]
  refine (bind_eq_of_ok (skipBlanks_none hcs)).trans ?_
  rw [get_bind_run]
  generalize hall : c :: cs = all
  dsimp only
  split
  · cases hall
  · exact absurd (List.cons.inj hall).1 hclosing
  · exact absurd (List.cons.inj hall).1 hbar
  · exact absurd (List.cons.inj hall).1 hmark
  · exact absurd (List.cons.inj hall).1 hopening
  · rfl

theorem append_run : append f.elements f.choosing element r =
    match f.add element with
    | some g => .ok g.elements r
    | none => .error "'|' needs a match on its left" r := by
  obtain ⟨_ | ⟨left, elements⟩, _ | _⟩ := f <;> rfl

theorem add_choosing (h : f.add element = some g) : g.choosing = false := by
  obtain ⟨_ | ⟨left, elements⟩, _ | _⟩ := f <;> cases h <;> rfl

theorem groupOf_run : groupOf out r =
    match Frame.close? ⟨out.reverse, false⟩ with
    | some element => .ok element r
    | none => .error "empty group" r := by
  rw [Frame.close?, if_neg Bool.false_ne_true, List.reverse_reverse]
  rcases out with _ | ⟨a, _ | ⟨b, out⟩⟩ <;> rfl

theorem groupOf_eq_ok_iff : groupOf out r = .ok element r' ↔
    Frame.close? ⟨out.reverse, false⟩ = some element ∧ r = r' := by
  rw [groupOf_run]
  cases Frame.close? ⟨out.reverse, false⟩ with
  | none => simp
  | some made => simp

theorem withMark_mark : withMark element ⟨'?' :: cs, pos⟩ = .ok element.asOptional
    ⟨cs, pos + 1⟩ := by
  rw [withMark, bind_eq_of_ok passIf_cons]
  rfl

theorem withMark_none (h : '?' ∉ cs.head?) :
    withMark element ⟨cs, pos⟩ = .ok element ⟨cs, pos⟩ := by
  rw [withMark, bind_eq_of_ok (passIf_of_ne h)]
  rfl

/-! ## What the reader reads, the stack reads -/

/-- What a sequence leaves unread: nothing, or the parenthesis that closes its group and a rest. -/
def Closes : (depth : Nat) → (tail rest : List Char) → Prop
  | 0, tail, rest => tail = [] ∧ rest = []
  | _ + 1, tail, rest => tail = ')' :: rest

/-- The stack finds what the reader does, up to the end of the group. -/
def Matched (s : List Frame → Stack) (depth : Nat) (cs : List Char) (out : List Element)
    (rest : List Char) :
    Prop :=
  ∃ ps tail, Cut cs ps tail ∧ Closes depth tail rest ∧
    ∀ outer, (s outer).settled ps = some ⟨none, ⟨out.reverse, false⟩, outer⟩

theorem Cut.head_mark {tail : List Char} (h : Cut cs (.mark :: ps) tail) : '?' ∈ cs.head? := by
  cases h with
  | sign hp =>
    cases hp
    rfl

theorem exists_add
    (h : (do readSequence fuel depth (← append f.elements f.choosing element) false : ReadM
      (List Element)) r =
      .ok out r') :
    ∃ g, f.add element = some g ∧ readSequence fuel depth g.elements g.choosing r = .ok out r' := by
  obtain ⟨elements, r₁, happend, hread⟩ := bind_eq_ok_iff.mp h
  rw [append_run] at happend
  cases hadd : f.add element with
  | none =>
    rw [hadd] at happend
    cases happend
  | some g =>
    rw [hadd] at happend
    cases happend
    exact ⟨g, rfl, add_choosing hadd ▸ hread⟩

/-- A question mark directly behind an element is taken in the same way. -/
theorem matched_atom
    (h : (do
      let element ← withMark element
      readSequence fuel depth (← append f.elements f.choosing element) false : ReadM (List Element))
        ⟨cs, pos⟩ = .ok out r')
    (ih : ∀ {g : Frame} {cs : List Char} {pos : Nat},
      readSequence fuel depth g.elements g.choosing ⟨cs, pos⟩ = .ok out r' →
        Matched (⟨none, g, ·⟩) depth cs out r'.rest) :
    Matched (⟨some element, f, ·⟩) depth cs out r'.rest := by
  by_cases hmark : '?' ∈ cs.head?
  · obtain ⟨cs, rfl⟩ := List.head?_eq_some_iff.mp hmark
    rw [bind_eq_of_ok withMark_mark] at h
    obtain ⟨g, hadd, hread⟩ := exists_add h
    obtain ⟨ps, tail, hcut, hcloses, hrun⟩ := ih hread
    refine ⟨.mark :: ps, tail, .sign rfl hcut, hcloses, fun outer ↦ ?_⟩
    rw [Stack.settled_mark, hadd]
    exact hrun outer
  · rw [bind_eq_of_ok (withMark_none hmark)] at h
    obtain ⟨g, hadd, hread⟩ := exists_add h
    obtain ⟨ps, tail, hcut, hcloses, hrun⟩ := ih hread
    refine ⟨ps, tail, hcut, hcloses, fun outer ↦ ?_⟩
    have hps : .mark ∉ ps.head? := by
      intro hps
      obtain ⟨ps, rfl⟩ := List.head?_eq_some_iff.mp hps
      exact hmark hcut.head_mark
    rw [Stack.settled_some hps, hadd]
    exact hrun outer

/-- Where the group ends there is nothing left to do. -/
theorem matched_end {tail : List Char} (h : Closes depth tail rest) :
    Matched (⟨none, ⟨elements, false⟩, ·⟩) depth tail elements.reverse rest :=
  ⟨[], tail, .nil _, h, fun outer ↦ by rw [List.reverse_reverse]; rfl⟩

theorem Matched.blanks {blanks : List Char} (hblanks : ∀ c ∈ blanks, Text.isBlank c = true)
    (h : Matched (⟨none, f, ·⟩) depth cs out rest) :
    Matched (⟨none, f, ·⟩) depth (blanks ++ cs) out rest := by
  obtain ⟨ps, tail, hcut, hcloses, hrun⟩ := h
  refine ⟨_, tail, (Cut.blanks hblanks).append hcut, hcloses, fun outer ↦ ?_⟩
  rw [Stack.settled_blanks]
  exact hrun outer

theorem Matched.leaf {l : Leaf} {written : List Char} (hl : Spells written l) (hstops : Stops l cs)
    (h : Matched (⟨some (.leaf l true), f, ·⟩) depth cs out rest) :
    Matched (⟨none, f, ·⟩) depth (written ++ cs) out rest := by
  obtain ⟨ps, tail, hcut, hcloses, hrun⟩ := h
  exact ⟨.leaf l :: ps, tail, .leaf hl hstops hcut, hcloses, hrun⟩

/-- A mark of the pattern language is one step of the stack. -/
theorem Matched.sign {s s' : List Frame → Stack} (hp : p.sign? = some c)
    (hstep : ∀ outer, (s outer).step p = some (s' outer)) (h : Matched s' depth cs out rest) :
    Matched s depth (c :: cs) out rest := by
  obtain ⟨ps, tail, hcut, hcloses, hrun⟩ := h
  refine ⟨p :: ps, tail, .sign hp hcut, hcloses, fun outer ↦ ?_⟩
  rw [Stack.settled_cons, hstep]
  exact hrun outer

/-- A group is one element of the frame around it. -/
theorem Matched.group {inner : List Element} {more : List Char}
    (hinner : Matched (⟨none, .empty, ·⟩) (depth + 1) cs inner more)
    (hclose : Frame.close? ⟨inner.reverse, false⟩ = some element)
    (h : Matched (⟨some element, f, ·⟩) depth more out rest) :
    Matched (⟨none, f, ·⟩) depth ('(' :: cs) out rest := by
  obtain ⟨ps, _, hcut, rfl, hrun⟩ := hinner
  obtain ⟨qs, tail, hmore, hcloses, hlast⟩ := h
  refine ⟨.opening :: (ps ++ .closing :: qs), tail, .sign rfl (hcut.append (.sign rfl hmore)),
    hcloses, fun outer ↦ ?_⟩
  rw [Stack.settled_cons, Stack.step, Stack.take, Option.bind_some,
    Stack.settled_append (hrun _) (by simp), Stack.settled_cons, Stack.step, Stack.take, hclose]
  exact hlast outer

/-- **What the reader reads, the stack reads.** -/
theorem matched_of_readSequence
    (h : readSequence fuel depth f.elements f.choosing ⟨cs, pos⟩ = .ok out r') :
    Matched (⟨none, f, ·⟩) depth cs out r'.rest := by
  -- on the rounds of the reader: each one cuts the pieces up to the next element
  induction fuel generalizing depth f cs pos out r' with
  | zero => cases h
  | succ fuel ih =>
    obtain ⟨blanks, cs, rfl, hblanks, hcs, -⟩ := exists_takeWhile Text.isBlank cs pos
    rw [readSequence_blanks hblanks hcs] at h
    refine .blanks hblanks ?_
    obtain ⟨elements, choosing⟩ := f
    dsimp only at h
    cases cs with
    | nil =>
      rw [readSequence_nil] at h
      cases depth with
      | succ depth => cases h
      | zero =>
        cases choosing with
        | true => cases h
        | false =>
          cases h
          exact matched_end ⟨rfl, rfl⟩
    | cons c cs =>
      by_cases hc : endsWord c = false
      · rw [readSequence_leaf hc] at h
        obtain ⟨l, r₁, hleaf, hread⟩ := bind_eq_ok_iff.mp h
        obtain ⟨written, rest, hsplit, hspells, hstops, rfl⟩ := exists_readLeaf hleaf
        rw [hsplit]
        exact .leaf hspells hstops (matched_atom (f := ⟨elements, choosing⟩) hread ih)
      · rcases endsWord_iff.mp (by simpa using hc) with rfl | rfl | rfl | rfl | hblank
        · rw [readSequence_opening] at h
          obtain ⟨inner, r₁, hinner, hrest⟩ := bind_eq_ok_iff.mp h
          obtain ⟨element, r₂, hgroup, hread⟩ := bind_eq_ok_iff.mp hrest
          obtain ⟨hclose, rfl⟩ := groupOf_eq_ok_iff.mp hgroup
          exact (ih (f := .empty) hinner).group hclose
            (matched_atom (f := ⟨elements, choosing⟩) hread ih)
        · rw [readSequence_closing] at h
          cases depth with
          | zero => cases h
          | succ depth =>
            cases choosing with
            | true => cases h
            | false =>
              cases h
              exact matched_end rfl
        · rw [readSequence_bar] at h
          by_cases hbar : (elements.isEmpty || choosing) = true
          · rw [if_pos hbar] at h
            cases h
          · rw [if_neg hbar] at h
            have hstep (outer : List Frame) : Stack.step ⟨none, ⟨elements, choosing⟩, outer⟩ .bar =
                some ⟨none, ⟨elements, true⟩, outer⟩ := if_neg hbar
            exact .sign rfl hstep (ih (f := ⟨elements, true⟩) h)
        · rw [readSequence_mark] at h
          obtain _ | ⟨last, elements⟩ := elements
          · cases h
          cases choosing with
          | true => cases h
          | false =>
            exact .sign (p := .mark) rfl (fun _ ↦ rfl)
              (ih (f := ⟨last.asOptional :: elements, false⟩) h)
        · exact absurd (hblank.symm.trans (hcs c rfl)) (by simp)

/-! ## What the stack reads, the reader reads -/

/-- What is left to do where a group ends: the group is an element of the frame around it, and the
stack goes on from there. -/
def Left (final : List Element) : (outer : List Frame) → (out : List Element) →
    (rest : List Char) → Prop
  | [], out, rest => rest = [] ∧ out = final.reverse
  | around :: outer, out, rest => ∃ element ps, Frame.close? ⟨out.reverse, false⟩ = some element ∧
      Cut rest ps [] ∧
      Stack.settled ⟨some element, around, outer⟩ ps = some ⟨none, ⟨final, false⟩, []⟩

/-- The reader reads up to the end of the group, and the stack goes on from there. -/
def Resumes (final : List Element) (outer : List Frame) (x : ReadM (List Element))
    (cs : List Char) : Prop :=
  ∀ pos, ∃ out rest pos', x ⟨cs, pos⟩ = .ok out ⟨rest, pos'⟩ ∧ rest.length ≤ cs.length ∧
  Left final outer out rest

variable {final : List Element}

theorem Cut.exists_of_mark (h : Cut cs (.mark :: ps) []) :
    ∃ more, cs = '?' :: more ∧ Cut more ps [] := by
  cases h with
  | sign hp h =>
    cases hp
    exact ⟨_, rfl, h⟩

/-- Reading goes on as from a later place. -/
theorem Resumes.of_later {x y : ReadM (List Element)} {more : List Char}
    (h : Resumes final outer y more) (hle : more.length ≤ cs.length)
    (hread : ∀ pos, ∃ pos', x ⟨cs, pos⟩ = y ⟨more, pos'⟩) : Resumes final outer x cs := by
  intro pos
  obtain ⟨pos₁, heq⟩ := hread pos
  obtain ⟨out, rest, pos', hout, hless, hleft⟩ := h pos₁
  exact ⟨out, rest, pos', heq.trans hout, hless.trans hle, hleft⟩

/-- With this much fuel, what the stack reads from some frame on is read by the reader. -/
def ResumesAll (final : List Element) (outer : List Frame) (fuel depth : Nat) : Prop :=
  ∀ ⦃f : Frame⦄ ⦃cs : List Char⦄ ⦃ps : List Piece⦄, cs.length < fuel → Cut cs ps [] →
    Stack.settled ⟨none, f, outer⟩ ps = some ⟨none, ⟨final, false⟩, []⟩ →
      Resumes final outer (readSequence fuel depth f.elements f.choosing) cs

/-- A question mark directly behind an element is read in the same way. -/
theorem ResumesAll.atom (h : ResumesAll final outer fuel depth) (hfuel : cs.length < fuel)
    (hcut : Cut cs ps [])
    (hrun : Stack.settled ⟨some element, f, outer⟩ ps = some ⟨none, ⟨final, false⟩, []⟩) :
    Resumes final outer (do
      let element ← withMark element
      readSequence fuel depth (← append f.elements f.choosing element) false) cs := by
  by_cases hmark : .mark ∈ ps.head?
  · obtain ⟨ps, rfl⟩ := List.head?_eq_some_iff.mp hmark
    obtain ⟨more, rfl, hmore⟩ := hcut.exists_of_mark
    rw [Stack.settled_mark, Option.bind_eq_some_iff] at hrun
    obtain ⟨g, hadd, hrun⟩ := hrun
    refine (h (Nat.lt_of_succ_lt hfuel) hmore hrun).of_later (Nat.le_succ _) fun pos ↦
      ⟨pos + 1, ?_⟩
    rw [bind_eq_of_ok withMark_mark, bind_eq_of_ok (append_run.trans (by rw [hadd])),
      ← add_choosing hadd]
  · rw [Stack.settled_some hmark, Option.bind_eq_some_iff] at hrun
    obtain ⟨g, hadd, hrun⟩ := hrun
    have hhead : '?' ∉ cs.head? := by
      intro hhead
      obtain ⟨more, rfl⟩ := List.head?_eq_some_iff.mp hhead
      obtain ⟨qs, rfl, -⟩ := hcut.cons_sign_inv (p := .mark) rfl
      exact hmark rfl
    refine (h hfuel hcut hrun).of_later (Nat.le_refl _) fun pos ↦ ⟨pos, ?_⟩
    rw [bind_eq_of_ok (withMark_none hhead), bind_eq_of_ok (append_run.trans (by rw [hadd])),
      ← add_choosing hadd]

theorem ResumesAll.leaf (h : ResumesAll final outer fuel depth) {l : Leaf} {written : List Char}
    (hfuel : (written ++ cs).length < fuel + 1) (hl : Spells written l) (hstops : Stops l cs)
    (hcut : Cut cs ps [])
    (hrun : Stack.settled ⟨some (.leaf l true), f, outer⟩ ps =
      some ⟨none, ⟨final, false⟩, []⟩) :
    Resumes final outer (readSequence (fuel + 1) depth f.elements f.choosing) (written ++ cs) := by
  obtain ⟨c, tail, rfl, hc⟩ := hl.exists_cons
  rw [List.length_append, List.length_cons] at hfuel
  refine (h.atom (by omega) hcut hrun).of_later ?_ fun pos ↦ ⟨pos + (c :: tail).length, ?_⟩
  · rw [List.length_append]
    exact Nat.le_add_left ..
  · rw [List.cons_append, readSequence_leaf hc, ← List.cons_append,
      bind_eq_of_ok (readLeaf_spells hl hstops)]

/-- A group is read by a reader one level deeper, and is an element of the frame around it. -/
theorem ResumesAll.group (h : ResumesAll final outer fuel depth)
    (hinner : ResumesAll final (f :: outer) fuel (depth + 1)) (hfuel : cs.length < fuel)
    (hcut : Cut cs ps [])
    (hrun : Stack.settled ⟨none, .empty, f :: outer⟩ ps = some ⟨none, ⟨final, false⟩, []⟩) :
    Resumes final outer (readSequence (fuel + 1) depth f.elements f.choosing) ('(' :: cs) := by
  intro pos
  have hread₁ : Resumes final (f :: outer) (readSequence fuel (depth + 1) [] false) cs :=
    hinner hfuel hcut hrun
  obtain ⟨inner, rest₁, pos₁, hread₁, hle₁, element, qs, hclose, hcut₁, hrun₁⟩ :=
    hread₁ (pos + 1)
  obtain ⟨out, rest, pos', hread, hle, hleft⟩ :=
    h.atom (Nat.lt_of_le_of_lt hle₁ hfuel) hcut₁ hrun₁ pos₁
  refine ⟨out, rest, pos', ?_, (hle.trans hle₁).trans (Nat.le_succ _), hleft⟩
  rw [readSequence_opening, bind_eq_of_ok hread₁,
    bind_eq_of_ok (groupOf_run.trans (by rw [hclose]))]
  exact hread

/-- Where a group ends, the stack goes on in the frame around it. -/
theorem resumes_closing (hdepth : outer.length = depth) (hcut : Cut cs ps [])
    (hrun : Stack.settled ⟨none, f, outer⟩ (.closing :: ps) = some ⟨none, ⟨final, false⟩, []⟩) :
    Resumes final outer (readSequence (fuel + 1) depth f.elements f.choosing) (')' :: cs) := by
  intro pos
  rw [Stack.settled_cons, Option.bind_eq_some_iff] at hrun
  obtain ⟨s, hstep, hrun⟩ := hrun
  obtain ⟨elements, choosing⟩ := f
  cases outer with
  | nil => cases hstep
  | cons around outer =>
    cases choosing with
    | true => cases hstep
    | false =>
      obtain ⟨element, hclose, rfl⟩ := Option.map_eq_some_iff.mp hstep
      subst hdepth
      rw [readSequence_closing]
      exact ⟨elements.reverse, cs, pos + 1, rfl, Nat.le_succ _, element, ps,
        by rwa [List.reverse_reverse], hcut, hrun⟩

/-- **What the stack reads, the reader reads.** -/
theorem resumesAll (hdepth : outer.length = depth) : ResumesAll final outer fuel depth := by
  -- on the characters: a piece that is not a blank takes one round of the reader
  induction fuel generalizing depth outer with
  | zero => exact fun _ _ _ hfuel ↦ absurd hfuel (Nat.not_lt_zero _)
  | succ fuel ih =>
    intro f cs ps hfuel hcut hrun
    obtain ⟨blanks, solid, rfl, hblanks, hsolid, -⟩ := exists_takeWhile Text.isBlank cs 0
    obtain ⟨ps, rfl, hpieces⟩ := (Cut.blanks hblanks).unique hcut
    rw [Stack.settled_blanks] at hrun
    rw [List.length_append] at hfuel
    suffices hread : Resumes final outer
        (readSequence (fuel + 1) depth f.elements f.choosing) solid by
      refine hread.of_later ?_ fun pos ↦ ⟨_, readSequence_blanks hblanks hsolid⟩
      rw [List.length_append]
      exact Nat.le_add_left ..
    have hshort : solid.length < fuel + 1 := by omega
    obtain ⟨elements, choosing⟩ := f
    generalize hend : ([] : List Char) = tail at hpieces
    cases hpieces with
    | nil =>
      subst hend
      cases hrun
      cases hdepth
      intro pos
      rw [readSequence_nil]
      exact ⟨_, [], pos, rfl, Nat.le_refl _, rfl, rfl⟩
    | blank hc => exact absurd (hc.symm.trans (hsolid _ rfl)) (by simp)
    | leaf hl hstops h =>
      subst hend
      exact (ih hdepth).leaf (f := ⟨elements, choosing⟩) hshort hl hstops h hrun
    | @sign p c more _ ps hp h =>
      subst hend
      have hmore : more.length < fuel := Nat.lt_of_succ_lt_succ hshort
      cases p with
      | blank | leaf => cases hp
      | opening =>
        cases hp
        have hinner : outer.length + 1 = depth + 1 := congrArg (· + 1) hdepth
        exact (ih hdepth).group (f := ⟨elements, choosing⟩) (ih hinner) hmore h hrun
      | closing =>
        cases hp
        exact resumes_closing (f := ⟨elements, choosing⟩) hdepth h hrun
      | bar =>
        cases hp
        rw [Stack.settled_cons, Option.bind_eq_some_iff] at hrun
        obtain ⟨s, hstep, hrun⟩ := hrun
        by_cases hbar : (elements.isEmpty || choosing) = true
        · rw [Stack.step, Stack.take, if_pos hbar] at hstep
          cases hstep
        · rw [Stack.step, Stack.take, if_neg hbar] at hstep
          cases hstep
          refine (ih hdepth hmore h hrun).of_later (Nat.le_succ _) fun pos ↦ ⟨pos + 1, ?_⟩
          rw [readSequence_bar, if_neg hbar]
          rfl
      | mark =>
        cases hp
        rw [Stack.settled_cons, Option.bind_eq_some_iff] at hrun
        obtain ⟨s, hstep, hrun⟩ := hrun
        obtain _ | ⟨last, elements⟩ := elements
        · cases hstep
        cases choosing with
        | true => cases hstep
        | false =>
          cases hstep
          refine (ih hdepth hmore h hrun).of_later (Nat.le_succ _) fun pos ↦ ⟨pos + 1, ?_⟩
          rw [readSequence_mark]
          rfl

/-- **Patterns, piece by piece.** A pattern compiles exactly if it can be cut into pieces of which
the stack makes elements, and then it compiles to these. -/
theorem compile_eq_ok_iff {pattern : String} :
    compile pattern = .ok elements ↔ ∃ ps, Cut pattern.toList ps [] ∧ Makes ps elements := by
  have hcompile : compile pattern = .ok elements ↔ ∃ r,
      readSequence (pattern.toList.length + 1) 0 [] false ⟨pattern.toList, 0⟩ = .ok elements r ∧
        elements ≠ [] := by
    rw [compile]
    cases hread : readSequence (pattern.toList.length + 1) 0 [] false ⟨pattern.toList, 0⟩ with
    | error message r =>
      rw [bind_eq_of_error hread]
      simp
    | ok out r =>
      rw [bind_eq_of_ok hread]
      cases out with
      | nil =>
        refine iff_of_false (fun h ↦ by cases h) ?_
        rintro ⟨r', h, hne⟩
        cases h
        exact hne rfl
      | cons element out =>
        constructor
        · intro h
          cases h
          exact ⟨r, rfl, by simp⟩
        · rintro ⟨r', h, -⟩
          cases h
          rfl
  rw [hcompile]
  constructor
  · rintro ⟨r, hread, hne⟩
    obtain ⟨ps, tail, hcut, ⟨rfl, -⟩, hrun⟩ := matched_of_readSequence (f := .empty) hread
    exact ⟨ps, hcut, hrun [], hne⟩
  · rintro ⟨ps, hcut, hrun, hne⟩
    obtain ⟨out, rest, pos, hread, -, rfl, hout⟩ :=
      resumesAll rfl (f := .empty) (Nat.lt_succ_self _) hcut hrun 0
    rw [List.reverse_reverse] at hout
    exact ⟨_, hout ▸ hread, hne⟩

end ScriptFront.Pattern
