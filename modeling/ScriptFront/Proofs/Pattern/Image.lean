import Mathlib.Data.List.DropRight
import ScriptFront.Proofs.Pattern.Frames

/-!
# What patterns compile to

A pattern compiles to elements of a certain form, `Element.IsWellFormed`: no group of less than two
elements, no empty word, captures with names, and spellings that can stand between bars. All
elements of this form are what some pattern compiles to. So the form is exactly that of the elements
that patterns compile to, which is `exists_compile_iff`.

In one direction, every piece keeps a stack of elements of this form. In the other direction,
elements are written out: words with a backslash in front of every character, choices in
parentheses, blanks behind every element, and a question mark directly behind whatever is optional.
-/

namespace ScriptFront

namespace Pattern

/-! ## Elements that patterns compile to -/

/-- A name of a capture. -/
structure IsCaptureName (name : String) : Prop where
  /-- It is not empty. -/
  ne_nil : name.toList ≠ []
  /-- It consists of characters of names. -/
  chars : ∀ c ∈ name.toList, Text.isNameChar c = true

/-- A spelling that can stand between the bars of a capture. -/
structure IsAlternative (value : String) : Prop where
  /-- It is not empty. -/
  ne_nil : value.toList ≠ []
  /-- No blanks stand at its ends. -/
  trimmed : Text.trim value.toList = value.toList
  /-- It holds no bar. -/
  no_bar : '|' ∉ value.toList
  /-- It holds no closing parenthesis. -/
  no_paren : ')' ∉ value.toList

end Pattern

open Pattern

/-- A leaf that can be written. -/
def Leaf.IsWellFormed : Leaf → Prop
  | .literal text => text.toList ≠ []
  | .typed name _ => IsCaptureName name
  | .oneOf name values => IsCaptureName name ∧ values ≠ [] ∧ ∀ value ∈ values, IsAlternative value
  | .sameAs name => IsCaptureName name

mutual

/-- An element that can be written: its groups have at least two elements, and its leaves can be
written. -/
def Element.IsWellFormed : Element → Prop
  | .leaf l _ => l.IsWellFormed
  | .group elements _ => 2 ≤ elements.length ∧ AllWellFormed elements
  | .either left right _ => left.IsWellFormed ∧ right.IsWellFormed

/-- All elements of a list can be written. -/
def AllWellFormed : List Element → Prop
  | [] => True
  | element :: elements => element.IsWellFormed ∧ AllWellFormed elements

end

theorem allWellFormed_iff {elements : List Element} :
    AllWellFormed elements ↔ ∀ element ∈ elements, element.IsWellFormed := by
  induction elements with
  | nil => simp [AllWellFormed]
  | cons element elements ih => rw [AllWellFormed, ih, List.forall_mem_cons]

theorem Element.IsWellFormed.asOptional {element : Element} (h : element.IsWellFormed) :
    element.asOptional.IsWellFormed := by
  cases element <;> exact h

namespace Pattern

/-! ## What is compiled is well-formed -/

variable {l : Leaf} {p : Piece} {ps : List Piece} {f g : Frame} {outer : List Frame} {s s' : Stack}
  {element : Element} {elements : List Element} {cs rest written : List Char} {c : Char}

/-- What stands between separators holds none. -/
theorem not_mem_of_mem_splitOn {part : List Char} (h : part ∈ cs.splitOn c) :
    c ∉ part ∧ part ⊆ cs := by
  induction cs generalizing part with
  | nil =>
    obtain rfl : part = [] := by simpa using h
    simp
  | cons d cs ih =>
    obtain ⟨first, parts, hparts⟩ := List.exists_cons_of_ne_nil (List.splitOn_ne_nil c cs)
    rw [hparts] at ih
    rw [List.splitOn_cons_eq_if_modifyHead, hparts] at h
    split at h
    · rcases List.mem_cons.mp h with rfl | h
      · simp
      · exact (ih h).imp_right fun hsub ↦ List.subset_cons_of_subset _ hsub
    · next hne =>
      rw [List.modifyHead_cons] at h
      rcases List.mem_cons.mp h with rfl | h
      · obtain ⟨hnot, hsub⟩ := ih List.mem_cons_self
        refine ⟨?_, List.cons_subset_cons d hsub⟩
        rw [List.mem_cons, not_or]
        exact ⟨fun heq ↦ hne (beq_iff_eq.mpr heq.symm), hnot⟩
      · exact (ih (List.mem_cons_of_mem _ h)).imp_right fun hsub ↦ List.subset_cons_of_subset _ hsub

theorem mem_of_mem_trim (h : c ∈ Text.trim cs) : c ∈ cs := by
  rw [Text.trim, List.mem_reverse] at h
  have hfront : c ∈ (cs.dropWhile Text.isBlank).reverse := (List.dropWhile_sublist _).subset h
  exact (List.dropWhile_sublist _).subset (List.mem_reverse.mp hfront)

theorem trim_trim : Text.trim (Text.trim cs) = Text.trim cs := by
  rw [Text.trim, Text.trim]
  generalize hsolid : cs.dropWhile Text.isBlank = solid
  have hhead : solid.dropWhile Text.isBlank = solid := by rw [← hsolid, List.dropWhile_idempotent]
  -- what is left begins as before, and so no more is taken away in front
  obtain ⟨ends, hends⟩ : (solid.reverse.dropWhile Text.isBlank).reverse <+: solid := by
    rw [← List.reverse_suffix, List.reverse_reverse]
    exact List.dropWhile_suffix _
  have hfront : (solid.reverse.dropWhile Text.isBlank).reverse.dropWhile Text.isBlank =
      (solid.reverse.dropWhile Text.isBlank).reverse := by
    rw [List.dropWhile_eq_self_iff]
    intro hlength
    rw [← hends, List.dropWhile_eq_self_iff] at hhead
    have hfirst := hhead (by rw [List.length_append]; omega)
    rwa [List.getElem_append_left hlength] at hfirst
  rw [hfront, List.reverse_reverse, List.dropWhile_idempotent]

theorem isAlternative_of_mem (h : ')' ∉ cs) : ∀ value ∈ alternatives cs, IsAlternative value := by
  intro value hvalue
  obtain ⟨trimmed, htrimmed, hsome⟩ := List.mem_filterMap.mp hvalue
  obtain ⟨part, hpart, rfl⟩ := List.mem_map.mp htrimmed
  obtain ⟨hbar, hsub⟩ := not_mem_of_mem_splitOn hpart
  split at hsome
  · cases hsome
  · next hne =>
    obtain rfl := Option.some.inj hsome
    have hmem {c : Char} (hc : c ∈ Text.trim part) : c ∈ part := mem_of_mem_trim hc
    refine ⟨?_, ?_, ?_, ?_⟩ <;> rw [String.toList_ofList]
    · simpa using hne
    · exact trim_trim
    · exact fun hc ↦ hbar (hmem hc)
    · exact fun hc ↦ h (hsub (hmem hc))

theorem Spells.isWellFormed (h : Spells written l) : l.IsWellFormed := by
  have hname {name : List Char} (hne : name ≠ []) (hchars : ∀ c ∈ name, Text.isNameChar c = true) :
      IsCaptureName (String.ofList name) := by
    refine ⟨?_, ?_⟩ <;> rwa [String.toList_ofList]
  cases h with
  | literal _ hne => rwa [Leaf.IsWellFormed, String.toList_ofList]
  | typed hne hchars => exact hname hne hchars
  | oneOf hne hchars hbody hvalues => exact ⟨hname hne hchars, hvalues, isAlternative_of_mem hbody⟩
  | sameAs hne hchars => exact hname hne hchars

/-- The leaf of a piece can be written. -/
def Piece.IsWellFormed : Piece → Prop
  | .leaf l => l.IsWellFormed
  | _ => True

theorem Cut.isWellFormed (h : Cut cs ps rest) : ∀ p ∈ ps, p.IsWellFormed := by
  induction h with
  | nil => exact List.forall_mem_nil _
  | blank _ _ ih => exact List.forall_mem_cons.mpr ⟨trivial, ih⟩
  | @sign p _ _ _ _ hp _ ih =>
    refine List.forall_mem_cons.mpr ⟨?_, ih⟩
    cases p with
    | leaf => cases hp
    | _ => trivial
  | leaf hl _ _ ih => exact List.forall_mem_cons.mpr ⟨hl.isWellFormed, ih⟩

/-- The elements of a frame can be written. -/
def Frame.IsWellFormed (f : Frame) : Prop := ∀ element ∈ f.elements, element.IsWellFormed

/-- All elements of a stack can be written. -/
structure Stack.IsWellFormed (s : Stack) : Prop where
  /-- The one that has just ended. -/
  atom : ∀ element ∈ s.atom, element.IsWellFormed
  /-- Those of the group that was opened last. -/
  frame : s.frame.IsWellFormed
  /-- Those of the groups around it. -/
  outer : ∀ f ∈ s.outer, f.IsWellFormed

theorem Frame.IsWellFormed.add (h : f.IsWellFormed) (helement : element.IsWellFormed)
    (hadd : f.add element = some g) : g.IsWellFormed := by
  obtain ⟨_ | ⟨left, elements⟩, _ | _⟩ := f <;> cases hadd
  · exact List.forall_mem_singleton.mpr helement
  · exact List.forall_mem_cons.mpr ⟨helement, h⟩
  · obtain ⟨hleft, hrest⟩ := List.forall_mem_cons.mp h
    exact List.forall_mem_cons.mpr ⟨⟨hleft, helement⟩, hrest⟩

/-- A group that is closed has at least two elements. -/
theorem Frame.IsWellFormed.close? (h : f.IsWellFormed) (hclose : f.close? = some element) :
    element.IsWellFormed := by
  have helements : ∀ element ∈ f.elements.reverse, element.IsWellFormed := fun element hmem ↦
    h element (List.mem_reverse.mp hmem)
  rw [Frame.close?] at hclose
  split at hclose
  · cases hclose
  generalize f.elements.reverse = elements at hclose helements
  rcases elements with _ | ⟨first, _ | ⟨second, elements⟩⟩
  · cases hclose
  · cases hclose
    exact helements _ List.mem_cons_self
  · cases hclose
    exact ⟨by simp, allWellFormed_iff.mpr helements⟩

theorem Stack.isWellFormed_add (hf : f.IsWellFormed) (houter : ∀ f ∈ outer, f.IsWellFormed)
    (helement : element.IsWellFormed) (h : (f.add element).map (⟨none, ·, outer⟩) = some s') :
    s'.IsWellFormed := by
  obtain ⟨g, hadd, rfl⟩ := Option.map_eq_some_iff.mp h
  exact ⟨by simp, hf.add helement hadd, houter⟩

theorem Stack.IsWellFormed.settle (h : s.IsWellFormed) (hsettle : s.settle = some s') :
    s'.IsWellFormed := by
  obtain ⟨_ | element, f, outer⟩ := s
  · cases hsettle
    exact h
  · exact isWellFormed_add h.frame h.outer (h.atom element rfl) hsettle

theorem Stack.isWellFormed_take (hf : f.IsWellFormed) (houter : ∀ f ∈ outer, f.IsWellFormed)
    (hp : p.IsWellFormed) (htake : take f outer p = some s') : s'.IsWellFormed := by
  have hnone : ∀ element ∈ (none : Option Element), element.IsWellFormed := by simp
  cases p with
  | blank =>
    cases htake
    exact ⟨hnone, hf, houter⟩
  | leaf l =>
    cases htake
    exact ⟨fun element helement ↦ Option.some.inj helement ▸ hp, hf, houter⟩
  | opening =>
    cases htake
    exact ⟨hnone, List.forall_mem_nil _, List.forall_mem_cons.mpr ⟨hf, houter⟩⟩
  | closing =>
    cases outer with
    | nil => cases htake
    | cons around outer =>
      obtain ⟨haround, houter⟩ := List.forall_mem_cons.mp houter
      obtain ⟨group, hclose, rfl⟩ := Option.map_eq_some_iff.mp htake
      exact ⟨fun element helement ↦ Option.some.inj helement ▸ hf.close? hclose, haround, houter⟩
  | bar =>
    rw [take] at htake
    split at htake
    · cases htake
    · cases htake
      exact ⟨hnone, hf, houter⟩
  | mark =>
    obtain ⟨_ | ⟨last, elements⟩, _ | _⟩ := f <;> cases htake
    obtain ⟨hlast, hrest⟩ := List.forall_mem_cons.mp hf
    exact ⟨hnone, List.forall_mem_cons.mpr ⟨hlast.asOptional, hrest⟩, houter⟩

/-- **No piece brings in an element that cannot be written.** -/
theorem Stack.IsWellFormed.step (h : s.IsWellFormed) (hp : p.IsWellFormed)
    (hstep : s.step p = some s') :
    s'.IsWellFormed := by
  obtain ⟨_ | element, f, outer⟩ := s
  · exact isWellFormed_take h.frame h.outer hp hstep
  have helement := h.atom element rfl
  by_cases hmark : p = .mark
  · subst hmark
    exact isWellFormed_add h.frame h.outer helement.asOptional hstep
  · have hstep' : (f.add element).bind (take · outer p) = some s' := by
      rw [← hstep]
      cases p <;> first | rfl | exact absurd rfl hmark
    obtain ⟨g, hadd, htake⟩ := Option.bind_eq_some_iff.mp hstep'
    exact isWellFormed_take (h.frame.add helement hadd) h.outer hp htake

theorem Stack.IsWellFormed.settled (h : s.IsWellFormed) (hps : ∀ p ∈ ps, p.IsWellFormed)
    (hrun : s.settled ps = some s') : s'.IsWellFormed := by
  induction ps generalizing s with
  | nil => exact h.settle hrun
  | cons p ps ih =>
    obtain ⟨hp, hps⟩ := List.forall_mem_cons.mp hps
    rw [settled_cons, Option.bind_eq_some_iff] at hrun
    obtain ⟨s₁, hstep, hrun⟩ := hrun
    exact ih (h.step hp hstep) hps hrun

theorem Makes.isWellFormed (h : Makes ps elements) (hps : ∀ p ∈ ps, p.IsWellFormed) :
    ∀ element ∈ elements, element.IsWellFormed := by
  have hempty : Stack.IsWellFormed ⟨none, .empty, []⟩ :=
    ⟨by simp, List.forall_mem_nil _, List.forall_mem_nil _⟩
  exact fun element hmem ↦ (hempty.settled hps h.1).frame element (List.mem_reverse.mpr hmem)

end Pattern

/-! ## Elements written out -/

/-- The question mark behind what is optional. -/
def markIf (required : Bool) : List Piece := if required then [] else [.mark]

mutual

/-- An element in pieces. Choices stand in parentheses. -/
def Element.pieces : Element → List Piece
  | .leaf l required => .leaf l :: markIf required
  | .group elements required => .opening :: (piecesOf elements ++ .closing :: markIf required)
  | .either left right required =>
    .opening ::
    (left.pieces ++ .blank :: .bar :: (right.pieces ++ .blank :: .closing :: markIf required))

/-- Elements in pieces, with a blank behind each one. -/
def piecesOf : List Element → List Piece
  | [] => []
  | element :: elements => element.pieces ++ .blank :: piecesOf elements

end

/-- A leaf written out. -/
def Leaf.write : Leaf → List Char
  | .literal text => text.toList.flatMap fun c ↦ ['\\', c]
  | .typed name type => '$' :: (name.toList ++ ':' :: type.name.toList)
  | .oneOf name values =>
    '$' :: (name.toList ++ ':' :: '(' :: (['|'].intercalate (values.map String.toList) ++ [')']))
  | .sameAs name => '#' :: name.toList

namespace Pattern

/-- A piece written out. -/
def Piece.write : Piece → List Char
  | .blank => [' ']
  | .opening => ['(']
  | .closing => [')']
  | .bar => ['|']
  | .mark => ['?']
  | .leaf l => l.write

variable {l : Leaf} {f g : Frame} {outer : List Frame} {element : Element} {elements : List Element}
  {ps qs : List Piece} {cs rest : List Char} {required : Bool} {c : Char}

theorem written_escaped (text : List Char) : Written (text.flatMap fun c ↦ ['\\', c]) text := by
  induction text with
  | nil => exact .nil
  | cons c text ih => exact .escaped c ih

theorem mem_intercalate {sep : List Char} {parts : List (List Char)}
    (h : c ∈ sep.intercalate parts) :
    c ∈ sep ∨ ∃ part ∈ parts, c ∈ part := by
  induction parts with
  | nil => simp at h
  | cons part parts ih =>
    cases parts with
    | nil => exact .inr ⟨part, List.mem_cons_self, by simpa using h⟩
    | cons next parts =>
      rw [List.intercalate_cons_cons, List.append_assoc, List.mem_append, List.mem_append] at h
      rcases h with h | h | h
      · exact .inr ⟨part, List.mem_cons_self, h⟩
      · exact .inl h
      · exact (ih h).imp_right fun ⟨part, hpart, hc⟩ ↦ ⟨part, List.mem_cons_of_mem _ hpart, hc⟩

/-- Spellings that stand between bars are found again. -/
theorem alternatives_intercalate {values : List String} (hne : values ≠ [])
    (hvalues : ∀ value ∈ values, IsAlternative value) :
    alternatives (['|'].intercalate (values.map String.toList)) = values := by
  have hsplit :
      (['|'].intercalate (values.map String.toList)).splitOn '|' = values.map String.toList := by
    refine List.splitOn_intercalate '|' (List.forall_mem_map.mpr fun value hvalue ↦ ?_)
      (by simpa using hne)
    exact (hvalues value hvalue).no_bar
  have hkept : ∀ value ∈ values,
      ((fun v ↦ if v.isEmpty then none else some (String.ofList v)) ∘ Text.trim ∘ String.toList)
      value =
        some value := by
    intro value hvalue
    have hvalue := hvalues value hvalue
    rw [Function.comp_apply, Function.comp_apply, hvalue.trimmed,
      if_neg (by simpa using hvalue.ne_nil), String.ofList_toList]
  rw [alternatives, hsplit, List.map_map, List.filterMap_map, List.filterMap_congr hkept,
    List.filterMap_some]

/-- **A leaf is spelled as it is written.** -/
theorem spells_write (h : l.IsWellFormed) : Spells l.write l := by
  cases l with
  | literal text =>
    obtain ⟨c, more, hmore⟩ := List.exists_cons_of_ne_nil h
    have hdollar : (text.toList.flatMap fun c ↦ ['\\', c]).head? ≠ some '$' := by
      rw [hmore, List.flatMap_cons]
      simp
    have hhash (d : Char) (ds : List Char)
      (heq : (text.toList.flatMap fun c ↦ ['\\', c]) = '#' :: d :: ds) :
        Text.isNameChar d = false := by
      rw [hmore, List.flatMap_cons] at heq
      exact absurd (List.cons.inj heq).1 (by decide)
    have hspells := Spells.literal (written_escaped text.toList) h hdollar hhash
    rwa [String.ofList_toList] at hspells
  | typed name type =>
    have htype : LeafType.ofName? (String.ofList type.name.toList) = some type := by
      cases type <;> decide +kernel
    have hchars : type.name.toList.all isTypeChar = true := by
      cases type <;> decide +kernel
    have hspells := Spells.typed h.ne_nil h.chars (.inl rfl) (List.all_eq_true.mp hchars) htype
    rwa [String.ofList_toList] at hspells
  | oneOf name values =>
    obtain ⟨hname, hne, hvalues⟩ := h
    have halternatives := alternatives_intercalate hne hvalues
    have hparen : ')' ∉ ['|'].intercalate (values.map String.toList) := by
      intro hmem
      rcases mem_intercalate hmem with hmem | ⟨part, hpart, hmem⟩
      · revert hmem
        decide
      · obtain ⟨value, hvalue, rfl⟩ := List.mem_map.mp hpart
        exact (hvalues value hvalue).no_paren hmem
    have hspells := Spells.oneOf hname.ne_nil hname.chars hparen (halternatives.symm ▸ hne)
    rwa [String.ofList_toList, halternatives] at hspells
  | sameAs name =>
    have hspells := Spells.sameAs h.ne_nil h.chars
    rwa [String.ofList_toList] at hspells

/-! ## What is written is cut into its pieces -/

theorem separates_cons_blank : Separates (' ' :: cs) := fun c hc ↦ by
  obtain rfl := Option.some.inj hc
  exact .inr (by decide)

theorem separates_markIf (h : Separates cs) :
    Separates ((markIf required).flatMap Piece.write ++ cs) := by
  cases required with
  | true => exact h
  | false =>
    intro c hc
    obtain rfl := Option.some.inj hc
    exact .inl rfl

theorem cut_markIf (h : Cut cs ps rest) :
    Cut ((markIf required).flatMap Piece.write ++ cs) (markIf required ++ ps) rest := by
  cases required with
  | true => exact h
  | false => exact .sign rfl h

mutual

/-- An element that is written out is cut into its pieces. -/
theorem cut_pieces {cs rest : List Char} {ps : List Piece} :
    ∀ element : Element, element.IsWellFormed → Separates cs → Cut cs ps rest →
      Cut (element.pieces.flatMap Piece.write ++ cs) (element.pieces ++ ps) rest
  | .leaf l required, h, hcs, hcut => by
    rw [Element.pieces, List.flatMap_cons, List.append_assoc, List.cons_append]
    exact .leaf (spells_write h) (stops_separates (separates_markIf hcs)) (cut_markIf hcut)
  | .group elements required, h, hcs, hcut => by
    rw [Element.pieces, List.flatMap_cons, List.flatMap_append, List.append_assoc,
      List.append_assoc, List.cons_append, List.append_assoc]
    exact .sign rfl (cut_piecesOf elements h.2 (.sign rfl (cut_markIf hcut)))
  | .either left right required, h, hcs, hcut => by
    simp only [Element.pieces, List.flatMap_cons, List.flatMap_append, List.append_assoc,
      List.cons_append]
    exact .sign rfl (cut_pieces left h.1 separates_cons_blank (.blank (by decide) (.sign rfl
      (cut_pieces right h.2 separates_cons_blank
        (.blank (by decide) (.sign rfl (cut_markIf hcut)))))))

/-- So are elements with blanks behind them. -/
theorem cut_piecesOf {cs rest : List Char} {ps : List Piece} :
    ∀ elements : List Element, AllWellFormed elements → Cut cs ps rest →
      Cut ((piecesOf elements).flatMap Piece.write ++ cs) (piecesOf elements ++ ps) rest
  | [], _, hcut => hcut
  | element :: elements, h, hcut => by
    rw [piecesOf, List.flatMap_append, List.append_assoc, List.append_assoc]
    exact cut_pieces element h.1 separates_cons_blank
      (.blank (by decide) (cut_piecesOf elements h.2 hcut))

end

/-! ## The pieces make the elements -/

/-- An element that may be optional, with a blank behind it. -/
theorem settled_markIf (hadd : f.add (if required then element else element.asOptional) = some g) :
    Stack.settled ⟨some element, f, outer⟩ (markIf required ++ .blank :: ps) =
      Stack.settled ⟨none, g, outer⟩ ps := by
  cases required with
  | true =>
    have hplain : f.add element = some g := hadd
    rw [markIf, if_pos rfl, List.nil_append, Stack.settled_some (by simp), hplain]
    rfl
  | false =>
    have hoptional : f.add element.asOptional = some g := hadd
    rw [markIf, if_neg Bool.false_ne_true, List.singleton_append, Stack.settled_mark, hoptional]
    rfl

/-- A group of two elements or more is closed as a group. -/
theorem close?_reverse (h : 2 ≤ elements.length) :
    Frame.close? ⟨elements.reverse, false⟩ = some (.group elements true) := by
  rw [Frame.close?, if_neg Bool.false_ne_true, List.reverse_reverse]
  rcases elements with _ | ⟨first, _ | ⟨second, elements⟩⟩
  · simp at h
  · simp at h
  · rfl

mutual

/-- The pieces of an element make it. -/
theorem settled_pieces {f g : Frame} {outer : List Frame} {ps : List Piece} :
    ∀ element : Element, element.IsWellFormed → f.add element = some g →
      Stack.settled ⟨none, f, outer⟩ (element.pieces ++ .blank :: ps) = Stack.settled
        ⟨none, g, outer⟩ ps
  | .leaf l required, h, hadd => by
    have hmade :
        f.add (if required then .leaf l true else (Element.leaf l true).asOptional) = some g := by
      cases required <;> exact hadd
    rw [Element.pieces, List.cons_append, Stack.settled_cons]
    exact settled_markIf hmade
  | .group elements required, h, hadd => by
    have hmade :
        f.add (if required then .group elements true
          else (Element.group elements true).asOptional) =
        some g := by
      cases required <;> exact hadd
    have hinner : Stack.settled ⟨none, .empty, f :: outer⟩
        (piecesOf elements ++ .closing :: (markIf required ++ .blank :: ps)) =
          Stack.settled ⟨none, ⟨elements.reverse ++ [], false⟩, f :: outer⟩ _ :=
          settled_piecesOf elements h.2
    rw [Element.pieces, List.cons_append, List.append_assoc, List.cons_append, Stack.settled_cons]
    refine hinner.trans ?_
    rw [List.append_nil, Stack.settled_cons, Stack.step, Stack.take, close?_reverse h.1]
    exact settled_markIf hmade
  | .either left right required, h, hadd => by
    have hmade : f.add (if required then .either left right true
        else (Element.either left right true).asOptional) = some g := by
      cases required <;> exact hadd
    simp only [Element.pieces, List.append_assoc, List.cons_append]
    rw [Stack.settled_cons]
    refine (settled_pieces left h.1 rfl).trans ?_
    rw [Stack.settled_cons]
    refine (settled_pieces right h.2 rfl).trans ?_
    rw [Stack.settled_cons]
    exact settled_markIf hmade

/-- The pieces of elements make these. -/
theorem settled_piecesOf {done : List Element} {outer : List Frame} {ps : List Piece} :
    ∀ elements : List Element, AllWellFormed elements →
      Stack.settled ⟨none, ⟨done, false⟩, outer⟩ (piecesOf elements ++ ps) =
        Stack.settled ⟨none, ⟨elements.reverse ++ done, false⟩, outer⟩ ps
  | [], _ => rfl
  | element :: elements, h => by
    rw [piecesOf, List.append_assoc, List.cons_append, settled_pieces element h.1 rfl,
      settled_piecesOf elements h.2, List.reverse_cons, List.append_assoc, List.singleton_append]

end

/-- **What patterns compile to.** Elements are what some pattern compiles to exactly if there are
any and all of them can be written. -/
theorem exists_compile_iff : (∃ pattern, compile pattern = .ok elements) ↔
    elements ≠ [] ∧ ∀ element ∈ elements, element.IsWellFormed := by
  constructor
  · rintro ⟨pattern, h⟩
    obtain ⟨ps, hcut, hmakes⟩ := compile_eq_ok_iff.mp h
    exact ⟨hmakes.2, hmakes.isWellFormed hcut.isWellFormed⟩
  · rintro ⟨hne, helements⟩
    have hall : AllWellFormed elements := allWellFormed_iff.mpr helements
    have hcut := cut_piecesOf elements hall (.nil [])
    have hrun : Stack.settled ⟨none, ⟨[], false⟩, []⟩ (piecesOf elements ++ []) =
        Stack.settled ⟨none, ⟨elements.reverse ++ [], false⟩, []⟩ [] :=
      settled_piecesOf elements hall
    rw [List.append_nil, List.append_nil] at hcut
    rw [List.append_nil, List.append_nil] at hrun
    refine ⟨String.ofList ((piecesOf elements).flatMap Piece.write), compile_eq_ok_iff.mpr
      ⟨piecesOf elements, ?_, hrun, hne⟩⟩
    rwa [String.toList_ofList]

end Pattern

end ScriptFront
