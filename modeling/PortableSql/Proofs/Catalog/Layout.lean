import PortableSql.Proofs.Catalog.Template

/-!
# Layouts

For each number of arguments a template has one layout: a parameter at every place where one is written
whose number is an argument's, and between them characters that are kept. Expanding the template fills
its layout, whatever the arguments are (`expand_fills_layout`). Parameters do not overlap, so a template
is read from left to right, a parameter or a character at a time (`templateInduction`).
-/
namespace PortableSql.Catalog

open Text

/-- A segment of a template for so many arguments. -/
inductive Segment (count : Nat)
  | kept (c : Char)
  /-- The digits of a parameter and the argument that it stands for. -/
  | argument (index : Fin count) (digits : List Char)

variable {count : Nat} {args : List (List Char)} {c : Char} {template text behind : List Char}
  {segments others : List (Segment count)}

namespace Segment

/-- A segment as it stands in the template. -/
def written : Segment count → List Char
  | kept c => [c]
  | argument _ digits => '<' :: 'p' :: (digits ++ ['>'])

/-- What a segment becomes where the arguments have these values. -/
def fill (value : Fin count → List Char) : Segment count → List Char
  | kept c => [c]
  | argument index _ => value index

theorem written_ne_nil (segment : Segment count) : segment.written ≠ [] := by
  cases segment <;> simp [written]

end Segment

/-- The digits of a parameter, with or without leading zeros, count an argument from 1. -/
structure Numbers (digits : List Char) (index : Fin count) : Prop where
  inside : ∀ d ∈ digits, isDigit d = true
  value : decimalValue digits = index + 1

/-- The segments of a template: the parameters among them are all that are written in it. -/
structure IsLayout (template : List Char) (segments : List (Segment count)) : Prop where
  whole : segments.flatMap Segment.written = template
  numbered : ∀ index digits, .argument index digits ∈ segments → Numbers digits index
  complete : ∀ front digits behind index, Numbers digits index →
    template = front ++ '<' :: 'p' :: (digits ++ '>' :: behind) →
      ∃ before after, segments = before ++ .argument index digits :: after ∧
        before.flatMap Segment.written = front

/-! ## Parameters -/

namespace Numbers

variable {digits digits' behind' : List Char} {index index' : Fin count}

theorem parameter?_eq (numbers : Numbers digits index) (behind : List Char) :
    parameter? count (digits ++ '>' :: behind) = some (index.val, behind) := by
  have value := numbers.value
  exact parameter?_eq_some_iff.2
    ⟨digits, rfl, numbers.inside, by omega, by omega, by omega⟩

theorem unique (numbers : Numbers digits index) (numbers' : Numbers digits' index')
    (same : digits ++ '>' :: behind = digits' ++ '>' :: behind') :
    digits = digits' ∧ index = index' ∧ behind = behind' := by
  have found := numbers.parameter?_eq behind
  rw [same, numbers'.parameter?_eq behind', Option.some.injEq, Prod.mk.injEq] at found
  obtain ⟨sameIndex, rfl⟩ := found
  exact ⟨List.append_cancel_right same, Fin.ext sameIndex.symm, rfl⟩

/-- What stands in front of a later parameter holds all of the first one. -/
theorem apart (numbers : Numbers digits index) {first : Char} {front later : List Char}
    (same : '<' :: 'p' :: (digits ++ '>' :: behind) = first :: front ++ '<' :: later) :
    ∃ middle, first :: front = '<' :: 'p' :: (digits ++ '>' :: middle) ∧
      behind = middle ++ '<' :: later := by
  obtain ⟨rfl, same⟩ := List.cons.inj same
  have split : ('p' :: (digits ++ ['>'])) ++ behind = front ++ '<' :: later := by
    simpa using same
  rcases List.append_eq_append_iff.1 split with ⟨middle, rfl, shape⟩ | ⟨middle, shape, rest⟩
  · exact ⟨middle, by simp, shape⟩
  · cases middle with
    | nil => exact ⟨[], by simpa using shape.symm, by simpa using rest.symm⟩
    | cons d middle =>
      obtain ⟨rfl, _⟩ := List.cons.inj rest
      have member : '<' ∈ 'p' :: (digits ++ ['>']) := by simp [shape]
      have digit : '<' ∈ digits := by simpa using member
      cases numbers.inside '<' digit

end Numbers

/-- A text that does not begin with the parameter of an argument. -/
def NoParameter (count : Nat) (text : List Char) : Prop :=
  ∀ (index : Fin count) (digits behind : List Char), Numbers digits index →
    text ≠ '<' :: 'p' :: (digits ++ '>' :: behind)

theorem NoParameter.parameter?_eq_none (free : NoParameter count ('<' :: 'p' :: text)) :
    parameter? count text = none := by
  rw [Option.eq_none_iff_forall_ne_some]
  rintro ⟨index, behind⟩ found
  obtain ⟨digits, rfl, inside, low, high, rfl⟩ := parameter?_eq_some_iff.1 found
  exact free ⟨decimalValue digits - 1, by omega⟩ digits behind ⟨inside, by simp; omega⟩ rfl

/-- A template is read from left to right. -/
@[elab_as_elim]
theorem templateInduction (count : Nat) {motive : List Char → Prop} (nil : motive [])
    (parameter : ∀ (index : Fin count) (digits behind : List Char), Numbers digits index →
      motive behind → motive ('<' :: 'p' :: (digits ++ '>' :: behind)))
    (kept : ∀ (c : Char) (text : List Char), NoParameter count (c :: text) → motive text →
      motive (c :: text)) (template : List Char) : motive template := by
  induction length : template.length using Nat.strong_induction_on generalizing template with
  | _ n ih =>
    cases template with
    | nil => exact nil
    | cons c text =>
      by_cases free : NoParameter count (c :: text)
      · exact kept c text free (ih text.length (by simp [← length]) text rfl)
      · simp only [NoParameter, ne_eq, not_forall, not_not] at free
        obtain ⟨index, digits, behind, numbers, shape⟩ := free
        rw [shape] at length ⊢
        simp only [List.length_cons, List.length_append] at length
        exact parameter index digits behind numbers (ih behind.length (by omega) behind rfl)

/-! ## Layouts from left to right -/

namespace IsLayout

theorem tail {segment : Segment count} (layout : IsLayout template (segment :: segments)) :
    IsLayout (segments.flatMap Segment.written) segments := by
  obtain ⟨rfl, numbered, complete⟩ := layout
  refine ⟨rfl, fun index digits member => numbered index digits (List.mem_cons_of_mem _ member), ?_⟩
  intro front digits behind index numbers shape
  obtain ⟨before, after, same, isFront⟩ :=
    complete (segment.written ++ front) digits behind index numbers
      (by rw [List.flatMap_cons, shape, List.append_assoc])
  cases before with
  | nil => exact absurd (List.append_eq_nil_iff.1 isFront.symm).1 segment.written_ne_nil
  | cons first before =>
    obtain ⟨rfl, rfl⟩ := List.cons.inj same
    exact ⟨before, after, rfl, List.append_cancel_left isFront⟩

theorem mem_of_kept (layout : IsLayout template segments) (member : .kept c ∈ segments) :
    c ∈ template := by
  rw [← layout.whole]
  exact List.mem_flatMap.2 ⟨.kept c, member, List.mem_singleton_self c⟩

theorem eq_nil (layout : IsLayout [] segments) : segments = [] := by
  cases segments with
  | nil => rfl
  | cons segment segments =>
    exact absurd (List.append_eq_nil_iff.1 layout.whole).1 segment.written_ne_nil

theorem first_argument {digits : List Char} {index : Fin count}
    (layout : IsLayout ('<' :: 'p' :: (digits ++ '>' :: behind)) segments)
    (numbers : Numbers digits index) :
    ∃ after, segments = .argument index digits :: after ∧ IsLayout behind after := by
  obtain ⟨before, after, rfl, isFront⟩ := layout.complete [] digits behind index numbers rfl
  cases before with
  | cons segment before =>
    exact absurd (List.append_eq_nil_iff.1 isFront).1 segment.written_ne_nil
  | nil =>
    have whole : after.flatMap Segment.written = behind := by
      simpa [Segment.written] using layout.whole
    exact ⟨after, rfl, whole ▸ layout.tail⟩

theorem first_kept (layout : IsLayout (c :: text) segments) (free : NoParameter count (c :: text)) :
    ∃ after, segments = .kept c :: after ∧ IsLayout text after := by
  cases segments with
  | nil => cases layout.whole
  | cons segment after =>
    cases segment with
    | kept d =>
      obtain ⟨rfl, rfl⟩ := List.cons.inj layout.whole
      exact ⟨after, rfl, layout.tail⟩
    | argument index digits =>
      have numbers := layout.numbered index digits List.mem_cons_self
      have shape := layout.whole.symm
      simp only [List.flatMap_cons, Segment.written, List.cons_append, List.append_assoc,
        List.nil_append] at shape
      exact absurd shape (free index digits _ numbers)

/-- A template has at most one layout. -/
theorem unique (layout : IsLayout template segments) (layout' : IsLayout template others) :
    others = segments := by
  induction template using templateInduction count generalizing segments others with
  | nil => rw [layout.eq_nil, layout'.eq_nil]
  | parameter index digits behind numbers ih =>
    obtain ⟨after, rfl, later⟩ := layout.first_argument numbers
    obtain ⟨after', rfl, later'⟩ := layout'.first_argument numbers
    rw [ih later later']
  | kept c text free ih =>
    obtain ⟨after, rfl, later⟩ := layout.first_kept free
    obtain ⟨after', rfl, later'⟩ := layout'.first_kept free
    rw [ih later later']

theorem nil : IsLayout [] ([] : List (Segment count)) :=
  ⟨rfl, by simp, by simp⟩

theorem argument {digits : List Char} {index : Fin count} (numbers : Numbers digits index)
    (layout : IsLayout behind segments) :
    IsLayout ('<' :: 'p' :: (digits ++ '>' :: behind)) (.argument index digits :: segments) := by
  refine ⟨by simp [Segment.written, layout.whole], ?_, ?_⟩
  · intro index' digits' member
    rcases List.mem_cons.1 member with same | member
    · cases same
      exact numbers
    · exact layout.numbered index' digits' member
  · intro front digits' behind' index' numbers' shape
    cases front with
    | nil =>
      obtain ⟨rfl, rfl, rfl⟩ := numbers.unique numbers' (by simpa using shape)
      exact ⟨[], segments, rfl, rfl⟩
    | cons first front =>
      -- the other parameter begins later, so it is written behind all of this one
      obtain ⟨middle, isFront, rfl⟩ := numbers.apart shape
      obtain ⟨before, after, rfl, isMiddle⟩ :=
        layout.complete middle digits' behind' index' numbers' rfl
      exact ⟨.argument index digits :: before, after, rfl, by simp [Segment.written, isMiddle, isFront]⟩

theorem kept (free : NoParameter count (c :: text)) (layout : IsLayout text segments) :
    IsLayout (c :: text) (.kept c :: segments) := by
  refine ⟨by simp [Segment.written, layout.whole], ?_, ?_⟩
  · intro index digits member
    exact layout.numbered index digits (by simpa using member)
  · intro front digits behind index numbers shape
    cases front with
    | nil => exact absurd shape (free index digits behind numbers)
    | cons first front =>
      obtain ⟨rfl, rfl⟩ := List.cons.inj shape
      obtain ⟨before, after, rfl, isFront⟩ := layout.complete front digits behind index numbers rfl
      exact ⟨.kept c :: before, after, rfl, by simp [Segment.written, isFront]⟩

end IsLayout

theorem exists_layout (count : Nat) (template : List Char) :
    ∃ segments : List (Segment count), IsLayout template segments := by
  induction template using templateInduction count with
  | nil => exact ⟨[], .nil⟩
  | parameter index digits behind numbers ih =>
    obtain ⟨segments, layout⟩ := ih
    exact ⟨_, layout.argument numbers⟩
  | kept c text free ih =>
    obtain ⟨segments, layout⟩ := ih
    exact ⟨_, layout.kept free⟩

/-! ## Expansion -/

/-- Expanding a template fills its layout. -/
theorem IsLayout.expandText_eq (layout : IsLayout template segments) (length : args.length = count) :
    expandText args template =
      segments.flatMap (Segment.fill fun index => args.get (index.cast length.symm)) := by
  subst length
  induction template using templateInduction args.length generalizing segments with
  | nil =>
    rw [layout.eq_nil, expandText_nil]
    rfl
  | parameter index digits behind numbers ih =>
    obtain ⟨after, rfl, later⟩ := layout.first_argument numbers
    rw [expandText_of_some (numbers.parameter?_eq behind), ih later]
    rfl
  | kept c text free ih =>
    obtain ⟨after, rfl, later⟩ := layout.first_kept free
    have copied : expandText args (c :: text) = c :: expandText args text :=
      expandText_copy fun rest same => (same ▸ free).parameter?_eq_none
    rw [copied, ih later]
    rfl

/-- The layout of a template says what each list of arguments makes of it. -/
theorem expand_fills_layout (template : String) (count : Nat) :
    ∃ segments : List (Segment count), IsLayout template.toList segments ∧
      (∀ others, IsLayout template.toList others → others = segments) ∧
      ∀ (f : PortableFunction) (args : List String) (length : args.length = count),
        f.template = template →
          f.expand args = String.ofList (segments.flatMap
            (Segment.fill fun index => (args.get (index.cast length.symm)).toList)) := by
  obtain ⟨segments, layout⟩ := exists_layout count template.toList
  refine ⟨segments, layout, fun others => layout.unique, ?_⟩
  rintro f args length rfl
  rw [PortableFunction.expand, PortableFunction.expandText,
    layout.expandText_eq (by rw [List.length_map, length])]
  simp

/-- What only begins like a parameter is kept, and so is an argument that looks like one. -/
theorem expand_keeps_lookalikes :
    ∃ segments : List (Segment 2), IsLayout "<p<p01>,<p3><p2>".toList segments ∧
      String.ofList (segments.flatMap
        (Segment.fill fun index => (["<p2>", "x"].get index).toList)) = "<p<p2>,<p3>x" := by
  obtain ⟨segments, layout, _, fills⟩ := expand_fills_layout "<p<p01>,<p3><p2>" 2
  have expanded : PortableFunction.expand ⟨"f", 2, "<p<p01>,<p3><p2>", none⟩ ["<p2>", "x"] =
      "<p<p2>,<p3>x" := by decide +kernel
  exact ⟨segments, layout, (fills _ ["<p2>", "x"] rfl rfl).symm.trans expanded⟩

end PortableSql.Catalog
