import Mathlib.Algebra.BigOperators.Group.Finset.Basic
import Mathlib.Algebra.BigOperators.Intervals
import PortableSql.Proofs.Catalog.Template

/-!
# How often a template mentions an argument

A filled template is its own text and, for each argument, as many copies of it as the template mentions it. So
whatever is counted in the filled template, bytes or occurrences of a character, adds up from these
(`weight_expandText`).
-/
namespace PortableSql

open Text

namespace Text

/-- What the characters of a text weigh together. -/
def weight (weigh : Char → Nat) (text : List Char) : Nat :=
  (text.map weigh).sum

variable {weigh : Char → Nat}

@[simp] theorem weight_nil : weight weigh [] = 0 := rfl

@[simp] theorem weight_cons (c : Char) (text : List Char) :
    weight weigh (c :: text) = weigh c + weight weigh text := by
  simp [weight]

@[simp] theorem weight_append (front back : List Char) :
    weight weigh (front ++ back) = weight weigh front + weight weigh back := by
  simp [weight]

theorem weight_utf8Size (text : List Char) : weight Char.utf8Size text = byteLength text := by
  induction text with
  | nil => rfl
  | cons c text ih => rw [weight_cons, ih, byteLength]

end Text

namespace Catalog

/-- The arguments that the parameters of a template stand for, in the order of the template. -/
def parameters (count : Nat) (template : List Char) : List Nat :=
  match template with
  | '<' :: 'p' :: rest =>
    match _found : parameter? count rest with
    | some (index, behind) => index :: parameters count behind
    | none => parameters count rest
  | _ :: rest => parameters count rest
  | [] => []
termination_by template.length
decreasing_by
  · have := parameter?_length _found
    simp only [List.length_cons]
    omega
  · simp only [List.length_cons]; omega
  · simp only [List.length_cons]; omega

/-- What is left of a template where all arguments are empty. -/
def ownText (count : Nat) (template : List Char) : List Char :=
  expandText (List.replicate count []) template

variable {weigh : Char → Nat} {count : Nat} {text : List Char}

private theorem ownText_of_some {index : Nat} {behind : List Char}
    (found : parameter? count text = some (index, behind)) :
    ownText count ('<' :: 'p' :: text) = ownText count behind := by
  rw [← List.length_replicate (n := count) (a := ([] : List Char))] at found
  rw [ownText, expandText_of_some found, List.get_eq_getElem, List.getElem_replicate, List.nil_append, ownText]

private theorem ownText_of_none (missing : parameter? count text = none) :
    ownText count ('<' :: 'p' :: text) = '<' :: 'p' :: ownText count text := by
  rw [← List.length_replicate (n := count) (a := ([] : List Char))] at missing
  rw [ownText, expandText_of_none missing, ownText]

theorem parameters_lt : ∀ index ∈ parameters count text, index < count := by
  fun_induction parameters count text with
  | case1 rest index behind found ih => exact List.forall_mem_cons.2 ⟨parameter?_lt found, ih⟩
  | case2 rest missing ih => exact ih
  | case3 c rest copied ih => exact ih
  | case4 => nofun

/-- A filled template weighs what its own text and the arguments of its parameters weigh. -/
theorem weight_expandText (args : List (List Char)) (template : List Char) :
    weight weigh (expandText args template) = weight weigh (ownText args.length template) +
      ((parameters args.length template).map fun index => weight weigh (args.getD index [])).sum := by
  fun_induction parameters args.length template with
  | case1 rest index behind found ih =>
    have argument : args.get ⟨index, parameter?_lt found⟩ = args.getD index [] := by
      simp [parameter?_lt found]
    rw [expandText_of_some found, ownText_of_some found, weight_append, ih, List.map_cons, List.sum_cons, argument]
    omega
  | case2 rest missing ih =>
    rw [expandText_of_none missing, ownText_of_none missing]
    simp only [weight_cons, ih]
    omega
  | case3 c rest copied ih =>
    have plain : c = '<' → rest.head? ≠ some 'p' := by
      rintro rfl next
      obtain ⟨behind, rfl⟩ := List.head?_eq_some_iff.1 next
      exact copied behind rfl rfl
    rw [expandText_cons plain, ownText, expandText_cons plain, weight_cons, weight_cons, ih, ownText]
    omega
  | case4 => simp [expandText_nil, ownText]

end Catalog

namespace PortableFunction

/-- How often the template of a function mentions the argument with this index. -/
def mentions (f : PortableFunction) (arity index : Nat) : Nat :=
  (Catalog.parameters arity f.template.toList).count index

/-- What is left of the template of a function where all arguments are empty. -/
def ownText (f : PortableFunction) (arity : Nat) : List Char :=
  Catalog.ownText arity f.template.toList

theorem weight_expandText {weigh : Char → Nat} (f : PortableFunction) (args : List (List Char)) :
    weight weigh (f.expandText args) = weight weigh (f.ownText args.length) +
      ∑ index ∈ Finset.range args.length, f.mentions args.length index * weight weigh (args.getD index []) := by
  have inside : (Catalog.parameters args.length f.template.toList).toFinset ⊆ Finset.range args.length := by
    intro index member
    exact Finset.mem_range.2 (Catalog.parameters_lt index (List.mem_toFinset.1 member))
  rw [expandText, Catalog.weight_expandText, Finset.sum_list_map_count]
  refine congrArg _ (Finset.sum_subset inside fun index _ missing => ?_)
  rw [List.count_eq_zero_of_not_mem (mt List.mem_toFinset.2 missing), zero_nsmul]

end PortableFunction

end PortableSql
