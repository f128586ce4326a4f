import PortableSql.Command.Registry
import PortableSql.Proofs.Placeholder.Skeleton

/-!
# Filling templates

A command template has a skeleton in which no span is kept whole: quotes and comments hide no token. Which
names are known is said by the identity and by the names in the list of the caller, and rendering fills the
holes with the values of these names (`rendering_fills_skeleton`), those of the identity first and then those
of the first pair of the list.
-/
namespace PortableSql.Command

open Placeholder Text

/-- The first pair of a list that has this name has this value. -/
inductive GivesFirst (name value : String) : List (String × String) → Prop
  | here (pairs : List (String × String)) : GivesFirst name value ((name, value) :: pairs)
  | later {pair : String × String} {pairs : List (String × String)} (different : pair.1 ≠ name)
      (rest : GivesFirst name value pairs) : GivesFirst name value (pair :: pairs)

theorem lookupToken_eq_some_iff {tokens : List (String × String)} {name value : String} :
    lookupToken tokens name = some value ↔ GivesFirst name value tokens := by
  induction tokens with
  | nil => exact iff_of_false nofun nofun
  | cons pair tokens ih =>
    obtain ⟨other, first⟩ := pair
    by_cases same : other = name
    · subst same
      simp only [lookupToken, List.find?_cons, decide_true, Option.map_some, Option.some.injEq]
      constructor
      · rintro rfl
        exact .here tokens
      · intro gives
        cases gives with
        | here => rfl
        | later different => exact absurd rfl different
    · have skipped : lookupToken ((other, first) :: tokens) name = lookupToken tokens name := by
        simp [lookupToken, same]
      rw [skipped, ih]
      refine ⟨.later same, fun gives => ?_⟩
      cases gives with
      | here => exact absurd rfl same
      | later _ rest => exact rest

theorem lookupToken_isSome_iff {tokens : List (String × String)} {name : String} :
    (lookupToken tokens name).isSome = true ↔ name ∈ tokens.map (·.1) := by
  simp [lookupToken]

/-- The names that every engine knows in its templates. -/
def identityNames : List String := ["#CHARSET#", "#COLLATION#", "#DATABASE#"]

theorem Identity.isSome_get?_iff {identity : Identity} {name : String} :
    (identity.get? name).isSome = true ↔ name ∈ identityNames := by
  unfold Identity.get? identityNames
  split
  case h_4 charset collation database =>
    refine iff_of_false nofun fun member => ?_
    simp only [List.mem_cons, List.not_mem_nil, or_false] at member
    exact member.elim charset fun later => later.elim collation database
  all_goals simp

/-! ## One token -/

section

variable {lookup : String → Option String} {name : String} {behind : List Char}

/-- Nothing is read where no known name begins. -/
theorem readToken?_eq_none {text : List Char}
    (noHole : ∀ name rest, isName name = true → (lookup name).isSome = true →
      name.toList ++ rest ≠ delimiter :: text) : readToken? lookup text = none := by
  unfold readToken?
  split
  · rfl
  · rename_i token rest found
    rw [Option.map_eq_none_iff, ← Option.not_isSome_iff_eq_none]
    intro known
    exact noHole (String.ofList token) rest (isName_of_token? found) known
      (by rw [String.toList_ofList, token?_append found])

theorem fillText_copy {c : Char} (missing : c = delimiter → readToken? lookup behind = none) :
    fillText lookup (c :: behind) = c :: fillText lookup behind := by
  rw [fillText]
  split
  · rename_i found
    split at found
    · rename_i same
      rw [missing same] at found
      cases found
    · cases found
  · rfl

/-- The value of a known name is put in its place. -/
theorem fillText_name {value : String} (named : isName name = true) (known : lookup name = some value) :
    fillText lookup (name.toList ++ behind) = value.toList ++ fillText lookup behind := by
  obtain ⟨text, shape, found⟩ := token?_name named behind
  have read : readToken? lookup text = some (value.toList, behind) := by
    rw [readToken?, found]
    simp [known]
  rw [shape, fillText]
  split
  · rename_i found'
    rw [if_pos rfl, read] at found'
    cases found'
    rfl
  · rename_i missing
    rw [if_pos rfl, read] at missing
    cases missing

end

/-! ## Templates -/

/-- No span of a template is kept whole. -/
def Unshielded : List Char → List Char → Prop := fun _ _ => False

theorem Unshielded.isShielding : Shielding Unshielded where
  unique := False.elim
  begins := False.elim

section

variable {lookup : String → Option String} {known : String → Bool}

/-- The pieces of a skeleton, filled, are the text with the values of the known names. -/
theorem fillText_eq {text : List Char} {pieces : List Piece}
    (skeleton : Skeleton Unshielded known text pieces)
    (knows : ∀ name, (lookup name).isSome = known name) :
    fillText lookup text = pieces.flatMap (Piece.fill fun name => (lookup name).getD "") := by
  induction skeleton with
  | nil =>
    rw [fillText]
    rfl
  | span shielded => exact shielded.elim
  | @hole name behind pieces named isKnown _ ih =>
    obtain ⟨value, found⟩ := Option.isSome_iff_exists.1 ((knows name).trans isKnown)
    rw [fillText_name named found, ih, List.flatMap_cons, Piece.fill, found, Option.getD_some]
  | @copy c behind pieces _ noHole _ ih =>
    have missing : c = delimiter → readToken? lookup behind = none := by
      rintro rfl
      exact readToken?_eq_none fun name rest named isKnown =>
        noHole name rest named ((knows name).symm.trans isKnown)
    rw [fillText_copy missing, ih]
    rfl

end

namespace Registry

variable {registry : Registry} {tokens : List (String × String)} {name value : String}

/-- The value that a name has in a template for this list of tokens. -/
def lookup (registry : Registry) (tokens : List (String × String)) (name : String) : Option String :=
  (registry.identity.get? name).or (lookupToken tokens name)

theorem isSome_lookup_iff : (registry.lookup tokens name).isSome = true ↔
    name ∈ identityNames ∨ name ∈ tokens.map (·.1) := by
  rw [lookup, Option.isSome_or, Bool.or_eq_true, Identity.isSome_get?_iff, lookupToken_isSome_iff]

/-- The identity wins over the tokens. -/
theorem lookup_eq_some_iff : registry.lookup tokens name = some value ↔
    registry.identity.get? name = some value ∨
      name ∉ identityNames ∧ GivesFirst name value tokens := by
  rw [lookup, Option.or_eq_some_iff, lookupToken_eq_some_iff, ← Identity.isSome_get?_iff,
    Option.not_isSome_iff_eq_none]

end Registry

/-- The places of a template that are filled are fixed by the template and the known names. Each list of
tokens fills them with values of its own, as these are written; the rest of the template is kept. -/
theorem rendering_fills_skeleton (known : String → Bool) (text : String) :
    ∃ pieces, Skeleton Unshielded known text.toList pieces ∧
      (∀ other, Skeleton Unshielded known text.toList other → other = pieces) ∧
      sourceOf pieces = text.toList ∧
      ∀ (registry : Registry) (kind : CommandKind) (tokens : List (String × String)),
        registry.raw kind = .ok text →
        (∀ name, known name = true ↔ name ∈ identityNames ∨ name ∈ tokens.map (·.1)) →
          ∃ value : String → String,
            registry.render kind tokens = .ok (String.ofList (pieces.flatMap (Piece.fill value))) ∧
            ∀ name, .hole name ∈ pieces →
              registry.identity.get? name = some (value name) ∨
                name ∉ identityNames ∧ GivesFirst name (value name) tokens := by
  obtain ⟨pieces, skeleton⟩ := exists_skeleton Unshielded.isShielding known text.toList
  refine ⟨pieces, skeleton, fun other => skeleton.unique Unshielded.isShielding, skeleton.source_eq,
    fun registry kind tokens stored names => ?_⟩
  have knows : ∀ name, (registry.lookup tokens name).isSome = known name := fun name =>
    Bool.eq_iff_iff.2 (Registry.isSome_lookup_iff.trans (names name).symm)
  refine ⟨fun name => (registry.lookup tokens name).getD "", ?_, fun name member => ?_⟩
  · rw [Registry.render, stored, ← fillText_eq skeleton knows]
    rfl
  · obtain ⟨_, _, _, _, _, isKnown⟩ := skeleton.exists_codePlace Unshielded.isShielding member
    obtain ⟨value, found⟩ := Option.isSome_iff_exists.1 ((knows name).trans isKnown)
    have same : registry.lookup tokens name = some ((registry.lookup tokens name).getD "") := by
      rw [found, Option.getD_some]
    exact Registry.lookup_eq_some_iff.1 same

/-- The closing delimiter of an unknown name opens a known one, values that look like names are kept, and the
identity wins over a token of its name. -/
theorem rendering_fills_skeleton_of_overlap :
    let registry := (Registry.new ⟨"utf8", "bin", "shop"⟩).register .select "#X#A#B#C# #CHARSET#"
    let tokens := [("#A#", "#C#"), ("#C#", "#DATABASE#"), ("#A#", "later"), ("#CHARSET#", "latin1")]
    ∃ (pieces : List Piece) (value : String → String),
      sourceOf pieces = "#X#A#B#C# #CHARSET#".toList ∧
        registry.render .select tokens = .ok (String.ofList (pieces.flatMap (Piece.fill value))) ∧
        registry.render .select tokens = .ok "#X#C#B#DATABASE# utf8" := by
  intro registry tokens
  obtain ⟨pieces, _, _, source, fills⟩ := rendering_fills_skeleton
    (fun name => decide (name ∈ identityNames ++ tokens.map (·.1))) "#X#A#B#C# #CHARSET#"
  obtain ⟨value, rendered, _⟩ := fills registry .select tokens (by decide) fun name => by
    rw [decide_eq_true_eq, List.mem_append]
  exact ⟨pieces, value, source, rendered, by decide +kernel⟩

end PortableSql.Command
