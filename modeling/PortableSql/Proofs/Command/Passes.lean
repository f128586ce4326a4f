import PortableSql.Dialect.Basic
import PortableSql.Proofs.Command.Filling

/-!
# Filling in two passes

Rendering fills the names of the identity and those of the tokens in one pass. Two passes, first for the
identity and then for the tokens, agree with it where each delimiter of a template belongs to one name and
names are held apart (`Spaced`): the first pass then opens no names that were not there before
(`rendering_in_two_passes`). The templates of the engines are such.
-/
namespace PortableSql.Command

open Placeholder Text

/-- In front of the first delimiter of a text, if it has one, stands a character that no name has. -/
def Apart (text : List Char) : Prop :=
  ∀ gap behind, text = gap ++ delimiter :: behind → delimiter ∉ gap → ∃ c ∈ gap, isNameChar c = false

/-- Each delimiter of a text is one of the two of a name, and consecutive names are held apart. -/
inductive Spaced : List Char → Prop
  | plain {text : List Char} (free : delimiter ∉ text) : Spaced text
  | token {front behind : List Char} {name : String} (free : delimiter ∉ front)
      (named : isName name = true) (apart : Apart behind) (later : Spaced behind) :
      Spaced (front ++ (name.toList ++ behind))

/-! ## One name -/

section

variable {lookup : String → Option String} {name : String} {front behind text : List Char}

theorem apart_of_front {c : Char} (free : delimiter ∉ front) (member : c ∈ front)
    (outside : isNameChar c = false) (behind : List Char) : Apart (front ++ behind) := by
  intro gap rest same gapFree
  rcases List.append_eq_append_iff.1 same with ⟨more, rfl, _⟩ | ⟨more, rfl, shape⟩
  · exact ⟨c, List.mem_append_left more member, outside⟩
  · cases more with
    | nil => exact ⟨c, by simpa using member, outside⟩
    | cons d more =>
      obtain ⟨rfl, _⟩ := List.cons.inj shape
      simp at free

/-- The delimiter that closes a name opens no other one. -/
theorem readToken?_of_apart (apart : Apart behind) : readToken? lookup behind = none := by
  refine readToken?_eq_none fun name rest named _ same => ?_
  obtain ⟨letters, rfl, inside⟩ := exists_letters_of_isName named
  have shape : behind = letters ++ delimiter :: rest := by
    simpa [delimited] using same.symm
  have gapFree : delimiter ∉ letters := fun member => by cases inside delimiter member
  obtain ⟨c, member, outside⟩ := apart letters rest shape gapFree
  rw [inside c member] at outside
  cases outside

theorem fillText_front (free : delimiter ∉ front) :
    fillText lookup (front ++ behind) = front ++ fillText lookup behind := by
  induction front with
  | nil => rfl
  | cons c front ih =>
    obtain ⟨different, others⟩ := not_or.1 (mt List.mem_cons.2 free)
    rw [List.cons_append, fillText_copy fun same => absurd same.symm different, ih others]
    rfl

theorem fillText_free (free : delimiter ∉ text) : fillText lookup text = text := by
  have filled : fillText lookup (text ++ []) = text ++ fillText lookup [] := fillText_front free
  rwa [fillText, List.append_nil] at filled

/-- An unknown name is kept with both of its delimiters. -/
theorem fillText_unknown (named : isName name = true) (unknown : lookup name = none)
    (apart : Apart behind) :
    fillText lookup (name.toList ++ behind) = name.toList ++ fillText lookup behind := by
  obtain ⟨letters, rfl, inside⟩ := exists_letters_of_isName named
  obtain ⟨text, shape, found⟩ := token?_name named behind
  have read : readToken? lookup text = none := by
    rw [readToken?, found]
    simp [unknown]
  have free : delimiter ∉ letters := fun member => by cases inside delimiter member
  have letters_eq : text = letters ++ delimiter :: behind := by
    simpa [delimited] using shape.symm
  rw [shape, fillText_copy fun _ => read, letters_eq, fillText_front free,
    fillText_copy fun _ => readToken?_of_apart apart]
  simp [delimited]

end

/-! ## Both passes -/

section

variable {first second both : String → Option String} {text : List Char}

/-- The first pass keeps the names of what follows apart. -/
theorem Apart.fillText (spaced : Spaced text) (apart : Apart text) :
    Apart (fillText first text) := by
  cases spaced with
  | plain free => rwa [fillText_free free]
  | @token front behind name free named =>
    obtain ⟨rest, shape, _⟩ := token?_name named behind
    obtain ⟨c, member, outside⟩ := apart front rest (by rw [shape]) free
    rw [fillText_front free]
    exact apart_of_front free member outside _

/-- The first pass is followed by the second one, or both are done at once. -/
theorem fillText_fillText (spaced : Spaced text)
    (free : ∀ name value, first name = some value → delimiter ∉ value.toList)
    (wins : ∀ name value, first name = some value → both name = some value)
    (agree : ∀ name, first name = none → both name = second name) :
    fillText second (fillText first text) = fillText both text := by
  induction spaced with
  | plain noName => rw [fillText_free noName, fillText_free noName, fillText_free noName]
  | @token front behind name noName named apart later ih =>
    rw [fillText_front noName, fillText_front noName, fillText_front noName]
    congr 1
    cases known : first name with
    | some value =>
      rw [fillText_name named known, fillText_front (free name value known), ih,
        fillText_name named (wins name value known)]
    | none =>
      have same := agree name known
      have apart' : Apart (fillText first behind) := apart.fillText later
      rw [fillText_unknown named known apart]
      cases known' : second name with
      | some value =>
        rw [fillText_name named known', ih, fillText_name named (same.trans known')]
      | none =>
        rw [fillText_unknown named known' apart', ih, fillText_unknown named (same.trans known') apart]

end

/-! ## The templates of the engines -/

/-- The test for `Apart`. -/
def isApart (text : List Char) : Bool :=
  !text.contains delimiter || (text.takeWhile (· != delimiter)).any fun c => !isNameChar c

/-- Whether a text with at most this many names is spaced. -/
def isSpaced : Nat → List Char → Bool
  | 0, text => !text.contains delimiter
  | names + 1, text =>
    match text.dropWhile (· != delimiter) with
    | [] => true
    | _ :: rest =>
      match token? rest with
      | none => false
      | some (_, behind) => isApart behind && isSpaced names behind

theorem apart_of_isApart {text : List Char} (passes : isApart text = true) : Apart text := by
  intro gap behind same free
  have before : text.takeWhile (· != delimiter) = gap := by
    rw [same, List.takeWhile_append_of_pos, List.takeWhile_cons_of_neg (by simp), List.append_nil]
    intro c member
    exact bne_iff_ne.2 fun isDelimiter => free (isDelimiter ▸ member)
  rw [isApart, before, same, Bool.or_eq_true, Bool.not_eq_true', List.any_eq_true] at passes
  rcases passes with none | ⟨c, member, outside⟩
  · simp at none
  · exact ⟨c, member, by simpa using outside⟩

theorem spaced_of_isSpaced {names : Nat} {text : List Char} (passes : isSpaced names text = true) :
    Spaced text := by
  induction names generalizing text with
  | zero => exact .plain (by simpa [isSpaced] using passes)
  | succ names ih =>
    have front : delimiter ∉ text.takeWhile (· != delimiter) := fun member =>
      absurd (List.mem_takeWhile_imp member) (by simp)
    have whole := List.takeWhile_append_dropWhile (p := (· != delimiter)) (l := text)
    rw [isSpaced] at passes
    split at passes
    · rename_i dropped
      rw [dropped, List.append_nil] at whole
      exact .plain (whole ▸ front)
    · rename_i c rest dropped
      obtain rfl : c = delimiter := by
        have stops := List.head?_dropWhile_not (· != delimiter) text
        simpa [dropped] using stops
      split at passes
      · cases passes
      · rename_i letters behind found
        obtain ⟨apart, later⟩ := Bool.and_eq_true_iff.1 passes
        have spaced := Spaced.token front (isName_of_token? found) (apart_of_isApart apart) (ih later)
        rwa [String.toList_ofList, token?_append found, ← dropped, whole] at spaced

namespace Registry

variable {registry : Registry} {kind : CommandKind} {text : String}

theorem raw_register {other : CommandKind} {replaced : String}
    (stored : (registry.register other replaced).raw kind = .ok text) :
    (kind, text) = (other, replaced) ∨ registry.raw kind = .ok text := by
  by_cases same : kind = other
  · subst same
    have found : (registry.register kind replaced).raw kind = .ok replaced := by
      simp [register, raw]
    cases found.symm.trans stored
    exact .inl rfl
  · have missed : (kind == other) = false := by simpa using same
    rw [raw, register, List.lookup_cons, missed] at stored
    exact .inr stored

theorem raw_registerAll {templates : List (CommandKind × String)}
    (stored : (registry.registerAll templates).raw kind = .ok text) :
    (kind, text) ∈ templates ∨ registry.raw kind = .ok text := by
  induction templates generalizing registry with
  | nil => exact .inr stored
  | cons template templates ih =>
    rcases @ih (registry.register template.1 template.2) stored with member | stored
    · exact .inl (List.mem_cons_of_mem _ member)
    · refine (raw_register stored).imp_left fun same => ?_
      rw [same]
      exact List.mem_cons_self

theorem mem_defaultTemplates {identity : Identity} (stored : (new identity).raw kind = .ok text) :
    (kind, text) ∈ defaultTemplates := by
  rw [raw] at stored
  split at stored
  · rename_i found
    obtain ⟨before, after, shape, _⟩ := List.lookup_eq_some_iff.1 found
    cases stored
    rw [show defaultTemplates = before ++ (kind, text) :: after from shape]
    simp
  · cases stored

end Registry

-- A literal is its list of letters here, since the kernel takes long to decode it.
theorem spaced_cons {kind : CommandKind} {letters : List Char}
    {templates : List (CommandKind × String)} (passes : isSpaced 8 letters = true)
    (others : ∀ template ∈ templates, Spaced template.2.toList) :
    ∀ template ∈ (kind, String.ofList letters) :: templates, Spaced template.2.toList := by
  refine List.forall_mem_cons.2 ⟨?_, others⟩
  show Spaced (String.ofList letters).toList
  rw [String.toList_ofList]
  exact spaced_of_isSpaced passes

theorem spaced_defaultTemplates : ∀ template ∈ defaultTemplates, Spaced template.2.toList := by
  repeat refine spaced_cons (by decide +kernel) ?_
  exact List.forall_mem_nil _

set_option maxRecDepth 4096 in
theorem spaced_templates (dialect : Dialect) :
    ∀ template ∈ dialect.profile.templates, Spaced template.2.toList := by
  cases dialect
  all_goals
    repeat refine spaced_cons (by decide +kernel) ?_
    exact List.forall_mem_nil _

section

variable {dialect : Dialect} {identity : Identity} {kind : CommandKind} {text : String}

theorem spaced_of_new (stored : (Registry.new identity).raw kind = .ok text) : Spaced text.toList :=
  spaced_defaultTemplates (kind, text) (Registry.mem_defaultTemplates stored)

/-- The templates of the engines hold their names apart. -/
theorem spaced_of_commands (stored : (dialect.commands identity).raw kind = .ok text) :
    Spaced text.toList := by
  rw [Dialect.commands] at stored
  rcases Registry.raw_registerAll stored with member | stored
  · exact spaced_templates dialect (kind, text) member
  · exact spaced_of_new stored

end

/-! ## Rendering -/

theorem Identity.mem_of_get? {identity : Identity} {name value : String}
    (found : identity.get? name = some value) :
    value ∈ [identity.charset, identity.collation, identity.database] := by
  unfold get? at found
  split at found <;> cases found <;> simp

/-- Rendering fails where looking up the template fails. Where the values of the identity bring no
delimiters and the template holds its names apart, as the shared ones and those of the engines do, rendering
is filling the template that is looked up: each name that the identity does not have by the value of its
first token, whatever the second pass would put for the names of the identity. -/
theorem rendering_in_two_passes (registry : Registry) (kind : CommandKind)
    (tokens : List (String × String)) :
    (∀ e, registry.render kind tokens = .error e ↔ registry.template kind = .error e) ∧
      ((∀ value ∈ [registry.identity.charset, registry.identity.collation, registry.identity.database],
          delimiter ∉ value.toList) →
        (∀ text, registry.raw kind = .ok text → Spaced text.toList) →
        ∀ lookup : String → Option String,
          (∀ name, name ∉ identityNames →
            ∀ value, lookup name = some value ↔ GivesFirst name value tokens) →
          registry.render kind tokens = (registry.template kind).map (fill lookup)) ∧
      ∀ (identity : Identity) (text : String),
        (Registry.new identity).raw kind = .ok text ∨
            (∃ dialect : Dialect, (dialect.commands identity).raw kind = .ok text) →
          Spaced text.toList := by
  refine ⟨fun e => ?_, fun free spaced lookup firsts => ?_, fun identity text => ?_⟩
  · rw [Registry.render, Registry.template]
    cases registry.raw kind with
    | error e' => rfl
    | ok text => constructor <;> intro failed <;> cases failed
  · have agree : ∀ name, registry.identity.get? name = none →
        registry.lookup tokens name = lookup name := by
      intro name missing
      have other : name ∉ identityNames := by
        intro member
        have known : (registry.identity.get? name).isSome = true :=
          Identity.isSome_get?_iff.2 member
        rw [missing] at known
        cases known
      rw [Registry.lookup, missing, Option.none_or]
      ext value
      rw [lookupToken_eq_some_iff, firsts name other]
    rw [Registry.render, Registry.template]
    cases stored : registry.raw kind with
    | error e => rfl
    | ok text =>
      have both := fillText_fillText (spaced text stored)
        (fun name value found => free value (Identity.mem_of_get? found))
        (fun name value found => Registry.lookup_eq_some_iff.2 (.inl found)) agree
      show Except.ok (fill (registry.lookup tokens) text) =
        Except.ok (fill lookup (fill registry.identity.get? text))
      rw [fill, fill, fill, String.toList_ofList, both]
  · rintro (shared | ⟨dialect, own⟩)
    · exact spaced_of_new shared
    · exact spaced_of_commands own

/-- A name that stays unknown, values that look like names, and tokens that do not count. -/
theorem rendering_in_two_passes_of_override :
    let registry := (Registry.new ⟨"utf8", "bin", "shop"⟩).register .select "#A# #X#,#B# #CHARSET#"
    let tokens := [("#A#", "#B#"), ("#B#", "#CHARSET#"), ("#B#", "later"), ("#CHARSET#", "latin1")]
    registry.render .select tokens = (registry.template .select).map (fill (lookupToken tokens)) ∧
      registry.template .select = .ok "#A# #X#,#B# utf8" ∧
      registry.render .select tokens = .ok "#B# #X#,#CHARSET# utf8" := by
  intro registry tokens
  have free : ∀ value ∈ [registry.identity.charset, registry.identity.collation,
      registry.identity.database], delimiter ∉ value.toList := by
    decide
  have passes : isSpaced 4 "#A# #X#,#B# #CHARSET#".toList = true := by
    decide +kernel
  have spaced : ∀ text, registry.raw .select = .ok text → Spaced text.toList := by
    intro text stored
    cases stored
    exact spaced_of_isSpaced passes
  obtain ⟨_, agrees, _⟩ := rendering_in_two_passes registry .select tokens
  exact ⟨agrees free spaced (lookupToken tokens) fun _ _ _ => lookupToken_eq_some_iff,
    by decide +kernel, by decide +kernel⟩

end PortableSql.Command
