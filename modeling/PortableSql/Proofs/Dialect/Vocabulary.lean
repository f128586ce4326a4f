import PortableSql.Proofs.Calendar.Printing
import PortableSql.Proofs.Catalog.Registration
import PortableSql.Proofs.Placeholder.Literals

/-!
# The built-in vocabulary

Where names are not quoted as spans, what translating leaves behind is told from what has been translated:
the values of the placeholders are literals (`Dialect.holdsLiterals_placeholders`), no template of a function
begins like a call of the function (`Dialect.beginsApart_of_resolve`), and templates may be joined with any
text (`Dialect.isSmooth_of_resolve`).
-/
namespace PortableSql

open Calendar Placeholder Query Text

/-! ## Placeholders -/

namespace Dialect

variable {registry : Placeholder.Registry}

/-- A date without a word in front is a literal. -/
private theorem isLiteral_print {pattern : Pattern} (noMark : .mark '\'' ∉ pattern) (t : DateTime) :
    IsLiteral ("" ++ "'" ++ pattern.print t ++ "'").toList := by
  have literal := IsLiteral.quoted (quote_not_mem_print noMark t)
  simpa using literal

private theorem holdsLiterals_registerDates {literals : DateLiterals} (holds : registry.HoldsLiterals)
    (noDateWord : literals.dateWord = "") (date : .mark '\'' ∉ literals.date)
    (noTimestampWord : literals.timestampWord = "") (timestamp : .mark '\'' ∉ literals.timestamp) :
    (registry.registerDates literals).HoldsLiterals := by
  have names : ∀ rule ∈ dateRules, isLetterName rule.1 = true := by
    rw [← List.all_eq_true]
    decide
  have clock : ∀ f : DateTime → String, (∀ now, IsLiteral (f now).toList) → (Value.ofClock f).IsLiteral :=
    fun f literal => ⟨fun _ => literal, fun _ same => by cases same⟩
  refine Registry.HoldsLiterals.insert ?_ (by decide) (clock _ fun now => ?_)
  · refine List.foldlRecOn (motive := Registry.HoldsLiterals) dateRules _ holds ?_
    intro registry holds rule member
    refine holds.insert (names rule member) (clock _ fun now => ?_)
    rw [DateLiterals.dateLiteral, noDateWord]
    exact isLiteral_print date _
  · rw [DateLiterals.timestampLiteral, noTimestampWord]
    exact isLiteral_print timestamp _

/-- Where names are not quoted as spans, the values of the placeholders are literals. -/
theorem holdsLiterals_placeholders {dialect : Dialect} (symbols : dialect = .mySql ∨ dialect = .sqlServer) :
    dialect.placeholders.HoldsLiterals := by
  have digits : (Value.fixed "1").IsLiteral ∧ (Value.fixed "0").IsLiteral :=
    ⟨.digit (by rfl), .digit (by rfl)⟩
  rcases symbols with rfl | rfl
  · exact ((holdsLiterals_registerDates .empty rfl (by decide) rfl (by decide)).insert (by decide)
      digits.1).insert (by decide) digits.2
  · exact ((holdsLiterals_registerDates .empty rfl (by decide) rfl (by decide)).insert (by decide)
      digits.1).insert (by decide) digits.2

end Dialect

/-! ## Functions -/

namespace PortableFunction

/-- The text that a template begins with, up to its first parameter or delimiter. -/
def lead (f : PortableFunction) : List Char :=
  f.template.toList.takeWhile fun c => c != '<' && c != delimiter

/-- Some letter of the text that the template begins with is another one in the name of the function. -/
def BeginsApart (f : PortableFunction) : Prop :=
  ¬ f.lead.map Char.toLower <+: f.name.toList.map Char.toLower ∧
    ¬ f.name.toList.map Char.toLower <+: f.lead.map Char.toLower

instance (f : PortableFunction) : Decidable f.BeginsApart :=
  inferInstanceAs (Decidable (_ ∧ _))

theorem not_mem_lead {f : PortableFunction} : '<' ∉ f.lead ∧ delimiter ∉ f.lead := by
  constructor
  all_goals
    intro member
    have plain := List.mem_takeWhile_imp member
    simp at plain

/-- The beginning of a template is copied. -/
theorem expandText_lead (f : PortableFunction) (args : List (List Char)) :
    ∃ behind, f.expandText args = f.lead ++ behind := by
  refine ⟨Catalog.expandText args (f.template.toList.dropWhile fun c => c != '<' && c != delimiter), ?_⟩
  rw [← Catalog.expandText_append_of_not_mem not_mem_lead.1, lead, List.takeWhile_append_dropWhile]
  rfl

/-- A template that begins apart from a name is told from every call with that name. -/
theorem BeginsApart.not_begins {f : PortableFunction} {letters : List Char} {arity : Nat}
    (apart : f.BeginsApart)
    (same : Signature.of f.name f.arity = Signature.of (String.ofList letters) arity)
    (rest : List Char) : ¬ f.lead <+: letters ++ rest := by
  intro front
  have name : foldCase f.name = foldCase (String.ofList letters) := congrArg Signature.name same
  rw [foldCase, foldCase, String.ofList_inj, String.toList_ofList] at name
  have lead := front.map Char.toLower
  have whole : f.name.toList.map Char.toLower <+: (letters ++ rest).map Char.toLower := by
    rw [name, List.map_append]
    exact List.prefix_append ..
  rcases List.prefix_or_prefix_of_prefix lead whole with shorter | longer
  · exact apart.1 shorter
  · exact apart.2 longer

end PortableFunction

namespace Dialect

variable {dialect : Dialect} {name : String} {arity : Nat} {f : PortableFunction}

/-- What holds of the functions of the engines that quote no names as spans, and of the shared functions that
they do not both replace, holds of all that are found for them. -/
private theorem all_of_resolve (test : PortableFunction → Bool)
    (symbols : dialect = .mySql ∨ dialect = .sqlServer)
    (own : [Dialect.mySql, .sqlServer].all (fun dialect => dialect.profile.functions.all test) = true)
    (shared : sharedFunctions.all (fun f => test f ||
      [Dialect.mySql, .sqlServer].all fun dialect =>
        (Catalog.lastNamed dialect.profile.functions f.name f.arity).isSome) = true)
    (found : dialect.catalog.resolve name arity = some f) : test f = true := by
  have among : dialect ∈ [Dialect.mySql, .sqlServer] := by simpa using symbols
  obtain ⟨_, member | ⟨member, missing⟩⟩ := resolve_catalog_eq_some found
  · exact List.all_eq_true.1 (List.all_eq_true.1 own dialect among) f member
  · refine ((Bool.or_eq_true _ _).mp (List.all_eq_true.1 shared f member)).resolve_right fun replaced => ?_
    have replaced := List.all_eq_true.1 replaced dialect among
    rw [missing] at replaced
    cases replaced

-- One test for all three, so that the literals are decoded only once.
private theorem passes_of_resolve (symbols : dialect = .mySql ∨ dialect = .sqlServer)
    (found : dialect.catalog.resolve name arity = some f) :
    f.BeginsApart ∧ f.isSmooth = true ∧ looksPortable f.name.toList = true := by
  have passes := all_of_resolve
    (fun f => decide (f.BeginsApart ∧ f.isSmooth = true ∧ looksPortable f.name.toList = true))
    symbols (by decide +kernel) (by decide +kernel) found
  exact of_decide_eq_true passes

/-- Where names are not quoted as spans, the functions begin apart from their calls. -/
theorem beginsApart_of_resolve (symbols : dialect = .mySql ∨ dialect = .sqlServer)
    (found : dialect.catalog.resolve name arity = some f) : f.BeginsApart :=
  (passes_of_resolve symbols found).1

/-- Where names are not quoted as spans, templates may be joined with any text. -/
theorem isSmooth_of_resolve (symbols : dialect = .mySql ∨ dialect = .sqlServer)
    (found : dialect.catalog.resolve name arity = some f) : f.isSmooth = true :=
  (passes_of_resolve symbols found).2.1

/-- The names of the functions have the form of portable names. -/
theorem looksPortable_of_containsName (symbols : dialect = .mySql ∨ dialect = .sqlServer)
    {word : List Char} (known : dialect.catalog.containsName (String.ofList word) = true) :
    looksPortable word = true := by
  obtain ⟨arity, f, found⟩ := Catalog.exists_resolve_of_containsName known
  have looks : looksPortable f.name.toList = true := (passes_of_resolve symbols found).2.2
  have same : foldCase f.name = foldCase (String.ofList word) :=
    congrArg Signature.name (resolve_catalog_eq_some found).1
  rw [foldCase, foldCase, String.ofList_inj, String.toList_ofList] at same
  rw [← looksPortable_of_map_toLower same]
  exact looks

/-- Calls of any of the functions. -/
theorem smoothCalls_catalog (symbols : dialect = .mySql ∨ dialect = .sqlServer)
    {calls : List Char → Bool}
    (known : ∀ word, calls word = true → dialect.catalog.containsName (String.ofList word) = true) :
    SmoothCalls dialect.catalog calls where
  portable word called := looksPortable_of_containsName symbols (known word called)
  known := known
  smooth _ _ _ found :=
    ⟨congrArg Signature.arity (resolve_catalog_eq_some found).1, isSmooth_of_resolve symbols found⟩

end Dialect

end PortableSql
