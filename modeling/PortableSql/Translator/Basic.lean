import PortableSql.Dialect.Basic
import PortableSql.Query.Translate
import PortableSql.Value.Codec

/-!
Translators: one engine, its options, and the functions, command templates and placeholders that it starts
with and that can be added to. A query is translated by expanding its calls and then putting in the values
of its placeholders.
-/
namespace PortableSql

open Calendar

/-- What may be chosen for an engine. -/
structure Options where
  identity : Command.Identity
  codec : Codec
  maxDepth : Nat
  deriving DecidableEq, Repr

namespace Options

/-- What an engine chooses by itself. -/
def defaults (dialect : Dialect) : Options where
  identity := dialect.profile.identity
  codec := ⟨dialect.profile.guidStorage, .unbounded⟩
  maxDepth := Query.defaultMaxDepth

end Options

structure Translator where
  dialect : Dialect
  options : Options
  /-- What the clock of the translator shows. -/
  now : DateTime
  functions : Catalog
  commands : Command.Registry
  placeholders : Placeholder.Registry

namespace Translator

/-- The translator of an engine with what the engine brings along. -/
def new (dialect : Dialect) (options : Options) (now : DateTime) : Translator where
  dialect := dialect
  options := options
  now := now
  functions := dialect.catalog
  commands := dialect.commands options.identity
  placeholders := dialect.placeholders

/-- The translator with another clock; all that was registered is dropped. -/
def withClock (translator : Translator) (now : DateTime) : Translator :=
  new translator.dialect translator.options now

/-- Moves the clock; values that have been computed are kept. -/
def setClock (translator : Translator) (now : DateTime) : Translator :=
  { translator with now := now }

/-- Translates a query. The values of its placeholders are kept for later queries. -/
def translate (translator : Translator) (query : String) : Except Query.Error String × Translator :=
  let (result, placeholders) := Query.translate translator.functions translator.placeholders
    translator.options.maxDepth translator.now query
  (result, { translator with placeholders := placeholders })

def template (translator : Translator) (kind : CommandKind) : Except Command.UnknownCommand String :=
  translator.commands.template kind

def render (translator : Translator) (kind : CommandKind) (tokens : List (String × String)) :
    Except Command.UnknownCommand String :=
  translator.commands.render kind tokens

def quoteIdentifier (translator : Translator) (name : String) : String :=
  translator.dialect.quoteIdentifier name

def registerTemplate (translator : Translator) (kind : CommandKind) (text : String) : Translator :=
  { translator with commands := translator.commands.register kind text }

/-- Registers a function and gives the one that it replaces. -/
def registerFunction (translator : Translator) (name : String) (arity : Nat) (template : String) :
    Option PortableFunction × Translator :=
  let (replaced, functions) := translator.functions.register ⟨name, arity, template, none⟩
  (replaced, { translator with functions := functions })

def registerPlaceholder (translator : Translator) (name value : String) :
    Except Placeholder.NameError Unit × Translator :=
  let (result, placeholders) := translator.placeholders.register name (.fixed value)
  (result, { translator with placeholders := placeholders })

/-- Forgets the values that have been computed. -/
def refreshPlaceholders (translator : Translator) : Translator :=
  { translator with placeholders := translator.placeholders.reset }

/-- Reads the value of a placeholder. -/
def resolvePlaceholder (translator : Translator) (name : String) : Option String × Translator :=
  match translator.placeholders.resolve translator.now name with
  | some (value, placeholders) => (some value, { translator with placeholders := placeholders })
  | none => (none, translator)

/-- Reads the values of all placeholders, by name. -/
def readPlaceholders (translator : Translator) : List (String × String) × Translator :=
  let (rows, placeholders) := translator.placeholders.resolveAll translator.now
  (rows, { translator with placeholders := placeholders })

def toDatabase (translator : Translator) (encoders : Encoders) (value : Value) (type : FieldType)
    (compress : Bool) : Except ConversionError (StoredValue × StoredType) :=
  translator.options.codec.toDatabase encoders value type compress

def fromDatabase (translator : Translator) (raw : StoredValue) (type : FieldType) :
    Except ConversionError Value :=
  translator.options.codec.fromDatabase raw type

end Translator

/-- Translates a query for an engine as it is, at a time. -/
def translate (dialect : Dialect) (now : DateTime) (query : String) :
    Except Query.Error String :=
  ((Translator.new dialect (Options.defaults dialect) now).translate query).1

end PortableSql
