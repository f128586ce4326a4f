import PortableSql.Translator.Basic

/-!
Sessions: requests to a translator, one after the other. Each gives an answer and the translator for the
next one, a request that fails as well.
-/
namespace PortableSql

open Calendar

/-- What a translator can be asked. -/
inductive Request
  | translate (query : String)
  | template (kind : CommandKind)
  | render (kind : CommandKind) (tokens : List (String × String))
  | templates
  | isOverridden (kind : CommandKind)
  | quote (name : String)
  | functions
  | resolveFunction (name : String) (arity : Nat)
  | arities (name : String)
  | placeholders
  | resolvePlaceholder (name : String)
  | registerTemplate (kind : CommandKind) (text : String)
  | registerFunction (name : String) (arity : Nat) (template : String)
  | registerPlaceholder (name value : String)
  | refresh
  | setClock (now : DateTime)
  | withClock (now : DateTime)
  | store (value : Value) (type : FieldType) (compress : Bool)
  | load (raw : StoredValue) (type : FieldType)
  | roundTrip (value : Value) (type : FieldType) (compress : Bool)
  | storedType (type : FieldType)

/-- Why a request fails. -/
inductive RequestError
  | query (e : Query.Error)
  | command (e : Command.UnknownCommand)
  | placeholder (e : Placeholder.NameError)
  | conversion (e : ConversionError)
  deriving DecidableEq, Repr

def RequestError.message : RequestError → String
  | .query e => e.message
  | .command e => e.message
  | .placeholder e => e.message
  | .conversion e => e.message

/-- What a translator answers. -/
inductive Answer
  | done
  | text (s : String)
  | optionalText (s : Option String)
  | truth (b : Bool)
  | numbers (ns : List Nat)
  | templates (rows : List (CommandKind × Bool × String))
  | functions (fs : List PortableFunction)
  | optionalFunction (f : Option PortableFunction)
  | values (rows : List (String × String))
  | stored (raw : StoredValue) (type : StoredType)
  | loaded (value : Value)
  /-- A stored value with the value that it is loaded as, and whether that is the one it was made of. -/
  | roundTrip (raw : StoredValue) (type : StoredType) (same : Bool)
    (back : Except ConversionError Value)
  | type (type : StoredType)

namespace Translator

/-- Stores a value and loads it again. -/
def roundTrip (translator : Translator) (encoders : Encoders) (value : Value) (type : FieldType)
    (compress : Bool) : Except ConversionError Answer :=
  match translator.toDatabase encoders value type compress with
  | .error e => .error e
  | .ok (raw, stored) =>
    let back := translator.fromDatabase raw type
    let same :=
      match back with
      | .ok loaded => loaded.same value
      | .error _ => false
    .ok (.roundTrip raw stored same back)

/-- Answers a request. -/
def step (translator : Translator) (encoders : Encoders) :
    Request → Except RequestError Answer × Translator
  | .translate query =>
    let (result, translator) := translator.translate query
    ((result.map .text).mapError .query, translator)
  | .template kind =>
    (((translator.template kind).map .text).mapError .command, translator)
  | .render kind tokens =>
    (((translator.render kind tokens).map .text).mapError .command, translator)
  | .templates =>
    let rows := translator.commands.effective.map fun (kind, text) =>
      (kind, translator.commands.isOverridden kind, text)
    (.ok (.templates rows), translator)
  | .isOverridden kind => (.ok (.truth (translator.commands.isOverridden kind)), translator)
  | .quote name => (.ok (.text (translator.quoteIdentifier name)), translator)
  | .functions => (.ok (.functions translator.functions.functions), translator)
  | .resolveFunction name arity =>
    (.ok (.optionalFunction (translator.functions.resolve name arity)), translator)
  | .arities name => (.ok (.numbers (translator.functions.arities name)), translator)
  | .placeholders =>
    let (rows, translator) := translator.readPlaceholders
    (.ok (.values rows), translator)
  | .resolvePlaceholder name =>
    let (value, translator) := translator.resolvePlaceholder name
    (.ok (.optionalText value), translator)
  | .registerTemplate kind text => (.ok .done, translator.registerTemplate kind text)
  | .registerFunction name arity template =>
    let (replaced, translator) := translator.registerFunction name arity template
    (.ok (.optionalFunction replaced), translator)
  | .registerPlaceholder name value =>
    let (result, translator) := translator.registerPlaceholder name value
    ((result.map fun _ => .done).mapError .placeholder, translator)
  | .refresh => (.ok .done, translator.refreshPlaceholders)
  | .setClock now => (.ok .done, translator.setClock now)
  | .withClock now => (.ok .done, translator.withClock now)
  | .store value type compress =>
    (((translator.toDatabase encoders value type compress).map fun (raw, stored) =>
      .stored raw stored).mapError .conversion, translator)
  | .load raw type =>
    (((translator.fromDatabase raw type).map .loaded).mapError .conversion, translator)
  | .roundTrip value type compress =>
    ((translator.roundTrip encoders value type compress).mapError .conversion, translator)
  | .storedType type => (.ok (.type (translator.options.codec.storedType type)), translator)

/-- Answers requests one after the other. -/
def run (translator : Translator) (encoders : Encoders) :
    List Request → List (Except RequestError Answer)
  | [] => []
  | request :: later =>
    let (answer, translator) := translator.step encoders request
    answer :: translator.run encoders later

end Translator

end PortableSql
