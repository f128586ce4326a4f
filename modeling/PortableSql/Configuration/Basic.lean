import PortableSql.Toml.Reader
import PortableSql.Translator.Basic

/-!
Configurations: which engine to translate for, and what to choose for it. What is left open is the
engine's own choice.
-/
namespace PortableSql

open Calendar

/-- What a configuration chooses for its engine. -/
structure EngineSettings where
  charset : Option String
  collation : Option String
  database : Option String
  textPolicy : TextPolicy
  guidStorage : Option GuidStorage
  maxDepth : Option Nat
  deriving DecidableEq, Repr

namespace EngineSettings

/-- The settings that leave everything open. -/
def unset : EngineSettings :=
  ⟨none, none, none, .unbounded, none, none⟩

end EngineSettings

structure Configuration where
  dialect : Dialect
  engine : EngineSettings
  deriving DecidableEq, Repr

namespace Configuration

/-- The configuration of an engine that leaves everything else open. -/
def ofDialect (dialect : Dialect) : Configuration :=
  ⟨dialect, .unset⟩

/-- What is used without any configuration. -/
def default : Configuration :=
  ofDialect .postgres

/-- What is chosen for the engine: the settings, and the engine's own choice where they are open. -/
def options (configuration : Configuration) : Options :=
  let own := Options.defaults configuration.dialect
  let engine := configuration.engine
  { identity :=
      { charset := engine.charset.getD own.identity.charset
        collation := engine.collation.getD own.identity.collation
        database := engine.database.getD own.identity.database }
    codec :=
      { guidStorage := engine.guidStorage.getD own.codec.guidStorage
        textPolicy := engine.textPolicy }
    maxDepth := engine.maxDepth.getD own.maxDepth }

/-- The translator that a configuration describes. -/
def translator (configuration : Configuration) (now : DateTime) : Translator :=
  Translator.new configuration.dialect configuration.options now

end Configuration

end PortableSql
