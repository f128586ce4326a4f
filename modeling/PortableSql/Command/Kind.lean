import PortableSql.Text.Blank
import PortableSql.Text.Letters

/-!
The kinds of commands that have templates. Each has one name, in small letters and underscores; a name
is also read with capitals, with hyphens for the underscores and with blanks around it.
-/
namespace PortableSql

open Text

/-- What a command template is for. -/
inductive CommandKind
  | createTable | dropTable | renameTable | tableExists | createDatabase
  | databaseExists | viewExists | addField | dropField | alterField
  | fieldExists | fieldDefinition | fieldDefinitionNotNull | primaryKeyConstraint | foreignKeyConstraint
  | createIndex | createUniqueIndex | dropIndex | indexExists | createTrigger
  | dropTrigger | triggerExists | triggerEventInsert | triggerEventUpdate | triggerEventDelete
  | select | selectWhere | selectCount | selectTop | insert
  | insertReturningKey | update | delete | deleteAll | fieldTypeString
  | fieldTypeText | fieldTypeByte | fieldTypeShort | fieldTypeInt | fieldTypeLong
  | fieldTypeBool | fieldTypeFloat | fieldTypeDouble | fieldTypeDecimal | fieldTypeDate
  | fieldTypeTime | fieldTypeDateTime | fieldTypeGuid | fieldTypeBinary | fieldTypeAutoIncrement
  deriving DecidableEq, Repr

namespace CommandKind

/-- Every kind, in the order in which kinds are listed. -/
def all : List CommandKind :=
  [.createTable, .dropTable, .renameTable, .tableExists, .createDatabase,
   .databaseExists, .viewExists, .addField, .dropField, .alterField,
   .fieldExists, .fieldDefinition, .fieldDefinitionNotNull, .primaryKeyConstraint, .foreignKeyConstraint,
   .createIndex, .createUniqueIndex, .dropIndex, .indexExists, .createTrigger,
   .dropTrigger, .triggerExists, .triggerEventInsert, .triggerEventUpdate, .triggerEventDelete,
   .select, .selectWhere, .selectCount, .selectTop, .insert,
   .insertReturningKey, .update, .delete, .deleteAll, .fieldTypeString,
   .fieldTypeText, .fieldTypeByte, .fieldTypeShort, .fieldTypeInt, .fieldTypeLong,
   .fieldTypeBool, .fieldTypeFloat, .fieldTypeDouble, .fieldTypeDecimal, .fieldTypeDate,
   .fieldTypeTime, .fieldTypeDateTime, .fieldTypeGuid, .fieldTypeBinary, .fieldTypeAutoIncrement]

/-- The name of a kind. -/
def name : CommandKind → String
  | .createTable => "create_table"
  | .dropTable => "drop_table"
  | .renameTable => "rename_table"
  | .tableExists => "table_exists"
  | .createDatabase => "create_database"
  | .databaseExists => "database_exists"
  | .viewExists => "view_exists"
  | .addField => "add_field"
  | .dropField => "drop_field"
  | .alterField => "alter_field"
  | .fieldExists => "field_exists"
  | .fieldDefinition => "field_definition"
  | .fieldDefinitionNotNull => "field_definition_not_null"
  | .primaryKeyConstraint => "primary_key_constraint"
  | .foreignKeyConstraint => "foreign_key_constraint"
  | .createIndex => "create_index"
  | .createUniqueIndex => "create_unique_index"
  | .dropIndex => "drop_index"
  | .indexExists => "index_exists"
  | .createTrigger => "create_trigger"
  | .dropTrigger => "drop_trigger"
  | .triggerExists => "trigger_exists"
  | .triggerEventInsert => "trigger_event_insert"
  | .triggerEventUpdate => "trigger_event_update"
  | .triggerEventDelete => "trigger_event_delete"
  | .select => "select"
  | .selectWhere => "select_where"
  | .selectCount => "select_count"
  | .selectTop => "select_top"
  | .insert => "insert"
  | .insertReturningKey => "insert_returning_key"
  | .update => "update"
  | .delete => "delete"
  | .deleteAll => "delete_all"
  | .fieldTypeString => "field_type_string"
  | .fieldTypeText => "field_type_text"
  | .fieldTypeByte => "field_type_byte"
  | .fieldTypeShort => "field_type_short"
  | .fieldTypeInt => "field_type_int"
  | .fieldTypeLong => "field_type_long"
  | .fieldTypeBool => "field_type_bool"
  | .fieldTypeFloat => "field_type_float"
  | .fieldTypeDouble => "field_type_double"
  | .fieldTypeDecimal => "field_type_decimal"
  | .fieldTypeDate => "field_type_date"
  | .fieldTypeTime => "field_type_time"
  | .fieldTypeDateTime => "field_type_datetime"
  | .fieldTypeGuid => "field_type_guid"
  | .fieldTypeBinary => "field_type_binary"
  | .fieldTypeAutoIncrement => "field_type_auto_increment"

/-- The kind that a name means. -/
def ofName? (text : String) : Option CommandKind :=
  let wanted := (foldCase (trimmed text)).toList.map fun c => if c = '-' then '_' else c
  all.find? fun kind => kind.name.toList = wanted

/-- What is said of a name that no kind has. -/
def unknownName (text : String) : String :=
  s!"unknown command kind '{text}'"

theorem mem_all (kind : CommandKind) : kind ∈ all := by
  cases kind <;> decide

end CommandKind

end PortableSql
