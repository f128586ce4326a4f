import PortableSql.Command.Kind

/-!
The templates that all engines share. Kinds that are missing here exist only for the engines that
bring a template of their own.
-/
namespace PortableSql.Command

def defaultTemplates : List (CommandKind × String) :=
  [(.createTable, "CREATE TABLE #TABLENAME# (#FIELDS#, PRIMARY KEY (#FIELDNAMEKEY#))"),
   (.dropTable, "DROP TABLE #TABLENAME#"),
   (.renameTable, "ALTER TABLE #TABLENAME# RENAME TO #NEWNAME#"),
   (.createDatabase, "CREATE DATABASE #DATABASE#"),
   (.addField, "ALTER TABLE #TABLENAME# ADD #FIELDNAME# #FIELDTYPE#"),
   (.dropField, "ALTER TABLE #TABLENAME# DROP COLUMN #FIELDNAME#"),
   (.fieldDefinition, "#FIELDNAME# #FIELDTYPE#"),
   (.fieldDefinitionNotNull, "#FIELDNAME# #FIELDTYPE# NOT NULL"),
   (.primaryKeyConstraint, "CONSTRAINT #NAME# PRIMARY KEY (#FIELDNAMEKEY#)"),
   (.foreignKeyConstraint, "CONSTRAINT #NAME# FOREIGN KEY (#FIELDNAME#) REFERENCES #REFTABLE# (#REFFIELD#)"),
   (.createIndex, "CREATE INDEX #INDEXNAME# ON #TABLENAME# (#FIELDS#)"),
   (.createUniqueIndex, "CREATE UNIQUE INDEX #INDEXNAME# ON #TABLENAME# (#FIELDS#)"),
   (.dropIndex, "DROP INDEX #INDEXNAME#"),
   (.createTrigger, "CREATE TRIGGER #TRIGGERNAME# AFTER #EVENT# ON #TABLENAME# FOR EACH ROW #BODY#"),
   (.dropTrigger, "DROP TRIGGER #TRIGGERNAME#"),
   (.triggerEventInsert, "INSERT"),
   (.triggerEventUpdate, "UPDATE"),
   (.triggerEventDelete, "DELETE"),
   (.select, "SELECT #FIELDS# FROM #TABLENAME#"),
   (.selectWhere, "SELECT #FIELDS# FROM #TABLENAME# WHERE #WHERE#"),
   (.selectCount, "SELECT count(*) FROM #TABLENAME#"),
   (.selectTop, "SELECT #FIELDS# FROM #TABLENAME# LIMIT #COUNT#"),
   (.insert, "INSERT INTO #TABLENAME# (#FIELDS#) VALUES (#VALUES#)"),
   (.update, "UPDATE #TABLENAME# SET #ASSIGNMENTS# WHERE #WHERE#"),
   (.delete, "DELETE FROM #TABLENAME# WHERE #WHERE#"),
   (.deleteAll, "DELETE FROM #TABLENAME#"),
   (.fieldTypeString, "VARCHAR(#SIZE#)"),
   (.fieldTypeText, "TEXT"),
   (.fieldTypeByte, "SMALLINT"),
   (.fieldTypeShort, "SMALLINT"),
   (.fieldTypeInt, "INTEGER"),
   (.fieldTypeLong, "BIGINT"),
   (.fieldTypeBool, "BOOLEAN"),
   (.fieldTypeFloat, "REAL"),
   (.fieldTypeDouble, "DOUBLE PRECISION"),
   (.fieldTypeDecimal, "DECIMAL(#PRECISION#, #SCALE#)"),
   (.fieldTypeDate, "DATE"),
   (.fieldTypeTime, "TIME"),
   (.fieldTypeDateTime, "TIMESTAMP"),
   (.fieldTypeBinary, "BLOB")]

end PortableSql.Command
