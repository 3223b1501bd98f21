import RecordProjection.CommandLine.Files
import RecordProjection.CommandLine.Opt
import RecordProjection.Engine.Failure
import RecordProjection.Json.Printer

/-!
# Problems of a command

What goes wrong while a command runs: the code that the command ends with, and the words on the
error stream. The details of a malformed JSON text and of a refused declaration come from outside,
as a `Wording`.
-/
namespace RecordProjection.CommandLine

/-- What goes wrong while a command runs. -/
inductive Problem
  | failure (f : Failure)
  | file (path : String) (fault : FileFault)
  | payloadNotJson
  | payloadNotText
  | absent (option : Opt)
  | unprintable (part : Value)

namespace Problem

/-- The code that a command ends with. There is none for a problem that is not provided for. -/
def exitCode? : Problem → Option Nat
  | failure (.notShape _) | failure (.schema _) | failure (.obstacle _) => some 2
  | failure _ => none
  | file _ .nullInName => none
  | file .. => some 1
  | payloadNotJson => some 1
  | payloadNotText => none
  | absent _ => none
  | unprintable _ => none

end Problem

/-- The words for what is wrong in detail with a JSON text and with a declaration. -/
structure Wording where
  json : String
  faults : List Fault → String

namespace Wording

/-- The way to a fault. -/
def pathText (path : List Step) : String :=
  ".".intercalate (path.map fun step =>
    match step with
    | .member key => key
    | .item index => toString index)

/-- Plain words. -/
def plain : Wording where
  json := "the text is malformed"
  faults faults :=
    "; ".intercalate (faults.map fun f => pathText f.path ++ " (" ++ f.kind.code ++ ")") ++ "\n"

end Wording

/-- What is said of a declaration that names its field. -/
def nameDeclaredText : String :=
  "recordshape.kernel.schema.FieldSchema() got multiple values for keyword argument 'name'"

/-- The details that a message leaves out, with the end of the line. -/
def detailText (wording : Wording) : SchemaError → String
  | .invalidCatalog .notJson => ": " ++ wording.json ++ "\n"
  | .invalidCatalog (.invalidField _ faults) => ": " ++ wording.faults faults
  | .invalidCatalog (.nameDeclared _) => ": " ++ nameDeclaredText ++ "\n"
  | _ => "\n"

/-- What a failure is called on the error stream. -/
def failureText (wording : Wording) : Failure → String
  | .notShape e => e.message ++ "\n"
  | .schema e => e.message ++ detailText wording e
  | .obstacle o => o.message ++ "\n"
  | .declaration faults => wording.faults faults
  | .argument e => e.message ++ "\n"
  | .coercion e => e.message ++ "\n"
  | .notIterable v => notIterableText v ++ "\n"

/-- What is said of an option that has nothing behind it. -/
def absentText : Opt → String
  | .schema => "'list' object has no attribute 'read_bytes'"
  | .input => "expected str, bytes or os.PathLike object, not list"
  | .shape => "'list' object has no attribute 'strip'"
  | _ => "unhashable type: 'list'"

/-- A problem on the error stream. -/
def Problem.text (wording : Wording) : Problem → String
  | failure f => "Error: " ++ failureText wording f
  | file path fault => "Error: " ++ fault.message path ++ "\n"
  | payloadNotJson => "Error: " ++ wording.json ++ "\n"
  | payloadNotText => "Error: the payload is not in UTF-8\n"
  | absent o => "Error: " ++ absentText o ++ "\n"
  | unprintable part => "Error: " ++ part.unwritableText ++ "\n"

end RecordProjection.CommandLine
