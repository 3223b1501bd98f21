import RecordProjection.CommandLine.Invocation
import RecordProjection.CommandLine.Problem
import RecordProjection.Engine.Basic
import RecordProjection.Json.Printer
import RecordProjection.Schema.Builtin

/-!
# Running commands

A command gives a text to print or a problem, and the events to be shown when it is told to be
verbose. Files and the standard input come from outside; the standard input can be read once.
-/
namespace RecordProjection.CommandLine

/-- An event on the error stream. -/
def eventText (e : Event) : String := "DEBUG    | " ++ e.source ++ " | " ++ e.text ++ "\n"

/-- How a command line ended. -/
inductive Ending
  | noCommand (reason : NoCommand)
  | printed (text : String)
  | failed (problem : Problem)

/-- What came of a command line: its ending, the events that are shown, and what is left of the
standard input. -/
structure Report where
  ending : Ending
  events : List Event
  input : String

/-- The octets of each file that a command can read, by its path. -/
abbrev Files := String → Except FileFault (List UInt8)

/-- The path that stands for the standard input. -/
def stdinPath : String := "-"

/-- The path of a command's payload, if it takes one. -/
def Command.payload? : Command → Option String
  | project _ _ (.text path) _ _ => some (normalizePath path)
  | _ => none

/-- The path of an invocation's catalog, if it names one. -/
def Invocation.catalog? (i : Invocation) : Option String :=
  match i.schema with
  | some (.text path) => some (normalizePath path)
  | _ => none

/-- The paths of all files that an invocation may read. -/
def Invocation.paths (i : Invocation) : List String :=
  i.catalog?.toList ++ i.command.payload?.toList

/-- The payload of an invocation comes from the standard input. -/
def Invocation.readsStdin (i : Invocation) : Bool := i.command.payload? == some stdinPath

/-- The registry of a command: the built-in one, or the catalog of a file. -/
def loadRegistry (files : Files) : Option Argument → Except Problem Registry
  | none => .ok .builtin
  | some .absent => .error (.absent .schema)
  | some (.text path) =>
    let path := normalizePath path
    match files path with
    | .error fault => .error (.file path fault)
    | .ok bytes => (Registry.ofOctets bytes).mapError .failure

/-- The value of a payload's text. -/
def readPayload (text : List Char) : Except Problem Value :=
  match Json.read text with
  | .ok v => .ok v
  | .error .malformed => .error .payloadNotJson
  | .error (.integerTooLong digits) => .error (.failure (.argument (.integerTooLong digits)))

/-- The payload of a file, or of the standard input if the path is a hyphen; and what is left of
the standard input. -/
def loadPayload (files : Files) (input : String) : Argument → Except Problem Value × String
  | .absent => (.error (.absent .input), input)
  | .text path =>
    let path := normalizePath path
    if path = stdinPath then (readPayload input.toList, "")
    else
      match files path with
      | .error fault => (.error (.file path fault), input)
      | .ok bytes =>
        match String.fromUTF8? ⟨bytes.toArray⟩ with
        | some text => (readPayload text.toList, input)
        | none => (.error .payloadNotText, input)

/-- The text that a request prints, and its events. -/
def printing {α : Type} (o : Outcome α) (print : α → Except Problem String) :
    Except Problem String × List Event :=
  ((o.result.mapError .failure).bind print, o.events)

/-- A value as it is printed, on lines of its own. -/
def printValue (v : Value) : Except Problem String :=
  (v.indentedJson.mapError .unprintable).map (· ++ "\n")

/-- Project a payload: item by item if it is a list. The shape is read before the record type is
looked at. -/
def projectPayload (e : Engine) (model shape : Argument) (flat flatLists : Bool)
    (payload : Value) : Except Problem String × List Event :=
  match shape, model, payload with
  | .absent, _, _ => (.error (.absent .shape), [])
  | .text shape, .absent, _ =>
    let (result, events) := printing (e.parse e.freshMemory shape) fun s => .ok s.text
    (result.bind fun _ => .error (.absent .type), events)
  | .text shape, .text model, .list items =>
    printing (e.list e.freshMemory model (.text shape) (some flat) (some flatLists) (.list items))
      fun records => printValue (.list records)
  | .text shape, .text model, payload =>
    printing (e.one e.freshMemory model (.text shape) (some flat) (some flatLists) payload)
      printValue

/-- Run a command with an engine. -/
def runCommand (e : Engine) (files : Files) (input : String) :
    Command → Except Problem String × List Event × String
  | .parse shape =>
    let (result, events) := printing (e.parse e.freshMemory shape) fun s =>
      .ok (s.canonical ++ "\n")
    (result, events, input)
  | .fields model =>
    let names := (e.registry.model model).map fun m => String.join (m.fieldNames.map (· ++ "\n"))
    (names.mapError fun err => .failure (.schema err), [], input)
  | .project model shape path flat flatLists =>
    match loadPayload files input path with
    | (.error problem, input) => (.error problem, [], input)
    | (.ok payload, input) =>
      let (result, events) := projectPayload e model shape flat flatLists payload
      (result, events, input)

/-- How a result ends a command line. -/
def endingOf : Except Problem String → Ending
  | .ok text => .printed text
  | .error problem => .failed problem

/-- Run a command line. -/
def run (files : Files) (input : String) (arguments : List String) : Report :=
  match readInvocation arguments with
  | .error reason => ⟨.noCommand reason, [], input⟩
  | .ok invocation =>
    match loadRegistry files invocation.schema with
    | .error problem => ⟨.failed problem, [], input⟩
    | .ok registry =>
      let e := Engine.ofSettings registry .default
      let (result, events, input) := runCommand e files input invocation.command
      let events := .schemasLoaded registry.models.length :: events
      ⟨endingOf result, if invocation.verbose then events else [], input⟩

/-- The code that a command line ends with; none for a problem that is not provided for. -/
def Ending.exitCode? : Ending → Option Nat
  | noCommand (.help _) | noCommand .version => some 0
  | noCommand .nothing => some 1
  | noCommand (.usage ..) => some 2
  | printed _ => some 0
  | failed problem => problem.exitCode?

namespace Report

/-- What a command line prints. -/
def printed (r : Report) : String :=
  match r.ending with
  | .noCommand (.help t) => t.help
  | .noCommand .version => versionText
  | .noCommand .nothing => Topic.program.help
  | .printed text => text
  | .noCommand (.usage ..) | .failed _ => ""

/-- What a command line writes on the error stream. -/
def errors (wording : Wording) (r : Report) : String :=
  String.join (r.events.map eventText) ++
    match r.ending with
    | .noCommand (.usage t fault) => fault.text t
    | .failed problem => problem.text wording
    | _ => ""

end Report
end RecordProjection.CommandLine
