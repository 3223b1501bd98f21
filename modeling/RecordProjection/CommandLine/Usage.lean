import RecordProjection.CommandLine.Opt
import RecordProjection.Text.Quoted

/-!
# Usage

What there is to say about the command line itself: how the program and its commands are called,
and why a command line cannot be understood.
-/
namespace RecordProjection.CommandLine

/-! ## Topics -/

/-- What a usage text is about: the program, or one of its commands. -/
inductive Topic
  | program
  | parse
  | fields
  | project
  deriving DecidableEq

namespace Topic

/-- The commands, by name. -/
def commands : List (String × Topic) :=
  [("parse", parse), ("fields", fields), ("project", project)]

/-- The words that a topic is called by. -/
def title : Topic → String
  | program => "recordshape"
  | parse => "recordshape parse"
  | fields => "recordshape fields"
  | project => "recordshape project"

/-- How the program or a command is called. -/
def usage : Topic → String
  | program => "usage: recordshape [-h] [--version] \x7bparse,fields,project\x7d ...\n"
  | parse => "usage: recordshape parse [-h] [--verbose] [--schema SCHEMA] shape\n"
  | fields => "usage: recordshape fields [-h] [--verbose] [--schema SCHEMA] type\n"
  | project =>
    "usage: recordshape project [-h] [--verbose] [--schema SCHEMA] --type BASE_TYPE\n" ++
    "                           --shape SHAPE --input INPUT [--flat] [--flat-lists]\n"

/-- The options of a command with a single value. -/
def commonOptions : List String :=
  ["options:",
   "  -h, --help       show this help message and exit",
   "  --verbose        Log cache activity and other debug output to stderr.",
   "  --schema SCHEMA  Path to a JSON schema catalog (defaults to the built-in",
   "                   catalog)"]

/-- The lines that follow the usage text and tell what each word of it is for. -/
def details : Topic → List String
  | program =>
    ["recordshape: project structured records with shape strings",
     "",
     "positional arguments:",
     "  \x7bparse,fields,project\x7d",
     "                        Available commands",
     "    parse               Parse a shape string and print its canonical tree",
     "    fields              List the fields of a record type",
     "    project             Project a JSON object or array of objects through a",
     "                        shape",
     "",
     "options:",
     "  -h, --help            show this help message and exit",
     "  --version             show program's version number and exit"]
  | parse =>
    ["positional arguments:",
     "  shape            Shape string, e.g. 'key,recipient(display_name)'",
     ""] ++ commonOptions
  | fields =>
    ["positional arguments:",
     "  type             Record type name, e.g. Contract",
     ""] ++ commonOptions
  | project =>
    ["options:",
     "  -h, --help        show this help message and exit",
     "  --verbose         Log cache activity and other debug output to stderr.",
     "  --schema SCHEMA   Path to a JSON schema catalog (defaults to the built-in",
     "                    catalog)",
     "  --type BASE_TYPE  Record type name",
     "  --shape SHAPE     Shape string",
     "  --input INPUT     Path to JSON payload (object or array), '-' for stdin",
     "  --flat            Payload uses joined (dotted) keys",
     "  --flat-lists      Payload lists are flattened"]

/-- The text that asking for help gives. -/
def help (t : Topic) : String := t.usage ++ "\n" ++ String.join (t.details.map (· ++ "\n"))

end Topic

/-- The name and the state of the program. -/
def versionText : String := "recordshape dev\n"

/-! ## Faults -/

/-- Why a command line cannot be understood. -/
inductive UsageFault
  | ambiguous (word : List Char) (spellings : List (List Char))
  | valueMissing (o : Opt)
  | valueRefused (o : Opt) (value : List Char)
  | commandUnknown (name : List Char)
  | wordsMissing (names : List String)
  | wordsUnknown (words : List (List Char))
  deriving DecidableEq

namespace UsageFault

/-- Words with commas between them. -/
def listed (words : List String) : String := ", ".intercalate words

/-- A fault in words. -/
def message : UsageFault → String
  | ambiguous word spellings =>
    "ambiguous option: " ++ String.ofList word ++ " could match "
      ++ listed (spellings.map String.ofList)
  | valueMissing o => "argument " ++ o.title ++ ": expected one argument"
  | valueRefused o value =>
    "argument " ++ o.title ++ ": ignored explicit argument " ++ Text.quoted (String.ofList value)
  | commandUnknown name =>
    "argument command: invalid choice: " ++ Text.quoted (String.ofList name) ++ " (choose from "
      ++ listed (Topic.commands.map fun c => Text.quoted c.1) ++ ")"
  | wordsMissing names => "the following arguments are required: " ++ listed names
  | wordsUnknown words =>
    "unrecognized arguments: " ++ " ".intercalate (words.map String.ofList)

/-- What is written about a fault in the words of a topic. -/
def text (t : Topic) (fault : UsageFault) : String :=
  t.usage ++ t.title ++ ": error: " ++ fault.message ++ "\n"

end UsageFault
end RecordProjection.CommandLine
