/-!
# Options

The options of the command line and the ways in which they are written. A long option may be cut
short as long as no other one starts the same way; which ones count depends on the place.
-/
namespace RecordProjection.CommandLine

/-- The options of all commands. -/
inductive Opt
  | help
  | version
  | verbose
  | schema
  | type
  | shape
  | input
  | flat
  | flatLists
  deriving DecidableEq

namespace Opt

/-- An option that is followed by a value. -/
def takesValue : Opt → Bool
  | schema | type | shape | input => true
  | help | version | verbose | flat | flatLists => false

/-- The ways in which an option is written. -/
def spellings : Opt → List String
  | help => ["-h", "--help"]
  | version => ["--version"]
  | verbose => ["--verbose"]
  | schema => ["--schema"]
  | type => ["--type"]
  | shape => ["--shape"]
  | input => ["--input"]
  | flat => ["--flat"]
  | flatLists => ["--flat-lists"]

/-- What an option is called in a message. -/
def title (o : Opt) : String := "/".intercalate o.spellings

end Opt

/-- The options that count at a place, by the ways in which they are written. -/
abbrev Spellings := List (List Char × Opt)

namespace Spellings

/-- The spellings of some options. -/
def ofOptions (options : List Opt) : Spellings :=
  options.flatMap fun o => o.spellings.map fun s => (s.toList, o)

/-- The options before a command. -/
def outer : Spellings := ofOptions [.help, .version]

/-- The options of every command. -/
def common : Spellings := ofOptions [.help, .verbose, .schema]

/-- The options of the command that projects. -/
def project : Spellings :=
  ofOptions [.help, .verbose, .schema, .type, .shape, .input, .flat, .flatLists]

end Spellings
end RecordProjection.CommandLine
