import RecordProjection.CommandLine.Word
import RecordProjection.Entries

/-!
# Invocations

What a command line asks for. Words are taken from left to right; asking for help ends the reading
at once, before anything that is wrong further on. Words that have no place are put up with until
the end.
-/
namespace RecordProjection.CommandLine

/-- What stands behind an option: a text, or nothing. The separator is nothing when it is attached
to an option. -/
inductive Argument
  | text (s : String)
  | absent
  deriving DecidableEq

/-- What is to be done. -/
inductive Command
  | parse (shape : String)
  | fields (model : String)
  | project (model shape input : Argument) (flat flatLists : Bool)

/-- A command with what all commands have in common. -/
structure Invocation where
  command : Command
  verbose : Bool
  schema : Option Argument

/-- Why a command line asks for no command. -/
inductive NoCommand
  | help (about : Topic)
  | version
  | usage (about : Topic) (fault : UsageFault)
  | nothing
  deriving DecidableEq

/-! ## Words of one parser -/

/-- What ends the reading of words before their end. -/
inductive Stop
  | help
  | version
  | fault (f : UsageFault)

/-- What ended the reading of words about a topic. -/
def Stop.about (t : Topic) : Stop → NoCommand
  | help => .help t
  | version => .version
  | fault f => .usage t f

/-- What the words so far have given; `extra` are the words that have no place. -/
structure Given where
  options : Entries Opt Argument
  positional : Option (List Char)
  extra : List (List Char)

namespace Given

/-- Nothing so far. -/
def start : Given := ⟨[], none, []⟩

/-- An option was there. -/
def has (g : Given) (o : Opt) : Bool := (Entries.get? o g.options).isSome

/-- What stands behind the last occurrence of an option. -/
def argument? (g : Given) (o : Opt) : Option Argument := Entries.get? o g.options

/-- The same with an option and what stands behind it. -/
def withOption (g : Given) (o : Opt) (a : Argument) : Given :=
  { g with options := Entries.insert o a g.options }

/-- The same with a value that needs no option. -/
def withPositional (g : Given) (s : List Char) : Given := { g with positional := some s }

/-- The same with a word that has no place. -/
def withExtra (g : Given) (s : List Char) : Given := { g with extra := g.extra ++ [s] }

end Given

/-- What is attached to an option. -/
def attached (s : List Char) : Argument :=
  if s = separatorText then .absent else .text (String.ofList s)

/-- What an option without a value ends the reading with, if it does. -/
def Opt.stops? : Opt → Option Stop
  | help => some .help
  | version => some .version
  | _ => none

/-- What a short option ends the reading with when more letters are attached. Each of them has to
ask for help as well. -/
def lettersStop (o : Opt) (letters : List Char) : Stop :=
  match letters.isEmpty, letters.dropWhile (· == 'h') with
  | false, [] => .help
  | _, rest => .fault (.valueRefused o rest)

/-- What the words of a command give. `positional` tells whether a value without an option is
still due. -/
def readWords (positional : Bool) (given : Given) : List Word → Except Stop Given
  | [] => .ok given
  | .unknown s :: words => readWords positional (given.withExtra s) words
  | .value s :: .separator :: words =>
    if positional then readWords false (given.withPositional s) words
    else readWords false ((given.withExtra s).withExtra separatorText) words
  | .value s :: words =>
    if positional then readWords false (given.withPositional s) words
    else readWords false (given.withExtra s) words
  | .separator :: .value s :: words =>
    if positional then readWords false (given.withPositional s) words
    else readWords false ((given.withExtra separatorText).withExtra s) words
  | .separator :: words => readWords positional (given.withExtra separatorText) words
  | .option o (.letters letters) :: _ => .error (lettersStop o letters)
  | .option o (.value s) :: words =>
    if o.takesValue then readWords positional (given.withOption o (attached s)) words
    else .error (.fault (.valueRefused o s))
  | .option o .nothing :: words =>
    if o.takesValue then
      match words with
      | .value s :: words =>
        readWords positional (given.withOption o (.text (String.ofList s))) words
      | _ => .error (.fault (.valueMissing o))
    else
      match o.stops? with
      | some stop => .error stop
      | none => readWords positional (given.withOption o .absent) words

/-! ## Commands -/

/-- An invocation, and the words that had no place in it. -/
abbrev Reading := Invocation × List (List Char)

/-- What the words behind the name of a command give. -/
def readCommandWords (spellings : Spellings) (positional : Bool) (words : List (List Char)) :
    Except Stop Given :=
  match classifyAll spellings words with
  | .error fault => .error (.fault fault)
  | .ok words => readWords positional .start words

/-- A command with a single value, which is called by a name of its own. -/
def readSimple (name : String) (command : String → Command) (words : List (List Char)) :
    Except Stop Reading := do
  let given ← readCommandWords .common true words
  match given.positional with
  | some s =>
    .ok (⟨command (String.ofList s), given.has .verbose, given.argument? .schema⟩, given.extra)
  | none => .error (.fault (.wordsMissing [name]))

/-- The command that projects. -/
def readProject (words : List (List Char)) : Except Stop Reading := do
  let given ← readCommandWords .project false words
  match given.argument? .type, given.argument? .shape, given.argument? .input with
  | some model, some shape, some input =>
    .ok (⟨.project model shape input (given.has .flat) (given.has .flatLists),
      given.has .verbose, given.argument? .schema⟩, given.extra)
  | _, _, _ =>
    let missing := [Opt.type, .shape, .input].filter fun o => !given.has o
    .error (.fault (.wordsMissing (missing.map Opt.title)))

/-- The command of a name, read from the words behind it. -/
def readCommand (name : List Char) (words : List (List Char)) : Except NoCommand Reading :=
  match Entries.get? (String.ofList name) Topic.commands with
  | some .parse => (readSimple "shape" .parse words).mapError (Stop.about .parse)
  | some .fields => (readSimple "type" .fields words).mapError (Stop.about .fields)
  | some .project => (readProject words).mapError (Stop.about .project)
  | some .program | none => .error (.usage .program (.commandUnknown name))

/-- An invocation, if there are no words that have no place. -/
def complete (invocation : Invocation) (extra : List (List Char)) : Except NoCommand Invocation :=
  if extra = [] then .ok invocation else .error (.usage .program (.wordsUnknown extra))

/-- The command behind the options that stand before it; `plain` are the words as they were
written, and `extra` those that have had no place so far. -/
def readOuter (extra : List (List Char)) :
    (plain : List (List Char)) → List Word → Except NoCommand Invocation
  | name :: plain, .value _ :: _ =>
    match readCommand name plain with
    | .ok (invocation, more) => complete invocation (extra ++ more)
    | .error stop => .error stop
  | word :: plain, .unknown _ :: words => readOuter (extra ++ [word]) plain words
  | _ :: _, .option o (.letters letters) :: _ => .error ((lettersStop o letters).about .program)
  | _ :: _, .option o (.value s) :: _ => .error (.usage .program (.valueRefused o s))
  | _ :: plain, .option o .nothing :: words =>
    match o.stops? with
    | some stop => .error (stop.about .program)
    | none => readOuter extra plain words
  | word :: plain, .separator :: _ =>
    .error (.usage .program
      (if plain = [] then .wordsUnknown (extra ++ [word]) else .commandUnknown word))
  | _, _ => .error (if extra = [] then .nothing else .usage .program (.wordsUnknown extra))

/-- What a command line asks for. -/
def readInvocation (arguments : List String) : Except NoCommand Invocation :=
  let plain := arguments.map String.toList
  match classifyAll .outer plain with
  | .error fault => .error (.usage .program fault)
  | .ok words => readOuter [] plain words

end RecordProjection.CommandLine
