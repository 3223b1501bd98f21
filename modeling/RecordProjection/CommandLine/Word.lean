import RecordProjection.CommandLine.Usage
import RecordProjection.Text.DecimalDigit
import RecordProjection.Text.Front

/-!
# Words of a command line

What each word of a command line is: a value, an option, or the separator behind which every word
is a value. A long option may be cut short as long as no other one starts the same way, and the
value of an option may be attached to it with an equals sign.
-/
namespace RecordProjection.CommandLine

open Text

/-- What is attached to an option: nothing, a value behind the equals sign of a long option, or more
letters behind a short option, with or without an equals sign. -/
inductive Attached
  | nothing
  | value (s : List Char)
  | letters (s : List Char)

/-- What a word is. -/
inductive Word
  | value (s : List Char)
  | separator
  | option (option : Opt) (attached : Attached)
  | unknown (s : List Char)

/-- The word behind which every word is a value. -/
def separatorText : List Char := ['-', '-']

/-- A short option is a hyphen and a letter. -/
def isShort : List Char → Bool
  | ['-', c] => c != '-'
  | _ => false

/-- The text before the first equals sign, and what is attached to it. -/
def splitEquals (cs : List Char) : List Char × Attached :=
  match cs.dropWhile (· != '=') with
  | [] => (cs, .nothing)
  | _ :: r =>
    let stem := cs.takeWhile (· != '=')
    (stem, if isShort stem then .letters r else .value r)

/-- The options that a word may be short for, each under its spelling. -/
def candidates (spellings : Spellings) (cs : List Char) : List (List Char × Word) :=
  match cs with
  | '-' :: '-' :: _ =>
    let (stem, attached) := splitEquals cs
    spellings.filterMap fun (spelling, o) =>
      (after? stem spelling).map fun _ => (spelling, .option o attached)
  | a :: b :: r =>
    spellings.filterMap fun (spelling, o) =>
      if spelling = [a, b] then some (spelling, .option o (.letters r))
      else (after? cs spelling).map fun _ => (spelling, .option o .nothing)
  | _ => []

/-- Digits, with at most one point before or between them, behind a minus sign. -/
def isNegativeNumber (cs : List Char) : Bool :=
  let cs := if cs.getLast? = some '\n' then cs.dropLast else cs
  match cs with
  | '-' :: r =>
    match r.dropWhile isDecimalDigit with
    | [] => !r.isEmpty
    | '.' :: fraction => !fraction.isEmpty && fraction.all isDecimalDigit
    | _ => false
  | _ => false

/-- What a word is that stands before any separator. -/
def classify (spellings : Spellings) (cs : List Char) : Except UsageFault Word :=
  match cs with
  | '-' :: _ :: _ =>
    let exact := fun text => (spellings.find? fun s => s.1 == text).map Prod.snd
    let (stem, attached) := splitEquals cs
    match exact cs, exact stem with
    | some o, _ => .ok (.option o .nothing)
    | none, some o => .ok (.option o attached)
    | none, none =>
      match candidates spellings cs with
      | [(_, word)] => .ok word
      | [] =>
        .ok (if isNegativeNumber cs || cs.contains ' ' then .value cs else .unknown cs)
      | several => .error (.ambiguous cs (several.map Prod.fst))
  | _ => .ok (.value cs)

/-- What the words of a command line are. -/
def classifyAll (spellings : Spellings) : List (List Char) → Except UsageFault (List Word)
  | [] => .ok []
  | word :: words =>
    if word = separatorText then .ok (.separator :: words.map .value)
    else do .ok ((← classify spellings word) :: (← classifyAll spellings words))

end RecordProjection.CommandLine
