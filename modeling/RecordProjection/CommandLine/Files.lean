import RecordProjection.Entries
import RecordProjection.Text.Octets
import RecordProjection.Text.Quoted

/-!
# Files

Paths as a command line gives them, the ways in which a file cannot be read, and a directory of
texts in memory.
-/
namespace RecordProjection.CommandLine

/-- The parts of a path between its slashes. -/
def pathParts (cs : List Char) : List (List Char) :=
  match _h : cs.dropWhile (· != '/') with
  | [] => [cs]
  | _ :: r => cs.takeWhile (· != '/') :: pathParts r
termination_by cs.length
decreasing_by
  have hle := (List.dropWhile_sublist (· != '/') (l := cs)).length_le
  rw [_h, List.length_cons] at hle
  omega

/-- The slashes in front of an absolute path. Two of them are kept apart from one; more are as good
as one. -/
def rootSlashes (cs : List Char) : List Char :=
  match (cs.takeWhile (· == '/')).length with
  | 0 => []
  | 2 => ['/', '/']
  | _ => ['/']

/-- The parts of a path that lead on: those that are not empty and do not stay where they are. -/
def steps (cs : List Char) : List (List Char) :=
  (pathParts cs).filter fun p => p ≠ [] && p ≠ ['.']

/-- A path that has no parts but those that lead on. -/
def normalizePath (path : String) : String :=
  let cs := path.toList
  let text := rootSlashes cs ++ List.intercalate ['/'] (steps cs)
  String.ofList (if text = [] then ['.'] else text)

/-- Why a file cannot be read. -/
inductive FileFault
  | missing
  | isDirectory
  | notDirectory
  | nameTooLong
  | nullInName
  | other (number : Nat) (reason : String)
  deriving DecidableEq

/-- The number and the words that the system has for a fault. -/
def FileFault.system : FileFault → Nat × String
  | missing => (2, "No such file or directory")
  | notDirectory => (20, "Not a directory")
  | isDirectory => (21, "Is a directory")
  | nullInName => (22, "Invalid argument")
  | nameTooLong => (36, "File name too long")
  | other number reason => (number, reason)

/-- A fault in words. -/
def FileFault.message (path : String) (fault : FileFault) : String :=
  "[Errno " ++ toString fault.system.1 ++ "] " ++ fault.system.2 ++ ": " ++ Text.quoted path

/-- The longest name a file can have, in octets. -/
def maxNameLength : Nat := 255

/-- The longest path, in octets. -/
def maxPathLength : Nat := 4095

/-- The texts of a directory by name. A name with slashes leads through folders of the directory. -/
abbrev Directory := Entries String String

/-- Where a path leads: to a text, to a folder by the steps to it, or out of the directory. -/
inductive Place
  | text (s : String)
  | folder (steps : List (List Char))
  | outside

namespace Directory

/-- What stands at the end of a way into a directory, if anything does. -/
def place? (d : Directory) (way : List (List Char)) : Option Place :=
  match (List.find? (fun entry => steps entry.1.toList == way) d).map Prod.snd with
  | some text => some (.text text)
  | none =>
    if (Entries.keys d).any fun name => way.isPrefixOf (steps name.toList) then some (.folder way)
    else none

/-- One step on from a place. There is nothing outside but the way further out. -/
def step (d : Directory) (place : Place) (name : List Char) : Except FileFault Place :=
  match place with
  | .text _ => .error .notDirectory
  | .folder way =>
    if name = ['.', '.'] then .ok (if way = [] then .outside else .folder way.dropLast)
    else if maxNameLength < (Text.octets name).length then .error .nameTooLong
    else
      match d.place? (way ++ [name]) with
      | some place => .ok place
      | none => .error .missing
  | .outside =>
    if name = ['.', '.'] then .ok .outside
    else if maxNameLength < (Text.octets name).length then .error .nameTooLong
    else .error .missing

/-- The text that a path leads to from the directory. -/
def read (d : Directory) (path : String) : Except FileFault String :=
  let cs := path.toList
  let start : Place := if cs.head? = some '/' then .outside else .folder []
  if cs.contains '\x00' then .error .nullInName
  else if maxPathLength < (Text.octets cs).length then .error .nameTooLong
  else
    match (steps cs).foldlM d.step start with
    | .error fault => .error fault
    | .ok (.text s) => .ok s
    | .ok _ => .error .isDirectory

end Directory
end RecordProjection.CommandLine
