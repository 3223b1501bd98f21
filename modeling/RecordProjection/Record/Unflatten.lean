import RecordProjection.Text.Joiner
import RecordProjection.Value

/-!
# Joined keys

A flat payload has keys that are paths, their segments joined into one text. Unflattening puts
each value where its path leads, one entry after the other. What is in the way of a path and is no
mapping gives way to a new mapping; the mappings of the payload itself are extended, but their own
keys are not taken apart.
-/
namespace RecordProjection

/-- The members of a value that is a mapping; no members for any other. -/
def Value.membersD : Option Value → Members
  | some (.mapping members) => members
  | _ => []

/-- Put a value at the end of a path. -/
def Entries.place (value : Value) : (path : List String) → Members → Members
  | [], members => members
  | [key], members => Entries.insert key value members
  | key :: path, members =>
    Entries.insert key (.mapping (place value path (Value.membersD (Entries.get? key members))))
      members

namespace Joiner

/-- A mapping in which no key holds the joiner. -/
def isPlain (j : Joiner) (members : Members) : Bool := members.all fun m => !j.occursIn m.1

/-- The members that flat members stand for. Members without a joined key stand for themselves. -/
def unflattenMembers (j : Joiner) (members : Members) : Members :=
  if j.isPlain members then members
  else members.foldl (fun result m => Entries.place m.2 (j.path m.1) result) []

/-- The value that a flat payload stands for. A value that is no mapping stands for itself. -/
def unflatten (j : Joiner) : Value → Value
  | .mapping members => .mapping (j.unflattenMembers members)
  | v => v

end Joiner
end RecordProjection
