import RecordProjection.Declaration

/-!
# Locations

Where a value stands: the place that a projection began at, and the steps from there.
-/
namespace RecordProjection

/-- A place in a payload. -/
structure Location where
  origin : String
  steps : List Step
  deriving DecidableEq

namespace Location

/-- The place where a projection begins. -/
def start (origin : String) : Location := ⟨origin, []⟩

/-- The place of a member. -/
def member (l : Location) (key : String) : Location := ⟨l.origin, l.steps ++ [.member key]⟩

/-- The place of an item. -/
def item (l : Location) (index : Nat) : Location := ⟨l.origin, l.steps ++ [.item index]⟩

/-- A step in words. -/
def stepText : Step → String
  | .member key => "." ++ key
  | .item index => "[" ++ toString index ++ "]"

/-- A place in words. -/
def text (l : Location) : String := l.steps.foldl (fun s step => s ++ stepText step) l.origin

end Location
end RecordProjection
