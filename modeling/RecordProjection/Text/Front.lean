/-!
# The front of a text

Taking a given text off the front of another one.
-/
namespace RecordProjection.Text

/-- What follows `mark` in a text that starts with it. -/
def after? : (mark text : List Char) → Option (List Char)
  | [], cs => some cs
  | _ :: _, [] => none
  | m :: ms, c :: cs => if m = c then after? ms cs else none

theorem after?_eq_some_iff {mark cs r : List Char} :
    after? mark cs = some r ↔ cs = mark ++ r := by
  induction mark generalizing cs with
  | nil => simp [after?]
  | cons m ms ih =>
    cases cs with
    | nil => simp [after?]
    | cons c cs =>
      by_cases h : m = c
      · simp [after?, h, ih]
      · simp [after?, h, Ne.symm h]

end RecordProjection.Text
