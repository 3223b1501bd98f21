/-!
# Blank characters

The characters that count as white space between tokens and at the ends of a text,
and the operations that drop them. Trimming leaves nothing blank at either end.
-/
namespace RecordProjection.Text

/-- White space: the control characters U+0009 to U+000D and U+001C to U+001F, and every
space, line and paragraph separator. -/
def isBlank (c : Char) : Bool :=
  let n := c.toNat
  (0x09 ≤ n && n ≤ 0x0D) || (0x1C ≤ n && n ≤ 0x20) || n == 0x85 || n == 0xA0 || n == 0x1680
    || (0x2000 ≤ n && n ≤ 0x200A) || n == 0x2028 || n == 0x2029 || n == 0x202F || n == 0x205F
    || n == 0x3000

/-- The text after its leading blanks. -/
def dropBlanks (cs : List Char) : List Char := cs.dropWhile isBlank

/-- The text between its leading and its trailing blanks. -/
def trimChars (cs : List Char) : List Char :=
  (dropBlanks (dropBlanks cs).reverse).reverse

/-- `trimChars` on strings. -/
def trim (s : String) : String := String.ofList (trimChars s.toList)

/-- A text that is empty or holds nothing but blanks. -/
def isBlankText (s : String) : Bool := s.toList.all isBlank

theorem length_dropBlanks_le (cs : List Char) : (dropBlanks cs).length ≤ cs.length :=
  (List.dropWhile_sublist _).length_le

theorem isBlank_head_dropBlanks {cs : List Char} {c : Char} {r : List Char}
    (h : dropBlanks cs = c :: r) : isBlank c = false := by
  have := List.head?_dropWhile_not isBlank cs
  rw [dropBlanks] at h
  simpa [h] using this

/-- A text that begins with no blank loses nothing at its front. -/
theorem dropBlanks_eq_self {cs : List Char} (h : ∀ c ∈ cs.head?, isBlank c = false) :
    dropBlanks cs = cs := by
  cases cs with
  | nil => rfl
  | cons c cs => rw [dropBlanks, List.dropWhile_cons_of_neg (by simp [h c rfl])]

/-- A text with no blank at either end has nothing to trim. -/
theorem trimChars_eq_self {cs : List Char} (hhead : ∀ c ∈ cs.head?, isBlank c = false)
    (hlast : ∀ c ∈ cs.getLast?, isBlank c = false) : trimChars cs = cs := by
  rw [← List.head?_reverse] at hlast
  rw [trimChars, dropBlanks_eq_self hhead, dropBlanks_eq_self hlast, List.reverse_reverse]

@[simp] theorem toList_trim (s : String) : (trim s).toList = trimChars s.toList := by
  simp [trim]

end RecordProjection.Text
