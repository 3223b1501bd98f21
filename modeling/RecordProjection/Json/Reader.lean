import RecordProjection.Text.DecimalDigit
import RecordProjection.Text.Encoding
import RecordProjection.Text.Front
import RecordProjection.Value

/-!
# Reading JSON

The value that a JSON text stands for. The reader is a machine with a stack of the lists and
mappings that are still open; every step takes at least one character off the text.

Beyond the standard, `NaN`, `Infinity` and `-Infinity` are numbers. A number without fraction and
exponent is an integer of any size, up to a limit on its digits. When a key is repeated in a
mapping, its last value stands in its first place.
-/
namespace RecordProjection.Json

open Text

/-- Why a text is not read. -/
inductive Fault
  | malformed
  | integerTooLong (digits : Nat)
  deriving DecidableEq

/-- The most digits an integer may have. -/
def maxDigits : Nat := 4300

/-- What is said of an integer with more digits, and a note on it. -/
def tooLongText (note : String) : String :=
  "Exceeds the limit (" ++ toString maxDigits ++ " digits) for integer string conversion" ++ note
    ++ "; use sys.set_int_max_str_digits() to increase the limit"

/-- White space between the parts of a JSON text. -/
def isSpace (c : Char) : Bool := c = ' ' || c = '\t' || c = '\n' || c = '\r'

/-- The text after its leading white space. -/
def dropSpaces (cs : List Char) : List Char := cs.dropWhile isSpace

theorem length_dropSpaces_le (cs : List Char) : (dropSpaces cs).length ≤ cs.length :=
  (List.dropWhile_sublist _).length_le

/-! ## Strings -/

/-- The value of a hexadecimal digit. -/
def hexValue? (c : Char) : Option Nat :=
  if '0' ≤ c && c ≤ '9' then some (c.toNat - '0'.toNat)
  else if 'a' ≤ c && c ≤ 'f' then some (c.toNat - 'a'.toNat + 10)
  else if 'A' ≤ c && c ≤ 'F' then some (c.toNat - 'A'.toNat + 10)
  else none

/-- The value of four hexadecimal digits. -/
def hexValue4? (a b c d : Char) : Option Nat := do
  let high := (← hexValue? a) * 16 + (← hexValue? b)
  let low := (← hexValue? c) * 16 + (← hexValue? d)
  some (high * 256 + low)

/-- The character that a single letter behind a backslash stands for. -/
def escape? (c : Char) : Option Char :=
  if c = '"' || c = '\\' || c = '/' then some c
  else if c = 'n' then some '\n'
  else if c = 'r' then some '\r'
  else if c = 't' then some '\t'
  else if c = 'b' then some '\x08'
  else if c = 'f' then some '\x0c'
  else none

/-- Four hexadecimal digits at the front of a text, and the text behind. -/
def readUnit? : List Char → Option (Nat × List Char)
  | a :: b :: c :: d :: r => (hexValue4? a b c d).map (·, r)
  | _ => none

/-- The character that an escape stands for, read behind its backslash. A character beyond sixteen
bits is given by both halves of its surrogate pair; a half on its own is no character. -/
def readEscape? : List Char → Option (Char × List Char)
  | [] => none
  | c :: r =>
    if c = 'u' then do
      let (n, r) ← readUnit? r
      if isHighSurrogate n then
        let r ← after? ['\\', 'u'] r
        let (m, r) ← readUnit? r
        if isLowSurrogate m then (pairChar? n m).map (·, r) else none
      else (char? n).map (·, r)
    else (escape? c).map (·, r)

theorem length_of_readUnit? {cs r : List Char} {n : Nat} (h : readUnit? cs = some (n, r)) :
    r.length < cs.length := by
  unfold readUnit? at h
  split at h
  · obtain ⟨_, -, h⟩ := Option.map_eq_some_iff.1 h
    simp only [Prod.mk.injEq] at h
    simp only [List.length_cons, ← h.2]
    omega
  · simp at h

theorem length_of_readEscape? {cs r : List Char} {x : Char} (h : readEscape? cs = some (x, r)) :
    r.length < cs.length := by
  cases cs with
  | nil => simp [readEscape?] at h
  | cons c cs =>
    rw [readEscape?] at h
    split at h
    · simp only [bind, Option.bind_eq_some_iff, Prod.exists] at h
      obtain ⟨n, r₁, h₁, h⟩ := h
      have l₁ := length_of_readUnit? h₁
      split at h
      · simp only [Option.bind_eq_some_iff, Prod.exists] at h
        obtain ⟨r₂, h₂, m, r₃, h₃, h⟩ := h
        have l₂ := congrArg List.length (after?_eq_some_iff.1 h₂)
        have l₃ := length_of_readUnit? h₃
        split at h
        · obtain ⟨_, -, h⟩ := Option.map_eq_some_iff.1 h
          simp only [Prod.mk.injEq] at h
          simp only [List.length_append, List.length_cons, List.length_nil] at l₂ ⊢
          rw [← h.2]
          omega
        · simp at h
      · obtain ⟨_, -, h⟩ := Option.map_eq_some_iff.1 h
        simp only [Prod.mk.injEq] at h
        simp only [List.length_cons, ← h.2]
        omega
    · obtain ⟨_, -, h⟩ := Option.map_eq_some_iff.1 h
      simp only [Prod.mk.injEq] at h
      simp [← h.2]

/-- The rest of a string, up to its closing mark, and the text behind it. The characters read so
far are given with the latest first. -/
def readString? (done : List Char) : List Char → Option (List Char × List Char)
  | [] => none
  | c :: cs =>
    if c = '"' then some (done.reverse, cs)
    else if c = '\\' then
      match _h : readEscape? cs with
      | some (x, r) => readString? (x :: done) r
      | none => none
    else if c.toNat < 0x20 then none
    else readString? (c :: done) cs
termination_by cs => cs.length
decreasing_by
  · have := length_of_readEscape? ‹_›
    simp only [List.length_cons]
    omega
  · simp

theorem length_of_readString? {done cs s r : List Char} (h : readString? done cs = some (s, r)) :
    r.length < cs.length := by
  fun_induction readString? done cs with
  | case1 => simp at h
  | case2 done cs =>
    simp only [Option.some.injEq, Prod.mk.injEq] at h
    simp [← h.2]
  | case3 done cs x r' hx _ ih =>
    have := length_of_readEscape? hx
    have := ih h
    simp only [List.length_cons]
    omega
  | case4 => simp at h
  | case5 => simp at h
  | case6 done c cs _ _ _ ih =>
    have := ih h
    simp only [List.length_cons]
    omega

/-! ## Numbers and words -/

/-- The digits of a whole number: a single nought, or digits that do not begin with one. -/
def readWhole? : List Char → Option (List Char × List Char)
  | [] => none
  | c :: cs =>
    if c = '0' then some (['0'], cs)
    else if isDigit c then some (c :: cs.takeWhile isDigit, cs.dropWhile isDigit)
    else none

/-- The digits of a fraction behind its point. A point without a digit is left alone. -/
def readFraction : List Char → List Char × List Char
  | '.' :: cs =>
    let digits := cs.takeWhile isDigit
    if digits.isEmpty then ([], '.' :: cs) else (digits, cs.dropWhile isDigit)
  | cs => ([], cs)

/-- An exponent. A mark without a digit behind it is left alone. -/
def readExponent (cs : List Char) : Option Int × List Char :=
  match cs with
  | [] => (none, [])
  | mark :: behind =>
    let (negative, rest) := Number.readSign behind
    let digits := rest.takeWhile isDigit
    if (mark = 'e' || mark = 'E') && !digits.isEmpty then
      let n : Int := Number.ofDigits digits
      (some (if negative then -n else n), rest.dropWhile isDigit)
    else (none, cs)

/-- A number without its sign. -/
def readMagnitude (negative : Bool) (cs : List Char) : Except Fault (Value × List Char) :=
  match readWhole? cs with
  | none => .error .malformed
  | some (whole, cs) =>
    let (fraction, cs) := readFraction cs
    let (exponent, cs) := readExponent cs
    if fraction.isEmpty && exponent.isNone then
      if maxDigits < whole.length then .error (.integerTooLong whole.length)
      else
        let n : Int := Number.ofDigits whole
        .ok (.int (if negative then -n else n), cs)
    else
      .ok (.float (.ofDecimal negative (Number.ofDigits (whole ++ fraction))
        (exponent.getD 0 - fraction.length)), cs)

/-- The words that stand for a value. -/
def words : List (List Char × Value) :=
  [("null".toList, .null), ("true".toList, .bool true), ("false".toList, .bool false),
   ("NaN".toList, .float .nan), ("Infinity".toList, .float (.infinite false)),
   ("-Infinity".toList, .float (.infinite true))]

/-- The word at the front of a text. -/
def readWord? (cs : List Char) : Option (Value × List Char) :=
  words.findSome? fun (word, v) => (after? word cs).map (v, ·)

/-- A value that is neither a list nor a mapping. -/
def readScalar (cs : List Char) : Except Fault (Value × List Char) :=
  match readWord? cs with
  | some found => .ok found
  | none =>
    match cs with
    | '"' :: r =>
      match readString? [] r with
      | some (s, r) => .ok (.text (String.ofList s), r)
      | none => .error .malformed
    | '-' :: r => readMagnitude true r
    | cs => readMagnitude false cs

theorem length_of_readWhole? {cs digits r : List Char} (h : readWhole? cs = some (digits, r)) :
    r.length < cs.length := by
  cases cs with
  | nil => simp [readWhole?] at h
  | cons c cs =>
    rw [readWhole?] at h
    split at h
    · simp only [Option.some.injEq, Prod.mk.injEq] at h
      simp [← h.2]
    · split at h
      · simp only [Option.some.injEq, Prod.mk.injEq] at h
        have := (List.dropWhile_sublist isDigit (l := cs)).length_le
        simp only [List.length_cons, ← h.2]
        omega
      · simp at h

theorem length_readFraction_le (cs : List Char) : (readFraction cs).2.length ≤ cs.length := by
  unfold readFraction
  split
  · next cs =>
    have := (List.dropWhile_sublist isDigit (l := cs)).length_le
    simp only [List.length_cons]
    split
    · simp
    · simp only
      omega
  · simp

theorem length_readExponent_le (cs : List Char) : (readExponent cs).2.length ≤ cs.length := by
  unfold readExponent
  split
  · simp
  · next mark behind =>
    have l₁ := Number.length_readSign_le behind
    have l₂ := (List.dropWhile_sublist isDigit (l := (Number.readSign behind).2)).length_le
    simp only
    split
    · simp only [List.length_cons]
      omega
    · simp

theorem length_of_readMagnitude {negative : Bool} {cs r : List Char} {v : Value}
    (h : readMagnitude negative cs = .ok (v, r)) : r.length < cs.length := by
  unfold readMagnitude at h
  split at h
  · simp at h
  · next whole r₁ h₁ =>
    have l₁ := length_of_readWhole? h₁
    have l₂ := length_readFraction_le r₁
    have l₃ := length_readExponent_le (readFraction r₁).2
    simp only at h
    split at h
    · split at h
      · simp at h
      · simp only [Except.ok.injEq, Prod.mk.injEq] at h
        rw [← h.2]
        omega
    · simp only [Except.ok.injEq, Prod.mk.injEq] at h
      rw [← h.2]
      omega

theorem length_of_readWord? {cs r : List Char} {v : Value} (h : readWord? cs = some (v, r)) :
    r.length < cs.length := by
  obtain ⟨⟨word, v'⟩, hw, h⟩ := List.exists_of_findSome?_eq_some h
  obtain ⟨r', hr, h⟩ := Option.map_eq_some_iff.1 h
  simp only [Prod.mk.injEq] at h
  obtain ⟨-, rfl⟩ := h
  have hpos : 0 < word.length := by
    simp only [words, List.mem_cons, Prod.mk.injEq, List.not_mem_nil, or_false] at hw
    rcases hw with h | h | h | h | h | h <;> rw [h.1] <;> decide
  rw [after?_eq_some_iff.1 hr, List.length_append]
  omega

theorem length_of_readScalar {cs r : List Char} {v : Value} (h : readScalar cs = .ok (v, r)) :
    r.length < cs.length := by
  unfold readScalar at h
  split at h
  · next found hw =>
    simp only [Except.ok.injEq] at h
    exact length_of_readWord? (h ▸ hw)
  · split at h
    · split at h
      · next s r' hs =>
        simp only [Except.ok.injEq, Prod.mk.injEq] at h
        have := length_of_readString? hs
        rw [← h.2]
        simp only [List.length_cons]
        omega
      · simp at h
    · have := length_of_readMagnitude h
      simp only [List.length_cons]
      omega
    · exact length_of_readMagnitude h

/-! ## Lists and mappings -/

theorem length_lt_of_dropSpaces {cs r : List Char} {c : Char} (h : dropSpaces cs = c :: r) :
    r.length < cs.length := by
  have := length_dropSpaces_le cs
  rw [h, List.length_cons] at this
  omega

/-- A list or a mapping that is still open: its items or members so far, the items with the latest
first, and in a mapping the key whose value comes next. -/
inductive Frame
  | list (items : List Value)
  | mapping (members : Members) (key : String)

mutual

/-- Read a value inside the open frames, and what follows it. -/
def readValue (stack : List Frame) (cs : List Char) : Except Fault Value :=
  match _h : dropSpaces cs with
  | [] => .error .malformed
  | c :: r =>
    if c = '[' then
      match _h' : dropSpaces r with
      | ']' :: r' => resume stack (.list []) r'
      | _ => readValue (.list [] :: stack) r
    else if c = '{' then
      match _h' : dropSpaces r with
      | '}' :: r' => resume stack (.mapping []) r'
      | _ => readMember stack [] r
    else
      match _h' : readScalar (c :: r) with
      | .ok (v, r') => resume stack v r'
      | .error e => .error e
termination_by cs.length
decreasing_by
  · exact Nat.lt_trans (length_lt_of_dropSpaces _h') (length_lt_of_dropSpaces _h)
  · exact length_lt_of_dropSpaces _h
  · exact Nat.lt_trans (length_lt_of_dropSpaces _h') (length_lt_of_dropSpaces _h)
  · exact length_lt_of_dropSpaces _h
  · exact Nat.lt_of_lt_of_le (length_of_readScalar _h') (_h ▸ length_dropSpaces_le cs)

/-- Read a member of a mapping, and what follows it. -/
def readMember (stack : List Frame) (members : Members) (cs : List Char) : Except Fault Value :=
  match _h : dropSpaces cs with
  | '"' :: r =>
    match _h' : readString? [] r with
    | some (key, r') =>
      match _h'' : dropSpaces r' with
      | ':' :: r'' => readValue (.mapping members (String.ofList key) :: stack) r''
      | _ => .error .malformed
    | none => .error .malformed
  | _ => .error .malformed
termination_by cs.length
decreasing_by
  exact Nat.lt_trans (length_lt_of_dropSpaces _h'')
    (Nat.lt_trans (length_of_readString? _h') (length_lt_of_dropSpaces _h))

/-- Go on behind a value: close the frame it stands in, read what follows it there, or end. -/
def resume (stack : List Frame) (v : Value) (cs : List Char) : Except Fault Value :=
  match stack, _h : dropSpaces cs with
  | [], [] => .ok v
  | .list items :: stack, ',' :: r => readValue (.list (v :: items) :: stack) r
  | .list items :: stack, ']' :: r => resume stack (.list (v :: items).reverse) r
  | .mapping members key :: stack, ',' :: r => readMember stack (Entries.insert key v members) r
  | .mapping members key :: stack, '}' :: r =>
    resume stack (.mapping (Entries.insert key v members)) r
  | _, _ => .error .malformed
termination_by cs.length
decreasing_by all_goals exact length_lt_of_dropSpaces _h

end

/-- The value that a JSON text stands for. -/
def read (cs : List Char) : Except Fault Value := readValue [] cs

/-- The value that the octets of a JSON text stand for. -/
def readOctets (bytes : List UInt8) : Except Fault Value :=
  match Text.decode? bytes with
  | some cs => read cs
  | none => .error .malformed

end RecordProjection.Json
