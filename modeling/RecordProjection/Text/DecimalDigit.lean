/-!
# Decimal digits

The characters of general category Nd of Unicode 14. They come in runs of ten, from nought to
nine, so the table holds where each run starts.
-/
namespace RecordProjection.Text

/-- The first character of every run of ten decimal digits, in rising order. -/
def decimalRuns : List Nat :=
  [0x30, 0x660, 0x6F0, 0x7C0, 0x966, 0x9E6, 0xA66, 0xAE6, 0xB66, 0xBE6,
   0xC66, 0xCE6, 0xD66, 0xDE6, 0xE50, 0xED0, 0xF20, 0x1040, 0x1090, 0x17E0,
   0x1810, 0x1946, 0x19D0, 0x1A80, 0x1A90, 0x1B50, 0x1BB0, 0x1C40, 0x1C50, 0xA620,
   0xA8D0, 0xA900, 0xA9D0, 0xA9F0, 0xAA50, 0xABF0, 0xFF10, 0x104A0, 0x10D30, 0x11066,
   0x110F0, 0x11136, 0x111D0, 0x112F0, 0x11450, 0x114D0, 0x11650, 0x116C0, 0x11730, 0x118E0,
   0x11950, 0x11C50, 0x11D50, 0x11DA0, 0x16A60, 0x16AC0, 0x16B50, 0x1D7CE, 0x1D7D8, 0x1D7E2,
   0x1D7EC, 0x1D7F6, 0x1E140, 0x1E2F0, 0x1E950, 0x1FBF0]

/-- A decimal digit of any script. -/
def isDecimalDigit (c : Char) : Bool :=
  decimalRuns.any fun start => start ≤ c.toNat && c.toNat < start + 10

/-- One of the ten digits of ASCII. -/
def isDigit (c : Char) : Bool := '0' ≤ c && c ≤ '9'

/-- The value of an ASCII digit. -/
def digitValue (c : Char) : Nat := c.toNat - '0'.toNat

/-- The ASCII digit of a value below ten. -/
def digitChar (d : Nat) : Char := Char.ofNat ('0'.toNat + d)

/-- The ASCII digit of the same value as a decimal digit; any other character as it is. -/
def toDigit (c : Char) : Char :=
  match decimalRuns.find? fun start => start ≤ c.toNat && c.toNat < start + 10 with
  | some start => digitChar (c.toNat - start)
  | none => c

theorem isDecimalDigit_of_isDigit {c : Char} (h : isDigit c = true) :
    isDecimalDigit c = true := by
  simp only [isDigit, Bool.and_eq_true, decide_eq_true_eq, Char.le_def] at h
  simp only [isDecimalDigit, decimalRuns, List.any_cons, Bool.or_eq_true, Bool.and_eq_true,
    decide_eq_true_eq]
  left
  have h₁ := UInt32.le_iff_toNat_le.1 h.1
  have h₂ := UInt32.le_iff_toNat_le.1 h.2
  simp only [Char.toNat]
  have e₁ : '0'.val.toNat = 48 := rfl
  have e₂ : '9'.val.toNat = 57 := rfl
  omega

end RecordProjection.Text
