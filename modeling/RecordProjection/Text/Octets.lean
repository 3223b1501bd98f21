/-!
# Texts as octets

A text in UTF-8, octet by octet. Each octet stands as the character of that number, so a reader
of octets works on the same kind of list as a reader of characters, and on an ASCII text the two
see the same.
-/
namespace RecordProjection.Text

/-- The octets of a text. -/
def octets (cs : List Char) : List Char :=
  cs.flatMap fun c => (String.utf8EncodeChar c).map fun b => Char.ofNat b.toNat

@[simp] theorem octets_nil : octets [] = [] := rfl

@[simp] theorem octets_append (as bs : List Char) : octets (as ++ bs) = octets as ++ octets bs := by
  simp [octets]

/-- An ASCII character is its own only octet. -/
theorem octets_cons_of_ascii {c : Char} (h : c.toNat < 0x80) (cs : List Char) :
    octets (c :: cs) = c :: octets cs := by
  have h₁ : c.toNat ≤ 127 := by omega
  have h₂ : c.toNat % 256 = c.toNat := by omega
  have h₃ : String.utf8EncodeChar c = [UInt8.ofNat c.toNat] := by
    simp [String.utf8EncodeChar, h₁]
  rw [octets, List.flatMap_cons, h₃]
  simp [h₂, octets]

/-- A text of ASCII characters is its own octets. -/
theorem octets_of_ascii {cs : List Char} (h : ∀ c ∈ cs, c.toNat < 0x80) : octets cs = cs := by
  induction cs with
  | nil => rfl
  | cons c cs ih =>
    rw [octets_cons_of_ascii (h c (by simp)), ih fun d hd => h d (by simp [hd])]

end RecordProjection.Text
