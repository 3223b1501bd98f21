import Mathlib.Tactic.SplitIfs
import RecordProjection.Text.Octets

/-!
# Octets of ASCII characters

In the octets of a text an octet below 128 always stands for the ASCII character of that number, so
ASCII octets at the front are characters at the front. The first octet of any other character tells
how many octets it has.
-/
namespace RecordProjection.Text

theorem toNat_octet (n : Nat) : (Char.ofNat (UInt8.ofNat n).toNat).toNat = n % 256 := by
  have hvalid : Nat.isValidChar (n % 256) := .inl (by omega)
  rw [UInt8.toNat_ofNat', Char.ofNat, dif_pos hvalid]
  rfl

/-- The octets of a character that is not ASCII: none of them is, and the first one tells how many
there are. -/
theorem exists_octets_of_not_ascii {c : Char} (h : 0x80 ≤ c.toNat) : ∃ b bs,
    octets [c] = b :: bs ∧ (∀ o ∈ b :: bs, 0x80 ≤ o.toNat) ∧
      bs.length + 1 = if b.toNat / 16 = 0xE then 3 else if b.toNat / 16 = 0xF then 4 else 2 := by
  have hascii : ¬ c.toNat ≤ 127 := by omega
  simp only [octets, List.flatMap_cons, List.flatMap_nil, List.append_nil, String.utf8EncodeChar]
  rw [show c.val.toNat = c.toNat from rfl, if_neg hascii]
  split_ifs with htwo hthree
  · refine ⟨_, _, rfl, ?_, ?_⟩
    · simp only [List.map_cons, List.map_nil, List.forall_mem_cons, toNat_octet]
      refine ⟨by omega, by omega, by simp⟩
    · rw [toNat_octet, if_neg (by omega), if_neg (by omega)]
      rfl
  · refine ⟨_, _, rfl, ?_, ?_⟩
    · simp only [List.map_cons, List.map_nil, List.forall_mem_cons, toNat_octet]
      refine ⟨by omega, by omega, by omega, by simp⟩
    · rw [toNat_octet, if_pos (by omega)]
      rfl
  · refine ⟨_, _, rfl, ?_, ?_⟩
    · simp only [List.map_cons, List.map_nil, List.forall_mem_cons, toNat_octet]
      refine ⟨by omega, by omega, by omega, by omega, by simp⟩
    · rw [toNat_octet, if_neg (by omega), if_pos (by omega)]
      rfl

theorem octets_cons (c : Char) (cs : List Char) : octets (c :: cs) = octets [c] ++ octets cs :=
  octets_append [c] cs

theorem length_le_length_octets (cs : List Char) : cs.length ≤ (octets cs).length := by
  induction cs with
  | nil => exact Nat.zero_le _
  | cons c cs ih =>
    have hc : 1 ≤ (octets [c]).length := by
      by_cases hascii : c.toNat < 0x80
      · simp [octets_cons_of_ascii hascii]
      · obtain ⟨b, bs, hoctets, -⟩ := exists_octets_of_not_ascii (Nat.le_of_not_lt hascii)
        simp [hoctets]
    rw [octets_cons, List.length_append, List.length_cons]
    omega

/-- An ASCII octet is an ASCII character of the text. -/
theorem mem_of_mem_octets {cs : List Char} {o : Char} (ho : o ∈ octets cs)
    (hascii : o.toNat < 0x80) : o ∈ cs := by
  induction cs with
  | nil => simp at ho
  | cons c cs ih =>
    by_cases hc : c.toNat < 0x80
    · rw [octets_cons_of_ascii hc] at ho
      rcases List.mem_cons.1 ho with rfl | ho
      · exact List.mem_cons_self
      · exact List.mem_cons_of_mem c (ih ho)
    · obtain ⟨b, bs, hoctets, hlarge, -⟩ := exists_octets_of_not_ascii (Nat.le_of_not_lt hc)
      rw [octets_cons, hoctets, List.mem_append] at ho
      rcases ho with ho | ho
      · exact absurd (hlarge o ho) (by omega)
      · exact List.mem_cons_of_mem c (ih ho)

/-- ASCII octets at the front of a text are its characters there. -/
theorem exists_of_octets_eq_append {cs a r : List Char} (ha : ∀ o ∈ a, o.toNat < 0x80)
    (h : octets cs = a ++ r) : ∃ cs', cs = a ++ cs' ∧ octets cs' = r := by
  induction a generalizing cs with
  | nil => exact ⟨cs, rfl, h⟩
  | cons o a ih =>
    obtain ⟨ho, hascii⟩ := List.forall_mem_cons.1 ha
    cases cs with
    | nil => cases h
    | cons c cs =>
      by_cases hc : c.toNat < 0x80
      · rw [octets_cons_of_ascii hc] at h
        obtain ⟨rfl, hbehind⟩ := List.cons.inj h
        obtain ⟨cs', rfl, hcs'⟩ := ih hascii hbehind
        exact ⟨cs', rfl, hcs'⟩
      · obtain ⟨b, bs, hoctets, hlarge, -⟩ := exists_octets_of_not_ascii (Nat.le_of_not_lt hc)
        rw [octets_cons, hoctets, List.cons_append] at h
        obtain ⟨rfl, -⟩ := List.cons.inj h
        exact absurd (hlarge b List.mem_cons_self) (by omega)

/-- ASCII octets at the front of the octets of a text and others are its characters there, when there
are no more of them than the text has octets. -/
theorem exists_of_octets_append_eq {cs r a b : List Char} (ha : ∀ o ∈ a, o.toNat < 0x80)
    (h : octets cs ++ r = a ++ b) (hlength : a.length ≤ (octets cs).length) :
    ∃ cs', cs = a ++ cs' := by
  obtain ⟨e, he⟩ := List.prefix_of_prefix_length_le ⟨b, h.symm⟩ ⟨r, rfl⟩ hlength
  obtain ⟨cs', hcs, -⟩ := exists_of_octets_eq_append ha he.symm
  exact ⟨cs', hcs⟩

end RecordProjection.Text
