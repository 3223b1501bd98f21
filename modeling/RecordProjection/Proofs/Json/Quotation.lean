import Mathlib.Tactic.SplitIfs
import RecordProjection.Json.Printer
import RecordProjection.Json.Reader

/-!
# Quoted texts

The reader of strings undoes the escapes of the printer, so a quoted text determines the text
between its marks and the place where it ends.
-/
namespace RecordProjection

/-- A character is given back by its number. -/
@[simp] theorem Text.char?_toNat (c : Char) : Text.char? c.toNat = some c := by
  have hvalid : c.toNat.isValidChar := c.valid
  rw [Text.char?, dif_pos hvalid]
  rfl

namespace Json

open Text

theorem readUnit?_append {cs r : List Char} {n : Nat} (h : readUnit? cs = some (n, r))
    (x : List Char) : readUnit? (cs ++ x) = some (n, r ++ x) := by
  unfold readUnit? at h
  split at h
  · obtain ⟨m, hm, h⟩ := Option.map_eq_some_iff.1 h
    obtain ⟨rfl, rfl⟩ := Prod.mk.inj h
    simp [readUnit?, hm]
  · simp at h

/-- The number of a control character is read back from its four digits. -/
theorem readUnit?_hexDigits {n : Nat} (h : n < 0x20) (x : List Char) :
    readUnit? (hexDigits 4 n ++ x) = some (n, x) := by
  have hall : ∀ n < 0x20, readUnit? (hexDigits 4 n) = some (n, []) := by decide
  exact readUnit?_append (hall n h) x

/-- A control character is read back from the escape that gives its number. -/
theorem readEscape?_hexDigits {c : Char} (h : c.toNat < 0x20) (x : List Char) :
    readEscape? ('u' :: (hexDigits 4 c.toNat ++ x)) = some (c, x) := by
  have hlow : isHighSurrogate c.toNat = false := by
    simp only [isHighSurrogate, Bool.and_eq_false_iff, decide_eq_false_iff_not]
    omega
  simp [readEscape?, readUnit?_hexDigits h, hlow]

theorem readString?_escape {done cs r : List Char} {c : Char}
    (h : readEscape? cs = some (c, r)) :
    readString? done ('\\' :: cs) = readString? (c :: done) r := by
  rw [readString?, if_neg (by decide), if_pos rfl]
  split
  · next x r' hx =>
    obtain ⟨rfl, rfl⟩ := Prod.mk.inj (Option.some.inj (hx.symm.trans h))
    rfl
  · next hnone => simp [h] at hnone

/-- The reader takes a printed character as the character itself. -/
theorem readString?_escapedChar (done : List Char) (c : Char) (x : List Char) :
    readString? done (escapedChar c ++ x) = readString? (c :: done) x := by
  unfold escapedChar
  split_ifs with hmark hslash hn hr ht hb hf hcontrol
  · exact readString?_escape (by simp [readEscape?, escape?, hmark])
  · exact readString?_escape (by simp [readEscape?, escape?, hslash])
  · exact readString?_escape (by simp [readEscape?, escape?, hn])
  · exact readString?_escape (by simp [readEscape?, escape?, hr])
  · exact readString?_escape (by simp [readEscape?, escape?, ht])
  · exact readString?_escape (by simp [readEscape?, escape?, hb])
  · exact readString?_escape (by simp [readEscape?, escape?, hf])
  · exact readString?_escape (readEscape?_hexDigits hcontrol x)
  · rw [List.singleton_append, readString?, if_neg hmark, if_neg hslash, if_neg hcontrol]

/-- The reader gives back the text that printed characters before a closing mark stand for. -/
theorem readString?_escapedChars (done cs x : List Char) :
    readString? done (cs.flatMap escapedChar ++ '"' :: x) = some (done.reverse ++ cs, x) := by
  induction cs generalizing done with
  | nil => simp [readString?]
  | cons c cs ih =>
    rw [List.flatMap_cons, List.append_assoc, readString?_escapedChar, ih]
    simp

/-- A quoted text determines the text and the place where it ends. -/
theorem quotedChars_append_inj {cs ds x y : List Char}
    (h : quotedChars cs ++ x = quotedChars ds ++ y) : cs = ds ∧ x = y := by
  have hbody : cs.flatMap escapedChar ++ '"' :: x = ds.flatMap escapedChar ++ '"' :: y := by
    simpa [quotedChars] using h
  have hread := congrArg (readString? []) hbody
  rw [readString?_escapedChars, readString?_escapedChars] at hread
  simpa using hread

end Json
end RecordProjection
