import RecordProjection.Proofs.Json.Rearranged

/-!
# Canonical texts read back

The reader gives back the value that a text was written of, when its integers are no longer than the
reader takes and no mapping has a key twice.

## Main definitions

* `Value.Storable` : the values that can be written and read back, floats aside.
-/
namespace RecordProjection

open Text

namespace Json

/-! ## Steps of the reader -/

section Steps
variable {stack : List Frame} {v : Value} {items : List Value} {members : Members} {key : String}
  {c : Char} {r : List Char}

theorem dropSpaces_cons (hc : isSpace c = false) (r : List Char) :
    dropSpaces (c :: r) = c :: r :=
  List.dropWhile_cons_of_neg (by simp [hc])

theorem readValue_scalar (hc : isSpace c = false) (hlist : c ≠ '[') (hmapping : c ≠ '{') :
    readValue stack (c :: r) = (readScalar (c :: r)).bind fun p => resume stack p.1 p.2 := by
  rw [readValue, dropSpaces_cons hc]
  simp only [if_neg hlist, if_neg hmapping]
  split
  · next heq =>
    rw [heq]
    rfl
  · next heq =>
    rw [heq]
    rfl

theorem readValue_list_nil :
    readValue stack ('[' :: ']' :: r) = resume stack (.list []) r := by
  rw [readValue, dropSpaces_cons rfl]
  simp only [if_true]
  rw [dropSpaces_cons rfl]
  rfl

theorem readValue_list (hc : isSpace c = false) (hclose : c ≠ ']') :
    readValue stack ('[' :: c :: r) = readValue (.list [] :: stack) (c :: r) := by
  rw [readValue, dropSpaces_cons rfl]
  simp only [if_true]
  split
  · next heq => simp_all [dropSpaces_cons hc]
  · rfl

theorem readValue_mapping_nil :
    readValue stack ('{' :: '}' :: r) = resume stack (.mapping []) r := by
  rw [readValue, dropSpaces_cons rfl]
  simp only [if_neg (show ¬ '{' = '[' by decide), if_true]
  rw [dropSpaces_cons rfl]
  rfl

theorem readValue_mapping :
    readValue stack ('{' :: '"' :: r) = readMember stack [] ('"' :: r) := by
  rw [readValue, dropSpaces_cons rfl]
  simp only [if_neg (show ¬ '{' = '[' by decide), if_true]
  rw [dropSpaces_cons rfl]
  rfl

theorem readMember_quoted (cs : List Char) :
    readMember stack members (quotedChars cs ++ ':' :: r) =
      readValue (.mapping members (String.ofList cs) :: stack) r := by
  have hstring : readString? [] (cs.flatMap escapedChar ++ '"' :: ':' :: r) =
      some (cs, ':' :: r) := by
    simpa using readString?_escapedChars [] cs (':' :: r)
  have hquoted : quotedChars cs ++ ':' :: r = '"' :: (cs.flatMap escapedChar ++ '"' :: ':' :: r) := by
    simp [quotedChars]
  rw [hquoted, readMember, dropSpaces_cons rfl]
  split
  · next r' heq =>
    obtain ⟨-, rfl⟩ := List.cons.inj heq
    split
    · next key r'' hkey =>
      obtain ⟨rfl, rfl⟩ := Prod.mk.inj (Option.some.inj (hkey.symm.trans hstring))
      rw [dropSpaces_cons rfl]
      rfl
    · next hkey => simp [hstring] at hkey
  · next hne => exact absurd rfl (hne _)

theorem resume_nil : resume [] v [] = .ok v := by
  rw [resume.eq_def]
  rfl

theorem resume_list_comma : resume (.list items :: stack) v (',' :: r) =
    readValue (.list (v :: items) :: stack) r := by
  rw [resume.eq_def, dropSpaces_cons rfl]
  rfl

theorem resume_list_close : resume (.list items :: stack) v (']' :: r) =
    resume stack (.list (v :: items).reverse) r := by
  rw [resume.eq_def, dropSpaces_cons rfl]
  rfl

theorem resume_mapping_comma : resume (.mapping members key :: stack) v (',' :: r) =
    readMember stack (Entries.insert key v members) r := by
  rw [resume.eq_def, dropSpaces_cons rfl]
  rfl

theorem resume_mapping_close : resume (.mapping members key :: stack) v ('}' :: r) =
    resume stack (.mapping (Entries.insert key v members)) r := by
  rw [resume.eq_def, dropSpaces_cons rfl]
  rfl

end Steps

/-! ## Numbers -/

/-- What may stand behind a value: nothing, or what separates or closes. -/
def EndsValue (x : List Char) : Prop := ∀ c ∈ x.head?, c = ',' ∨ c = ']' ∨ c = '}'

theorem isDigit_eq (c : Char) : isDigit c = c.isDigit := by
  rw [Bool.eq_iff_iff]
  simp [isDigit, Char.isDigit, Char.le_def]

theorem EndsValue.endsNumber {x : List Char} (hx : EndsValue x) : Value.EndsNumber x := by
  intro c hc
  rcases hx c hc with rfl | rfl | rfl <;> rfl

/-- A number has no nought at its front, unless it is nought. -/
theorem head?_decimal {n : Nat} (hn : n ≠ 0) : (Number.decimal n).head? ≠ some '0' := by
  induction n using Nat.strongRecOn with
  | _ n ih =>
    have hdigit : ∀ d < 10, d ≠ 0 → Nat.digitChar d ≠ '0' := by decide
    rw [Number.decimal, Nat.toDigits_eq_if (by decide)]
    by_cases hsmall : n < 10
    · rw [if_pos hsmall, List.head?_cons, Ne, Option.some.injEq]
      exact hdigit n hsmall hn
    · have hhead := ih (n / 10) (by omega) (by omega)
      rw [Number.decimal] at hhead
      rw [if_neg hsmall, List.head?_append_of_ne_nil _ Nat.toDigits_ne_nil]
      exact hhead

theorem readWhole?_decimal (n : Nat) {x : List Char} (hx : EndsValue x) :
    readWhole? (Number.decimal n ++ x) = some (Number.decimal n, x) := by
  by_cases hn : n = 0
  · subst hn
    rfl
  · obtain ⟨c, r, hcr, hdigit⟩ := Value.decimal_eq_cons n
    have hc : c ≠ '0' := by
      have hhead := head?_decimal hn
      rwa [hcr, List.head?_cons, Ne, Option.some.injEq] at hhead
    have hwhile : (r ++ x).takeWhile isDigit = r := by
      have hall := Value.takeWhile_decimal_append n hx.endsNumber
      rw [hcr, List.cons_append, List.takeWhile_cons_of_pos hdigit, List.cons.injEq] at hall
      simpa only [funext isDigit_eq] using hall.2
    have hdrop : (r ++ x).dropWhile isDigit = x := by
      have hsplit := List.takeWhile_append_dropWhile (p := isDigit) (l := r ++ x)
      rw [hwhile] at hsplit
      exact List.append_cancel_left hsplit
    rw [hcr, List.cons_append, readWhole?, if_neg hc, isDigit_eq, if_pos hdigit, hwhile, hdrop]

theorem EndsValue.readFraction_eq {x : List Char} (hx : EndsValue x) :
    readFraction x = ([], x) := by
  cases x with
  | nil => rfl
  | cons c x => rcases hx c (by simp) with rfl | rfl | rfl <;> rfl

theorem EndsValue.readExponent_eq {x : List Char} (hx : EndsValue x) :
    readExponent x = (none, x) := by
  cases x with
  | nil => rfl
  | cons c x => rcases hx c (by simp) with rfl | rfl | rfl <;> rfl

theorem readMagnitude_decimal (negative : Bool) {n : Nat}
    (hshort : (Number.decimal n).length ≤ maxDigits) {x : List Char} (hx : EndsValue x) :
    readMagnitude negative (Number.decimal n ++ x) = .ok (.int (if negative then -n else n), x) := by
  have hvalue : Number.ofDigits (Number.decimal n) = n :=
    Nat.ofDigitChars_toDigits (by decide) (by decide)
  simp only [readMagnitude, readWhole?_decimal n hx, hx.readFraction_eq, hx.readExponent_eq, hvalue,
    if_neg (Nat.not_lt.2 hshort)]
  rfl

/-- No word begins with a digit, nor with a minus sign before one. -/
theorem readWord?_digit {c : Char} (hc : c.isDigit) (r : List Char) :
    readWord? (c :: r) = none ∧ readWord? ('-' :: c :: r) = none := by
  have hne (d : Char) (hd : d.isDigit = false) : c ≠ d := by
    rintro rfl
    rw [hc] at hd
    exact absurd hd (by decide)
  have hn := hne 'n' rfl
  have ht := hne 't' rfl
  have hf := hne 'f' rfl
  have hN := hne 'N' rfl
  have hI := hne 'I' rfl
  have hminus := hne '-' rfl
  constructor <;>
    simp [readWord?, words, after?, hn.symm, ht.symm, hf.symm, hN.symm, hI.symm, hminus.symm]

/-- An integer is read back, if it has no more digits than the reader takes. -/
theorem readScalar_integerText {n : Int} (hshort : (Number.decimal n.natAbs).length ≤ maxDigits)
    {x : List Char} (hx : EndsValue x) :
    readScalar (Number.integerText n ++ x) = .ok (.int n, x) := by
  obtain ⟨c, r, hcr, hdigit⟩ := Value.decimal_eq_cons n.natAbs
  by_cases hn : n < 0
  · have hvalue : -(n.natAbs : Int) = n := by omega
    have hread := readMagnitude_decimal true hshort hx
    rw [if_pos rfl, hvalue] at hread
    rw [Number.integerText, if_pos hn, ← hread, hcr, List.cons_append, List.cons_append,
      readScalar, (readWord?_digit hdigit _).2]
  · have hvalue : (n.natAbs : Int) = n := by omega
    have hread := readMagnitude_decimal false hshort hx
    rw [if_neg Bool.false_ne_true, hvalue] at hread
    rw [Number.integerText, if_neg hn, ← hread, hcr, List.cons_append, readScalar,
      (readWord?_digit hdigit _).1]
    -- the text begins neither with a quotation mark nor with a minus sign
    all_goals
      intro r' heq
      obtain ⟨rfl, -⟩ := List.cons.inj heq
      exact absurd hdigit (by decide)

/-! ## Texts -/

theorem readScalar_quoted (cs x : List Char) :
    readScalar (quotedChars cs ++ x) = .ok (.text (String.ofList cs), x) := by
  have hstring : readString? [] (cs.flatMap escapedChar ++ '"' :: x) = some (cs, x) := by
    simpa using readString?_escapedChars [] cs x
  have hquoted : quotedChars cs ++ x = '"' :: (cs.flatMap escapedChar ++ '"' :: x) := by
    simp [quotedChars]
  have hword : readWord? ('"' :: (cs.flatMap escapedChar ++ '"' :: x)) = none := by
    simp [readWord?, words, after?]
  simp only [hquoted, readScalar, hword, hstring]

/-! ## Values read back -/

/-- The reader takes the text of a value off the front and goes on behind it. -/
def ReadsBack (v : Value) : Prop :=
  ∀ stack x, EndsValue x → readValue stack (v.orderedChars ++ x) = resume stack v x

/-- No value's text begins with white space. -/
theorem isSpace_of_kindAt? {c : Char} {kind : String} (h : Value.kindAt? c = some kind) :
    isSpace c = false := by
  refine Bool.eq_false_iff.2 fun hspace => ?_
  simp only [isSpace, Bool.or_eq_true, decide_eq_true_eq] at hspace
  rcases hspace with ((rfl | rfl) | rfl) | rfl <;> exact absurd h (by simp [Value.kindAt?])

/-- A value that is neither a list nor a mapping is read at once. -/
theorem readValue_of_kindName {v : Value} (hv : v.IsJson) (hlist : v.kindName ≠ "list")
    (hmapping : v.kindName ≠ "dict") (stack : List Frame) (x : List Char) :
    readValue stack (v.orderedChars ++ x) =
      (readScalar (v.orderedChars ++ x)).bind fun p => resume stack p.1 p.2 := by
  obtain ⟨c, r, hcr, hkind⟩ := hv.kind
  rw [hcr]
  refine readValue_scalar (isSpace_of_kindAt? hkind) ?_ ?_
  · rintro rfl
    exact hlist (Option.some.inj hkind).symm
  · rintro rfl
    exact hmapping (Option.some.inj hkind).symm

theorem readsBack_scalar {v : Value} (hv : v.IsJson) (hlist : v.kindName ≠ "list")
    (hmapping : v.kindName ≠ "dict")
    (hread : ∀ x, EndsValue x → readScalar (v.orderedChars ++ x) = .ok (v, x)) : ReadsBack v := by
  intro stack x hx
  rw [readValue_of_kindName hv hlist hmapping, hread x hx]
  rfl

/-- Behind an item stands a comma or what closes. -/
theorem endsValue_behind {α : Type} {code : α → List Char} {close : Char}
    (hclose : close = ']' ∨ close = '}') (as : List α) (x : List Char) :
    EndsValue ((as.flatMap fun a => ',' :: code a) ++ close :: x) := by
  intro c hc
  cases as with
  | nil =>
    obtain rfl : close = c := by simpa using hc
    exact .inr hclose
  | cons a as =>
    obtain rfl : ',' = c := by simpa using hc
    exact .inl rfl

/-- The items behind the first one, up to the end of their list. -/
theorem resume_items (items : List Value) (hitems : ∀ w ∈ items, ReadsBack w) (stack : List Frame)
    (done : List Value) (v : Value) (x : List Char) :
    resume (.list done :: stack) v
        ((items.flatMap fun w => ',' :: w.orderedChars) ++ ']' :: x) =
      resume stack (.list (done.reverse ++ v :: items)) x := by
  induction items generalizing done v with
  | nil =>
    rw [List.flatMap_nil, List.nil_append, resume_list_close, List.reverse_cons]
  | cons w items ih =>
    rw [List.flatMap_cons, List.append_assoc, List.cons_append, resume_list_comma,
      hitems w List.mem_cons_self _ _ (endsValue_behind (.inl rfl) items x),
      ih (fun u hu => hitems u (List.mem_cons_of_mem _ hu)), List.reverse_cons, List.append_assoc]
    rfl

theorem readsBack_list {items : List Value} (hjson : ∀ v ∈ items, v.IsJson)
    (hitems : ∀ v ∈ items, ReadsBack v) : ReadsBack (.list items) := by
  intro stack x _
  cases items with
  | nil => exact readValue_list_nil
  | cons v items =>
    obtain ⟨c, r, hcr, hkind⟩ := (hjson v List.mem_cons_self).kind
    have hclose : c ≠ ']' := by
      rintro rfl
      exact absurd hkind (by simp [Value.kindAt?])
    have htext : (Value.list (v :: items)).orderedChars ++ x =
        '[' :: (v.orderedChars ++
          ((items.flatMap fun w => ',' :: w.orderedChars) ++ ']' :: x)) := by
      simp [Value.orderedChars, Value.orderedItems_eq_map, -List.map_cons, Value.intercalate_cons]
    rw [htext]
    calc
      _ = readValue (.list [] :: stack) (v.orderedChars ++
          ((items.flatMap fun w => ',' :: w.orderedChars) ++ ']' :: x)) := by
        rw [hcr]
        exact readValue_list (isSpace_of_kindAt? hkind) hclose
      _ = resume (.list [] :: stack) v
          ((items.flatMap fun w => ',' :: w.orderedChars) ++ ']' :: x) :=
        hitems v List.mem_cons_self _ _ (endsValue_behind (.inl rfl) items x)
      _ = resume stack (.list (v :: items)) x :=
        resume_items items (fun w hw => hitems w (List.mem_cons_of_mem _ hw)) stack [] v x

theorem readMember_memberChars (stack : List Frame) (done : Members) (m : String × Value)
    (hm : ReadsBack m.2) {x : List Char} (hx : EndsValue x) :
    readMember stack done (Value.memberChars m ++ x) =
      resume (.mapping done m.1 :: stack) m.2 x := by
  rw [Value.memberChars, List.append_assoc, List.cons_append, readMember_quoted,
    String.ofList_toList, hm _ _ hx]

/-- The members behind the first one, up to the end of their mapping. -/
theorem resume_members (members : Members) (hmembers : ∀ m ∈ members, ReadsBack m.2)
    (stack : List Frame) (done : Members) (key : String) (v : Value) (x : List Char)
    (hkeys : (Entries.keys (done ++ (key, v) :: members)).Nodup) :
    resume (.mapping done key :: stack) v
        ((members.flatMap fun m => ',' :: Value.memberChars m) ++ '}' :: x) =
      resume stack (.mapping (done ++ (key, v) :: members)) x := by
  induction members generalizing done key v with
  | nil =>
    rw [List.flatMap_nil, List.nil_append, resume_mapping_close,
      Entries.insert_of_notMem (Entries.notMem_keys_of_nodup hkeys)]
  | cons m members ih =>
    have hassoc : done ++ (key, v) :: m :: members = (done ++ [(key, v)]) ++ m :: members := by
      simp
    have hnew := Entries.notMem_keys_of_nodup hkeys
    rw [hassoc] at hkeys ⊢
    rw [List.flatMap_cons, List.append_assoc, List.cons_append, resume_mapping_comma,
      Entries.insert_of_notMem hnew,
      readMember_memberChars stack _ m (hmembers m List.mem_cons_self)
        (endsValue_behind (.inr rfl) members x),
      ih (fun u hu => hmembers u (List.mem_cons_of_mem _ hu)) _ _ _ hkeys]

theorem readsBack_mapping {members : Members} (hkeys : (Entries.keys members).Nodup)
    (hmembers : ∀ m ∈ members, ReadsBack m.2) : ReadsBack (.mapping members) := by
  intro stack x _
  cases members with
  | nil => exact readValue_mapping_nil
  | cons m members =>
    have htext : (Value.mapping (m :: members)).orderedChars ++ x =
        '{' :: (Value.memberChars m ++
          ((members.flatMap fun n => ',' :: Value.memberChars n) ++ '}' :: x)) := by
      simp [Value.orderedChars, Value.orderedMembers_eq_map, -List.map_cons, Value.intercalate_cons]
    rw [htext]
    calc
      _ = readMember stack [] (Value.memberChars m ++
          ((members.flatMap fun n => ',' :: Value.memberChars n) ++ '}' :: x)) := readValue_mapping
      _ = resume (.mapping [] m.1 :: stack) m.2
          ((members.flatMap fun n => ',' :: Value.memberChars n) ++ '}' :: x) :=
        readMember_memberChars stack [] m (hmembers m List.mem_cons_self)
          (endsValue_behind (.inr rfl) members x)
      _ = resume stack (.mapping (m :: members)) x :=
        resume_members members (fun n hn => hmembers n (List.mem_cons_of_mem _ hn)) stack [] m.1
          m.2 x hkeys

end Json

/-! ## Values that can be stored -/

namespace Value

open Json

/-- The values that can be written and read back, floats aside: no mapping has a key twice, and no
integer has more digits than the reader takes. -/
inductive Storable : Value → Prop
  | null : Storable .null
  | bool (b : Bool) : Storable (.bool b)
  | int {n : Int} (short : (Number.decimal n.natAbs).length ≤ maxDigits) : Storable (.int n)
  | text (s : String) : Storable (.text s)
  | list {items : List Value} (each : ∀ v ∈ items, Storable v) : Storable (.list items)
  | mapping {members : Members} (distinct : (Entries.keys members).Nodup)
      (each : ∀ m ∈ members, Storable m.2) : Storable (.mapping members)

theorem unwritableItem?_eq_none {items : List Value} (h : ∀ v ∈ items, v.unwritable? = none) :
    unwritableItem? items = none := by
  induction items with
  | nil => rfl
  | cons v items ih =>
    rw [unwritableItem?, h v List.mem_cons_self, ih fun u hu => h u (List.mem_cons_of_mem _ hu)]
    rfl

theorem unwritableMembers_eq_map (members : Members) :
    unwritableMembers members = members.map fun m => (m.1, m.2.unwritable?) := by
  induction members with
  | nil => rfl
  | cons m members ih => rw [unwritableMembers, ih, List.map_cons]

namespace Storable
variable {v : Value}

theorem isJson (h : v.Storable) : v.IsJson := by
  induction h with
  | null => exact .null
  | bool b => exact .bool b
  | int _ => exact .int _
  | text s => exact .text s
  | list _ ih => exact .list ih
  | mapping _ _ ih => exact .mapping ih

theorem distinctKeys (h : v.Storable) : v.DistinctKeys := by
  induction h with
  | list _ ih => exact .list ih
  | mapping distinct _ ih => exact .mapping distinct ih
  | _ => exact .scalar (by simp) (by simp)

/-- Sorting takes nothing from what can be stored. -/
theorem sorted (h : v.Storable) : v.sorted.Storable := by
  induction h with
  | @list items each ih =>
    rw [Value.sorted, sortedItems_eq_map]
    exact .list (by simpa using ih)
  | @mapping members distinct each ih =>
    have hkeys : (Entries.keys (sortedMembers members)).Nodup := by
      rwa [keys_sortedMembers]
    rw [Value.sorted]
    exact .mapping (nodup_keys_sortMembers hkeys) (forall_mem_sorted ih)
  | null => exact .null
  | bool b => exact .bool b
  | int short => exact .int short
  | text s => exact .text s

/-- What can be stored is read back. -/
theorem readsBack (h : v.Storable) : ReadsBack v := by
  induction h with
  | null => exact readsBack_scalar .null (by decide) (by decide) fun _ _ => rfl
  | bool b =>
    cases b <;> exact readsBack_scalar (.bool _) (by decide) (by decide) fun _ _ => rfl
  | @int n short =>
    refine readsBack_scalar (.int n) (by simp [kindName]) (by simp [kindName]) fun x hx => ?_
    exact readScalar_integerText short hx
  | text s =>
    refine readsBack_scalar (.text s) (by simp [kindName]) (by simp [kindName]) fun x _ => ?_
    have hread := readScalar_quoted s.toList x
    rwa [String.ofList_toList] at hread
  | list each ih => exact readsBack_list (fun v hv => (each v hv).isJson) ih
  | mapping distinct _ ih => exact readsBack_mapping distinct ih

theorem read_orderedChars (h : v.Storable) : read v.orderedChars = .ok v := by
  have hread := h.readsBack [] [] (by simp [EndsValue])
  rw [List.append_nil, resume_nil] at hread
  exact hread

/-- The canonical form is read back as the value with its members sorted. -/
theorem read_canonical (h : v.Storable) : read v.canonical.toList = .ok v.sorted := by
  rw [canonical, String.toList_ofList, canonicalChars_eq]
  exact h.sorted.read_orderedChars

/-- JSON has a form of its own for each part of what can be stored. -/
theorem unwritable?_eq_none (h : v.Storable) : v.unwritable? = none := by
  induction h with
  | int short => simp [unwritable?, isWritable, short]
  | list _ ih => exact unwritableItem?_eq_none ih
  | @mapping members _ _ ih =>
    rw [unwritable?, List.findSome?_eq_none_iff]
    intro m hm
    rw [mem_sortMembers, unwritableMembers_eq_map] at hm
    obtain ⟨n, hn, rfl⟩ := List.mem_map.1 hm
    exact ih n hn
  | _ => rfl

theorem canonicalJson_eq (h : v.Storable) : v.canonicalJson = .ok v.canonical := by
  rw [canonicalJson, h.unwritable?_eq_none]

end Storable

/-- Of two values that can be stored, one is the other rearranged just when their canonical forms
are the same; and reading the canonical form gives the value back, rearranged. -/
theorem canonicalJson_of_storable {v w : Value} (hv : v.Storable) (hw : w.Storable) :
    v.canonicalJson = .ok v.canonical ∧ (v.canonical = w.canonical ↔ v.Rearranged w) ∧
      ∃ u, read v.canonical.toList = .ok u ∧ u.Rearranged v :=
  ⟨hv.canonicalJson_eq,
    canonical_eq_iff hv.isJson hw.isJson hv.distinctKeys hw.distinctKeys,
    v.sorted, hv.read_canonical, hv.distinctKeys.rearranged_sorted⟩

/-- A mapping with a list, an escaped text and an escaped key. -/
def letter : Value :=
  mapping [("\n", list [int (-10), bool true, null]), ("a", text "\"1\\")]

/-- The members of `letter` the other way round. -/
def letterTurned : Value :=
  mapping [("a", text "\"1\\"), ("\n", list [int (-10), bool true, null])]

theorem canonicalJson_letter :
    letter.Storable ∧ letterTurned.Storable ∧
      letter.canonicalJson = .ok letter.canonical ∧
      (letter.canonical = letterTurned.canonical ↔ letter.Rearranged letterTurned) ∧
        ∃ u, read letter.canonical.toList = .ok u ∧ u.Rearranged letter := by
  have hitems : (list [int (-10), bool true, null]).Storable := by
    refine .list ?_
    simp only [List.forall_mem_cons]
    exact ⟨.int (by decide), .bool true, .null, by simp⟩
  have htext : (text "\"1\\").Storable := .text _
  have hletter : letter.Storable := .mapping (by decide) (by simp [hitems, htext])
  have hturned : letterTurned.Storable := .mapping (by decide) (by simp [hitems, htext])
  exact ⟨hletter, hturned, canonicalJson_of_storable hletter hturned⟩

theorem canonicalJson_of_long {n : Int} (hlong : ¬ (Number.decimal n.natAbs).length ≤ maxDigits) :
    (int n).canonicalJson = .error (int n) := by
  simp [canonicalJson, unwritable?, isWritable, hlong]

/-- Not every JSON value has a canonical form: there is a limit on the digits of an integer. -/
theorem not_forall_canonicalJson :
    ¬ ∀ v w : Value, v.IsJson → w.IsJson → v.DistinctKeys → w.DistinctKeys →
      v.canonicalJson = .ok v.canonical ∧ (v.canonical = w.canonical ↔ v.Rearranged w) ∧
        ∃ u, read v.canonical.toList = .ok u ∧ u.Rearranged v := by
  intro h
  have hlong : ¬ (Number.decimal ((10 ^ maxDigits : Nat) : Int).natAbs).length ≤ maxDigits := by
    rw [Int.natAbs_natCast]
    exact fun hle => Nat.lt_irrefl _ ((Nat.length_toDigits_le_iff (by decide) (by decide)).1 hle)
  have hdistinct (n : Int) : (int n).DistinctKeys := .scalar (by simp) (by simp)
  obtain ⟨hcanonical, -, -⟩ := h (int (10 ^ maxDigits : Nat)) (int (10 ^ maxDigits : Nat))
    (.int _) (.int _) (hdistinct _) (hdistinct _)
  rw [canonicalJson_of_long hlong] at hcanonical
  cases hcanonical

end Value
end RecordProjection
