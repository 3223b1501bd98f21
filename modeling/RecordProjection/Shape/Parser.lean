import RecordProjection.Shape.Syntax

/-!
# Parsing shapes

A recursive descent over the trimmed text. Fields may be separated by a comma or by nothing at
all; blanks may stand between any two of them and before a list in parentheses, but not around
the colons of an alias. A list of fields ends at the end of the text or before a closing
parenthesis, which is left to the caller.

Every function takes the place to read from and gives the place where it stopped. The place where
a list stops is never before the place where it started, and the descent ends because each step
into or along a list leaves less text.
-/
namespace RecordProjection

/-- A field up to its list in parentheses. -/
inductive FieldHead
  | wildcard
  | named (name : Identifier) (key : Option Identifier)

namespace FieldHead

/-- The name of a field as it was written. -/
def name : FieldHead → String
  | wildcard => "*"
  | named name _ => name.text

/-- The field with this head and list. -/
def field (head : FieldHead) (nested : Option (List FieldSpec)) : FieldSpec :=
  match head with
  | wildcard => .wildcard "*" nested
  | named name key => .named name.text (key.map Identifier.text) nested name.text_ne_star

end FieldHead

namespace Shape

/-- The longest identifier at a place. -/
def readIdentifier (s : Cursor) : Except SyntaxError (Identifier × Cursor) :=
  match s.rest with
  | [] => .error (.identifierMissing s.position)
  | c :: r =>
    if h : isIdentifierStart c = true then
      let others := r.takeWhile isIdentifierPart
      .ok (⟨c, others, h, fun _ hd => List.all_eq_true.1 List.all_takeWhile _ hd⟩,
        ⟨s.position + 1 + others.length, r.dropWhile isIdentifierPart⟩)
    else .error (.identifierStart c s.position)

/-- The two colons before an alias, and the text behind them. -/
def readColons? : List Char → Option (List Char)
  | ':' :: ':' :: r => some r
  | _ => none

/-- The head of the field at a place. -/
def readHead (s : Cursor) : Except SyntaxError (FieldHead × Cursor) :=
  match s.rest with
  | [] => .error (.unexpectedEnd s.position)
  | '*' :: r =>
    match readColons? r with
    | some _ => .error (.aliasedWildcard (s.position + 1))
    | none => .ok (.wildcard, ⟨s.position + 1, r⟩)
  | _ =>
    match readIdentifier s with
    | .error e => .error e
    | .ok (name, t) =>
      match readColons? t.rest with
      | none => .ok (.named name none, t)
      | some r =>
        match readIdentifier ⟨t.position + 2, r⟩ with
        | .error e => .error e
        | .ok (key, u) => .ok (.named name (some key), u)

theorem length_of_readIdentifier {s t : Cursor} {i : Identifier}
    (h : readIdentifier s = .ok (i, t)) : t.rest.length < s.rest.length := by
  unfold readIdentifier at h
  split at h
  · simp at h
  · next c r hr =>
    split at h
    · simp only [Except.ok.injEq, Prod.mk.injEq] at h
      have := (List.dropWhile_sublist isIdentifierPart (l := r)).length_le
      rw [hr, ← h.2]
      simp only [List.length_cons]
      omega
    · simp at h

theorem length_of_readColons? {cs r : List Char} (h : readColons? cs = some r) :
    r.length < cs.length := by
  unfold readColons? at h
  split at h
  · simp only [Option.some.injEq] at h
    simp only [← h, List.length_cons]
    omega
  · simp at h

theorem length_of_readHead {s t : Cursor} {head : FieldHead} (h : readHead s = .ok (head, t)) :
    t.rest.length < s.rest.length := by
  unfold readHead at h
  split at h
  · simp at h
  · next r hr =>
    split at h
    · simp at h
    · simp only [Except.ok.injEq, Prod.mk.injEq] at h
      rw [hr, ← h.2]
      simp
  · split at h
    · simp at h
    · next name u hu =>
      have l₁ := length_of_readIdentifier hu
      split at h
      · simp only [Except.ok.injEq, Prod.mk.injEq] at h
        rw [← h.2]
        exact l₁
      · next r hr =>
        split at h
        · simp at h
        · next key v hv =>
          have l₂ := length_of_readColons? hr
          have l₃ := length_of_readIdentifier hv
          simp only [Except.ok.injEq, Prod.mk.injEq] at h
          rw [← h.2]
          simp only at l₃
          omega

/-- What can come next in a list of fields. -/
inductive Awaiting
  | firstField
  | separator
  | fieldAfterComma
  deriving DecidableEq

/-- Fields that were read, and the place where reading stopped, with at most `n` characters to
go. -/
structure Parsed (n : Nat) where
  fields : List FieldSpec
  stop : Cursor
  stop_le : stop.rest.length ≤ n

/-- The same with a field in front, seen from a place further back. -/
def Parsed.cons {n m : Nat} (f : FieldSpec) (p : Parsed n) (h : n ≤ m) : Parsed m :=
  ⟨f :: p.fields, p.stop, Nat.le_trans p.stop_le h⟩

/-- The same, seen from a place further back. -/
def Parsed.widen {n m : Nat} (p : Parsed n) (h : n ≤ m) : Parsed m :=
  ⟨p.fields, p.stop, Nat.le_trans p.stop_le h⟩

/-- The end of a list of fields. It may not come directly behind a comma. -/
def endOfFields (awaiting : Awaiting) (s : Cursor) {n : Nat} (h : s.rest.length ≤ n) :
    Except SyntaxError (Parsed n) :=
  if awaiting = .fieldAfterComma then .error (.trailingComma s.position) else .ok ⟨[], s, h⟩

/-- The fields from a place to the end of their list. -/
def readFields (awaiting : Awaiting) (s : Cursor) : Except SyntaxError (Parsed s.rest.length) :=
  match ht : s.skipBlanks.rest with
  | [] => endOfFields awaiting s.skipBlanks s.length_skipBlanks_le
  | c :: r =>
    if c = ')' then endOfFields awaiting s.skipBlanks s.length_skipBlanks_le
    else if c = ',' then
      if awaiting = .separator then
        (readFields .fieldAfterComma ⟨s.skipBlanks.position + 1, r⟩).map (·.widen (by
          have := s.length_skipBlanks_le
          simp only [ht, List.length_cons] at this ⊢
          omega))
      else .error (.missingField s.skipBlanks.position)
    else
      match hh : readHead s.skipBlanks with
      | .error e => .error e
      | .ok (head, u) =>
        have hu : u.skipBlanks.rest.length < s.rest.length :=
          Nat.lt_of_le_of_lt u.length_skipBlanks_le
            (Nat.lt_of_lt_of_le (length_of_readHead hh) s.length_skipBlanks_le)
        match hr : u.skipBlanks.rest with
        | '(' :: r' =>
          match readFields .firstField ⟨u.skipBlanks.position + 1, r'⟩ with
          | .error e => .error e
          | .ok inner =>
            match hi : inner.stop.rest with
            | ')' :: r'' =>
              (readFields .separator ⟨inner.stop.position + 1, r''⟩).map
                (·.cons (head.field (some inner.fields)) (by
                  have := inner.stop_le
                  simp only [hi, hr, List.length_cons] at this hu ⊢
                  omega))
            | _ => .error (.unclosedList head.name u.skipBlanks.position)
        | _ =>
          (readFields .separator u.skipBlanks).map (·.cons (head.field none) (Nat.le_of_lt hu))
termination_by s.rest.length
decreasing_by
  · have := s.length_skipBlanks_le
    simp only [ht, List.length_cons] at this ⊢
    omega
  · simp only [hr, List.length_cons] at hu ⊢
    omega
  · have := inner.stop_le
    simp only [hi, hr, List.length_cons] at this hu ⊢
    omega
  · exact hu

/-- The shape that a text stands for, with both flags off. -/
def parse (text : String) : Except SyntaxError Shape :=
  let cs := Text.trimChars text.toList
  if cs.isEmpty then .error .emptyShape
  else
    match readFields .firstField (.start cs) with
    | .error e => .error e
    | .ok p =>
      match p.stop.rest with
      | [] => .ok ⟨p.fields, false, false⟩
      | c :: _ => .error (.unexpectedCharacter c p.stop.position)

end Shape
end RecordProjection
