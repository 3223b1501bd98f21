import Mathlib.Data.List.TakeWhile
import RecordProjection.Proofs.Shape.Reading

/-!
# Tokens

A text is cut into identifiers, as long as they can be, pairs of colons, and single characters.
Blanks belong to no token: what they do is to keep identifiers and colons apart.

## Main definitions

* `Token` : what a text is cut into.
* `firstToken?`, `tokens` : the first token of a text, and all of them.
* `FieldHead.tokens` : the tokens that the head of a field is written with.
-/
namespace RecordProjection

open Text Shape

theorem Text.dropBlanks_eq_nil_iff {cs : List Char} : dropBlanks cs = [] ↔ Blanks cs :=
  List.dropWhile_eq_nil_iff

theorem isIdentifierPart_of_mem_takeWhile (cs : List Char) :
    ∀ c ∈ cs.takeWhile isIdentifierPart, isIdentifierPart c = true :=
  fun _ hc => List.all_eq_true.1 List.all_takeWhile _ hc

/-- What a text is cut into. -/
inductive Token
  | identifier (i : Identifier)
  | colons
  | mark (c : Char)
  deriving DecidableEq

namespace Token

/-- The text of a token. -/
def chars : Token → List Char
  | identifier i => i.chars
  | colons => [':', ':']
  | mark c => [c]

/-- A token that this text follows is cut off from it. -/
def StandsBefore (r : List Char) : Token → Prop
  | identifier _ => EndsIdentifier r
  | colons => True
  | mark c => isBlank c = false ∧ isIdentifierStart c = false ∧ (c = ':' → r.head? ≠ some ':')

theorem chars_ne_nil (x : Token) : x.chars ≠ [] := by
  cases x with
  | identifier i => exact i.chars_ne_nil
  | colons => exact List.cons_ne_nil _ _
  | mark c => exact List.cons_ne_nil _ _

end Token

/-- The first token of a text, and what follows it. -/
def firstToken? (cs : List Char) : Option (Token × List Char) :=
  match dropBlanks cs with
  | [] => none
  | ':' :: ':' :: r => some (.colons, r)
  | c :: r =>
    if h : isIdentifierStart c = true then
      some (.identifier ⟨c, r.takeWhile isIdentifierPart, h, isIdentifierPart_of_mem_takeWhile r⟩,
        r.dropWhile isIdentifierPart)
    else some (.mark c, r)

theorem firstToken?_eq_none_iff {cs : List Char} : firstToken? cs = none ↔ Blanks cs := by
  rw [← dropBlanks_eq_nil_iff, firstToken?]
  split
  · next h => simp [h]
  · next h => simp [h]
  · next h => split <;> simp [h]

/-- The first token stands at the first character that is no blank. -/
theorem dropBlanks_of_firstToken? {cs r : List Char} {x : Token}
    (h : firstToken? cs = some (x, r)) : dropBlanks cs = x.chars ++ r ∧ x.StandsBefore r := by
  rw [firstToken?] at h
  split at h
  · cases h
  · next r' hr =>
    cases h
    exact ⟨hr, trivial⟩
  · next c r' hcolons hr =>
    split at h
    · cases h
      refine ⟨?_, ?_⟩
      · rw [hr, Token.chars, Identifier.chars, List.cons_append, List.takeWhile_append_dropWhile]
      · intro d hd
        have hstop := List.head?_dropWhile_not isIdentifierPart r'
        rwa [Option.mem_def.1 hd] at hstop
    · next hstart =>
      cases h
      refine ⟨hr, isBlank_head_dropBlanks hr, by simpa using hstart, ?_⟩
      rintro rfl hhead
      obtain ⟨r'', rfl⟩ : ∃ r'', r = ':' :: r'' := by simpa [List.head?_eq_some_iff] using hhead
      exact hcolons r'' rfl rfl

theorem firstToken?_of_dropBlanks {cs r : List Char} {x : Token}
    (h : dropBlanks cs = x.chars ++ r) (hx : x.StandsBefore r) :
    firstToken? cs = some (x, r) := by
  rw [firstToken?, h]
  cases x with
  | identifier i =>
    obtain ⟨c, others, hc, hothers⟩ := i
    obtain ⟨htake, hdrop⟩ := EndsIdentifier.span hx hothers
    have hcolon : c ≠ ':' := by
      rintro rfl
      exact absurd hc (by decide)
    simp [Token.chars, Identifier.chars, hc, hcolon, htake, hdrop]
  | colons => rfl
  | mark c =>
    obtain ⟨-, hstart, hcolons⟩ := hx
    split
    · next hnil => cases hnil
    · next r' hr =>
      obtain ⟨rfl, rfl⟩ := List.cons.inj hr
      exact absurd rfl (hcolons rfl)
    · next c' r' _ hr =>
      obtain ⟨rfl, rfl⟩ := List.cons.inj hr
      rw [dif_neg (by simp [hstart])]
      rfl

theorem length_of_firstToken? {cs r : List Char} {x : Token} (h : firstToken? cs = some (x, r)) :
    r.length < cs.length := by
  have hcs := length_dropBlanks_le cs
  have hx := List.length_pos_iff.2 x.chars_ne_nil
  rw [(dropBlanks_of_firstToken? h).1, List.length_append] at hcs
  omega

/-- The tokens of a text. -/
def tokens (cs : List Char) : List Token :=
  match _ : firstToken? cs with
  | none => []
  | some (x, r) => x :: tokens r
termination_by cs.length
decreasing_by exact length_of_firstToken? ‹_›

theorem tokens_eq_nil_iff {cs : List Char} : tokens cs = [] ↔ Blanks cs := by
  rw [tokens, ← firstToken?_eq_none_iff]
  split
  · next h => simp [h]
  · next h => simp [h]

theorem tokens_eq_cons_iff {cs : List Char} {x : Token} {xs : List Token} :
    tokens cs = x :: xs ↔ ∃ r, dropBlanks cs = x.chars ++ r ∧ x.StandsBefore r ∧ tokens r = xs := by
  constructor
  · intro h
    rw [tokens] at h
    split at h
    · cases h
    · next y r hr =>
      obtain ⟨rfl, rfl⟩ := List.cons.inj h
      obtain ⟨hcs, hx⟩ := dropBlanks_of_firstToken? hr
      exact ⟨r, hcs, hx, rfl⟩
  · rintro ⟨r, hcs, hx, rfl⟩
    have hfirst := firstToken?_of_dropBlanks hcs hx
    rw [tokens]
    split
    · next h => simp [hfirst] at h
    · next h =>
      cases hfirst.symm.trans h
      rfl

/-! ## Blanks -/

/-- Blanks in front change nothing. -/
theorem tokens_eq_of_dropBlanks_eq {cs ds : List Char} (h : dropBlanks cs = dropBlanks ds) :
    tokens cs = tokens ds := by
  cases hds : tokens ds with
  | nil =>
    rw [tokens_eq_nil_iff, ← dropBlanks_eq_nil_iff] at hds ⊢
    exact h.trans hds
  | cons x xs =>
    rw [tokens_eq_cons_iff] at hds ⊢
    rwa [h]

theorem Text.Blanks.tokens_append {w : List Char} (hw : Blanks w) (cs : List Char) :
    tokens (w ++ cs) = tokens cs :=
  tokens_eq_of_dropBlanks_eq (hw.dropBlanks_append cs)

@[simp] theorem tokens_dropBlanks (cs : List Char) : tokens (dropBlanks cs) = tokens cs :=
  tokens_eq_of_dropBlanks_eq (dropBlanks_eq_self (isBlank_head?_dropBlanks cs))

/-- A token that ends where a blank follows the text ends there too. -/
theorem Token.StandsBefore.append {x : Token} {l r : List Char} (h : x.StandsBefore l)
    (hr : ∀ c ∈ r.head?, isBlank c = true) : x.StandsBefore (l ++ r) := by
  cases x with
  | identifier i =>
    intro c hc
    cases l with
    | nil =>
      have hblank := hr c hc
      refine Bool.eq_false_iff.2 fun hpart => ?_
      simp [isBlank_of_isIdentifierPart hpart] at hblank
    | cons d l => exact h c hc
  | colons => trivial
  | mark c =>
    obtain ⟨hblank, hstart, hcolons⟩ := h
    refine ⟨hblank, hstart, ?_⟩
    cases l with
    | nil => exact fun _ hhead => absurd (hr ':' hhead) (by decide)
    | cons d l => exact hcolons

/-- A text is cut in front of a blank. -/
theorem tokens_append_of_blank (l : List Char) {r : List Char}
    (hr : ∀ c ∈ r.head?, isBlank c = true) : tokens (l ++ r) = tokens l ++ tokens r := by
  fun_induction tokens l with
  | case1 l h =>
    rw [(firstToken?_eq_none_iff.1 h).tokens_append]
    rfl
  | case2 l x l' h ih =>
    obtain ⟨hl, hx⟩ := dropBlanks_of_firstToken? h
    have hne : dropBlanks l ≠ [] := by
      rw [hl]
      exact List.append_ne_nil_of_left_ne_nil x.chars_ne_nil _
    have hdrop : dropBlanks (l ++ r) = x.chars ++ (l' ++ r) := by
      rw [← List.append_assoc, ← hl, dropBlanks, List.dropWhile_append, if_neg]
      · rfl
      · rwa [List.isEmpty_iff]
    rw [List.cons_append, tokens_eq_cons_iff]
    exact ⟨l' ++ r, hdrop, hx.append hr, ih⟩

/-- Blanks that are put between two tokens leave the tokens as they are. -/
theorem tokens_insert {l w r : List Char} (hw : Blanks w)
    (hgap : tokens (l ++ r) = tokens l ++ tokens r) : tokens (l ++ w ++ r) = tokens (l ++ r) := by
  cases w with
  | nil => rw [List.append_nil]
  | cons b w =>
    have hblank : ∀ c ∈ (b :: w ++ r).head?, isBlank c = true := by
      intro c hc
      obtain rfl : b = c := by simpa using hc
      exact hw b List.mem_cons_self
    rw [List.append_assoc, tokens_append_of_blank l hblank, hw.tokens_append, hgap]

/-! ## Marks and heads of fields -/

/-- A mark is a token of its own when it is no colon. -/
theorem tokens_of_mark {cs r : List Char} {c : Char} (h : dropBlanks cs = c :: r)
    (hc : isIdentifierStart c = false ∧ c ≠ ':') : tokens cs = .mark c :: tokens r :=
  tokens_eq_cons_iff.2
    ⟨r, h, ⟨isBlank_head_dropBlanks h, hc.1, fun hcolon => absurd hcolon hc.2⟩, rfl⟩

/-- The tokens that the head of a field is written with. -/
def FieldHead.tokens : FieldHead → List Token
  | wildcard => [.mark '*']
  | named name none => [.identifier name]
  | named name (some key) => [.identifier name, .colons, .identifier key]

/-- The tokens at a place where a head is read. -/
theorem Shape.tokens_of_readHead {s u : Cursor} {head : FieldHead}
    (h : readHead s.skipBlanks = .ok (head, u)) :
    tokens s.rest = head.tokens ++ tokens u.rest := by
  obtain ⟨⟨hrest, -⟩, hends⟩ := spans_of_readHead h
  cases head with
  | wildcard => exact tokens_of_mark hrest (by decide)
  | named name key =>
    cases key with
    | none => exact tokens_eq_cons_iff.2 ⟨u.rest, hrest, hends.1, rfl⟩
    | some key =>
      have hcolons : EndsIdentifier (':' :: ':' :: (key.chars ++ u.rest)) :=
        endsIdentifier_cons.2 (by decide)
      have hkey : tokens (key.chars ++ u.rest) = .identifier key :: tokens u.rest := by
        refine tokens_eq_cons_iff.2 ⟨u.rest, dropBlanks_eq_self ?_, hends, rfl⟩
        intro c hc
        obtain rfl : key.first = c := Option.some.inj hc
        exact isBlank_of_isIdentifierPart
          (isIdentifierPart_of_isIdentifierStart key.isIdentifierStart_first)
      have hbehind : tokens (':' :: ':' :: (key.chars ++ u.rest)) =
          [.colons, .identifier key] ++ tokens u.rest := by
        refine tokens_eq_cons_iff.2 ⟨key.chars ++ u.rest, dropBlanks_eq_self ?_, trivial, hkey⟩
        simp [isBlank]
      refine tokens_eq_cons_iff.2 ⟨_, hrest.trans ?_, hcolons, hbehind⟩
      rw [FieldHead.chars, List.append_assoc]
      rfl

end RecordProjection
