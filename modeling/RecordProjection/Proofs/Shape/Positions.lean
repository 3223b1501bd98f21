import RecordProjection.Proofs.Shape.Failures
import RecordProjection.Proofs.Shape.RoundTrip
import RecordProjection.Proofs.Text.Trimming

/-!
# Where a text stops being the beginning of a shape

The place of a syntax error is no earlier and no later than it should be. What stands before it can
be completed to a shape, and once something stands there that is no single colon, nothing that is
written behind the text makes it a shape, nor changes the error. Only a list that is not closed is
reported where it was opened, and there the whole text can be completed.

## Main definitions

* `Awaiting.Viable` : a text can be completed to one that a state of the descent takes.
* `Cursor.extend` : a place in a text that goes on behind its end.
* `Cursor.Settled` : what stands at a place is not changed by what is written behind the text.
-/
namespace RecordProjection

open Text Shape

theorem Apart.nil (cs : List Char) : Apart cs [] := by
  intro c _ d hd
  cases hd

theorem Apart.append {cs ds : List Char} (h : Apart cs ds) (hne : ds ≠ []) (es : List Char) :
    Apart cs (ds ++ es) := by
  intro c hc d hd
  rw [List.head?_append_of_ne_nil _ hne] at hd
  exact h c hc d hd

namespace Shape

/-! ## What can be completed -/

/-- A text that can be completed to one that a state of the descent takes. Where a field has to
come, it is completed with one at least, and where none has to, nothing is put behind the field in
front unless there is something behind it already. -/
def Awaiting.Viable (a : Awaiting) (cs : List Char) : Prop :=
  ∃ w fs, a.Derives (cs ++ w) fs ∧ (a ≠ .separator → fs ≠ []) ∧ (a = .separator → cs = [] → w = [])

/-- The identifier that is put where one has to come. -/
def anyName : Identifier := ⟨'a', [], by decide, by simp⟩

@[simp] theorem chars_anyName : anyName.chars = ['a'] := rfl

namespace Awaiting
variable {a : Awaiting} {cs v : List Char}

theorem viable_blanks (a : Awaiting) (hv : Blanks v) : a.Viable v := by
  by_cases ha : a = .separator
  · refine ⟨[], [], ?_, ?_, ?_⟩
    · rw [List.append_nil, ha]
      exact .blank (by decide) hv
    · intro hne
      exact absurd ha hne
    · intro _ _
      rfl
  · refine ⟨['a'], [(FieldHead.named anyName none).field none], ?_, by simp, ?_⟩
    · have hfield := Derives.fields (a := a) hv (.one (.bare (.named anyName none))) blanks_nil
      simpa [FieldHead.chars] using hfield
    · intro heq
      exact absurd heq ha

theorem Viable.blanks_append (h : a.Viable cs) (hv : Blanks v) : a.Viable (v ++ cs) := by
  obtain ⟨w, fs, hd, hne, hempty⟩ := h
  refine ⟨w, fs, ?_, hne, ?_⟩
  · rw [List.append_assoc]
    exact hd.blanks_append hv
  · intro ha hnil
    exact hempty ha (List.append_eq_nil_iff.1 hnil).2

theorem Viable.comma (h : fieldAfterComma.Viable cs) (hv : Blanks v) :
    separator.Viable (v ++ ',' :: cs) := by
  obtain ⟨w, fs, hd, -, -⟩ := h
  refine ⟨w, fs, ?_, ?_, ?_⟩
  · rw [List.append_assoc]
    exact .comma hv hd
  · intro hne
    exact absurd rfl hne
  · intro _ hnil
    simp at hnil

/-- A field goes in front of what can be completed behind it. -/
theorem Viable.cons {ds : List Char} {f : FieldSpec} (h : separator.Viable ds)
    (hf : DerivesField cs f) (hapart : Apart cs ds) : a.Viable (cs ++ ds) := by
  obtain ⟨w, fs, hd, -, hempty⟩ := h
  have hseam : Apart cs (ds ++ w) := by
    by_cases hds : ds = []
    · rw [hds, hempty rfl hds]
      exact Apart.nil cs
    · exact hapart.append hds w
  refine ⟨w, f :: fs, ?_, by simp, ?_⟩
  · rw [List.append_assoc]
    exact hd.cons hf hseam
  · intro _ hnil
    obtain ⟨c, r, rfl, -⟩ := hf.eq_cons
    simp at hnil

/-- A list that is not closed yet can be completed when what it holds can. -/
theorem viable_opening {w : List Char} {fs : List FieldSpec} (head : FieldHead) (hv : Blanks v)
    (hd : firstField.Derives (cs ++ w) fs) : a.Viable (head.chars ++ v ++ '(' :: cs) := by
  have hf : DerivesField (head.chars ++ v ++ '(' :: (cs ++ w) ++ [')']) (head.field (some fs)) :=
    .listed head hv (derives_firstField_iff.1 hd)
  refine ⟨w ++ [')'], [head.field (some fs)], ?_, by simp, ?_⟩
  · have hfield := Derives.fields (a := a) blanks_nil (.one hf) blanks_nil
    simpa only [List.append_assoc, List.cons_append, List.nil_append, List.append_nil] using hfield
  · intro _ hnil
    simp at hnil

end Awaiting

/-- What was read of a head before it failed can be completed. -/
theorem FailsHead.viable {s t : Cursor} {e : SyntaxError} (h : FailsHead s e t) :
    ∃ cs, s.Spans cs t ∧ ∀ a : Awaiting, a.Viable cs := by
  cases h with
  | ended =>
    refine ⟨[], Cursor.spans_nil_iff.2 rfl, ?_⟩
    intro a
    exact a.viable_blanks blanks_nil
  | aliased hs =>
    refine ⟨['*'], ⟨hs, rfl⟩, ?_⟩
    intro a
    exact (Awaiting.viable_blanks .separator blanks_nil).cons (.bare .wildcard) (Apart.nil _)
  | name =>
    refine ⟨[], Cursor.spans_nil_iff.2 rfl, ?_⟩
    intro a
    exact a.viable_blanks blanks_nil
  | @key u name r _ hs hu _ =>
    refine ⟨name.chars ++ [':', ':'], hs.trans ⟨hu, rfl⟩, ?_⟩
    intro a
    have hfield : DerivesField (name.chars ++ [':', ':'] ++ ['a'])
        ((FieldHead.named name (some anyName)).field none) := by
      rw [List.append_assoc]
      exact .bare (.named name (some anyName))
    refine ⟨['a'], [(FieldHead.named name (some anyName)).field none], ?_, by simp, ?_⟩
    · have hfields := Awaiting.Derives.fields (a := a) blanks_nil (.one hfield) blanks_nil
      simpa only [List.nil_append, List.append_nil] using hfields
    · intro _ hnil
      simp at hnil

/-- What was read before a reading failed can be completed. -/
theorem Fails.viable {a : Awaiting} {s t : Cursor} {e : SyntaxError} (h : Fails a s e t) :
    ∃ cs, s.Spans cs t ∧ a.Viable cs := by
  induction h with
  | @trailing s hs =>
    obtain ⟨w, hw, hspan⟩ := s.spans_skipBlanks
    exact ⟨w, hspan, Awaiting.viable_blanks _ hw⟩
  | @missing a s r ha hs =>
    obtain ⟨w, hw, hspan⟩ := s.spans_skipBlanks
    exact ⟨w, hspan, a.viable_blanks hw⟩
  | @comma s t r e hs _ ih =>
    obtain ⟨w, hw, hspan⟩ := s.spans_skipBlanks
    obtain ⟨cs, hcs, hviable⟩ := ih
    exact ⟨w ++ ',' :: cs, hspan.trans (Cursor.Spans.cons_iff.2 ⟨r, hs, hcs⟩), hviable.comma hw⟩
  | @head a s t c r e hs hparen hcomma h =>
    obtain ⟨w, hw, hspan⟩ := s.spans_skipBlanks
    obtain ⟨cs, hcs, hviable⟩ := h.viable
    exact ⟨w ++ cs, hspan.trans hcs, (hviable a).blanks_append hw⟩
  | @bare a s u t head e hs hu _ ih =>
    obtain ⟨cs, hcs, hviable⟩ := ih
    obtain ⟨w, v, hw, hv, hapart, hspan⟩ := spans_of_bare hs hcs
    have hfield := (hviable.blanks_append hv).cons (a := a) (.bare head) hapart
    exact ⟨_, hspan, hfield.blanks_append hw⟩
  | @inside a s u t head r e hs hu _ ih =>
    obtain ⟨cs, hcs, x, fs, hd, -, -⟩ := ih
    obtain ⟨w, v, hw, hv, hspan⟩ := spans_of_opening hs hu hcs
    exact ⟨_, hspan, (Awaiting.viable_opening head hv hd).blanks_append hw⟩
  | @unclosed a s u t head r inner hs hu hi ht =>
    obtain ⟨cs, hcs, hd⟩ := hi.derives
    obtain ⟨w, v, hw, hv, hspan⟩ := spans_of_opening hs hu hcs
    rw [← List.append_nil cs] at hd
    exact ⟨_, hspan, (Awaiting.viable_opening head hv hd).blanks_append hw⟩
  | @listed a s u m t head r r' inner e hs hu hi hm _ ih =>
    obtain ⟨is, his, hdi⟩ := hi.derives
    obtain ⟨cs, hcs, hviable⟩ := ih
    obtain ⟨w, v, hw, hv, hspan⟩ := spans_of_listed hs hu his hm hcs
    have hf : DerivesField (head.chars ++ v ++ '(' :: is ++ [')']) (head.field (some inner)) :=
      .listed head hv (Awaiting.derives_firstField_iff.1 hdi)
    have hfield := hviable.cons (a := a) hf (.of_last (by decide))
    exact ⟨_, hspan, hfield.blanks_append hw⟩

end Shape

/-! ## What stays an error -/

namespace Cursor

/-- A place in a text that goes on behind its end. -/
def extend (s : Cursor) (x : List Char) : Cursor := ⟨s.position, s.rest ++ x⟩

/-- Something stands at a place, and no single colon: it is not changed by what is written behind
the text. -/
def Settled (s : Cursor) : Prop := s.rest ≠ [] ∧ s.rest ≠ [':']

theorem Spans.extend {s t : Cursor} {cs : List Char} (h : s.Spans cs t) (x : List Char) :
    (s.extend x).Spans cs (t.extend x) := by
  obtain ⟨hrest, hposition⟩ := h
  refine ⟨?_, hposition⟩
  rw [Cursor.extend, Cursor.extend, hrest, List.append_assoc]

/-- What stands before a settled place is settled. -/
theorem Spans.settled {s t : Cursor} {cs : List Char} (h : s.Spans cs t) (ht : t.Settled) :
    s.Settled := by
  obtain ⟨hrest, -⟩ := h
  obtain ⟨hne, hcolon⟩ := ht
  refine ⟨?_, ?_⟩
  · intro hnil
    rw [hrest, List.append_eq_nil_iff] at hnil
    exact hne hnil.2
  · intro hsingle
    rw [hrest, List.append_eq_singleton_iff] at hsingle
    rcases hsingle with ⟨-, hsingle⟩ | ⟨-, hnil⟩
    · exact hcolon hsingle
    · exact hne hnil

theorem skipBlanks_extend {s : Cursor} (h : s.skipBlanks.rest ≠ []) (x : List Char) :
    (s.extend x).skipBlanks = s.skipBlanks.extend x := by
  obtain ⟨w, hw, hspan⟩ := s.spans_skipBlanks
  rw [(hspan.extend x).skipBlanks_eq hw]
  apply skipBlanks_eq_self
  intro c hc
  have hfirst : c ∈ s.skipBlanks.rest.head? := by
    rwa [Cursor.extend, List.head?_append_of_ne_nil _ h] at hc
  exact isBlank_head?_dropBlanks s.rest c hfirst

/-- Behind blanks a longer text begins with the same character. -/
theorem rest_skipBlanks_extend {s : Cursor} {c : Char} {r : List Char}
    (h : s.skipBlanks.rest = c :: r) (x : List Char) :
    (s.extend x).skipBlanks = s.skipBlanks.extend x ∧
      (s.extend x).skipBlanks.rest = c :: (r ++ x) := by
  have hskip := skipBlanks_extend (s := s) (by simp [h]) x
  refine ⟨hskip, ?_⟩
  rw [hskip, extend, h, List.cons_append]

end Cursor

theorem EndsIdentifier.append {r : List Char} (h : EndsIdentifier r) (hne : r ≠ [])
    (x : List Char) : EndsIdentifier (r ++ x) := by
  intro c hc
  rw [List.head?_append_of_ne_nil _ hne] at hc
  exact h c hc

namespace Shape

theorem readColons?_append {r : List Char} (h : readColons? r = none) (hne : r ≠ [])
    (hcolon : r ≠ [':']) (x : List Char) : readColons? (r ++ x) = none := by
  rw [Option.eq_none_iff_forall_ne_some] at h ⊢
  intro r' hr'
  rw [readColons?_eq_some_iff] at hr'
  cases r with
  | nil => exact hne rfl
  | cons c r =>
    rw [List.cons_append, List.cons.injEq] at hr'
    obtain ⟨rfl, htail⟩ := hr'
    cases r with
    | nil => exact hcolon rfl
    | cons d r =>
      rw [List.cons_append, List.cons.injEq] at htail
      obtain ⟨rfl, -⟩ := htail
      exact h r rfl

/-- A head that is read before a settled place is read in a longer text. -/
theorem readHead_extend {s u : Cursor} {head : FieldHead} (h : readHead s = .ok (head, u))
    (hu : u.Settled) (x : List Char) : readHead (s.extend x) = .ok (head, u.extend x) := by
  obtain ⟨hspan, hends⟩ := spans_of_readHead h
  obtain ⟨hne, hcolon⟩ := hu
  apply readHead_of_spans (hspan.extend x)
  cases head with
  | wildcard => exact readColons?_append hends hne hcolon x
  | named name key =>
    cases key with
    | none => exact ⟨hends.1.append hne x, readColons?_append hends.2 hne hcolon x⟩
    | some key => exact EndsIdentifier.append hends hne x

/-- A head with a list behind it is read in a longer text. -/
theorem readHead_extend_opening {s u : Cursor} {head : FieldHead} {r : List Char}
    (hs : readHead s.skipBlanks = .ok (head, u)) (hu : u.skipBlanks.rest = '(' :: r)
    (x : List Char) :
    readHead (s.extend x).skipBlanks = .ok (head, u.extend x) ∧
      (u.extend x).skipBlanks = u.skipBlanks.extend x ∧
      (u.extend x).skipBlanks.rest = '(' :: (r ++ x) := by
  obtain ⟨w, -, hblanks⟩ := u.spans_skipBlanks
  have hsettled : u.skipBlanks.Settled := by simp [Cursor.Settled, hu]
  have hread := readHead_extend hs (hblanks.settled hsettled) x
  obtain ⟨c, r', hr', -⟩ := exists_of_readHead hs
  obtain ⟨hskip, -⟩ := Cursor.rest_skipBlanks_extend hr' x
  exact ⟨hskip ▸ hread, Cursor.rest_skipBlanks_extend hu x⟩

theorem readIdentifier_extend {s : Cursor} {e : SyntaxError} (h : readIdentifier s = .error e)
    (hs : s.rest ≠ []) (x : List Char) : readIdentifier (s.extend x) = .error e := by
  rw [readIdentifier_eq_error_iff] at h ⊢
  rcases h with ⟨hnil, -⟩ | ⟨c, r, hr, hc, he⟩
  · exact absurd hnil hs
  · right
    refine ⟨c, r ++ x, ?_, hc, he⟩
    rw [Cursor.extend, hr, List.cons_append]

theorem FailsHead.extend {s t : Cursor} {e : SyntaxError} (h : FailsHead s e t) (ht : t.rest ≠ [])
    (x : List Char) : FailsHead (s.extend x) e (t.extend x) := by
  cases h with
  | ended hs => exact absurd hs ht
  | @aliased r hs => exact .aliased (by rw [Cursor.extend, hs]; rfl)
  | @name c r hs hstar hc =>
    have hrest : (s.extend x).rest = c :: (r ++ x) := by
      rw [Cursor.extend, hs, List.cons_append]
    exact .name hrest hstar hc
  | @key u name r _ hs hu h =>
    have hrest : (u.extend x).rest = ':' :: ':' :: (r ++ x) := by
      rw [Cursor.extend, hu]
      rfl
    exact .key (u := u.extend x) (hs.extend x) hrest (readIdentifier_extend h ht x)

/-- A list that is read up to its closing parenthesis is read in a longer text. -/
theorem Reads.extend {s m : Cursor} {fs : List FieldSpec} {r : List Char}
    (h : Reads .firstField s fs m) (hm : m.rest = ')' :: r) (x : List Char) :
    Reads .firstField (s.extend x) fs (m.extend x) := by
  obtain ⟨cs, hspan, hd⟩ := h.derives
  apply (Awaiting.derives_firstField_iff.1 hd).reads (hspan.extend x)
  intro c hc
  rw [Cursor.extend, hm] at hc
  exact (Option.some.inj hc).symm

/-- A reading that fails at a settled place fails in a longer text, with the same error. -/
theorem Fails.extend {a : Awaiting} {s t : Cursor} {e : SyntaxError} (h : Fails a s e t)
    (he : e.code ≠ "UNCLOSED_NESTED") (ht : t.Settled) (x : List Char) :
    Fails a (s.extend x) e (t.extend x) := by
  induction h with
  | @trailing s hs =>
    have hskip := Cursor.skipBlanks_extend ht.1 x
    have hend : AtEnd (s.extend x).skipBlanks.rest := by
      intro c hc
      rw [hskip, Cursor.extend, List.head?_append_of_ne_nil _ ht.1] at hc
      exact hs c hc
    have hfails := Fails.trailing hend
    rwa [hskip] at hfails
  | @missing a s r ha hs =>
    obtain ⟨hskip, hrest⟩ := Cursor.rest_skipBlanks_extend hs x
    have hfails := Fails.missing ha hrest
    rwa [hskip] at hfails
  | @comma s t r e hs _ ih =>
    obtain ⟨hskip, hrest⟩ := Cursor.rest_skipBlanks_extend hs x
    refine .comma hrest ?_
    rw [hskip]
    exact ih he ht
  | @head a s t c r e hs hparen hcomma h =>
    obtain ⟨hskip, hrest⟩ := Cursor.rest_skipBlanks_extend hs x
    refine .head hrest hparen hcomma ?_
    rw [hskip]
    exact h.extend ht.1 x
  | @bare a s u t head e hs hu h ih =>
    obtain ⟨cs, hspan, -⟩ := h.viable
    obtain ⟨w, -, hblanks⟩ := u.spans_skipBlanks
    have hsettled := hspan.settled ht
    have hread := readHead_extend hs (hblanks.settled hsettled) x
    obtain ⟨c, r, hr, -⟩ := exists_of_readHead hs
    obtain ⟨d, r', hr'⟩ := List.exists_cons_of_ne_nil hsettled.1
    obtain ⟨hskip, -⟩ := Cursor.rest_skipBlanks_extend hr x
    obtain ⟨hskip', hrest⟩ := Cursor.rest_skipBlanks_extend hr' x
    refine .bare (hskip ▸ hread) ?_ ?_
    · intro r'' hparen
      obtain ⟨rfl, -⟩ := List.cons.inj (hrest.symm.trans hparen)
      exact hu r' hr'
    · rw [hskip']
      exact ih he ht
  | @inside a s u t head r e hs hu h ih =>
    obtain ⟨hread, hskip, hopen⟩ := readHead_extend_opening hs hu x
    refine .inside hread hopen ?_
    rw [hskip]
    exact ih he ht
  | unclosed => exact absurd rfl he
  | @listed a s u m t head r r' inner e hs hu hi hm h ih =>
    obtain ⟨hread, hskip, hopen⟩ := readHead_extend_opening hs hu x
    have hclose : (m.extend x).rest = ')' :: (r' ++ x) := by
      rw [Cursor.extend, hm, List.cons_append]
    have hinner : Reads .firstField ⟨(u.extend x).skipBlanks.position + 1, r ++ x⟩ inner
        (m.extend x) := by
      rw [hskip]
      exact hi.extend hm x
    exact .listed hread hopen hinner hclose (ih he ht)

end Shape

/-! ## The parser -/

/-- A text of fields with blanks around them is one of the same fields when it is trimmed. -/
theorem DerivesList.trim {cs : List Char} {fs : List FieldSpec} (h : DerivesList cs fs)
    (hne : fs ≠ []) : DerivesList (trimChars cs) fs := by
  cases h with
  | blank => exact absurd rfl hne
  | @fields w body w' _ hw h hw' =>
    obtain ⟨c, r, hcs, hc⟩ := h.eq_cons
    have hhead : ∀ d ∈ (c :: r).head?, isBlank d = false := by
      intro d hd
      obtain rfl : c = d := by simpa using hd
      exact isBlank_of_isFieldStart hc
    have hlast : ∀ d ∈ body.getLast?, isBlank d = false := fun d hd =>
      isBlank_of_isFieldEnd (h.isFieldEnd_getLast? d hd)
    subst hcs
    rw [trimChars_between (List.cons_ne_nil c r) hhead hlast hw hw']
    exact h.derivesList

namespace Shape

/-- What can be completed to a list of fields can be completed to a shape. -/
theorem Awaiting.Viable.exists_parse {cs : List Char} (h : firstField.Viable cs) :
    ∃ s shape, parse (String.ofList cs ++ s) = .ok shape := by
  obtain ⟨w, fs, hd, hne, -⟩ := h
  have hfields : fs ≠ [] := hne (by decide)
  refine ⟨String.ofList w, ⟨fs, false, false⟩, ?_⟩
  rw [parse_eq_ok_iff, String.toList_append, String.toList_ofList, String.toList_ofList]
  exact ⟨(derives_firstField_iff.1 hd).trim hfields, hfields, rfl, rfl⟩

/-- What was read up to the end of a list can be completed. -/
theorem Reads.viable {s t : Cursor} {fs : List FieldSpec} (h : Reads .firstField s fs t) :
    ∃ cs, s.Spans cs t ∧ Awaiting.firstField.Viable cs := by
  obtain ⟨cs, hspan, hd⟩ := h.derives
  refine ⟨cs, hspan, ?_⟩
  by_cases hfs : fs = []
  · rw [hfs, Awaiting.derives_firstField_iff, derivesList_nil_iff] at hd
    exact Awaiting.viable_blanks _ hd
  · refine ⟨[], fs, ?_, fun _ => hfs, fun _ _ => rfl⟩
    rwa [List.append_nil]

/-- The place that a text leads to from the start is where the text ends. -/
theorem take_of_spans {cs ds : List Char} {t : Cursor} (h : (Cursor.start cs).Spans ds t) :
    cs = ds ++ t.rest ∧ t.position = ds.length ∧ cs.take t.position = ds := by
  obtain ⟨hrest, hposition⟩ := h
  have hcs : cs = ds ++ t.rest := hrest
  have hlength : t.position = ds.length := by simpa [Cursor.start] using hposition
  refine ⟨hcs, hlength, ?_⟩
  rw [hlength, hcs, List.take_left]

/-- A place in a text is settled when it is not the end, nor a colon right before the end. -/
theorem settled_of_spans {cs ds : List Char} {t : Cursor} (h : (Cursor.start cs).Spans ds t)
    (hlt : t.position < cs.length)
    (hcolon : ¬(t.position + 1 = cs.length ∧ cs[t.position]? = some ':')) : t.Settled := by
  obtain ⟨hcs, hlength, -⟩ := take_of_spans h
  refine ⟨?_, ?_⟩
  · intro hnil
    rw [hcs, hnil, List.append_nil] at hlt
    omega
  · intro hsingle
    apply hcolon
    rw [hcs, hsingle, hlength]
    simp

section Longer
variable {text : String} {t : Cursor} (hne : trimChars text.toList ≠ [])
include hne

/-- What is written behind a trimmed text leaves it at the front. -/
theorem exists_trimChars_trim_append (s : String) :
    ∃ x, trimChars (trim text ++ s).toList = trimChars text.toList ++ x := by
  rw [String.toList_append, toList_trim]
  exact exists_trimChars_append hne (isBlank_head?_trimChars _) (isBlank_getLast?_trimChars _) _

/-- An error at a settled place stays. -/
theorem parse_append_of_fails {e : SyntaxError}
    (h : Fails .firstField (.start (trimChars text.toList)) e t) (he : e.code ≠ "UNCLOSED_NESTED")
    (ht : t.Settled) (s : String) : parse (trim text ++ s) = .error e := by
  obtain ⟨x, hx⟩ := exists_trimChars_trim_append hne s
  rw [parse_eq_error_iff, hx]
  right
  refine ⟨by simp [hne], .inl ⟨t.extend x, ?_⟩⟩
  exact h.extend he ht x

/-- A closing parenthesis that closes nothing stays an error. -/
theorem parse_append_of_reads {fs : List FieldSpec} {c : Char} {r : List Char}
    (h : Reads .firstField (.start (trimChars text.toList)) fs t) (hr : t.rest = c :: r)
    (s : String) : parse (trim text ++ s) = .error (.unexpectedCharacter c t.position) := by
  obtain ⟨x, hx⟩ := exists_trimChars_trim_append hne s
  obtain rfl : c = ')' := h.atEnd c (by rw [hr]; rfl)
  rw [parse_eq_error_iff, hx]
  right
  refine ⟨by simp [hne], .inr ⟨fs, t.extend x, ')', r ++ x, h.extend hr x, ?_, rfl⟩⟩
  rw [Cursor.extend, hr, List.cons_append]

end Longer

/-- The place of an error is where a text stops being the beginning of a shape: what stands before
it can be completed to a shape, and once something stands there, other than a colon at the very end,
the error stays whatever is written behind the text. A list that is not closed is the exception: it
is reported where it was opened, and the text as a whole can be completed. -/
theorem position_of_parse_eq_error {text : String} {e : SyntaxError}
    (h : parse text = .error e) :
    (e.code ≠ "EMPTY_SHAPE" → e.code ≠ "UNCLOSED_NESTED" →
      e.position ≤ (trimChars text.toList).length ∧
      (∃ s shape,
        parse (String.ofList ((trimChars text.toList).take e.position) ++ s) = .ok shape) ∧
      (e.position < (trimChars text.toList).length →
        ¬(e.position + 1 = (trimChars text.toList).length ∧
          (trimChars text.toList)[e.position]? = some ':') →
        ∀ s, parse (trim text ++ s) = .error e)) ∧
    (e.code = "UNCLOSED_NESTED" → ∃ s shape, parse (trim text ++ s) = .ok shape) := by
  rcases parse_eq_error_iff.1 h with ⟨-, rfl⟩ | ⟨hne, ⟨t, hfails⟩ |
    ⟨fs, t, c, r, hreads, hr, rfl⟩⟩
  · refine ⟨?_, ?_⟩
    · intro hcode
      exact absurd rfl hcode
    · intro hcode
      exact absurd hcode (by simp [SyntaxError.code])
  · obtain ⟨ds, hspan, hviable⟩ := hfails.viable
    obtain ⟨hcs, hlength, htake⟩ := take_of_spans hspan
    rcases hfails.position_eq with ⟨hcode, hend⟩ | ⟨hcode, hposition⟩
    · refine ⟨fun _ hnot => absurd hcode hnot, fun _ => ?_⟩
      -- the whole text has been read
      rw [hend, List.append_nil] at hcs
      rw [trim, hcs]
      exact hviable.exists_parse
    · refine ⟨fun _ _ => ?_, fun hyes => absurd hyes hcode⟩
      rw [hposition, htake]
      refine ⟨?_, hviable.exists_parse, ?_⟩
      · rw [hcs, hlength, List.length_append]
        omega
      · intro hlt hcolon s
        exact parse_append_of_fails hne hfails hcode (settled_of_spans hspan hlt hcolon) s
  · obtain ⟨ds, hspan, hviable⟩ := hreads.viable
    obtain ⟨hcs, hlength, htake⟩ := take_of_spans hspan
    refine ⟨fun _ _ => ?_, fun hyes => absurd hyes (by simp [SyntaxError.code])⟩
    rw [SyntaxError.position, htake]
    refine ⟨?_, hviable.exists_parse, ?_⟩
    · rw [hcs, hlength, List.length_append]
      omega
    · intro _ _ s
      exact parse_append_of_reads hne hreads hr s

/-- Of two commas in a row the second one is the error, also with more text behind. -/
theorem second_comma_is_the_error :
    (∃ s shape, parse (String.ofList ['a', ','] ++ s) = .ok shape) ∧
    parse (trim " a,,b" ++ ",c") = .error (.missingField 2) := by
  have hread : readHead (Cursor.start ['a', ',', ',', 'b']).skipBlanks =
      .ok (.named anyName none, ⟨1, [',', ',', 'b']⟩) := rfl
  have hfails : Fails .firstField (.start ['a', ',', ',', 'b']) (.missingField 2)
      ⟨2, [',', 'b']⟩ := by
    refine .bare hread ?_ ?_
    · intro r hr
      cases hr
    · exact .comma rfl (.missing (by decide) rfl)
  have herror : parse " a,,b" = .error (.missingField 2) :=
    parse_eq_error_iff.2 (.inr ⟨by decide, .inl ⟨_, hfails⟩⟩)
  obtain ⟨-, hcompleted, hstays⟩ :=
    (position_of_parse_eq_error herror).1 (by decide) (by decide)
  exact ⟨hcompleted, hstays (by decide) (by decide) ",c"⟩

end Shape
end RecordProjection
