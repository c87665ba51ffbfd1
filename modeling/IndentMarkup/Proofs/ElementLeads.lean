import IndentMarkup.Proofs.Decoding
import IndentMarkup.Proofs.OneLine

/-!
# How element lines begin

An element line begins with a lead: a name in one of three forms, and the shorthands glued to it. The
reader takes as much of the line as it can at each place and never goes back. It finds the lead
wherever a line has one, since name and shorthands end at a character that belongs to neither, and no
line has two. What stands directly behind the lead decides how the rest is read: an equals sign makes
it an expression, and a blank, or the end of the line, a row of attributes with inline content
behind it.
-/
namespace IndentMarkup

/-! ## Shorthands -/

namespace Shorthand

def mark : Shorthand → Char
  | .class _ => '.'
  | .id _ => '#'

def text (s : Shorthand) : Text := s.mark :: s.value

/-- Some name characters stand behind the mark. -/
def Valid (s : Shorthand) : Prop := s.value ≠ [] ∧ ∀ c ∈ s.value, isNameChar c = true

instance (s : Shorthand) : Decidable s.Valid :=
  @instDecidableAnd _ _ _ (List.decidableBAll _ s.value)

def textAll (marks : List Shorthand) : Text := marks.flatMap text

@[simp] theorem textAll_nil : textAll [] = [] := rfl
@[simp] theorem textAll_cons (s : Shorthand) (marks : List Shorthand) :
    textAll (s :: marks) = s.mark :: (s.value ++ textAll marks) := rfl

end Shorthand

/-- A text that goes on neither with a name nor with another shorthand. -/
def Stops (t : Text) : Prop := ∀ c ∈ t.head?, isNameChar c = false ∧ c ≠ '.' ∧ c ≠ '#'

/-- The text is over, or a blank comes next. -/
def BlankNext (t : Text) : Prop := ∀ c ∈ t.head?, Text.isBlank c = true

theorem endsValue_iff {t : Text} : endsValue t = true ↔ BlankNext t := by
  cases t <;> simp [endsValue, BlankNext]

instance (t : Text) : Decidable (BlankNext t) := decidable_of_iff _ endsValue_iff

theorem BlankNext.stops {t : Text} (h : BlankNext t) : Stops t := by
  intro c hc
  have hb := h c hc
  refine ⟨?_, ?_, ?_⟩
  · by_contra hn
    rw [isBlank_of_isNameChar (by simpa using hn)] at hb
    exact Bool.false_ne_true hb
  · rintro rfl
    exact absurd hb (by decide)
  · rintro rfl
    exact absurd hb (by decide)

theorem stops_equals (e : Text) : Stops ('=' :: e) := by
  rintro c ⟨⟩
  decide

namespace Shorthand

variable {marks : List Shorthand} {tail : Text}

theorem isNameChar_mark (s : Shorthand) : isNameChar s.mark = false := by
  cases s <;> rfl

/-- Behind a name or a shorthand, neither goes on. -/
theorem head?_textAll_append (marks : List Shorthand) (h : Stops tail) :
    ∀ c ∈ (textAll marks ++ tail).head?, isNameChar c = false := by
  cases marks with
  | nil => exact fun c hc => (h c hc).1
  | cons s marks =>
    rintro c ⟨⟩
    exact isNameChar_mark s

theorem ofMark?_eq_some_iff {mark : Char} {value : Text} {s : Shorthand} :
    ofMark? mark value = some s ↔ value ≠ [] ∧ s.mark = mark ∧ s.value = value := by
  unfold ofMark?
  constructor
  · intro h
    split at h
    · simp at h
    · rename_i hv
      split at h
      · rename_i hm
        obtain rfl := Option.some.inj h
        exact ⟨hv, hm.symm, rfl⟩
      · split at h
        · rename_i hm
          obtain rfl := Option.some.inj h
          exact ⟨hv, hm.symm, rfl⟩
        · simp at h
  · rintro ⟨hv, rfl, rfl⟩
    cases s <;> simp_all [mark, Shorthand.value]

/-- Shorthands are read up to where they stop. -/
theorem readAll_textAll (hm : ∀ s ∈ marks, s.Valid) (ht : Stops tail) :
    readAll (textAll marks ++ tail) = (marks, tail) := by
  induction marks with
  | nil =>
    cases tail with
    | nil => simp [readAll]
    | cons c rest =>
      obtain ⟨-, hdot, hhash⟩ := ht c rfl
      have hnone : ofMark? c (rest.takeWhile isNameChar) = none := by
        simp [ofMark?, hdot, hhash]
      simp [readAll, hnone]
  | cons s marks ih =>
    obtain ⟨⟨hne, hchars⟩, hmarks⟩ := List.forall_mem_cons.mp hm
    have hnext := head?_textAll_append marks ht
    have hmark : ofMark? s.mark s.value = some s := ofMark?_eq_some_iff.mpr ⟨hne, rfl, rfl⟩
    rw [textAll_cons, List.cons_append, List.append_assoc, readAll,
      Text.takeWhile_append_stop hchars hnext, Text.dropWhile_append_stop hchars hnext, hmark,
      ih hmarks]

/-- What is read as shorthands are shorthands, and nothing of the text is lost. -/
theorem textAll_readAll (t : Text) :
    t = textAll (readAll t).1 ++ (readAll t).2 ∧ ∀ s ∈ (readAll t).1, s.Valid := by
  fun_induction readAll t with
  | case1 => simp
  | case2 mark rest hmark => simp
  | case3 mark rest s hmark more tail hrest ih =>
    obtain ⟨hne, rfl, hvalue⟩ := ofMark?_eq_some_iff.mp hmark
    rw [hrest] at ih
    obtain ⟨htext, hvalid⟩ := ih
    refine ⟨?_, List.forall_mem_cons.mpr ⟨⟨hvalue ▸ hne, ?_⟩, hvalid⟩⟩
    · rw [textAll_cons, List.cons_append, List.append_assoc, ← htext, hvalue,
        List.takeWhile_append_dropWhile]
    · intro c hc
      rw [hvalue] at hc
      exact List.mem_takeWhile_imp hc

end Shorthand

/-! ## Leads -/

/-- How an element line gives its name. -/
inductive NameForm where
  /-- Behind a percent sign. -/
  | explicit (name : Text)
  /-- As one of the known element words. -/
  | known (name : Text)
  /-- Not at all, which means the default name. -/
  | omitted
  deriving DecidableEq, Repr

namespace NameForm

def text : NameForm → Text
  | .explicit name => '%' :: name
  | .known name => name
  | .omitted => []

def name : NameForm → Text
  | .explicit name => name
  | .known name => name
  | .omitted => defaultName

def Valid : NameForm → Prop
  | .explicit name => isName name = true
  | .known name => name ∈ elementNames
  | .omitted => True

instance (form : NameForm) : Decidable form.Valid :=
  match form with
  | .explicit name => inferInstanceAs (Decidable (isName name = true))
  | .known name => inferInstanceAs (Decidable (name ∈ elementNames))
  | .omitted => inferInstanceAs (Decidable True)

end NameForm

/-- The front of an element line: its name, and the shorthands glued to it. -/
structure Lead where
  form : NameForm
  marks : List Shorthand
  deriving DecidableEq, Repr

namespace Lead

def text (lead : Lead) : Text := lead.form.text ++ Shorthand.textAll lead.marks

def name (lead : Lead) : Text := lead.form.name

/-- A lead that can stand on a line. Without a name there has to be a shorthand. -/
structure Valid (lead : Lead) : Prop where
  form : lead.form.Valid
  marks : ∀ s ∈ lead.marks, s.Valid
  written : lead.form = .omitted → lead.marks ≠ []

/-- The head of an element with this lead. -/
def head (number : Nat) (lead : Lead) (attributes : Attributes) : Head :=
  ⟨lead.name, attributes, false, [], number⟩

end Lead

theorem isName_of_mem_elementNames {name : Text} (h : name ∈ elementNames) :
    isName name = true := by
  have hall : ∀ n ∈ elementNames, isName n = true := by decide +kernel
  exact hall name h

/-- The name that a line begins with, and what follows it. -/
def readForm? (content : Text) : Option (NameForm × Text) :=
  match content with
  | '%' :: rest => (readName? rest).map fun found => (.explicit found.1, found.2)
  | '.' :: _ => some (.omitted, content)
  | '#' :: _ => some (.omitted, content)
  | _ => (readName? content).map fun found => (.known found.1, found.2)

/-- Whether the name makes an element; any other word makes a helper. -/
def NameForm.isElement : NameForm → Bool
  | .known name => elementNames.contains name
  | _ => true

/-- Whether a line is an element or a helper depends on the name it begins with. -/
theorem readTag?_eq (number : Nat) (content : Text) :
    readTag? number content = (readForm? content).bind fun found =>
      if found.1.isElement then readElement? number found.1.name found.2
      else some (readHelper number content) := by
  unfold readTag?
  split
  · rename_i rest
    rw [readForm?]
    cases readName? rest <;> rfl
  · rfl
  · rfl
  · rename_i hpercent hdot hhash
    rw [readForm?]
    · cases readName? content <;> rfl
    · exact hpercent
    · exact hdot
    · exact hhash

/-- What is read as a name is a beginning of the text. -/
theorem readName?_eq_some {t name rest : Text} (h : readName? t = some (name, rest)) :
    isName name = true ∧ t = name ++ rest := by
  cases t with
  | nil => simp [readName?] at h
  | cons c t =>
    rw [readName?] at h
    split at h
    · rename_i hc
      obtain ⟨rfl, rfl⟩ : _ = name ∧ _ = rest := by simpa using h
      refine ⟨?_, by simp⟩
      simp only [isName, isMadeOf, hc, Bool.true_and, List.all_eq_true]
      exact fun d hd => List.mem_takeWhile_imp hd
    · simp at h

/-- What is read as the front of a line stands there. -/
theorem readForm?_eq_some {content t : Text} {form : NameForm}
    (h : readForm? content = some (form, t)) :
    content = form.text ++ t ∧ (form.isElement = true → form.Valid) ∧
      (form = .omitted → ¬BlankNext t ∧ t.head? ≠ some '=') := by
  unfold readForm? at h
  split at h
  · obtain ⟨⟨name, tail⟩, hread, he⟩ := Option.map_eq_some_iff.mp h
    obtain ⟨rfl, rfl⟩ : NameForm.explicit name = form ∧ tail = t := by simpa using he
    obtain ⟨hname, rfl⟩ := readName?_eq_some hread
    exact ⟨rfl, fun _ => hname, by simp⟩
  · obtain ⟨rfl, rfl⟩ : NameForm.omitted = form ∧ _ = t := by simpa using h
    exact ⟨rfl, fun _ => trivial, fun _ => ⟨by simp [BlankNext, Text.isBlank], by simp⟩⟩
  · obtain ⟨rfl, rfl⟩ : NameForm.omitted = form ∧ _ = t := by simpa using h
    exact ⟨rfl, fun _ => trivial, fun _ => ⟨by simp [BlankNext, Text.isBlank], by simp⟩⟩
  · obtain ⟨⟨name, tail⟩, hread, he⟩ := Option.map_eq_some_iff.mp h
    obtain ⟨rfl, rfl⟩ : NameForm.known name = form ∧ tail = t := by simpa using he
    obtain ⟨-, rfl⟩ := readName?_eq_some hread
    exact ⟨rfl, fun hknown => by simpa [NameForm.isElement, NameForm.Valid] using hknown, by simp⟩

namespace Lead

variable {lead lead' : Lead} {tail tail' : Text}

/-- The front of a lead is found, whatever ends the lead. -/
theorem Valid.readForm? (h : lead.Valid) (ht : Stops tail) :
    readForm? (lead.text ++ tail) = some (lead.form, Shorthand.textAll lead.marks ++ tail) := by
  have hnext := Shorthand.head?_textAll_append lead.marks ht
  obtain ⟨form, marks⟩ := lead
  cases form with
  | explicit name =>
    have hread := readName?_append h.form hnext
    simp [text, NameForm.text, IndentMarkup.readForm?, hread]
  | known name =>
    have hname := isName_of_mem_elementNames h.form
    have hread := readName?_append hname hnext
    obtain ⟨c, hc, hletter⟩ := letter_of_isName hname
    obtain ⟨rest, rfl⟩ := List.head?_eq_some_iff.mp hc
    have hmark : c ≠ '%' ∧ c ≠ '.' ∧ c ≠ '#' := by
      refine ⟨?_, ?_, ?_⟩ <;> rintro rfl <;> exact absurd hletter (by decide)
    have hstart : text ⟨.known (c :: rest), marks⟩ ++ tail =
        c :: (rest ++ (Shorthand.textAll marks ++ tail)) := by
      simp [text, NameForm.text]
    rw [List.cons_append] at hread
    rw [hstart]
    unfold IndentMarkup.readForm?
    split <;> simp_all
  | omitted =>
    cases marks with
    | nil => exact absurd rfl (h.written rfl)
    | cons s marks => cases s <;> rfl

theorem Valid.isElement (h : lead.Valid) : lead.form.isElement = true := by
  obtain ⟨form, marks⟩ := lead
  cases form with
  | explicit name => rfl
  | known name => simpa [NameForm.isElement, NameForm.Valid] using h.form
  | omitted => rfl

/-- A lead shows where it ends. -/
theorem Valid.text_inj (h : lead.Valid) (h' : lead'.Valid) (ht : Stops tail) (ht' : Stops tail')
    (he : lead.text ++ tail = lead'.text ++ tail') : lead = lead' ∧ tail = tail' := by
  have hread := h.readForm? ht
  rw [he, h'.readForm? ht'] at hread
  obtain ⟨hform, hrest⟩ : lead'.form = lead.form ∧ Shorthand.textAll lead'.marks ++ tail' =
    Shorthand.textAll lead.marks ++ tail := by simpa using hread
  have hfound := Shorthand.readAll_textAll h.marks ht
  rw [← hrest, Shorthand.readAll_textAll h'.marks ht'] at hfound
  obtain ⟨hmarks, rfl⟩ : lead'.marks = lead.marks ∧ tail' = tail := by simpa using hfound
  obtain ⟨form, marks⟩ := lead
  obtain ⟨form', marks'⟩ := lead'
  exact ⟨congrArg₂ Lead.mk hform.symm hmarks.symm, rfl⟩

end Lead

/-! ## What is read behind a lead -/

section

variable {number : Nat} {lead : Lead} {tail : Text}

/-- A lead is read in full wherever neither a name nor a shorthand goes on. -/
theorem Lead.Valid.readTag?_eq (h : lead.Valid) (ht : Stops tail) (number : Nat) :
    readTag? number (lead.text ++ tail) =
      readElement? number lead.name (Shorthand.textAll lead.marks ++ tail) := by
  rw [IndentMarkup.readTag?_eq, h.readForm? ht, Option.bind_some, if_pos h.isElement]
  rfl

/-- An equals sign directly behind the lead makes all that follows an expression. -/
theorem Lead.Valid.readTag?_glued (h : lead.Valid) (number : Nat) (e : Text) :
    readTag? number (lead.text ++ '=' :: e) =
      some ⟨lead.head number (idAttributes lead.marks), some (.text (expressionText ('=' :: e)))⟩ := by
  have ht := stops_equals e
  rw [h.readTag?_eq ht, readElement?, Shorthand.readAll_textAll h.marks ht]
  rfl

/-- Behind blanks come the attributes, and what is left is the inline content. -/
theorem Lead.Valid.readTag?_spaced (h : lead.Valid) (ht : BlankNext tail) (number : Nat) :
    readTag? number (lead.text ++ tail) =
      some ⟨lead.head number (elementAttributes lead.marks (readAttributes (Text.trim tail)).1),
        readInline? (readAttributes (Text.trim tail)).2⟩ := by
  have hequals : ∀ e, tail ≠ '=' :: e := by
    rintro e rfl
    exact absurd (ht '=' rfl) (by decide)
  rw [h.readTag?_eq ht.stops, readElement?, Shorthand.readAll_textAll h.marks ht.stops]
  simp only [endsValue_iff.mpr ht, if_true]
  rfl

/-- An element comes from a lead, with an equals sign or a blank behind it, or nothing. -/
theorem exists_lead_of_readTag? {content : Text} {tag : TagLine}
    (h : readTag? number content = some tag) (he : tag.head.helper = false) :
    ∃ (lead : Lead) (tail : Text), lead.Valid ∧ content = lead.text ++ tail ∧
      ((∃ e, tail = '=' :: e) ∨ BlankNext tail) := by
  rw [readTag?_eq] at h
  obtain ⟨⟨form, t⟩, hform, h⟩ := Option.bind_eq_some_iff.mp h
  obtain ⟨rfl, hvalid, homitted⟩ := readForm?_eq_some hform
  obtain ⟨htext, hmarks⟩ := Shorthand.textAll_readAll t
  simp only at h
  split at h
  · rename_i helement
    generalize hread : Shorthand.readAll t = found at htext hmarks
    obtain ⟨marks, tail⟩ := found
    simp only [readElement?, hread] at h
    have hnext : (∃ e, tail = '=' :: e) ∨ BlankNext tail := by
      split at h
      · exact .inl ⟨_, rfl⟩
      · split at h
        · rename_i hends
          exact .inr (endsValue_iff.mp hends)
        · simp at h
    refine ⟨⟨form, marks⟩, tail, ⟨hvalid helement, hmarks, ?_⟩, ?_, hnext⟩
    · rintro hform rfl
      obtain ⟨hblank, hequals⟩ := homitted hform
      rw [htext] at hblank hequals
      rcases hnext with ⟨e, rfl⟩ | hnext
      · exact hequals rfl
      · exact hblank hnext
    · rw [htext]
      simp [Lead.text]
  · obtain rfl := Option.some.inj h
    simp [readHelper] at he

end

end IndentMarkup
