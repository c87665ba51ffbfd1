import IndentMarkup.Proofs.ElementLeads

/-!
# Rows of attributes

An attribute is a key and a value, with double quotes, single quotes or none around the value, and
ends where a blank follows or the text is over. A row of attributes is said as a form of text: one
attribute behind the other with blanks between them, and a rest that does not begin with one. The
reader finds exactly these rows, and no text is a row in two ways.
-/
namespace IndentMarkup

/-! ## One attribute -/

/-- How the value of an attribute is set off. -/
inductive Quotation where
  | double | single | bare
  deriving DecidableEq, Repr

namespace Quotation

def wrap : Quotation → Text → Text
  | .double, value => '"' :: (value ++ ['"'])
  | .single, value => '\'' :: (value ++ ['\''])
  | .bare, value => value

/-- Values that can be written so. -/
def Allows : Quotation → Text → Prop
  | .double, value => '"' ∉ value
  | .single, value => '\'' ∉ value
  | .bare, value => value ≠ [] ∧ ∀ c ∈ value, isBareChar c = true

instance (q : Quotation) (value : Text) : Decidable (q.Allows value) :=
  match q with
  | .double => inferInstanceAs (Decidable ('"' ∉ value))
  | .single => inferInstanceAs (Decidable ('\'' ∉ value))
  | .bare => @instDecidableAnd _ _ _ (List.decidableBAll _ value)

end Quotation

structure WrittenAttribute where
  key : Text
  quotation : Quotation
  value : Text
  deriving DecidableEq, Repr

namespace WrittenAttribute

def text (a : WrittenAttribute) : Text := a.key ++ '=' :: a.quotation.wrap a.value

def Valid (a : WrittenAttribute) : Prop := isKey a.key = true ∧ a.quotation.Allows a.value

instance (a : WrittenAttribute) : Decidable a.Valid := inferInstanceAs (Decidable (_ ∧ _))

def binding (a : WrittenAttribute) : Text × Text := (a.key, a.value)

end WrittenAttribute

/-- The text begins with an attribute that has a blank or nothing behind it. -/
def BeginsWithAttribute (t : Text) : Prop :=
  ∃ (a : WrittenAttribute) (rest : Text), a.Valid ∧ BlankNext rest ∧ t = a.text ++ rest

section

variable {t value rest : Text}

/-- What is read behind a quote reaches to the next one, and there the value has to end. -/
theorem readQuoted?_eq_some_iff {quote : Char} :
    readQuoted? quote t = some (value, rest) ↔
      quote ∉ value ∧ t = value ++ quote :: rest ∧ BlankNext rest := by
  constructor
  · intro h
    have hsplit := List.takeWhile_append_dropWhile (p := (· != quote)) (l := t)
    have hstop := List.head?_dropWhile_not (· != quote) t
    unfold readQuoted? at h
    split at h
    · simp at h
    · rename_i c r hr
      rw [hr] at hsplit hstop
      obtain rfl : c = quote := by simpa using hstop
      split at h
      · rename_i hends
        obtain ⟨rfl, rfl⟩ : _ = value ∧ _ = rest := by simpa using h
        refine ⟨?_, hsplit.symm, endsValue_iff.mp hends⟩
        intro hmem
        simpa using List.mem_takeWhile_imp hmem
      · simp at h
  · rintro ⟨hquote, rfl, hends⟩
    have hinner := ne_of_not_mem hquote
    rw [readQuoted?, Text.dropWhile_append_stop hinner (by simp),
      Text.takeWhile_append_stop hinner (by simp)]
    simp [endsValue_iff.mpr hends]

theorem isBareChar_of_blankNext (h : BlankNext rest) : ∀ c ∈ rest.head?, isBareChar c = false := by
  intro c hc
  simp [isBareChar, h c hc]

theorem readBare?_eq_some_iff :
    readBare? t = some (value, rest) ↔
      (value ≠ [] ∧ ∀ c ∈ value, isBareChar c = true) ∧ t = value ++ rest ∧ BlankNext rest := by
  constructor
  · intro h
    have hsplit := List.takeWhile_append_dropWhile (p := isBareChar) (l := t)
    unfold readBare? at h
    simp only at h
    split at h
    · simp at h
    · rename_i c v hv
      split at h
      · rename_i hends
        obtain ⟨rfl, rfl⟩ : c :: v = value ∧ _ = rest := by simpa using h
        rw [hv] at hsplit
        refine ⟨⟨by simp, ?_⟩, hsplit.symm, endsValue_iff.mp hends⟩
        rw [← hv]
        exact fun d hd => List.mem_takeWhile_imp hd
      · simp at h
  · rintro ⟨⟨hne, hchars⟩, rfl, hends⟩
    have hnext := isBareChar_of_blankNext hends
    obtain ⟨c, v, rfl⟩ := List.exists_cons_of_ne_nil hne
    simp only [readBare?, Text.takeWhile_append_stop hchars hnext,
      Text.dropWhile_append_stop hchars hnext, endsValue_iff.mpr hends, if_true]

/-- A value without quotes does not begin like one with them. -/
theorem Quotation.ne_quote_of_bare (h : Quotation.bare.Allows value) :
    ∀ c ∈ value.head?, c ≠ '"' ∧ c ≠ '\'' := by
  intro c hc
  have hbare := h.2 c (List.mem_of_head? hc)
  simp only [isBareChar, Bool.and_eq_true, bne_iff_ne] at hbare
  exact ⟨hbare.1.2, hbare.2⟩

theorem readValue?_wrap {q : Quotation} (hv : q.Allows value) (hr : BlankNext rest) :
    readValue? (q.wrap value ++ rest) = some (value, rest) := by
  cases q with
  | double =>
    have hread := readQuoted?_eq_some_iff.mpr ⟨hv, rfl, hr⟩
    simpa [Quotation.wrap, readValue?] using hread
  | single =>
    have hread := readQuoted?_eq_some_iff.mpr ⟨hv, rfl, hr⟩
    simpa [Quotation.wrap, readValue?] using hread
  | bare =>
    have hread := readBare?_eq_some_iff.mpr ⟨hv, rfl, hr⟩
    obtain ⟨c, v, rfl⟩ := List.exists_cons_of_ne_nil hv.1
    have hc := Quotation.ne_quote_of_bare hv c rfl
    rw [Quotation.wrap, List.cons_append, readValue?, if_neg (by simp [hc])]
    exact hread

/-- Whatever is read as a value was written in one of the quotations. -/
theorem readValue?_eq_some (h : readValue? t = some (value, rest)) :
    ∃ q : Quotation, q.Allows value ∧ t = q.wrap value ++ rest ∧ BlankNext rest := by
  unfold readValue? at h
  split at h
  · simp at h
  · split at h
    · rename_i hc
      obtain ⟨hquote, rfl, hends⟩ := readQuoted?_eq_some_iff.mp h
      obtain rfl | rfl := hc
      · exact ⟨.double, hquote, by simp [Quotation.wrap], hends⟩
      · exact ⟨.single, hquote, by simp [Quotation.wrap], hends⟩
    · obtain ⟨hchars, ht, hends⟩ := readBare?_eq_some_iff.mp h
      exact ⟨.bare, hchars, ht, hends⟩

/-- One attribute is read up to its end. -/
theorem readAttribute?_text {a : WrittenAttribute} (ha : a.Valid) (hr : BlankNext rest) :
    readAttribute? (a.text ++ rest) = some (a.binding, rest) := by
  obtain ⟨key, q, value⟩ := a
  obtain ⟨hk, hv⟩ : isKey key = true ∧ q.Allows value := ha
  have hread := readValue?_wrap hv hr
  cases key with
  | nil => simp [isKey, isMadeOf] at hk
  | cons c key =>
    simp only [isKey, isMadeOf, Bool.and_eq_true, List.all_eq_true] at hk
    have hstop : ∀ d ∈ ('=' :: (q.wrap value ++ rest)).head?, isKeyChar d = false := by
      rintro d ⟨⟩
      rfl
    simp [WrittenAttribute.text, readAttribute?, hk.1, Text.dropWhile_append_stop hk.2 hstop,
      Text.takeWhile_append_stop hk.2 hstop, hread, WrittenAttribute.binding]

/-- Whatever is read as an attribute was written as one. -/
theorem readAttribute?_eq_some {binding : Text × Text}
    (h : readAttribute? t = some (binding, rest)) :
    ∃ a : WrittenAttribute, a.Valid ∧ a.binding = binding ∧ t = a.text ++ rest ∧
      BlankNext rest := by
  unfold readAttribute? at h
  split at h
  · simp at h
  · rename_i c r
    have hsplit := List.takeWhile_append_dropWhile (p := isKeyChar) (l := r)
    split at h
    · rename_i hc
      split at h
      · rename_i written hw
        obtain ⟨⟨value, tail⟩, hread, he⟩ := Option.map_eq_some_iff.mp h
        obtain ⟨rfl, rfl⟩ : (c :: r.takeWhile isKeyChar, value) = binding ∧ tail = rest := by
          simpa using he
        obtain ⟨q, hallows, rfl, hends⟩ := readValue?_eq_some hread
        refine ⟨⟨c :: r.takeWhile isKeyChar, q, value⟩, ⟨?_, hallows⟩, rfl, ?_, hends⟩
        · simp only [isKey, isMadeOf, hc, Bool.true_and, List.all_eq_true]
          exact fun d hd => List.mem_takeWhile_imp hd
        · rw [hw] at hsplit
          conv_lhs => rw [← hsplit]
          simp [WrittenAttribute.text]
      · simp at h
    · simp at h

/-- No attribute is read exactly where the text begins with none. -/
theorem readAttribute?_eq_none_iff : readAttribute? t = none ↔ ¬BeginsWithAttribute t := by
  constructor
  · rintro hnone ⟨a, rest, ha, hr, rfl⟩
    rw [readAttribute?_text ha hr] at hnone
    simp at hnone
  · intro h
    cases hread : readAttribute? t with
    | none => rfl
    | some found =>
      obtain ⟨a, ha, -, ht, hr⟩ := readAttribute?_eq_some hread
      exact absurd ⟨a, found.2, ha, hr, ht⟩ h

/-- A value shows how it is set off. -/
theorem Quotation.eq_of_wrap_eq {q q' : Quotation} (h : q.Allows value) (h' : q'.Allows value)
    (he : q.wrap value = q'.wrap value) : q = q' := by
  cases q with
  | double =>
    cases q' with
    | double => rfl
    | single => simp [wrap] at he
    | bare => exact absurd rfl (ne_quote_of_bare h' '"' (congrArg List.head? he).symm).1
  | single =>
    cases q' with
    | double => simp [wrap] at he
    | single => rfl
    | bare => exact absurd rfl (ne_quote_of_bare h' '\'' (congrArg List.head? he).symm).2
  | bare =>
    cases q' with
    | double => exact absurd rfl (ne_quote_of_bare h '"' (congrArg List.head? he)).1
    | single => exact absurd rfl (ne_quote_of_bare h '\'' (congrArg List.head? he)).2
    | bare => rfl

/-- An attribute shows where it ends. -/
theorem WrittenAttribute.text_inj {a b : WrittenAttribute} {r s : Text} (ha : a.Valid)
    (hb : b.Valid) (hr : BlankNext r) (hs : BlankNext s) (h : a.text ++ r = b.text ++ s) :
    a = b ∧ r = s := by
  have hread := readAttribute?_text ha hr
  rw [h, readAttribute?_text hb hs] at hread
  obtain ⟨hbinding, rfl⟩ : b.binding = a.binding ∧ s = r := by simpa using hread
  obtain ⟨key, q, value⟩ := a
  obtain ⟨key', q', value'⟩ := b
  obtain ⟨rfl, rfl⟩ : key' = key ∧ value' = value := by simpa [binding] using hbinding
  have hwrap : q.wrap value' = q'.wrap value' := by simpa [text] using h
  obtain rfl := Quotation.eq_of_wrap_eq ha.2 hb.2 hwrap
  exact ⟨rfl, rfl⟩

end

/-! ## Rows of attributes -/

/-- The text is the attributes, each with blanks or nothing behind it, and then the rest, which does
not begin with another one. -/
inductive Attributed : Text → List WrittenAttribute → Text → Prop where
  | stop {r : Text} : ¬BeginsWithAttribute r → Attributed r [] r
  | next {a : WrittenAttribute} {gap t : Text} {written : List WrittenAttribute} {r : Text} :
      a.Valid → (∀ c ∈ gap, Text.isBlank c = true) → (gap = [] → t = []) →
      (∀ c ∈ t.head?, Text.isBlank c = false) → Attributed t written r →
      Attributed (a.text ++ (gap ++ t)) (a :: written) r

namespace Attributed

variable {t r r' : Text} {written written' : List WrittenAttribute}

theorem blankNext_gap {gap : Text} (hgap : ∀ c ∈ gap, Text.isBlank c = true)
    (hnil : gap = [] → t = []) : BlankNext (gap ++ t) := by
  cases gap with
  | nil => simp [hnil rfl, BlankNext]
  | cons c gap =>
    rintro d ⟨⟩
    exact hgap c (by simp)

/-- The reader finds the attributes of a row, and its rest. -/
theorem readAttributes_eq (h : Attributed t written r) :
    readAttributes t = (written.map WrittenAttribute.binding, r) := by
  induction h with
  | stop hnone =>
    rw [readAttributes]
    split
    · rfl
    · rename_i found rest hread
      rw [readAttribute?_eq_none_iff.mpr hnone] at hread
      simp at hread
  | @next a gap t written r ha hgap hnil hstart _ ih =>
    have hread := readAttribute?_text ha (blankNext_gap hgap hnil)
    have hskip : Text.trimStart (gap ++ t) = t :=
      Text.dropWhile_append_stop hgap hstart
    rw [readAttributes]
    split
    · rename_i hnone
      rw [hread] at hnone
      simp at hnone
    · rename_i found rest hsome
      rw [hread] at hsome
      obtain ⟨rfl, rfl⟩ : a.binding = found ∧ gap ++ t = rest := by simpa using hsome
      rw [hskip, ih]
      rfl

/-- What is read as attributes is a row of them. -/
theorem of_readAttributes (t : Text) :
    ∃ written, Attributed t written (readAttributes t).2 ∧
      written.map WrittenAttribute.binding = (readAttributes t).1 := by
  fun_induction readAttributes t with
  | case1 t hnone => exact ⟨[], .stop (readAttribute?_eq_none_iff.mp hnone), rfl⟩
  | case2 t binding rest hsome more tail hrest ih =>
    obtain ⟨a, ha, rfl, rfl, hends⟩ := readAttribute?_eq_some hsome
    rw [hrest] at ih
    obtain ⟨written, hrow, hmore⟩ := ih
    have hsplit : rest.takeWhile Text.isBlank ++ Text.trimStart rest = rest :=
      List.takeWhile_append_dropWhile
    refine ⟨a :: written, ?_, by simp [hmore]⟩
    rw [← hsplit]
    refine .next ha (fun c hc => List.mem_takeWhile_imp hc) ?_ ?_ hrow
    · intro hgap
      cases rest with
      | nil => rfl
      | cons c rest => simp [hends c rfl] at hgap
    · intro c hc
      have hstop := List.head?_dropWhile_not Text.isBlank rest
      rw [← Text.trimStart, Option.mem_def.mp hc] at hstop
      exact hstop

/-- A text is a row of attributes in one way. -/
theorem unique (h : Attributed t written r) (h' : Attributed t written' r') :
    written = written' ∧ r = r' := by
  induction h generalizing written' with
  | stop hnone =>
    cases h' with
    | stop _ => exact ⟨rfl, rfl⟩
    | next ha hgap hnil _ _ =>
      exact absurd ⟨_, _, ha, blankNext_gap hgap hnil, rfl⟩ hnone
  | @next a gap t written r ha hgap hnil hstart _ ih =>
    generalize ht : a.text ++ (gap ++ t) = whole at h'
    cases h' with
    | stop hnone => exact absurd ⟨a, _, ha, blankNext_gap hgap hnil, ht.symm⟩ hnone
    | next hb hgap' hnil' hstart' hrow =>
      obtain ⟨rfl, hrest⟩ := WrittenAttribute.text_inj ha hb (blankNext_gap hgap hnil)
        (blankNext_gap hgap' hnil') ht
      obtain ⟨-, rfl⟩ := Text.append_stop_inj hgap hgap' hstart hstart' hrest
      obtain ⟨rfl, rfl⟩ := ih hrow
      exact ⟨rfl, rfl⟩

end Attributed

end IndentMarkup
