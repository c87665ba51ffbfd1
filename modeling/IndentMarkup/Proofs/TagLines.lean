import IndentMarkup.Proofs.SourceLines
import Mathlib.Data.List.Nodup

/-!
# Tag lines as they are written

Every element can be written with a percent sign, its name, and its attributes in double quotes, and
every helper as its name with the arguments behind it. Read back, such a line says what was written:
the reader takes as much as it can at each place, and each part ends at a character that cannot
belong to it. Only the order of the attributes may change, as an element's class is put first.
-/
namespace IndentMarkup

namespace Text

/-! ## Characters -/

def blankCodes : List Nat :=
  List.range' 0x09 5 ++ List.range' 0x1C 5 ++ [0x85, 0xA0, 0x1680] ++ List.range' 0x2000 11 ++
    [0x2028, 0x2029, 0x202F, 0x205F, 0x3000]

theorem toNat_mem_blankCodes {c : Char} (h : isBlank c = true) : c.toNat ∈ blankCodes := by
  simp only [isBlank, Bool.or_eq_true, Bool.and_eq_true, decide_eq_true_eq, beq_iff_eq] at h
  simpa [blankCodes, List.mem_range'_1, Nat.lt_succ_iff, or_assoc] using h

/-- No blank is part of a word. -/
theorem isWordChar_of_isBlank {c : Char} (h : isBlank c = true) : isWordChar c = false := by
  have hall : ∀ n ∈ blankCodes, isWordChar (Char.ofNat n) = false := by decide +kernel
  simpa using hall c.toNat (toNat_mem_blankCodes h)

/-- No character of a word is blank. -/
theorem isBlank_of_isWordChar {c : Char} (h : isWordChar c = true) : isBlank c = false := by
  by_contra hb
  rw [isWordChar_of_isBlank (by simpa using hb)] at h
  exact Bool.false_ne_true h

theorem toNat_of_isAlpha {c : Char} (h : c.isAlpha = true) : c.toNat < 0x80 := by
  have hletter : (decide (c.val ≥ 'A'.val ∧ c.val ≤ 'Z'.val) ||
      decide (c.val ≥ 'a'.val) && decide (c.val ≤ 'z'.val)) = true := h
  simp only [Bool.or_eq_true, Bool.and_eq_true, decide_eq_true_eq] at hletter
  rcases hletter with hletter | hletter
  · exact Nat.lt_of_le_of_lt (UInt32.le_iff_toNat_le.mp hletter.2) (by decide)
  · exact Nat.lt_of_le_of_lt (UInt32.le_iff_toNat_le.mp hletter.2) (by decide)

theorem isWordChar_of_isAlpha {c : Char} (h : c.isAlpha = true) : isWordChar c = true := by
  have halnum : c.isAlphanum = (c.isAlpha || c.isDigit) := rfl
  rw [isWordChar, if_pos (toNat_of_isAlpha h), halnum, h]
  rfl

/-- Only blanks break lines. -/
theorem isBreak_of_isBlank {c : Char} (h : isBlank c = false) : isBreak c = false := by
  by_contra hb
  simp only [isBreak, Bool.not_eq_false, Bool.or_eq_true, beq_iff_eq] at hb
  obtain rfl | rfl := hb
  · simp at h
  · simp at h

/-- A text that stays on its line and does not begin with a blank. -/
structure IsLine (t : Text) : Prop where
  ink : ∃ c ∈ t.head?, isBlank c = false
  unbroken : ∀ c ∈ t, isBreak c = false

/-! ## Where a part ends -/

section

variable {p : Char → Bool} {t r : Text}

theorem takeWhile_append_stop (ht : ∀ c ∈ t, p c = true) (hr : ∀ c ∈ r.head?, p c = false) :
    (t ++ r).takeWhile p = t := by
  rw [List.takeWhile_append_of_pos ht]
  cases r with
  | nil => simp
  | cons c r => simp [hr c rfl]

/-- What cannot go on with a part leaves it as it is. -/
theorem takeWhile_append_of_head (t : Text) (hr : ∀ c ∈ r.head?, p c = false) :
    (t ++ r).takeWhile p = t.takeWhile p := by
  induction t with
  | nil => simpa using takeWhile_append_stop (t := []) (by simp) hr
  | cons d t ih => cases hd : p d <;> simp [hd, ih]

theorem dropWhile_append_stop (ht : ∀ c ∈ t, p c = true) (hr : ∀ c ∈ r.head?, p c = false) :
    (t ++ r).dropWhile p = r := by
  rw [List.dropWhile_append_of_pos ht]
  cases r with
  | nil => rfl
  | cons c r => simp [hr c rfl]

end

/-! ## Words -/

def IsWord (t : Text) : Prop := t ≠ [] ∧ ∀ c ∈ t, isBlank c = false

theorem words_append {w : Text} (hw : IsWord w) {r : Text}
    (hr : ∀ c ∈ r.head?, isBlank c = true) : words (w ++ r) = w :: words r := by
  obtain ⟨hne, hink⟩ := hw
  induction w with
  | nil => exact absurd rfl hne
  | cons c w ih =>
    have hc : isBlank c = false := hink c (by simp)
    cases w with
    | nil =>
      have halone : r.head?.all isBlank = true := by
        cases r with
        | nil => rfl
        | cons d r => exact hr d rfl
      simp [words, hc, halone, addToWords]
    | cons d w =>
      have hd : isBlank d = false := hink d (by simp)
      have hrest := ih (by simp) fun e he => hink e (List.mem_cons_of_mem _ he)
      rw [List.cons_append, words, if_neg (by simp [hc]), hrest]
      simp [hd, addToWords]

/-- Words joined by single spaces are found again. -/
theorem words_intercalate {ws : List Text} (hw : ∀ w ∈ ws, IsWord w) :
    words ([' '].intercalate ws) = ws := by
  induction ws with
  | nil => rfl
  | cons w ws ih =>
    have hhead := hw w (by simp)
    cases ws with
    | nil => simpa using words_append hhead (r := []) (by simp)
    | cons w' ws =>
      rw [List.intercalate_cons_cons, List.append_assoc, words_append hhead (by simp),
        List.singleton_append, words_cons_blank isBlank_space,
        ih fun v hv => hw v (List.mem_cons_of_mem _ hv)]

end Text

/-! ## Names and keys -/

/-- A character of one kind, then any number of another. -/
def isMadeOf (first others : Char → Bool) : Text → Bool
  | [] => false
  | c :: rest => first c && rest.all others

def isName : Text → Bool := isMadeOf Char.isAlpha isNameChar

def isKey : Text → Bool := isMadeOf isKeyStart isKeyChar

theorem forall_of_isMadeOf {first others : Char → Bool} {P : Char → Prop} {t : Text}
    (hf : ∀ {c}, first c = true → P c) (ho : ∀ {c}, others c = true → P c)
    (h : isMadeOf first others t = true) : ∀ c ∈ t, P c := by
  cases t with
  | nil => simp
  | cons d rest =>
    simp only [isMadeOf, Bool.and_eq_true, List.all_eq_true] at h
    intro c hc
    rcases List.mem_cons.mp hc with rfl | hc
    · exact hf h.1
    · exact ho (h.2 c hc)

theorem isBlank_of_isNameChar {c : Char} (h : isNameChar c = true) : Text.isBlank c = false := by
  simp only [isNameChar, Bool.or_eq_true, beq_iff_eq] at h
  obtain (h | rfl) | rfl := h
  · exact Text.isBlank_of_isWordChar h
  · rfl
  · rfl

@[simp] theorem isNameChar_space : isNameChar ' ' = false := rfl

theorem isNameChar_of_isAlpha {c : Char} (h : c.isAlpha = true) : isNameChar c = true := by
  simp [isNameChar, Text.isWordChar_of_isAlpha h]

theorem isBlank_of_isAlpha {c : Char} (h : c.isAlpha = true) : Text.isBlank c = false :=
  isBlank_of_isNameChar (isNameChar_of_isAlpha h)

theorem isBlank_of_isKeyStart {c : Char} (h : isKeyStart c = true) : Text.isBlank c = false := by
  simp only [isKeyStart, Bool.or_eq_true, beq_iff_eq] at h
  obtain ((h | rfl) | rfl) | rfl := h
  · exact isBlank_of_isAlpha h
  · rfl
  · rfl
  · rfl

theorem isBlank_of_isKeyChar {c : Char} (h : isKeyChar c = true) : Text.isBlank c = false := by
  simp only [isKeyChar, Bool.or_eq_true, beq_iff_eq] at h
  obtain ((h | rfl) | rfl) | rfl := h
  · exact Text.isBlank_of_isWordChar h
  · rfl
  · rfl
  · rfl

theorem isBlank_of_isName {name : Text} (h : isName name = true) :
    ∀ c ∈ name, Text.isBlank c = false :=
  forall_of_isMadeOf isBlank_of_isAlpha isBlank_of_isNameChar h

theorem isBlank_of_isKey {key : Text} (h : isKey key = true) :
    ∀ c ∈ key, Text.isBlank c = false :=
  forall_of_isMadeOf isBlank_of_isKeyStart isBlank_of_isKeyChar h

/-- A name with no further name character behind it is read back. -/
theorem readName?_append {name rest : Text} (h : isName name = true)
    (hr : ∀ c ∈ rest.head?, isNameChar c = false) :
    readName? (name ++ rest) = some (name, rest) := by
  cases name with
  | nil => simp [isName, isMadeOf] at h
  | cons c name =>
    simp only [isName, isMadeOf, Bool.and_eq_true, List.all_eq_true] at h
    simp [readName?, h.1, Text.takeWhile_append_stop h.2 hr, Text.dropWhile_append_stop h.2 hr]

/-! ## Attributes -/

/-- Attributes that can stand on a line: different keys, and values that end at their quote and on
their line. A class is a list of words. -/
structure Attributes.Writable (attributes : Attributes) : Prop where
  nodup : (attributes.map (·.1)).Nodup
  key : ∀ a ∈ attributes, isKey a.1 = true
  unquoted : ∀ a ∈ attributes, '"' ∉ a.2
  unbroken : ∀ a ∈ attributes, ∀ c ∈ a.2, Text.isBreak c = false
  words : ∀ a ∈ attributes, a.1 = classKey →
    ∃ ws, ws ≠ [] ∧ (∀ w ∈ ws, Text.IsWord w) ∧ a.2 = [' '].intercalate ws

theorem Attributes.writable_nil : Attributes.Writable [] :=
  ⟨by simp, by simp, by simp, by simp, by simp⟩

/-- One attribute, and the attributes behind it. -/
theorem readAttribute?_append {key value rest : Text} (hk : isKey key = true) (hv : '"' ∉ value)
    (hr : endsValue rest = true) :
    readAttribute? (key ++ ['=', '"'] ++ value ++ ['"'] ++ rest) = some ((key, value), rest) := by
  cases key with
  | nil => simp [isKey, isMadeOf] at hk
  | cons c key =>
    simp only [isKey, isMadeOf, Bool.and_eq_true, List.all_eq_true] at hk
    have hq : ∀ d ∈ value, (d != '"') = true := by
      intro d hd
      simp only [bne_iff_ne, ne_eq]
      rintro rfl
      exact hv hd
    have hquoted : readQuoted? '"' (value ++ '"' :: rest) = some (value, rest) := by
      rw [readQuoted?, Text.dropWhile_append_stop hq (by simp),
        Text.takeWhile_append_stop hq (by simp)]
      simp [hr]
    have hstop : ∀ d ∈ ('=' :: '"' :: (value ++ '"' :: rest)).head?, isKeyChar d = false := by
      simp [isKeyChar]
    simp [readAttribute?, hk.1, Text.dropWhile_append_stop hk.2 hstop,
      Text.takeWhile_append_stop hk.2 hstop, readValue?, hquoted]

namespace Attributes

def text (attributes : Attributes) : Text :=
  attributes.flatMap fun a => ' ' :: a.1 ++ ['=', '"'] ++ a.2 ++ ['"']

@[simp] theorem text_nil : text [] = [] := rfl
@[simp] theorem text_cons (a : Text × Text) (rest : Attributes) :
    text (a :: rest) = ' ' :: (a.1 ++ ['=', '"'] ++ a.2 ++ ['"'] ++ text rest) := by
  simp [text]

theorem endsValue_text (attributes : Attributes) : endsValue attributes.text = true := by
  cases attributes <;> simp [endsValue]

theorem getLast?_text (attributes : Attributes) :
    ∀ c ∈ attributes.text.getLast?, Text.isBlank c = false := by
  obtain rfl | ⟨before, a, rfl⟩ := List.eq_nil_or_concat' attributes
  · simp
  · have hlast : text (before ++ [a]) =
        text before ++ ' ' :: a.1 ++ ['=', '"'] ++ a.2 ++ ['"'] := by
      simp [text]
    intro c hc
    rw [hlast, List.getLast?_concat] at hc
    obtain rfl : '"' = c := by simpa using hc
    rfl

variable {attributes : Attributes}

theorem trimStart_text (h : ∀ a ∈ attributes, isKey a.1 = true) :
    Text.trimStart attributes.text = attributes.text.tail := by
  cases attributes with
  | nil => rfl
  | cons a rest =>
    have hk := h a (by simp)
    obtain ⟨key, value⟩ := a
    cases key with
    | nil => simp [isKey, isMadeOf] at hk
    | cons c key =>
      have hc : Text.isBlank c = false := isBlank_of_isKey hk c (by simp)
      simp [Text.trimStart, List.dropWhile_cons, hc]

theorem trim_text (h : ∀ a ∈ attributes, isKey a.1 = true) :
    Text.trim attributes.text = attributes.text.tail := by
  rw [Text.trim, trimStart_text h, Text.trimEnd_eq_self_iff]
  intro c hc
  rw [List.getLast?_tail] at hc
  split at hc
  · simp at hc
  · exact getLast?_text attributes c hc

/-- The reader finds the attributes that were written, and nothing behind them. -/
theorem readAttributes_text (h : ∀ a ∈ attributes, isKey a.1 = true)
    (hq : ∀ a ∈ attributes, '"' ∉ a.2) :
    readAttributes attributes.text.tail = (attributes, []) := by
  induction attributes with
  | nil =>
    rw [readAttributes]
    rfl
  | cons a rest ih =>
    have hrest := ih (fun b hb => h b (List.mem_cons_of_mem _ hb))
      (fun b hb => hq b (List.mem_cons_of_mem _ hb))
    have ha := readAttribute?_append (h a (by simp)) (hq a (by simp)) (endsValue_text rest)
    rw [text_cons, List.tail_cons, readAttributes]
    split
    · rename_i hnone
      rw [ha] at hnone
      simp at hnone
    · rename_i b tail hsome
      rw [ha] at hsome
      obtain ⟨rfl, rfl⟩ : a = b ∧ text rest = tail := by simpa using hsome
      rw [trimStart_text fun b hb => h b (List.mem_cons_of_mem _ hb), hrest]

theorem unbroken_text (h : attributes.Writable) :
    ∀ c ∈ attributes.text, Text.isBreak c = false := by
  intro c hc
  obtain ⟨a, ha, hc⟩ := List.mem_flatMap.mp hc
  simp only [List.mem_append, List.mem_cons, List.not_mem_nil, or_false] at hc
  obtain (((rfl | hc) | rfl | rfl) | hc) | rfl := hc
  · rfl
  · exact Text.isBreak_of_isBlank (isBlank_of_isKey (h.key a ha) c hc)
  · rfl
  · rfl
  · exact h.unbroken a ha c hc
  · rfl

/-! ## The order of attributes -/

def classFirst (attributes : Attributes) : Attributes :=
  attributes.filter (·.1 == classKey) ++ attributes.filter (·.1 != classKey)

/-- The same attributes in another order. -/
theorem classFirst_perm (attributes : Attributes) : attributes.classFirst.Perm attributes :=
  List.filter_append_perm _ _

end Attributes

theorem OrderedMap.insert_of_not_mem {m : Attributes} {key : Text} (h : key ∉ m.map (·.1))
    (value : Text) : m.insert key value = m ++ [(key, value)] := by
  induction m with
  | nil => rfl
  | cons b rest ih =>
    obtain ⟨hne, hrest⟩ : key ≠ b.1 ∧ key ∉ rest.map (·.1) := by simpa using h
    have hb : (b.1 == key) = false := by simpa using hne.symm
    simp [OrderedMap.insert, hb, ih hrest]

/-- Keys that are all different are inserted one behind the other. -/
theorem OrderedMap.foldl_insert {m bindings : Attributes}
    (h : ((m ++ bindings).map (·.1)).Nodup) :
    bindings.foldl (fun m a => m.insert a.1 a.2) m = m ++ bindings := by
  induction bindings generalizing m with
  | nil => simp
  | cons a rest ih =>
    have hnot : a.1 ∉ m.map (·.1) := by
      intro hm
      rw [List.map_append, List.nodup_append] at h
      exact h.2.2 _ hm _ (by simp) rfl
    rw [List.foldl_cons, OrderedMap.insert_of_not_mem hnot, ih (by simpa using h)]
    simp

/-- The classes of the written attributes, joined again, are the class attribute. -/
theorem classNames_writable {attributes : Attributes} (h : attributes.Writable) :
    (if classNames [] attributes = [] then []
      else [(classKey, [' '].intercalate (classNames [] attributes))]) =
      attributes.filter (·.1 == classKey) := by
  cases hf : attributes.filter (·.1 == classKey) with
  | nil => simp [classNames, hf]
  | cons a rest =>
    have hmem : ∀ b ∈ a :: rest, b ∈ attributes ∧ b.1 = classKey := by
      intro b hb
      rw [← hf, List.mem_filter] at hb
      simpa using hb
    -- no other attribute has the key of the first
    have hrest : rest = [] := by
      have hnodup : ((a :: rest).map (·.1)).Nodup := by
        rw [← hf]
        exact h.nodup.sublist (List.filter_sublist.map _)
      cases rest with
      | nil => rfl
      | cons b rest =>
        have ha := (hmem a (by simp)).2
        have hb := (hmem b (by simp)).2
        simp [ha, hb] at hnodup
    subst hrest
    obtain ⟨hin, hkey⟩ := hmem a (by simp)
    obtain ⟨ws, hne, hw, hv⟩ := h.words a hin hkey
    have hnames : classNames [] attributes = ws := by
      simp [classNames, hf, hv, Text.words_intercalate hw]
    rw [hnames, if_neg hne, ← hv, ← hkey]

/-- Reading attributes back brings the class to the front. -/
theorem elementAttributes_writable {attributes : Attributes} (h : attributes.Writable) :
    elementAttributes [] attributes = attributes.classFirst := by
  have hnodup : ((attributes.classFirst).map (·.1)).Nodup :=
    (attributes.classFirst_perm.map _).nodup_iff.mpr h.nodup
  rw [elementAttributes, idAttributes]
  simp only [List.filterMap_nil, List.getLast?_nil, List.nil_append]
  rw [classNames_writable h, OrderedMap.foldl_insert hnodup]
  rfl

/-! ## Whole lines -/

theorem readAll_text (attributes : Attributes) :
    Shorthand.readAll attributes.text = ([], attributes.text) := by
  cases attributes with
  | nil => simp [Shorthand.readAll]
  | cons a rest =>
    rw [Attributes.text_cons, Shorthand.readAll]
    simp [Shorthand.ofMark?]

/-- An element's name and its written attributes are read back. -/
theorem readElement?_text (number : Nat) (name : Text) {attributes : Attributes}
    (h : attributes.Writable) :
    readElement? number name attributes.text =
      some ⟨⟨name, attributes.classFirst, false, [], number⟩, none⟩ := by
  have hequals : ∀ t, attributes.text ≠ '=' :: t := by
    cases attributes <;> simp
  rw [readElement?, readAll_text]
  simp only [attributes.endsValue_text, Attributes.trim_text h.key,
    Attributes.readAttributes_text h.key h.unquoted, elementAttributes_writable h, ↓reduceIte]
  rfl

namespace Head

/-- An element that a line can say. -/
structure WritableElement (head : Head) : Prop where
  element : head.helper = false
  name : isName head.name = true
  attributes : head.attributes.Writable
  args : head.args = []

/-- A helper that a line can say. The name at its start must not be that of an element. -/
structure WritableHelper (head : Head) : Prop where
  helper : head.helper = true
  letter : ∀ c ∈ head.name.head?, c.isAlpha = true
  ink : Text.IsWord head.name
  unknown : head.name.takeWhile isNameChar ∉ elementNames
  attributes : head.attributes = []
  args : Text.trim head.args = head.args
  unbroken : ∀ c ∈ head.args, Text.isBreak c = false

def lineText (head : Head) : Text :=
  if head.helper then head.expression else '%' :: head.name ++ head.attributes.text

/-- The head as its line gives it, without a line number. -/
def plain (head : Head) : Head :=
  { head with attributes := head.attributes.classFirst, line := 0 }

end Head

theorem Line.reading_of_isAlpha {c : Char} (hc : c.isAlpha = true) (width number : Nat) (t : Text) :
    (Line.mk width (c :: t) number).reading = readUnmarked number (c :: t) := by
  unfold Line.reading
  split <;> simp_all

/-- A line that begins with a letter is an element if its name is known, and a helper otherwise. -/
theorem readTag?_of_isAlpha {c : Char} (hc : c.isAlpha = true) (number : Nat) (t : Text) :
    readTag? number (c :: t) =
      if elementNames.contains ((c :: t).takeWhile isNameChar) then
        readElement? number ((c :: t).takeWhile isNameChar) (t.dropWhile isNameChar)
      else some (readHelper number (c :: t)) := by
  unfold readTag?
  split <;> simp_all [readName?, isNameChar_of_isAlpha]

/-- The expression of a helper is read back as its name and arguments. -/
theorem readHelper_expression {head : Head} (h : head.WritableHelper) (number : Nat) :
    readHelper number head.expression = ⟨⟨head.name, [], true, head.args, number⟩, none⟩ := by
  have hink : ∀ c ∈ head.name, (!Text.isBlank c) = true := by simpa using h.ink.2
  by_cases ha : head.args = []
  · have hname := Text.takeWhile_append_stop (r := []) hink (by simp)
    have hargs := Text.dropWhile_append_stop (r := []) hink (by simp)
    rw [List.append_nil] at hname hargs
    simp [readHelper, Head.expression, ha, hname, hargs]
  · have hstop : ∀ c ∈ (' ' :: head.args).head?, (!Text.isBlank c) = false := by simp
    have htrim : Text.trim (' ' :: head.args) = head.args := by
      rw [← List.singleton_append, Text.trim_append rfl, h.args]
    simp [readHelper, Head.expression, ha, Text.takeWhile_append_stop hink hstop,
      Text.dropWhile_append_stop hink hstop, htrim]

namespace Head

variable {head : Head}

theorem WritableElement.lineText_eq (h : head.WritableElement) :
    head.lineText = '%' :: (head.name ++ head.attributes.text) := by
  simp [lineText, h.element]

/-- An element's line is read back, with the class in front. -/
theorem WritableElement.reading (h : head.WritableElement) (width : Nat) :
    (Line.mk width head.lineText 0).reading = .tag ⟨head.plain, none⟩ := by
  have hstop : ∀ c ∈ head.attributes.text.head?, isNameChar c = false := by
    cases head.attributes <;> simp
  have hname := readName?_append h.name hstop
  have helement := readElement?_text 0 head.name h.attributes
  rw [h.lineText_eq]
  simp only [Line.reading, readUnmarked, readTag?, hname, helement]
  simp [plain, h.element, h.args]

theorem WritableHelper.lineText_eq (h : head.WritableHelper) : head.lineText = head.expression := by
  simp [lineText, h.helper]

/-- A helper's line begins with the letter of its name. -/
theorem WritableHelper.expression_cons (h : head.WritableHelper) :
    ∃ c t, c.isAlpha = true ∧ head.expression = c :: t ∧
      (c :: t).takeWhile isNameChar = head.name.takeWhile isNameChar := by
  cases hn : head.name with
  | nil => exact absurd hn h.ink.1
  | cons c name =>
    have hc : c.isAlpha = true := h.letter c (by simp [hn])
    by_cases ha : head.args = []
    · exact ⟨c, name, hc, by simp [expression, ha, hn], rfl⟩
    · refine ⟨c, name ++ ' ' :: head.args, hc, by simp [expression, ha, hn], ?_⟩
      exact Text.takeWhile_append_of_head (c :: name) (r := ' ' :: head.args) (by simp)

/-- A helper's line is read back. -/
theorem WritableHelper.reading (h : head.WritableHelper) (width : Nat) :
    (Line.mk width head.lineText 0).reading = .tag ⟨head.plain, none⟩ := by
  obtain ⟨c, t, hc, he, hname⟩ := h.expression_cons
  have hunknown : elementNames.contains ((c :: t).takeWhile isNameChar) = false := by
    rw [hname]
    simpa using h.unknown
  have hread := readHelper_expression h 0
  rw [he] at hread
  rw [h.lineText_eq, he, Line.reading_of_isAlpha hc, readUnmarked, readTag?_of_isAlpha hc, hunknown,
    hread]
  simp [plain, h.attributes, h.helper, Attributes.classFirst]

theorem WritableElement.isLine (h : head.WritableElement) : Text.IsLine head.lineText := by
  rw [h.lineText_eq]
  refine ⟨⟨'%', rfl, rfl⟩, ?_⟩
  intro c hc
  rcases List.mem_cons.mp hc with rfl | hc
  · rfl
  · rcases List.mem_append.mp hc with hc | hc
    · exact Text.isBreak_of_isBlank (isBlank_of_isName h.name c hc)
    · exact Attributes.unbroken_text h.attributes c hc

theorem WritableElement.trim_eq (h : head.WritableElement) :
    Text.trim head.lineText = head.lineText := by
  rw [h.lineText_eq, Text.trim_eq_self_iff]
  refine ⟨fun c hc => ?_, fun c hc => ?_⟩
  · obtain rfl : '%' = c := by simpa using hc
    rfl
  · rw [← List.singleton_append, List.getLast?_append, List.getLast?_append, Option.mem_def,
      Option.or_eq_some_iff, Option.or_eq_some_iff] at hc
    obtain (hc | ⟨-, hc⟩) | ⟨-, hc⟩ := hc
    · exact head.attributes.getLast?_text c hc
    · exact isBlank_of_isName h.name c (List.mem_of_getLast? hc)
    · obtain rfl : '%' = c := by simpa using hc
      rfl

theorem WritableHelper.isLine (h : head.WritableHelper) : Text.IsLine head.lineText := by
  obtain ⟨c, t, hc, he, -⟩ := h.expression_cons
  refine ⟨⟨c, by simp [h.lineText_eq, he], isBlank_of_isAlpha hc⟩, ?_⟩
  have hname : ∀ d ∈ head.name, Text.isBreak d = false :=
    fun d hd => Text.isBreak_of_isBlank (h.ink.2 d hd)
  rw [h.lineText_eq, expression]
  intro d hd
  split at hd
  · exact hname d hd
  · rcases List.mem_append.mp hd with hd | hd
    · exact hname d hd
    · rcases List.mem_cons.mp hd with rfl | hd
      · rfl
      · exact h.unbroken d hd

theorem WritableHelper.trim_eq (h : head.WritableHelper) :
    Text.trim head.lineText = head.lineText := by
  rw [h.lineText_eq, Text.trim_eq_self_iff]
  refine ⟨fun c hc => ?_, fun c hc => ?_⟩
  · obtain ⟨d, t, hd, he, -⟩ := h.expression_cons
    obtain rfl : d = c := by simpa [he] using hc
    exact isBlank_of_isAlpha hd
  · by_cases ha : head.args = []
    · rw [expression, if_pos ha] at hc
      exact h.ink.2 c (List.mem_of_getLast? hc)
    · rw [expression, if_neg ha, ← List.singleton_append, List.getLast?_append,
        List.getLast?_append_of_ne_nil _ ha] at hc
      have hlast := (Text.trim_eq_self_iff.mp h.args).2
      cases hargs : head.args.getLast? with
      | none => exact absurd (List.getLast?_eq_none_iff.mp hargs) ha
      | some d =>
        obtain rfl : d = c := by simpa [hargs] using hc
        exact hlast d hargs

/-- A tag that a line can say. -/
def Writable (head : Head) : Prop := head.WritableElement ∨ head.WritableHelper

def isElse (head : Head) : Bool := head.helper && head.name == Line.elseWord && head.args == []

namespace Writable

theorem isLine (h : head.Writable) : Text.IsLine head.lineText := by
  rcases h with h | h
  · exact h.isLine
  · exact h.isLine

theorem trim_eq (h : head.Writable) : Text.trim head.lineText = head.lineText := by
  rcases h with h | h
  · exact h.trim_eq
  · exact h.trim_eq

/-- The line of a tag is read as the tag. -/
theorem reading (h : head.Writable) (width : Nat) :
    (Line.mk width head.lineText 0).reading = .tag ⟨head.plain, none⟩ := by
  rcases h with h | h
  · exact h.reading width
  · exact h.reading width

theorem isElse (h : head.Writable) (he : head.lineText = Line.elseWord) : head.isElse = true := by
  rcases h with h | h
  · rw [h.lineText_eq] at he
    simp [Line.elseWord] at he
  · rw [h.lineText_eq, expression] at he
    split at he
    · rename_i ha
      simp [Head.isElse, h.helper, he, ha]
    · have hspace : ' ' ∈ Line.elseWord := by simp [← he]
      simp [Line.elseWord] at hspace

end Writable

end Head
end IndentMarkup
