import IndentMarkup.Proofs.ElementLines
import IndentMarkup.Proofs.Layout

/-!
# Identifiers and classes of an element

An element's attributes are meant to come in one order: the identifier, the class, and then the
others where they are first written. An identifier that only an attribute gives has its place among
the others instead, so it comes too late behind a class or behind another attribute.

With an equals sign directly behind the lead, the classes of the shorthands are dropped. A blank in
front of the sign keeps them, and nothing else on the line makes a difference.
-/
namespace IndentMarkup

/-! ## The order of attribute names -/

namespace ElementLine

/-- The attribute names in the order in which they are meant to come: the identifier where the line
gives one, the class where it gives one, and then every other name where it is written first. -/
def documentedKeys (l : ElementLine) : List Text :=
  (if l.lead.id?.isSome || l.otherKeys.contains idKey then [idKey] else []) ++
    (if l.classes = [] then [] else [classKey]) ++ (l.otherKeys.filter (· != idKey)).eraseDups

/-- A shorthand gives the identifier, or there is none, or it is the first attribute and there is no
class. -/
def IdInPlace (l : ElementLine) : Prop :=
  l.lead.id? ≠ none ∨ idKey ∉ l.otherKeys ∨ l.classes = [] ∧ l.otherKeys.head? = some idKey

instance (l : ElementLine) : Decidable l.IdInPlace := inferInstanceAs (Decidable (_ ∨ _ ∨ _))

end ElementLine

/-- A class in front stays there. -/
theorem eraseDups_class_append (classes : List Text) {keys : List Text} (h : classKey ∉ keys) :
    ((if classes = [] then [] else [classKey]) ++ keys).eraseDups =
      (if classes = [] then [] else [classKey]) ++ keys.eraseDups := by
  split
  · rfl
  · rw [List.singleton_append, List.eraseDups_cons, OrderedMap.filter_not_beq_of_not_mem h]
    rfl

/-- To bring a key to the front changes nothing exactly when it stands there. -/
theorem eraseDups_eq_cons_iff {key : Text} {keys : List Text} (h : key ∈ keys) :
    keys.eraseDups = key :: (keys.filter (· != key)).eraseDups ↔ keys.head? = some key := by
  cases keys with
  | nil => simp at h
  | cons first rest =>
    rw [List.eraseDups_cons, List.head?_cons, Option.some.injEq]
    constructor
    · intro he
      exact (List.cons.inj he).1
    · rintro rfl
      rw [List.filter_cons_of_neg (by simp)]
      rfl

namespace ElementLine

/-- The names come in the order that is meant exactly when the identifier is in its place. -/
theorem keys_eq_documentedKeys_iff (l : ElementLine) : l.keys = l.documentedKeys ↔ l.IdInPlace := by
  have hclass : classKey ∉ l.otherKeys := by simp [otherKeys]
  have hrest : classKey ∉ l.otherKeys.filter (· != idKey) :=
    fun h => hclass (List.mem_of_mem_filter h)
  unfold keys documentedKeys IdInPlace
  by_cases hmark : l.lead.id? = none
  · by_cases hid : idKey ∈ l.otherKeys
    · have hgiven : (l.lead.id?.isSome || l.otherKeys.contains idKey) = true := by simp [hid]
      rw [hgiven]
      simp only [hmark, hid, if_true, List.nil_append, not_true, ne_eq, false_or,
        eraseDups_class_append _ hclass]
      by_cases hc : l.classes = []
      · simpa [hc] using eraseDups_eq_cons_iff hid
      · simp [hc, idKey_ne_classKey.symm]
    · have hgiven : (l.lead.id?.isSome || l.otherKeys.contains idKey) = false := by
        simp [hmark, hid]
      have hkeep : l.otherKeys.filter (· != idKey) = l.otherKeys :=
        OrderedMap.filter_not_beq_of_not_mem hid
      rw [hgiven]
      simp [hmark, hid, hkeep, eraseDups_class_append _ hclass]
  · -- the identifier of the shorthand is in front, and later ones do not count
    have hgiven : (l.lead.id?.isSome || l.otherKeys.contains idKey) = true := by
      simp [Option.isSome_iff_ne_none.mpr hmark]
    have hfront : (if l.classes = [] then [] else [classKey]).filter (· != idKey) =
        if l.classes = [] then [] else [classKey] := by
      split
      · rfl
      · decide
    have hkeys : ([idKey] ++ (if l.classes = [] then [] else [classKey]) ++ l.otherKeys).eraseDups =
        [idKey] ++ (if l.classes = [] then [] else [classKey]) ++
          (l.otherKeys.filter (· != idKey)).eraseDups := by
      rw [List.append_assoc, List.singleton_append, List.eraseDups_cons]
      change idKey :: (List.filter (· != idKey) _).eraseDups = _
      rw [List.filter_append, hfront, eraseDups_class_append _ hrest]
      rfl
    rw [hgiven]
    simp only [hmark, if_true, if_false, ne_eq, not_false_eq_true, true_or, iff_true]
    exact hkeys

end ElementLine

def Lead.alone (lead : Lead) : ElementLine := ⟨lead, [], [], []⟩

theorem Lead.documentedKeys_alone (lead : Lead) :
    lead.alone.documentedKeys =
      (if lead.id? = none then [] else [idKey]) ++
        if lead.classes = [] then [] else [classKey] := by
  cases hid : lead.id? <;>
    simp [Lead.alone, ElementLine.documentedKeys, ElementLine.classes, ElementLine.otherKeys, hid]

/-- Every element has its attributes in the order in which they are meant to come, unless it is the
identifier that is out of place, or an equals sign directly behind the lead leaves out the class. -/
theorem keys_documented_iff {number : Nat} {content : Text} {tag : TagLine}
    (h : readTag? number content = some tag) (he : tag.head.helper = false) :
    (∃ l : ElementLine, l.Spells content ∧ tag.head.attributes.keys = l.keys ∧
      (tag.head.attributes.keys = l.documentedKeys ↔ l.IdInPlace)) ∨
    ∃ (lead : Lead) (e : Text), lead.Valid ∧ content = lead.text ++ '=' :: e ∧
      tag.head.attributes.keys = (if lead.id? = none then [] else [idKey]) ∧
      (tag.head.attributes.keys = lead.alone.documentedKeys ↔ lead.classes = []) := by
  obtain ⟨lead, tail, hlead, rfl, hnext⟩ := exists_lead_of_readTag? h he
  rcases hnext with ⟨e, rfl⟩ | hblank
  · right
    rw [hlead.readTag?_glued] at h
    obtain rfl := Option.some.inj h
    have hkeys := keys_idAttributes lead
    refine ⟨lead, e, hlead, rfl, hkeys, ?_⟩
    change (idAttributes lead.marks).keys = _ ↔ _
    rw [hkeys, lead.documentedKeys_alone]
    by_cases hc : lead.classes = [] <;> simp [hc]
  · left
    obtain ⟨l, hl⟩ := ElementLine.exists_spells hlead hblank
    rw [hl.readTag?_eq] at h
    obtain rfl := Option.some.inj h
    have hkeys : (l.tag number).head.attributes.keys = l.keys := by
      change l.attributes.keys = l.keys
      rw [← ElementLine.elementAttributes_eq_attributes, ElementLine.keys_elementAttributes]
    refine ⟨l, hl, hkeys, ?_⟩
    rw [hkeys]
    exact l.keys_eq_documentedKeys_iff

/-- A paragraph with a class and, behind it, an identifier. -/
def lateId : ElementLine :=
  ⟨⟨.known ['p'], []⟩, " class=a id=x",
    [⟨classKey, .bare, ['a']⟩, ⟨idKey, .bare, ['x']⟩], []⟩

theorem lateId_spells : lateId.Spells "p class=a id=x" := by
  refine ⟨⟨by decide, by decide, by decide⟩, ?_, by decide, ?_, by decide⟩
  · rintro name ⟨⟩
    decide
  · have htail : Text.trim lateId.tail =
        WrittenAttribute.text ⟨classKey, .bare, ['a']⟩ ++
          ([' '] ++ (WrittenAttribute.text ⟨idKey, .bare, ['x']⟩ ++ ([] ++ []))) := by
      decide
    have hend : ¬BeginsWithAttribute [] := readAttribute?_eq_none_iff.mp rfl
    have hletter : ∀ c ∈ (WrittenAttribute.text ⟨idKey, .bare, ['x']⟩ ++ ([] ++ [])).head?,
        Text.isBlank c = false := by
      rintro c ⟨⟩
      rfl
    rw [htail]
    exact .next (by decide) (by simp) (by decide) hletter
      (.next (by decide) (by simp) (by decide) (by simp) (.stop hend))

/-- Not every element has its attributes in the order in which they are meant to come. -/
theorem keys_undocumented : ¬∀ (number : Nat) (content : Text) (tag : TagLine) (l : ElementLine),
    readTag? number content = some tag → l.Spells content →
      tag.head.attributes.keys = l.documentedKeys := by
  intro h
  have hkeys := h 1 _ _ lateId (lateId_spells.readTag?_eq 1) lateId_spells
  exact absurd hkeys (by decide)

/-- The identifier comes behind the class, as it is written. -/
theorem keys_documented_iff_lateId :
    let tag := lateId.tag 1
    readTag? 1 "p class=a id=x" = some tag ∧ tag.head.helper = false ∧
      tag.head.attributes.keys = [classKey, idKey] ∧
      ((∃ l : ElementLine, l.Spells "p class=a id=x" ∧ tag.head.attributes.keys = l.keys ∧
        (tag.head.attributes.keys = l.documentedKeys ↔ l.IdInPlace)) ∨
      ∃ (lead : Lead) (e : Text), lead.Valid ∧ ("p class=a id=x" : Text) = lead.text ++ '=' :: e ∧
        tag.head.attributes.keys = (if lead.id? = none then [] else [idKey]) ∧
        (tag.head.attributes.keys = lead.alone.documentedKeys ↔ lead.classes = [])) := by
  have h := lateId_spells.readTag?_eq 1
  exact ⟨h, rfl, by decide, keys_documented_iff h rfl⟩

/-! ## Expressions behind a lead -/

namespace Text

/-- The text of an expression ends with its sign or with a character that is no blank. -/
theorem exists_trim_equals (e : Text) :
    ∃ e' trail, trim ('=' :: e) = '=' :: e' ∧ trail.all isBlank = true ∧
      '=' :: e = ('=' :: e') ++ trail ∧ ∀ c ∈ ('=' :: e').getLast?, isBlank c = false := by
  obtain ⟨trail, htrail, hsplit⟩ := exists_trail ('=' :: e)
  have hlast := getLast?_trimEnd ('=' :: e)
  have htrim : trim ('=' :: e) = trimEnd ('=' :: e) := rfl
  rw [htrim]
  cases hend : trimEnd ('=' :: e) with
  | nil =>
    rw [hend, List.nil_append] at hsplit
    rw [← hsplit, List.all_cons, Bool.and_eq_true] at htrail
    exact absurd htrail.1 (by decide)
  | cons c e' =>
    rw [hend] at hsplit hlast
    obtain rfl : '=' = c := by simpa using congrArg List.head? hsplit
    exact ⟨e', trail, rfl, htrail, hsplit, hlast⟩

end Text

namespace Lead.Valid

variable {lead : Lead}

/-- A lead begins as no comment, literal or expression does. -/
theorem first (h : lead.Valid) :
    ∃ c rest, lead.text = c :: rest ∧ (c = '%' ∨ c = '.' ∨ c = '#' ∨ c.isAlpha = true) := by
  obtain ⟨form, marks⟩ := lead
  cases form with
  | explicit name => exact ⟨'%', _, rfl, .inl rfl⟩
  | known name =>
    obtain ⟨c, hc, hletter⟩ := letter_of_isName (isName_of_mem_elementNames h.form)
    obtain ⟨rest, rfl⟩ := List.head?_eq_some_iff.mp hc
    exact ⟨c, _, rfl, .inr (.inr (.inr hletter))⟩
  | omitted =>
    cases marks with
    | nil => exact absurd rfl (h.written rfl)
    | cons s marks =>
      cases s with
      | «class» value => exact ⟨'.', _, rfl, .inr (.inl rfl)⟩
      | id value => exact ⟨'#', _, rfl, .inr (.inr (.inl rfl))⟩

/-- A line with a lead has no marker. -/
theorem reading_eq (h : lead.Valid) (width number : Nat) (tail : Text) :
    (Line.mk width (lead.text ++ tail) number).reading =
      readUnmarked number (lead.text ++ tail) := by
  obtain ⟨c, rest, htext, hc⟩ := h.first
  rw [htext, List.cons_append]
  obtain rfl | rfl | rfl | hletter := hc
  · rfl
  · rfl
  · rfl
  · exact Line.reading_of_isAlpha hletter width number _

/-- A physical line with a lead and an expression behind it. -/
theorem ofPhysical?_expression (h : lead.Valid) {indent : Text}
    (hi : indent.all Text.isBlank = true) (number : Nat) (gap e : Text) :
    Line.ofPhysical? number (indent ++ lead.text ++ (gap ++ '=' :: e)) =
      some ⟨indent.length, lead.text ++ (gap ++ Text.trim ('=' :: e)), number⟩ := by
  obtain ⟨c, rest, htext, hc⟩ := h.first
  obtain ⟨e', trail, htrim, htrail, hsplit, hlast⟩ := Text.exists_trim_equals e
  have hink : Text.isBlank c = false := by
    obtain rfl | rfl | rfl | hletter := hc
    · rfl
    · rfl
    · rfl
    · exact isBlank_of_isAlpha hletter
  have hcontent : Text.trim (lead.text ++ (gap ++ '=' :: e')) = lead.text ++ (gap ++ '=' :: e') := by
    rw [Text.trim_eq_self_iff]
    constructor
    · intro d hd
      obtain rfl : c = d := by simpa [htext] using hd
      exact hink
    · intro d hd
      rw [← List.append_assoc, List.getLast?_append_of_ne_nil _ (by simp)] at hd
      exact hlast d hd
  have hraw : indent ++ lead.text ++ (gap ++ '=' :: e) =
      indent ++ (lead.text ++ (gap ++ '=' :: e')) ++ trail := by
    rw [hsplit]
    simp
  rw [hraw, htrim]
  exact Line.ofPhysical?_surrounded hi htrail (by simp) hcontent number

end Lead.Valid

/-- Behind a lead that is set off by a space, an expression leaves identifier and classes alone. -/
theorem Lead.Valid.readTag?_expression {lead : Lead} (h : lead.Valid) (number : Nat) {e : Text}
    (he : Text.trim ('=' :: e) = '=' :: e) :
    readTag? number (lead.text ++ ' ' :: '=' :: e) =
      some ⟨lead.head number (idAttributes lead.marks ++ classAttributes lead.classes),
        some (.text (expressionText ('=' :: e)))⟩ := by
  have hblank : BlankNext (' ' :: '=' :: e) := by
    rintro c ⟨⟩
    rfl
  have htrim : Text.trim (' ' :: '=' :: e) = '=' :: e := by
    rw [← List.singleton_append, Text.trim_append rfl, he]
  have hrow : Attributed ('=' :: e) [] ('=' :: e) :=
    .stop (readAttribute?_eq_none_iff.mp rfl)
  rw [h.readTag?_spaced hblank, htrim, hrow.readAttributes_eq]
  have hattributes : elementAttributes lead.marks [] =
      idAttributes lead.marks ++ classAttributes lead.classes := by
    simp [elementAttributes, classNames, Lead.classes, classAttributes]
  simp only [List.map_nil, hattributes]
  rfl

theorem idAttributes_eq_toList (lead : Lead) :
    idAttributes lead.marks = (lead.id?.map fun value => (idKey, value)).toList := by
  rw [idAttributes_eq]
  cases lead.id? <;> rfl

namespace Lead.Valid

variable {lead : Lead} {indent : Text}

/-- An expression directly behind a lead keeps the identifier. -/
theorem reading_glued (h : lead.Valid) (hi : indent.all Text.isBlank = true) (number : Nat)
    (e : Text) :
    ∃ line, Line.ofPhysical? number (indent ++ lead.text ++ '=' :: e) = some line ∧
      line.reading = .tag ⟨lead.head number (lead.id?.map fun value => (idKey, value)).toList,
        some (.text (braced (Text.trim ('=' :: e))))⟩ := by
  obtain ⟨e', trail, htrim, -⟩ := Text.exists_trim_equals e
  have hline := h.ofPhysical?_expression hi number [] e
  refine ⟨_, hline, ?_⟩
  rw [List.nil_append, htrim, h.reading_eq, readUnmarked, h.readTag?_glued,
    idAttributes_eq_toList, expressionText_eq_braced]

/-- An expression that is set off by a space keeps the identifier and the classes. -/
theorem reading_spaced (h : lead.Valid) (hi : indent.all Text.isBlank = true) (number : Nat)
    (e : Text) :
    ∃ line, Line.ofPhysical? number (indent ++ lead.text ++ ' ' :: '=' :: e) = some line ∧
      line.reading = .tag ⟨lead.head number
          ((lead.id?.map fun value => (idKey, value)).toList ++ classAttributes lead.classes),
        some (.text (braced (Text.trim ('=' :: e))))⟩ := by
  obtain ⟨e', trail, htrim, -, -, hlast⟩ := Text.exists_trim_equals e
  have hself : Text.trim ('=' :: e') = '=' :: e' := by
    rw [Text.trim_eq_self_iff]
    refine ⟨?_, hlast⟩
    rintro c ⟨⟩
    rfl
  have hline := h.ofPhysical?_expression hi number [' '] e
  refine ⟨_, hline, ?_⟩
  rw [List.singleton_append, htrim, h.reading_eq, readUnmarked, h.readTag?_expression number hself,
    idAttributes_eq_toList, expressionText_eq_braced]

end Lead.Valid

/-- A lead with an equals sign directly behind it gives the element that it gives with a space in
between, except that it loses its classes. -/
theorem glued_reading_iff {lead : Lead} (h : lead.Valid) {indent : Text}
    (hi : indent.all Text.isBlank = true) (number : Nat) (e : Text) :
    ∃ glued spaced : Line,
      Line.ofPhysical? number (indent ++ lead.text ++ '=' :: e) = some glued ∧
      Line.ofPhysical? number (indent ++ lead.text ++ ' ' :: '=' :: e) = some spaced ∧
      let ids : Attributes := (lead.id?.map fun value => (idKey, value)).toList
      let child : Leaf := .text (braced (Text.trim ('=' :: e)))
      glued.reading = .tag ⟨lead.head number ids, some child⟩ ∧
      spaced.reading =
        .tag ⟨lead.head number (ids ++ classAttributes lead.classes), some child⟩ ∧
      (glued.reading = spaced.reading ↔ lead.classes = []) := by
  obtain ⟨glued, hglued, hreadGlued⟩ := h.reading_glued hi number e
  obtain ⟨spaced, hspaced, hreadSpaced⟩ := h.reading_spaced hi number e
  refine ⟨glued, spaced, hglued, hspaced, hreadGlued, hreadSpaced, ?_⟩
  rw [hreadGlued, hreadSpaced]
  have hsame : classAttributes lead.classes = [] ↔ lead.classes = [] := by
    by_cases hc : lead.classes = [] <;> simp [classAttributes, hc]
  simpa [Lead.head] using hsame

/-- The class is lost, the identifier is not. -/
theorem glued_reading_iff_paragraph :
    ∃ glued spaced : Line,
      Line.ofPhysical? 3 "  p.a#x= name" = some glued ∧
      Line.ofPhysical? 3 "  p.a#x = name" = some spaced ∧
      glued.reading = .tag ⟨⟨"p", [("id", "x")], false, [], 3⟩,
        some (.text "\x7b\x7bname\x7d\x7d")⟩ ∧
      spaced.reading = .tag ⟨⟨"p", [("id", "x"), ("class", "a")], false, [], 3⟩,
        some (.text "\x7b\x7bname\x7d\x7d")⟩ := by
  have hlead : Lead.Valid ⟨.known "p", [.class "a", .id "x"]⟩ :=
    ⟨by decide, by decide, by decide⟩
  have hindent : ("  " : Text).all Text.isBlank = true := by decide
  obtain ⟨glued, spaced, hglued, hspaced, hreadGlued, hreadSpaced, -⟩ :=
    glued_reading_iff hlead hindent 3 " name"
  exact ⟨glued, spaced, hglued, hspaced, hreadGlued, hreadSpaced⟩

/-- A space in front of an expression is not without effect. -/
theorem glued_reading_differs :
    ¬∀ (lead : Lead) (e : Text) (number : Nat) (glued spaced : Line), lead.Valid →
      Line.ofPhysical? number (lead.text ++ '=' :: e) = some glued →
      Line.ofPhysical? number (lead.text ++ ' ' :: '=' :: e) = some spaced →
      glued.reading = spaced.reading := by
  intro h
  have hlead : Lead.Valid ⟨.omitted, [.class "a"]⟩ := ⟨by decide, by decide, by decide⟩
  have hindent : ([] : Text).all Text.isBlank = true := rfl
  obtain ⟨glued, hglued, hreadGlued⟩ := hlead.reading_glued hindent 1 "x"
  obtain ⟨spaced, hspaced, hreadSpaced⟩ := hlead.reading_spaced hindent 1 "x"
  have hsame := h _ "x" 1 glued spaced hlead hglued hspaced
  rw [hreadGlued, hreadSpaced] at hsame
  exact absurd hsame (by decide)

end IndentMarkup
