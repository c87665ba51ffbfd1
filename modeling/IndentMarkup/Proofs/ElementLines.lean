import IndentMarkup.Proofs.AttributeRows
import IndentMarkup.Proofs.InsertionOrder

/-!
# The grammar of element lines

An element line is said as a form of text: a lead, and a tail that is a row of attributes with the
inline content behind it. A line is read as an element with attributes exactly where it has this
form. It has it in one way only, and the parts say all about the element: its name, the value under
every attribute name, the order of these names, and the inline content.

A lead with an equals sign directly behind it is a line of another form.
-/
namespace IndentMarkup

/-! ## Inline content -/

/-- An expression between one more brace than it has equals signs, of which at most two count. Signs
with nothing behind them stand for themselves. -/
def braced (t : Text) : Text :=
  let signs := if t.take 2 = ['=', '='] then 2 else 1
  let expression := Text.trim (t.drop signs)
  if expression = [] then t
  else List.replicate (signs + 1) '{' ++ expression ++ List.replicate (signs + 1) '}'

theorem expressionText_eq_braced (e : Text) : expressionText ('=' :: e) = braced ('=' :: e) := by
  unfold expressionText
  split
  · rename_i rest he
    obtain rfl : e = '=' :: rest := List.cons.inj he |>.2
    cases hrest : Text.trim rest <;> simp [braced, hrest, List.replicate]
  · rename_i rest hno he
    obtain rfl : e = rest := List.cons.inj he |>.2
    have htwo : e.take 1 ≠ ['='] := by
      intro htake
      cases e with
      | nil => simp at htake
      | cons c e =>
        obtain rfl : c = '=' := by simpa using htake
        exact hno e rfl
    cases hrest : Text.trim e <;> simp [braced, htwo, hrest, List.replicate]
  · rename_i hno
    exact absurd rfl (hno e)

/-- The inline content that a text stands for: literal text behind a bar, where one space does not
count, an expression behind an equals sign, and plain text otherwise. -/
def inlineOf (t : Text) : Option Leaf :=
  match t.head? with
  | none => none
  | some c =>
    if c = '|' then some (.literal [if t.tail.head? = some ' ' then t.drop 2 else t.drop 1])
    else if c = '=' then some (.text (braced t))
    else some (.text t)

/-- The reader of inline content gives what the text stands for. -/
theorem readInline?_eq (t : Text) : readInline? t = inlineOf t := by
  unfold readInline?
  split
  · rfl
  · rename_i rest
    have hafter : afterMarker rest = if rest.head? = some ' ' then rest.drop 1 else rest := by
      unfold afterMarker
      split
      · rfl
      · rename_i hspace
        cases rest with
        | nil => rfl
        | cons c rest =>
          have hc : c ≠ ' ' := by
            rintro rfl
            exact hspace rest rfl
          simp [hc]
    simp [inlineOf, hafter]
  · rename_i rest
    simp [inlineOf, expressionText_eq_braced]
  · rename_i hnil hbar hequals
    cases t with
    | nil => exact absurd rfl hnil
    | cons c rest =>
      have hc : c ≠ '|' ∧ c ≠ '=' := by
        constructor
        · rintro rfl
          exact hbar rest rfl
        · rintro rfl
          exact hequals rest rfl
      simp [inlineOf, hc]

/-! ## Element lines -/

def Lead.id? (lead : Lead) : Option Text := (lead.marks.filterMap Shorthand.id?).getLast?

def Lead.classes (lead : Lead) : List Text := lead.marks.filterMap Shorthand.class?

/-- The parts of an element line. -/
structure ElementLine where
  lead : Lead
  tail : Text
  written : List WrittenAttribute
  rest : Text
  deriving DecidableEq, Repr

namespace ElementLine

/-- The line has these parts. A known word is the longest name that the line begins with. -/
structure Spells (l : ElementLine) (content : Text) : Prop where
  lead : l.lead.Valid
  longest : ∀ name, l.lead.form = .known name → content.takeWhile isNameChar = name
  tail : BlankNext l.tail
  row : Attributed (Text.trim l.tail) l.written l.rest
  content : content = l.lead.text ++ l.tail

/-- The classes of the shorthands, then the words of every class that is written out. -/
def classes (l : ElementLine) : List Text :=
  l.lead.classes ++ (l.written.filter (·.key == classKey)).flatMap fun a => Text.words a.value

/-- The value that is written last under the key. -/
def lastValue? (l : ElementLine) (key : Text) : Option Text :=
  (l.written.filter (·.key == key)).getLast?.map (·.value)

/-- What the line says about an attribute. -/
def value? (l : ElementLine) (key : Text) : Option Text :=
  if key = classKey then if l.classes = [] then none else some ([' '].intercalate l.classes)
  else if key = idKey then (l.lastValue? idKey).or l.lead.id?
  else l.lastValue? key

/-- The attribute names that are written out, the class apart. -/
def otherKeys (l : ElementLine) : List Text := (l.written.map (·.key)).filter (· != classKey)

/-- The attribute names in their order: the identifier of a shorthand, the class, and then each name
where it is written first. -/
def keys (l : ElementLine) : List Text :=
  ((if l.lead.id? = none then [] else [idKey]) ++ (if l.classes = [] then [] else [classKey]) ++
    l.otherKeys).eraseDups

def attributes (l : ElementLine) : Attributes :=
  l.keys.filterMap fun key => (l.value? key).map fun value => (key, value)

def tag (number : Nat) (l : ElementLine) : TagLine :=
  ⟨l.lead.head number l.attributes, inlineOf l.rest⟩

end ElementLine

/-! ## The attributes of an element -/

theorem idKey_ne_classKey : idKey ≠ classKey := by decide

theorem idAttributes_eq (lead : Lead) :
    idAttributes lead.marks =
      match lead.id? with
      | none => []
      | some value => [(idKey, value)] := rfl

theorem keys_idAttributes (lead : Lead) :
    (idAttributes lead.marks).keys = if lead.id? = none then [] else [idKey] := by
  rw [idAttributes_eq]
  cases lead.id? <;> rfl

theorem get?_idAttributes (lead : Lead) (key : Text) :
    (idAttributes lead.marks).get? key = if key = idKey then lead.id? else none := by
  rw [idAttributes_eq]
  cases lead.id? with
  | none => simp
  | some value =>
    by_cases hk : key = idKey
    · simp [hk, OrderedMap.get?_cons_self]
    · rw [OrderedMap.get?_cons_of_ne (Ne.symm hk), if_neg hk]
      rfl

def classAttributes (classes : List Text) : Attributes :=
  if classes = [] then [] else [(classKey, [' '].intercalate classes)]

theorem keys_classAttributes (classes : List Text) :
    (classAttributes classes).keys = if classes = [] then [] else [classKey] := by
  unfold classAttributes
  split <;> rfl

theorem get?_classAttributes (classes : List Text) (key : Text) :
    (classAttributes classes).get? key =
      if key = classKey then if classes = [] then none else some ([' '].intercalate classes)
      else none := by
  unfold classAttributes
  by_cases hk : key = classKey
  · rw [if_pos hk, hk]
    split
    · rfl
    · rw [OrderedMap.get?_cons_self]
  · rw [if_neg hk]
    split
    · rfl
    · rw [OrderedMap.get?_cons_of_ne (Ne.symm hk)]
      rfl

namespace ElementLine

variable (l : ElementLine)

/-- What the reader of attributes hands over. -/
def bindings : List (Text × Text) := l.written.map WrittenAttribute.binding

theorem classNames_eq : classNames l.lead.marks l.bindings = l.classes := by
  simp [classNames, classes, Lead.classes, bindings, WrittenAttribute.binding, List.filter_map,
    List.flatMap_map, Function.comp_def]

/-- The attributes that stand in front of those that are written out. -/
def front : Attributes := idAttributes l.lead.marks ++ classAttributes l.classes

/-- Attributes that are written out are inserted behind the front, in the order of the line. -/
theorem elementAttributes_eq :
    elementAttributes l.lead.marks l.bindings =
      (l.bindings.filter (·.1 != classKey)).foldl (fun m a => m.insert a.1 a.2) l.front := by
  rw [elementAttributes, classNames_eq]
  rfl

theorem keys_front :
    l.front.keys =
      (if l.lead.id? = none then [] else [idKey]) ++ if l.classes = [] then [] else [classKey] := by
  rw [front, OrderedMap.keys_append, keys_idAttributes, keys_classAttributes]

theorem nodup_keys_front : l.front.keys.Nodup := by
  rw [keys_front]
  split <;> split <;> simp [idKey_ne_classKey]

/-- Attributes come in the order of the line's keys. -/
theorem keys_elementAttributes : (elementAttributes l.lead.marks l.bindings).keys = l.keys := by
  rw [elementAttributes_eq, OrderedMap.keys_foldl_insert l.nodup_keys_front, keys_front]
  simp [keys, otherKeys, bindings, WrittenAttribute.binding, List.filter_map, Function.comp_def]

theorem get?_front (key : Text) :
    l.front.get? key =
      if key = classKey then if l.classes = [] then none else some ([' '].intercalate l.classes)
      else if key = idKey then l.lead.id? else none := by
  rw [front, OrderedMap.get?_append, get?_idAttributes, get?_classAttributes]
  by_cases hclass : key = classKey
  · rw [if_pos hclass, if_pos hclass, if_neg (hclass ▸ idKey_ne_classKey.symm), Option.none_or]
  · rw [if_neg hclass, if_neg hclass, Option.or_none]

/-- Every attribute has the value that the line gives it. -/
theorem get?_elementAttributes (key : Text) :
    (elementAttributes l.lead.marks l.bindings).get? key = l.value? key := by
  rw [elementAttributes_eq, OrderedMap.get?_foldl_insert, get?_front, List.filter_filter, value?]
  by_cases hclass : key = classKey
  · have hnone : l.bindings.filter (fun b => b.1 == key && b.1 != classKey) = [] := by
      simp [List.filter_eq_nil_iff, hclass]
    rw [hnone, if_pos hclass, if_pos hclass]
    rfl
  · have hlast : (l.bindings.filter (fun b => b.1 == key && b.1 != classKey)).getLast?.map (·.2) =
        l.lastValue? key := by
      have hfilter : l.bindings.filter (fun b => b.1 == key && b.1 != classKey) =
          l.bindings.filter (fun b => b.1 == key) := by
        apply List.filter_congr
        intro b _
        by_cases hb : b.1 = key
        · simp [hb, hclass]
        · simp [hb]
      rw [hfilter]
      simp [lastValue?, bindings, WrittenAttribute.binding, List.filter_map, Function.comp_def]
    rw [hlast, if_neg hclass, if_neg hclass]
    split
    · rename_i hid
      rw [hid]
    · rw [Option.or_none]

/-- The parts of a line say what its attributes are. -/
theorem elementAttributes_eq_attributes :
    elementAttributes l.lead.marks l.bindings = l.attributes := by
  have hnodup : (elementAttributes l.lead.marks l.bindings).keys.Nodup := by
    rw [elementAttributes_eq]
    exact OrderedMap.nodup_keys_foldl_insert l.nodup_keys_front _
  have hwhole := OrderedMap.filterMap_keys hnodup
  rw [keys_elementAttributes] at hwhole
  rw [← hwhole, attributes]
  simp only [get?_elementAttributes]

variable {l}

/-! ## Reading element lines -/

/-- A line with these parts is read as the element that they describe. -/
theorem Spells.readTag?_eq {content : Text} (h : l.Spells content) (number : Nat) :
    readTag? number content = some (l.tag number) := by
  have hrow := h.row.readAttributes_eq
  rw [h.content, h.lead.readTag?_spaced h.tail, hrow, tag, readInline?_eq,
    ← elementAttributes_eq_attributes]
  rfl

/-- Every line with a lead and a blank behind it, or nothing, has parts. -/
theorem exists_spells {lead : Lead} {tail : Text} (h : lead.Valid) (ht : BlankNext tail) :
    ∃ l : ElementLine, l.Spells (lead.text ++ tail) := by
  obtain ⟨written, hrow, -⟩ := Attributed.of_readAttributes (Text.trim tail)
  refine ⟨⟨lead, tail, written, _⟩, h, ?_, ht, hrow, rfl⟩
  intro name hform
  have hknown := h.form
  rw [hform] at hknown
  have hname := isName_of_mem_elementNames hknown
  rw [Lead.text, List.append_assoc, hform]
  exact Text.takeWhile_append_stop (forall_of_isMadeOf isNameChar_of_isAlpha id hname)
    (Shorthand.head?_textAll_append lead.marks ht.stops)

/-- A line has its parts in one way. -/
theorem Spells.unique {l' : ElementLine} {content : Text} (h : l.Spells content)
    (h' : l'.Spells content) : l = l' := by
  obtain ⟨hlead, htail⟩ := h.lead.text_inj h'.lead h.tail.stops h'.tail.stops
    (h.content.symm.trans h'.content)
  have hrow := h.row
  rw [htail] at hrow
  obtain ⟨hwritten, hrest⟩ := hrow.unique h'.row
  obtain ⟨lead, tail, written, rest⟩ := l
  obtain ⟨lead', tail', written', rest'⟩ := l'
  obtain rfl : lead = lead' := hlead
  obtain rfl : tail = tail' := htail
  obtain rfl : written = written' := hwritten
  obtain rfl : rest = rest' := hrest
  rfl

end ElementLine

/-- An equals sign stands directly behind the lead. -/
def Glued (content : Text) : Prop :=
  ∃ (lead : Lead) (e : Text), lead.Valid ∧ content = lead.text ++ '=' :: e

/-- A line with these parts has a blank or nothing behind its lead. -/
theorem ElementLine.Spells.not_glued {l : ElementLine} {content : Text} (h : l.Spells content) :
    ¬Glued content := by
  rintro ⟨lead, e, hlead, he⟩
  obtain ⟨-, htail⟩ := h.lead.text_inj hlead h.tail.stops (stops_equals e)
    (h.content.symm.trans he)
  have hblank := h.tail
  rw [htail] at hblank
  exact absurd (hblank '=' rfl) (by decide)

end IndentMarkup
