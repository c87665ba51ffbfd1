import IndentMarkup.Node
import IndentMarkup.Text.Word

/-!
# Tag lines

The grammar of a line that opens an element or a helper.

An element line has a name, then class and identifier shorthands glued to it, then attributes and at
last inline content. The name is written after a percent sign, or is one of the known element names,
or is left out in front of a shorthand, which means `div`. A line that begins with any other word
opens a helper, and everything after the word is its argument. Reading takes as much as it can at
each place, so a line has one reading.
-/
namespace IndentMarkup

/-- The words that open an element without a percent sign. -/
def elementNames : List Text :=
  ["a", "abbr", "address", "area", "article", "aside", "audio", "b", "base", "bdi", "bdo",
   "blockquote", "body", "br", "button", "canvas", "caption", "cite", "code", "col", "colgroup",
   "data", "datalist", "dd", "del", "details", "dfn", "dialog", "div", "dl", "dt", "em", "embed",
   "fieldset", "figcaption", "figure", "footer", "form", "h1", "h2", "h3", "h4", "h5", "h6", "head",
   "header", "hgroup", "hr", "html", "i", "iframe", "img", "input", "ins", "kbd", "label", "legend",
   "li", "link", "main", "map", "mark", "menu", "meta", "meter", "nav", "noscript", "object", "ol",
   "optgroup", "option", "output", "p", "param", "picture", "pre", "progress", "q", "rp", "rt",
   "ruby", "s", "samp", "script", "search", "section", "select", "slot", "small", "source", "span",
   "strong", "style", "sub", "summary", "sup", "table", "tbody", "td", "template", "textarea",
   "tfoot", "th", "thead", "time", "title", "tr", "track", "u", "ul", "var", "video",
   "wbr"].map String.toList

def isNameChar (c : Char) : Bool := Text.isWordChar c || c == ':' || c == '-'

def readName? : Text → Option (Text × Text)
  | [] => none
  | c :: rest =>
    if c.isAlpha then some (c :: rest.takeWhile isNameChar, rest.dropWhile isNameChar) else none

/-! ## Shorthands -/

inductive Shorthand where
  | class (value : Text)
  | id (value : Text)
  deriving DecidableEq, Repr

namespace Shorthand

def ofMark? (mark : Char) (value : Text) : Option Shorthand :=
  if value = [] then none
  else if mark = '.' then some (.class value)
  else if mark = '#' then some (.id value)
  else none

def readAll (t : Text) : List Shorthand × Text :=
  match t with
  | [] => ([], [])
  | mark :: rest =>
    match ofMark? mark (rest.takeWhile isNameChar) with
    | none => ([], mark :: rest)
    | some s =>
      let (more, tail) := readAll (rest.dropWhile isNameChar)
      (s :: more, tail)
termination_by t.length
decreasing_by
  have := (List.dropWhile_sublist isNameChar (l := rest)).length_le
  simp only [List.length_cons]
  omega

def class? : Shorthand → Option Text
  | .class value => some value
  | .id _ => none

def id? : Shorthand → Option Text
  | .class _ => none
  | .id value => some value

end Shorthand

/-! ## Attributes -/

def isKeyStart (c : Char) : Bool := c.isAlpha || c == '_' || c == ':' || c == '@'

def isKeyChar (c : Char) : Bool := Text.isWordChar c || c == ':' || c == '.' || c == '-'

def isBareChar (c : Char) : Bool := !Text.isBlank c && c != '"' && c != '\''

def endsValue (rest : Text) : Bool := rest.head?.all Text.isBlank

def readQuoted? (quote : Char) (t : Text) : Option (Text × Text) :=
  match t.dropWhile (· != quote) with
  | [] => none
  | _ :: rest => if endsValue rest then some (t.takeWhile (· != quote), rest) else none

def readBare? (t : Text) : Option (Text × Text) :=
  let rest := t.dropWhile isBareChar
  match t.takeWhile isBareChar with
  | [] => none
  | c :: value => if endsValue rest then some (c :: value, rest) else none

def readValue? (t : Text) : Option (Text × Text) :=
  match t with
  | [] => none
  | c :: rest => if c = '"' ∨ c = '\'' then readQuoted? c rest else readBare? t

def readAttribute? (t : Text) : Option ((Text × Text) × Text) :=
  match t with
  | [] => none
  | c :: rest =>
    if isKeyStart c then
      match rest.dropWhile isKeyChar with
      | '=' :: written =>
        (readValue? written).map fun v => ((c :: rest.takeWhile isKeyChar, v.1), v.2)
      | _ => none
    else none

/-- What follows a value is shorter than the text, so that reading goes on with less. -/
theorem length_readQuoted? {quote : Char} {t value rest : Text}
    (h : readQuoted? quote t = some (value, rest)) : rest.length < t.length := by
  have hd := (List.dropWhile_sublist (· != quote) (l := t)).length_le
  unfold readQuoted? at h
  split at h
  · simp at h
  · rename_i c r hr
    split at h <;> simp only [Option.some.injEq, Prod.mk.injEq, reduceCtorEq] at h
    rw [← h.2]
    rw [hr] at hd
    simp only [List.length_cons] at hd
    omega

theorem length_readBare? {t value rest : Text} (h : readBare? t = some (value, rest)) :
    rest.length < t.length := by
  have hs := congrArg List.length (List.takeWhile_append_dropWhile (p := isBareChar) (l := t))
  unfold readBare? at h
  simp only at h
  split at h
  · simp at h
  · rename_i c v hv
    split at h <;> simp only [Option.some.injEq, Prod.mk.injEq, reduceCtorEq] at h
    rw [← h.2]
    rw [hv] at hs
    simp only [List.length_append, List.length_cons] at hs
    omega

theorem length_readValue? {t value rest : Text} (h : readValue? t = some (value, rest)) :
    rest.length < t.length := by
  unfold readValue? at h
  split at h
  · simp at h
  · split at h
    · have := length_readQuoted? h
      simp only [List.length_cons]
      omega
    · exact length_readBare? h

/-- An attribute takes up some of the text. -/
theorem length_readAttribute? {t rest : Text} {a : Text × Text}
    (h : readAttribute? t = some (a, rest)) : rest.length < t.length := by
  unfold readAttribute? at h
  split at h
  · simp at h
  · rename_i c r
    have hd := (List.dropWhile_sublist isKeyChar (l := r)).length_le
    split at h
    · split at h
      · rename_i written hw
        simp only [Option.map_eq_some_iff, Prod.mk.injEq] at h
        obtain ⟨⟨value, tail⟩, hv, -, rfl⟩ := h
        have := length_readValue? hv
        rw [hw] at hd
        simp only [List.length_cons] at hd ⊢
        omega
      · simp at h
    · simp at h

/-- The attributes at the start of the text, with blanks between them, and what follows. -/
def readAttributes (t : Text) : List (Text × Text) × Text :=
  match _h : readAttribute? t with
  | none => ([], t)
  | some (a, rest) =>
    let (more, tail) := readAttributes (Text.trimStart rest)
    (a :: more, tail)
termination_by t.length
decreasing_by
  have h₁ := length_readAttribute? _h
  have h₂ := Text.length_trimStart_le rest
  omega

def classKey : Text := ['c', 'l', 'a', 's', 's']

def idKey : Text := ['i', 'd']

/-- The identifier that the last shorthand of its kind gives. -/
def idAttributes (marks : List Shorthand) : Attributes :=
  match (marks.filterMap Shorthand.id?).getLast? with
  | none => []
  | some value => [(idKey, value)]

/-- The classes of the shorthands, then the words of every written class value. -/
def classNames (marks : List Shorthand) (written : List (Text × Text)) : List Text :=
  marks.filterMap Shorthand.class? ++
    (written.filter (·.1 == classKey)).flatMap fun a => Text.words a.2

/-- An element's attributes: the shorthand identifier, all classes together, then what else is
written; a name written twice keeps its first place and takes its last value. -/
def elementAttributes (marks : List Shorthand) (written : List (Text × Text)) : Attributes :=
  let classes := classNames marks written
  let shorthand := idAttributes marks ++
    if classes = [] then [] else [(classKey, [' '].intercalate classes)]
  (written.filter (·.1 != classKey)).foldl (fun m a => m.insert a.1 a.2) shorthand

/-! ## Inline content -/

def afterMarker : Text → Text
  | ' ' :: rest => rest
  | t => t

/-- The text of an expression: one equals sign asks for the escaped value, two for the plain one,
and a sign with nothing behind it stands for itself. -/
def expressionText (t : Text) : Text :=
  match t with
  | '=' :: '=' :: rest =>
    match Text.trim rest with
    | [] => t
    | e => ['{', '{', '{'] ++ e ++ ['}', '}', '}']
  | '=' :: rest =>
    match Text.trim rest with
    | [] => t
    | e => ['{', '{'] ++ e ++ ['}', '}']
  | _ => t

def readInline? (t : Text) : Option Leaf :=
  match t with
  | [] => none
  | '|' :: rest => some (.literal [afterMarker rest])
  | '=' :: _ => some (.text (expressionText t))
  | _ => some (.text t)

/-! ## Whole lines -/

structure TagLine where
  head : Head
  inline : Option Leaf
  deriving DecidableEq, Repr

/-- The element that the text after its name describes. Directly behind the name and shorthands has
to stand an equals sign, a blank or nothing. -/
def readElement? (number : Nat) (name : Text) (t : Text) : Option TagLine :=
  let (marks, rest) := Shorthand.readAll t
  match rest with
  | '=' :: _ =>
    some ⟨⟨name, idAttributes marks, false, [], number⟩, some (.text (expressionText rest))⟩
  | _ =>
    if endsValue rest then
      let (written, tail) := readAttributes (Text.trim rest)
      some ⟨⟨name, elementAttributes marks written, false, [], number⟩, readInline? tail⟩
    else none

def readHelper (number : Nat) (content : Text) : TagLine :=
  let isInk := fun c => !Text.isBlank c
  ⟨⟨content.takeWhile isInk, [], true, Text.trim (content.dropWhile isInk), number⟩, none⟩

def defaultName : Text := ['d', 'i', 'v']

/-- The tag that a line opens, unless the line is not of that shape. -/
def readTag? (number : Nat) (content : Text) : Option TagLine :=
  match content with
  | '%' :: rest =>
    match readName? rest with
    | none => none
    | some (name, tail) => readElement? number name tail
  | '.' :: _ => readElement? number defaultName content
  | '#' :: _ => readElement? number defaultName content
  | _ =>
    match readName? content with
    | none => none
    | some (name, tail) =>
      if elementNames.contains name then readElement? number name tail
      else some (readHelper number content)

end IndentMarkup
