import IndentMarkup.Text.LineBreak
import IndentMarkup.Text.Utf8
import IndentMarkup.Yaml.Token

/-!
# Sources

The bytes of a YAML text are decoded in blocks, and its characters come in portions, the first of
which is twice as long as the others. A fault of the bytes or a character that may not stand in a
YAML text lies in one of the portions, and is noticed only when a character of that portion is
wanted. So a source is the text before that portion and the problem that lies beyond.

A block has 8192 bytes, or more if the last block shows that these are too few for what is left of
the portion. Line breaks are unified; a carriage return at the end of a block waits for the next.
-/
namespace IndentMarkup.Yaml

/-- Characters that may stand in a YAML text. -/
def isYamlChar (c : Char) : Bool :=
  let n := c.toNat
  n == 0x09 || n == 0x0A || n == 0x0D || (0x20 ≤ n && n ≤ 0x7E) || n == 0x85 ||
    (0xA0 ≤ n && n ≤ 0xFFFD) || 0x10000 ≤ n

structure Source where
  text : Text
  /-- The problem behind the text, if it is not the whole text. -/
  beyond : Option Problem

/-! ## Blocks -/

def blockSize : Nat := 8192

def portionSize : Nat := 4096

def isCutChar (bytes : Utf8.Bytes) : Bool :=
  [1, 2, 3].any fun missing =>
    (Utf8.decode? (bytes ++ List.replicate missing 0x80)).isSome ||
      (Utf8.decode? (bytes ++ List.replicate missing 0xBF)).isSome

def decodeBlock? (bytes : Utf8.Bytes) : Option (Text × Utf8.Bytes) :=
  [0, 1, 2, 3].findSome? fun cut =>
    let whole := bytes.length - cut
    match Utf8.decode? (bytes.take whole) with
    | none => none
    | some t => if cut = 0 || isCutChar (bytes.drop whole) then some (t, bytes.drop whole) else none

structure BlockState where
  /-- The bytes not yet read. -/
  rest : Utf8.Bytes
  /-- The bytes of a character that is cut off. -/
  cut : Utf8.Bytes
  /-- Whether a carriage return waits for what follows it. -/
  waiting : Bool
  /-- How many characters are decoded. -/
  count : Nat
  /-- The bytes and the characters of the last block. -/
  lastBytes : Nat
  lastChars : Nat

def BlockState.wanted (b : BlockState) : Nat :=
  let missing := portionSize - b.count % portionSize
  if b.lastChars = 0 then blockSize else max blockSize (b.lastBytes * missing / b.lastChars)

/-- The text of the blocks before the first one that cannot be decoded. -/
def decodableText : Nat → BlockState → Text
  | 0, _ => []
  | fuel + 1, b =>
    let block := b.rest.take b.wanted
    match decodeBlock? (b.cut ++ block) with
    | none => []
    | some (text, cut) =>
      let text := (if b.waiting then ['\r'] else []) ++ text
      let waiting := text.getLast? == some '\r'
      let text := Text.unifyBreaks (if waiting then text.dropLast else text)
      if block.isEmpty then []
      else text ++ decodableText fuel
        ⟨b.rest.drop b.wanted, cut, waiting, b.count + text.length, block.length, text.length⟩

/-! ## Portions -/

def portionStart (index : Nat) : Nat :=
  if index < 2 * portionSize then 0 else index - index % portionSize

/-- A text up to the portion of its first character that may not stand there. -/
def Source.ofText (t : Text) (beyond : Option Problem) : Source :=
  match t.findIdx? fun c => !isYamlChar c with
  | none => ⟨t, beyond⟩
  | some index => ⟨t.take (portionStart index), some .malformed⟩

def Source.ofBytes (bytes : Utf8.Bytes) : Source :=
  match Utf8.decode? bytes with
  | some t => .ofText (Text.unifyBreaks t) none
  | none =>
    let t := decodableText (bytes.length + 1) ⟨bytes, [], false, 0, 0, 0⟩
    .ofText (t.take (portionStart t.length)) (some .undecodable)

end IndentMarkup.Yaml
