import IndentMarkup.Text.Utf8

/-!
# Code points

Configuration values, paths and messages are lists of code points. Nearly all code points are
characters. The others are the halves of surrogate pairs, which an escape can spell although they
stand for nothing by themselves: a list with one of them is no text and has no UTF-8 bytes. File
names are an exception. In them a half from U+DC80 to U+DCFF stands for one byte that is not UTF-8.
-/
namespace IndentMarkup

inductive Code where
  | char (c : Char)
  /-- Half of a surrogate pair, by its distance from U+D800. -/
  | half (n : Fin 0x800)
  deriving DecidableEq, Repr

abbrev Codes := List Code

def Text.codes (t : Text) : Codes := t.map .char

/-- Text can stand wherever code points are wanted. -/
instance : Coe Text Codes := ⟨Text.codes⟩

namespace Code

def toNat : Code → Nat
  | .char c => c.toNat
  | .half n => 0xD800 + n

def ofNat (n : Nat) : Code :=
  if n.isValidChar then .char (Char.ofNat n) else .half (Fin.ofNat 0x800 (n - 0xD800))

def isBlank : Code → Bool
  | .char c => Text.isBlank c
  | .half _ => false

def char? : Code → Option Char
  | .char c => some c
  | .half _ => none

/-- No file name holds a NUL, or a half that stands for no byte. -/
def canBeNamed : Code → Bool
  | .char c => c != Char.ofNat 0
  | .half n => 0x480 ≤ n.val && n.val ≤ 0x4FF

def nameBytes : Code → Utf8.Bytes
  | .char c => Utf8.encodeChar c
  | .half n => [(n.val - 0x400).toUInt8]

end Code

namespace Codes

/-- The text that code points are, if none of them is a half. -/
def text? (cs : Codes) : Option Text := cs.mapM Code.char?

def encode? (cs : Codes) : Option Utf8.Bytes := cs.text?.map Utf8.encode

def nameBytes (cs : Codes) : Utf8.Bytes := cs.flatMap Code.nameBytes

def isBlankText (cs : Codes) : Bool := cs.all Code.isBlank

/-- The order of code points, the shorter list first when one begins the other. -/
def lt : Codes → Codes → Bool
  | _, [] => false
  | [], _ :: _ => true
  | c :: s, d :: t => c.toNat < d.toNat || (c == d && lt s t)

/-- Lists in the order of their code points; equal ones keep their places. -/
def sort (ts : List Codes) : List Codes := ts.mergeSort fun s t => !lt t s

@[simp] theorem text?_codes (t : Text) : text? t.codes = some t := by
  induction t with
  | nil => rfl
  | cons c t ih =>
    rw [text?, Text.codes] at ih
    simp [text?, Text.codes, Code.char?, ih]

/-- Characters have the bytes of UTF-8. -/
@[simp] theorem encode?_codes (t : Text) : encode? t.codes = some (Utf8.encode t) := by
  simp [encode?]

/-- Code points are a text exactly when they are the code points of one. -/
theorem text?_eq_some_iff {cs : Codes} {t : Text} : cs.text? = some t ↔ cs = t.codes := by
  constructor
  · intro h
    induction cs generalizing t with
    | nil =>
      obtain rfl : [] = t := by simpa [text?] using h
      rfl
    | cons c cs ih =>
      rw [text?, List.mapM_cons] at h
      cases c with
      | half n => simp [Code.char?] at h
      | char d =>
        cases hrest : cs.mapM Code.char? with
        | none => simp [Code.char?, hrest] at h
        | some rest =>
          obtain rfl : d :: rest = t := by simpa [Code.char?, hrest] using h
          rw [ih hrest]
          rfl
  · rintro rfl
    exact text?_codes t

end Codes

@[simp] theorem Text.codes_nil : codes [] = [] := rfl

@[simp] theorem Text.codes_append (s t : Text) : codes (s ++ t) = codes s ++ codes t := by
  simp [codes]

theorem Text.codes_inj {s t : Text} (h : codes s = codes t) : s = t := by
  have hback := congrArg Codes.text? h
  simpa using hback

end IndentMarkup
