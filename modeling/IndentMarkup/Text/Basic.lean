/-!
# Text

Text is a list of characters: every rule below is a recursion over the list, and a length is a
count of characters. Blank characters are Unicode white space together with the four information
separators U+001C to U+001F; the zero-width characters are not blank.
-/
namespace IndentMarkup

abbrev Text := List Char

/-- A literal written in quotes can stand where text is wanted. -/
instance : Coe String Text := ⟨String.toList⟩

namespace Text

/-- White space of any kind, line breaks included. -/
def isBlank (c : Char) : Bool :=
  let n := c.toNat
  (0x09 ≤ n && n ≤ 0x0D) || (0x1C ≤ n && n ≤ 0x20) || n == 0x85 || n == 0xA0 || n == 0x1680
    || (0x2000 ≤ n && n ≤ 0x200A) || n == 0x2028 || n == 0x2029 || n == 0x202F || n == 0x205F
    || n == 0x3000

@[simp] theorem isBlank_space : isBlank ' ' = true := rfl
@[simp] theorem isBlank_tab : isBlank '\t' = true := rfl
@[simp] theorem isBlank_newline : isBlank '\n' = true := rfl
@[simp] theorem isBlank_return : isBlank '\r' = true := rfl

def trimStart (t : Text) : Text := t.dropWhile isBlank

def trimEnd (t : Text) : Text := (t.reverse.dropWhile isBlank).reverse

/-- The text without its leading and trailing blanks. -/
def trim (t : Text) : Text := trimEnd (trimStart t)

@[simp] theorem trimStart_nil : trimStart [] = [] := rfl
@[simp] theorem trimEnd_nil : trimEnd [] = [] := rfl
@[simp] theorem trim_nil : trim [] = [] := rfl

theorem length_trimStart_le (t : Text) : (trimStart t).length ≤ t.length :=
  (List.dropWhile_sublist isBlank).length_le

/-- A character put in front of the first word, or made a word of its own. -/
def addToWords (c : Char) (alone : Bool) (ws : List Text) : List Text :=
  match alone, ws with
  | false, w :: rest => (c :: w) :: rest
  | _, ws => [c] :: ws

/-- The maximal runs of characters that are not blank. -/
def words : Text → List Text
  | [] => []
  | c :: rest =>
    if isBlank c then words rest else addToWords c (rest.head?.all isBlank) (words rest)

@[simp] theorem words_nil : words [] = [] := rfl

theorem words_cons_blank {c : Char} (h : isBlank c = true) (rest : Text) :
    words (c :: rest) = words rest := by
  rw [words, if_pos h]

/-- The pieces of a list between separators; there is always at least one. -/
def pieces {α : Type} [DecidableEq α] (separator : α) : List α → List (List α)
  | [] => [[]]
  | c :: rest =>
    if c = separator then [] :: pieces separator rest
    else match pieces separator rest with
      | [] => [[c]]
      | first :: others => (c :: first) :: others

def ofNat (n : Nat) : Text := Nat.toDigits 10 n

def ofInt : Int → Text
  | .ofNat n => ofNat n
  | .negSucc n => '-' :: ofNat (n + 1)

end Text
end IndentMarkup
