import IndentMarkup.Text.Basic

/-!
# UTF-8

The bytes of a text and the text of bytes. Decoding is strict: overlong forms, surrogates, values
above U+10FFFF and cut sequences are refused.
-/
namespace IndentMarkup.Utf8

abbrev Bytes := List UInt8

def encodeChar (c : Char) : Bytes :=
  let n := c.toNat
  let tail := fun bits => (0x80 + bits % 64).toUInt8
  if n < 0x80 then [n.toUInt8]
  else if n < 0x800 then [(0xC0 + n / 64).toUInt8, tail n]
  else if n < 0x10000 then [(0xE0 + n / 4096).toUInt8, tail (n / 64), tail n]
  else [(0xF0 + n / 262144).toUInt8, tail (n / 4096), tail (n / 64), tail n]

def encode (t : Text) : Bytes := t.flatMap encodeChar

def isTail (b : UInt8) : Bool := 0x80 ≤ b.toNat && b.toNat ≤ 0xBF

def tailBits (b : UInt8) : Nat := b.toNat - 0x80

/-- The text of bytes, if they are well formed. -/
def decode? : Bytes → Option Text
  | [] => some []
  | a :: rest =>
    let n := a.toNat
    if n < 0x80 then (decode? rest).map (Char.ofNat n :: ·)
    else match rest with
      | [] => none
      | b :: rest =>
        if !isTail b then none
        else if 0xC2 ≤ n && n ≤ 0xDF then
          (decode? rest).map (Char.ofNat ((n - 0xC0) * 64 + tailBits b) :: ·)
        else match rest with
          | [] => none
          | c :: rest =>
            let m := (n - 0xE0) * 4096 + tailBits b * 64 + tailBits c
            if !isTail c then none
            else if 0xE0 ≤ n && n ≤ 0xEF && 0x800 ≤ m && !(0xD800 ≤ m && m ≤ 0xDFFF) then
              (decode? rest).map (Char.ofNat m :: ·)
            else match rest with
              | [] => none
              | d :: rest =>
                let m := (n - 0xF0) * 262144 + tailBits b * 4096 + tailBits c * 64 + tailBits d
                if !isTail d then none
                else if 0xF0 ≤ n && 0x10000 ≤ m && m ≤ 0x10FFFF then
                  (decode? rest).map (Char.ofNat m :: ·)
                else none

@[simp] theorem encode_nil : encode [] = [] := rfl
@[simp] theorem decode?_nil : decode? [] = some [] := rfl

/-! ## Reading back -/

theorem toNat_toUInt8 {n : Nat} (h : n < 256) : n.toUInt8.toNat = n := by
  simp [Nat.mod_eq_of_lt h]

theorem toNat_tail (bits : Nat) : (0x80 + bits % 64).toUInt8.toNat = 0x80 + bits % 64 :=
  toNat_toUInt8 (by omega)

theorem isTail_tail (bits : Nat) : isTail (0x80 + bits % 64).toUInt8 = true := by
  simp only [isTail, toNat_tail, Bool.and_eq_true, decide_eq_true_eq]
  omega

theorem tailBits_tail (bits : Nat) : tailBits (0x80 + bits % 64).toUInt8 = bits % 64 := by
  have h := toNat_tail bits
  unfold tailBits
  omega

/-- The bytes of a character are read back as the character. -/
theorem decode?_encodeChar_append (c : Char) (rest : Bytes) :
    decode? (encodeChar c ++ rest) = (decode? rest).map (c :: ·) := by
  have hvalid : c.toNat < 0xD800 ∨ (0xDFFF < c.toNat ∧ c.toNat < 0x110000) := c.valid
  have hback : Char.ofNat c.toNat = c := Char.ofNat_toNat c
  generalize hn : c.toNat = n at hvalid hback
  rw [encodeChar, hn]
  by_cases h1 : n < 0x80
  · have hlead : n.toUInt8.toNat = n := toNat_toUInt8 (by omega)
    rw [if_pos h1, List.singleton_append, decode?.eq_def]
    simp only [hlead, h1, if_true, hback]
  rw [if_neg h1]
  by_cases h2 : n < 0x800
  · have hlead : (0xC0 + n / 64).toUInt8.toNat = 0xC0 + n / 64 := toNat_toUInt8 (by omega)
    have hjoin : (0xC0 + n / 64 - 0xC0) * 64 + n % 64 = n := by omega
    rw [if_pos h2, decode?.eq_def]
    simp only [List.cons_append, List.nil_append, hlead, isTail_tail, tailBits_tail, hjoin, hback]
    rw [if_neg (by omega), if_neg (by simp), if_pos (by simp; omega)]
  rw [if_neg h2]
  by_cases h3 : n < 0x10000
  · have hlead : (0xE0 + n / 4096).toUInt8.toNat = 0xE0 + n / 4096 := toNat_toUInt8 (by omega)
    have hjoin : (0xE0 + n / 4096 - 0xE0) * 4096 + n / 64 % 64 * 64 + n % 64 = n := by omega
    rw [if_pos h3, decode?.eq_def]
    simp only [List.cons_append, List.nil_append, hlead, isTail_tail, tailBits_tail, hjoin, hback]
    rw [if_neg (by omega), if_neg (by simp), if_neg (by simp; omega), if_neg (by simp),
      if_pos (by simp; omega)]
  · have hlead : (0xF0 + n / 262144).toUInt8.toNat = 0xF0 + n / 262144 :=
      toNat_toUInt8 (by omega)
    have hjoin : (0xF0 + n / 262144 - 0xF0) * 262144 + n / 4096 % 64 * 4096 + n / 64 % 64 * 64 +
        n % 64 = n := by omega
    rw [if_neg h3, decode?.eq_def]
    simp only [List.cons_append, List.nil_append, hlead, isTail_tail, tailBits_tail, hjoin, hback]
    rw [if_neg (by omega), if_neg (by simp), if_neg (by simp; omega), if_neg (by simp),
      if_neg (by simp; omega), if_neg (by simp), if_pos (by simp; omega)]

/-- Every text is read back from its bytes. -/
theorem decode?_encode (t : Text) : decode? (encode t) = some t := by
  induction t with
  | nil => rfl
  | cons c rest ih =>
    rw [encode, List.flatMap_cons, decode?_encodeChar_append, ← encode, ih]
    rfl

end IndentMarkup.Utf8
