namespace TaxonomySet.Text

/-- The text of well-formed bytes. -/
def decode? (bytes : ByteArray) : Option String := String.fromUTF8? bytes

/-- The character that stands for an ill-formed stretch. -/
def replacement : Char := Char.ofNat 0xFFFD

/-- How a byte that begins a character of several bytes goes on: the number of further bytes, its
own share of the code point, and the range of the second byte. -/
def leadByte (b : Nat) : Option (Nat × Nat × Nat × Nat) :=
  if 0xC2 ≤ b && b ≤ 0xDF then some (1, b - 0xC0, 0x80, 0xBF)
  else if b == 0xE0 then some (2, 0, 0xA0, 0xBF)
  else if b == 0xED then some (2, b - 0xE0, 0x80, 0x9F)
  else if 0xE1 ≤ b && b ≤ 0xEF then some (2, b - 0xE0, 0x80, 0xBF)
  else if b == 0xF0 then some (3, 0, 0x90, 0xBF)
  else if b == 0xF4 then some (3, b - 0xF0, 0x80, 0x8F)
  else if 0xF1 ≤ b && b ≤ 0xF3 then some (3, b - 0xF0, 0x80, 0xBF)
  else none

/-- Takes `n` more bytes of a character, the first of them within `lo` and `hi`, and returns the
character, or the replacement as soon as a byte does not fit, and the bytes not taken. -/
def continueChar (n share lo hi : Nat) (bs : List UInt8) : Char × List UInt8 :=
  match n, bs with
  | 0, bs => (Char.ofNat share, bs)
  | _ + 1, [] => (replacement, [])
  | n + 1, b :: bs =>
    if lo ≤ b.toNat && b.toNat ≤ hi then continueChar n (share * 64 + (b.toNat - 0x80)) 0x80 0xBF bs
    else (replacement, b :: bs)

theorem length_continueChar (n share lo hi : Nat) (bs : List UInt8) :
    (continueChar n share lo hi bs).2.length ≤ bs.length := by
  induction n generalizing share lo hi bs with
  | zero => simp [continueChar]
  | succ n ih =>
    cases bs with
    | nil => simp [continueChar]
    | cons b bs =>
      unfold continueChar
      split
      · exact Nat.le_succ_of_le (ih _ _ _ _)
      · simp

/-- The characters of any bytes. -/
def lossyChars : List UInt8 → List Char
  | [] => []
  | b :: bs =>
    if b.toNat < 0x80 then Char.ofNat b.toNat :: lossyChars bs
    else match leadByte b.toNat with
      | none => replacement :: lossyChars bs
      | some (n, share, lo, hi) =>
        let next := continueChar n share lo hi bs
        next.1 :: lossyChars next.2
termination_by bs => bs.length
decreasing_by
  · simp
  · simp
  · exact Nat.lt_succ_of_le (length_continueChar _ _ _ _ _)

/-- The text of any bytes. U+FFFD stands for each ill-formed stretch, a stretch being as long as it could still have
begun a character. -/
def decodeLossy (bytes : ByteArray) : String := String.ofList (lossyChars bytes.toList)

end TaxonomySet.Text
