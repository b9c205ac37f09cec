import TaxonomySet.Text.Casing

namespace TaxonomySet.Text

/-- Lowers the letters A to Z and keeps all else. -/
def asciiLowercase (s : String) : String := s.map Char.toLower

/-- The image of a code point under the simple lowercase mapping. -/
def lowerCode (n : Nat) : Nat :=
  match lowercaseRuns.find? fun r => r.1 ≤ n && n ≤ r.2.1 && (n - r.1) % r.2.2.1 == 0 with
  | some r => r.2.2.2 + (n - r.1)
  | none => n

/-- Whether one of the ranges holds a character. -/
def inRanges (ranges : List (Nat × Nat)) (c : Char) : Bool :=
  ranges.any fun r => r.1 ≤ c.toNat && c.toNat ≤ r.2

/-- Whether the first character that case rules do not skip is cased. -/
def meetsCased (cs : List Char) : Bool :=
  match cs.dropWhile (inRanges caseIgnorableRanges) with
  | c :: _ => inRanges casedRanges c
  | [] => false

/-- The lowercase of a character between what precedes it, nearest first, and what follows it. Two characters are
special: a capital I with a dot becomes an i and a combining dot, and a capital sigma becomes a final sigma at the end
of a word. -/
def lowerChar (before : List Char) (c : Char) (after : List Char) : List Char :=
  if c.toNat < 0x80 then [c.toLower]
  else if c.toNat == 0x130 then ['i', Char.ofNat 0x307]
  else if c.toNat == 0x3A3 then
    [Char.ofNat (if meetsCased before && !meetsCased after then 0x3C2 else 0x3C3)]
  else [Char.ofNat (lowerCode c.toNat)]

/-- The lowercase of a text behind the characters `before`, nearest first. -/
def lowerChars (before : List Char) : List Char → List Char
  | [] => []
  | c :: cs => lowerChar before c cs ++ lowerChars (c :: before) cs

/-- The lowercase of a text. -/
def lowercase (s : String) : String := String.ofList (lowerChars [] s.toList)

end TaxonomySet.Text
