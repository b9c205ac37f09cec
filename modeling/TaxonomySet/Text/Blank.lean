namespace TaxonomySet.Text

/-- The characters with the Unicode property White_Space. -/
def isBlank (c : Char) : Bool :=
  let n := c.toNat
  (0x09 ≤ n && n ≤ 0x0D) || n == 0x20 || n == 0x85 || n == 0xA0 || n == 0x1680 ||
    (0x2000 ≤ n && n ≤ 0x200A) || n == 0x2028 || n == 0x2029 || n == 0x202F || n == 0x205F ||
    n == 0x3000

/-- Space, tab, line feed and carriage return. They count as blank between pieces of markup. -/
def isMarkupBlank (c : Char) : Bool := c == ' ' || c == '\t' || c == '\n' || c == '\r'

/-- Drops the characters of a class from the end. -/
def trimEnd (p : Char → Bool) (cs : List Char) : List Char := (cs.reverse.dropWhile p).reverse

/-- Drops the characters of a class from both ends. -/
def trimChars (p : Char → Bool) (cs : List Char) : List Char := trimEnd p (cs.dropWhile p)

/-- Drops the blanks at both ends. -/
def trim (s : String) : String := String.ofList (trimChars isBlank s.toList)

end TaxonomySet.Text
