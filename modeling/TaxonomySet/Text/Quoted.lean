import TaxonomySet.Text.Invisible

namespace TaxonomySet.Text

/-- Whether a quoted text writes the character by its code point. -/
def isInvisible (c : Char) : Bool :=
  c.toNat < 0x20 || c.toNat == 0x7F ||
    (0x80 ≤ c.toNat && invisibleRanges.any fun r => r.1 ≤ c.toNat && c.toNat ≤ r.2)

/-- How one character is written between quotes. A quote and a backslash are written behind a backslash, the common
controls by a letter, and every other character that shows nothing of its own by its code point. -/
def quoteChar (c : Char) : List Char :=
  match c with
  | '\x22' => ['\\', '\x22']
  | '\\' => ['\\', '\\']
  | '\n' => ['\\', 'n']
  | '\r' => ['\\', 'r']
  | '\t' => ['\\', 't']
  | '\x00' => ['\\', '0']
  | c => if isInvisible c then ['\\', 'u', '{'] ++ Nat.toDigits 16 c.toNat ++ ['}'] else [c]

/-- A text between quotes. -/
def quote (s : String) : String := String.ofList ('\x22' :: s.toList.flatMap quoteChar ++ ['\x22'])

/-- An optional text: `None`, or the quoted text in `Some(…)`. -/
def quoteOption : Option String → String
  | none => "None"
  | some s => "Some(" ++ quote s ++ ")"

end TaxonomySet.Text
