import TaxonomySet.Json.Numeral
import TaxonomySet.Markup.Entity

namespace TaxonomySet.Json

/-- The blanks of JSON. -/
def isSpace (c : Char) : Bool := c == ' ' || c == '\n' || c == '\t' || c == '\r'

/-- The number that four hexadecimal digits write, and the rest. -/
def hex4? : List Char → Option (Nat × List Char)
  | a :: b :: c :: d :: rest => (Markup.digitsValue? 16 [a, b, c, d]).map (·, rest)
  | _ => none

/-- The character of an escaped code unit, given what follows its digits. A leading surrogate needs
a trailing one behind it. -/
def unitChar? (n : Nat) (rest : List Char) : Option (Char × List Char) :=
  if 0xD800 ≤ n ∧ n < 0xDC00 then
    match rest with
    | '\\' :: 'u' :: r =>
      (hex4? r).bind fun (m, r) =>
        if 0xDC00 ≤ m ∧ m < 0xE000 then
          some (Char.ofNat (0x10000 + (n - 0xD800) * 0x400 + (m - 0xDC00)), r)
        else none
    | _ => none
  else if 0xDC00 ≤ n ∧ n < 0xE000 then none
  else some (Char.ofNat n, rest)

/-- The character of an escape, given what follows its backslash. -/
def escaped? : List Char → Option (Char × List Char)
  | '\x22' :: r => some ('\x22', r)
  | '\\' :: r => some ('\\', r)
  | '/' :: r => some ('/', r)
  | 'b' :: r => some ('\x08', r)
  | 'f' :: r => some ('\x0C', r)
  | 'n' :: r => some ('\n', r)
  | 'r' :: r => some ('\r', r)
  | 't' :: r => some ('\t', r)
  | 'u' :: r => (hex4? r).bind fun (n, r) => unitChar? n r
  | _ => none

/-- Reads a string behind its opening quote. -/
def readString? : (fuel : Nat) → (read : List Char) → List Char → Option (String × List Char)
  | 0, _, _ => none
  | fuel + 1, read, cs =>
    match cs with
    | [] => none
    | '\x22' :: r => some (String.ofList read.reverse, r)
    | '\\' :: r => (escaped? r).bind fun (c, r) => readString? fuel (c :: read) r
    | c :: r => if c.toNat < 0x20 then none else readString? fuel (c :: read) r

mutual

/-- Reads a value. The depth that it may go down is bounded by the length of the text, which no value exceeds. -/
def readValue? : (fuel : Nat) → List Char → Option (Json × List Char)
  | 0, _ => none
  | fuel + 1, cs =>
    match cs.dropWhile isSpace with
    | 'n' :: 'u' :: 'l' :: 'l' :: r => some (null, r)
    | 't' :: 'r' :: 'u' :: 'e' :: r => some (bool true, r)
    | 'f' :: 'a' :: 'l' :: 's' :: 'e' :: r => some (bool false, r)
    | '\x22' :: r => (readString? (r.length + 1) [] r).map fun (s, r) => (string s, r)
    | '[' :: r =>
      match r.dropWhile isSpace with
      | ']' :: r => some (array [], r)
      | r => (readItems? fuel r).map fun (items, r) => (array items, r)
    | '{' :: r =>
      match r.dropWhile isSpace with
      | '}' :: r => some (object [], r)
      | r => (readMembers? fuel r).map fun (members, r) => (object members, r)
    | cs => readNumber? cs

/-- Reads the items of an array up to its end. -/
def readItems? : (fuel : Nat) → List Char → Option (List Json × List Char)
  | 0, _ => none
  | fuel + 1, cs =>
    (readValue? fuel cs).bind fun (item, r) =>
      match r.dropWhile isSpace with
      | ',' :: r => (readItems? fuel r).map fun (items, r) => (item :: items, r)
      | ']' :: r => some ([item], r)
      | _ => none

/-- Reads the members of an object up to its end. -/
def readMembers? : (fuel : Nat) → List Char → Option (List (String × Json) × List Char)
  | 0, _ => none
  | fuel + 1, cs =>
    match cs.dropWhile isSpace with
    | '\x22' :: r =>
      (readString? (r.length + 1) [] r).bind fun (name, r) =>
        match r.dropWhile isSpace with
        | ':' :: r =>
          (readValue? fuel r).bind fun (value, r) =>
            match r.dropWhile isSpace with
            | ',' :: r => (readMembers? fuel r).map fun (ms, r) => ((name, value) :: ms, r)
            | '}' :: r => some ([(name, value)], r)
            | _ => none
        | _ => none
    | _ => none

end

/-- The value that a text writes. -/
def parse? (text : String) : Option Json :=
  let cs := text.toList
  match readValue? (2 * cs.length + 2) cs with
  | some (j, rest) => if rest.all isSpace then some j else none
  | none => none

end TaxonomySet.Json
