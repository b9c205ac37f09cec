import TaxonomySet.Decimal.Shortest
import TaxonomySet.Json.Value

namespace TaxonomySet.Json

/-- How one character of a string is written. The quote, the backslash and the controls are escaped. -/
def escapeChar (c : Char) : List Char :=
  match c with
  | '\x22' => ['\\', '\x22']
  | '\\' => ['\\', '\\']
  | '\x08' => ['\\', 'b']
  | '\x0C' => ['\\', 'f']
  | '\n' => ['\\', 'n']
  | '\r' => ['\\', 'r']
  | '\t' => ['\\', 't']
  | c =>
    if c.toNat < 0x20 then
      ['\\', 'u', '0', '0'] ++ (if c.toNat < 0x10 then ['0'] else []) ++ Nat.toDigits 16 c.toNat
    else [c]

/-- A string between quotes. -/
def stringText (s : String) : String :=
  String.ofList ('\x22' :: s.toList.flatMap escapeChar ++ ['\x22'])

/-- The digits `n` times a power of ten: positional while at most sixteen digits stand before the
point or four zeros behind it, and with an exponent otherwise. -/
def decimalText (n : Nat) (k : Int) : List Char :=
  let ds := Nat.toDigits 10 n
  let point := ds.length + k
  if 0 ≤ k ∧ point ≤ 16 then ds ++ List.replicate k.toNat '0' ++ ['.', '0']
  else if -5 < point ∧ point ≤ 16 then Binary64.positional n k
  else
    let exponent := (toString (point - 1)).toList
    match ds with
    | [d] => d :: 'e' :: exponent
    | d :: rest => d :: '.' :: rest ++ 'e' :: exponent
    | [] => []

/-- A floating-point number. It always shows a point or an exponent; one that is not finite has no form in JSON and is
written as null. -/
def floatText (x : Binary64) : String :=
  if !x.isFinite then "null"
  else
    let unsigned := if x.magnitude = 0 then ['0', '.', '0'] else decimalText x.shortest.1 x.shortest.2
    String.ofList (if x.isNegative then '-' :: unsigned else unsigned)

mutual

/-- A value as text. There are no blanks in it. -/
def render : Json → String
  | null => "null"
  | bool b => if b then "true" else "false"
  | integer n => toString n
  | float x => floatText x
  | string s => stringText s
  | array items => "[" ++ ",".intercalate (renderAll items) ++ "]"
  | object members => "\x7b" ++ ",".intercalate (renderMembers members) ++ "\x7d"

/-- The items of an array as texts. -/
def renderAll : List Json → List String
  | [] => []
  | j :: js => j.render :: renderAll js

/-- The members of an object as texts. -/
def renderMembers : List (String × Json) → List String
  | [] => []
  | (name, j) :: ms => (stringText name ++ ":" ++ j.render) :: renderMembers ms

end

end TaxonomySet.Json
