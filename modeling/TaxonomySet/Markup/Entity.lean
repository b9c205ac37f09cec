import TaxonomySet.Text.Cut

namespace TaxonomySet.Markup

/-- The value of a digit, in either case for hexadecimal ones. -/
def digitValue? (base : Nat) (c : Char) : Option Nat :=
  let value :=
    if c.isDigit then some (c.toNat - 48)
    else if 'a' ≤ c ∧ c ≤ 'f' then some (c.toNat - 87)
    else if 'A' ≤ c ∧ c ≤ 'F' then some (c.toNat - 55)
    else none
  value.filter (· < base)

/-- The number that one or more digits write. -/
def digitsValue? (base : Nat) (cs : List Char) : Option Nat :=
  if cs.isEmpty then none
  else cs.foldl (fun n c => n.bind fun n => (digitValue? base c).map (n * base + ·)) (some 0)

/-- The character of a code point, which must not be zero. -/
def characterOf? (n : Nat) : Option Char :=
  if h : n ≠ 0 ∧ n.isValidChar then some (Char.ofNatAux n h.2) else none

/-- The character that a reference means, given what stands between `&` and `;`. -/
def referenced? (reference : List Char) : Option Char :=
  match reference with
  | '#' :: 'x' :: digits => (digitsValue? 16 digits).bind characterOf?
  | '#' :: digits => (digitsValue? 10 digits).bind characterOf?
  | _ =>
    match String.ofList reference with
    | "lt" => some '<'
    | "gt" => some '>'
    | "amp" => some '&'
    | "apos" => some '\x27'
    | "quot" => some '\x22'
    | _ => none

/-- Puts characters in the place of the references to them. `pending` holds what was read of a
reference that is open, the last character first. It fails on a reference that means nothing, and
on `&` before the end of another reference or without an end. -/
def unescapeFrom? (pending : Option (List Char)) : List Char → Option (List Char)
  | [] => if pending.isNone then some [] else none
  | c :: cs =>
    match pending with
    | none =>
      if c = '&' then unescapeFrom? (some []) cs
      else (unescapeFrom? none cs).map (c :: ·)
    | some reference =>
      if c = ';' then
        (referenced? reference.reverse).bind fun r => (unescapeFrom? none cs).map (r :: ·)
      else if c = '&' then none
      else unescapeFrom? (some (c :: reference)) cs

/-- The text that a run of characters with references stands for. -/
def unescape? (cs : List Char) : Option String := (unescapeFrom? none cs).map String.ofList

end TaxonomySet.Markup
