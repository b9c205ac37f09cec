import TaxonomySet.QName
import TaxonomySet.Sorted.Set
import TaxonomySet.Vocabulary

namespace TaxonomySet

/-- The standard elements, each with the name of its flag. The place of an element in the list is
the place of its bit. -/
def standardElements : List (String × QName) := [
  ("PRESENTATION_LINK", ⟨Vocabulary.link, "presentationLink"⟩),
  ("CALCULATION_LINK", ⟨Vocabulary.link, "calculationLink"⟩),
  ("DEFINITION_LINK", ⟨Vocabulary.link, "definitionLink"⟩),
  ("LABEL_LINK", ⟨Vocabulary.link, "labelLink"⟩),
  ("REFERENCE_LINK", ⟨Vocabulary.link, "referenceLink"⟩),
  ("FOOTNOTE_LINK", ⟨Vocabulary.link, "footnoteLink"⟩),
  ("PRESENTATION_ARC", ⟨Vocabulary.link, "presentationArc"⟩),
  ("CALCULATION_ARC", ⟨Vocabulary.link, "calculationArc"⟩),
  ("DEFINITION_ARC", ⟨Vocabulary.link, "definitionArc"⟩),
  ("LABEL_ARC", ⟨Vocabulary.link, "labelArc"⟩),
  ("REFERENCE_ARC", ⟨Vocabulary.link, "referenceArc"⟩),
  ("FOOTNOTE_ARC", ⟨Vocabulary.link, "footnoteArc"⟩),
  ("LABEL", ⟨Vocabulary.link, "label"⟩),
  ("REFERENCE", ⟨Vocabulary.link, "reference"⟩),
  ("FOOTNOTE", ⟨Vocabulary.link, "footnote"⟩),
  ("GENERIC_LINK", ⟨Vocabulary.genericLink, "link"⟩),
  ("GENERIC_ARC", ⟨Vocabulary.genericLink, "arc"⟩),
  ("GENERIC_LABEL", ⟨Vocabulary.genericLabel, "label"⟩)]

/-- A set of flags. Bits beyond the standard elements are kept when a set is read that has them. -/
structure Flags where
  bits : BitVec 32
deriving DecidableEq, Repr

namespace Flags

/-- No flag. -/
def none : Flags := ⟨0⟩

/-- The flag in one place. -/
def single (i : Nat) : Flags := ⟨1#32 <<< i⟩

/-- The flag of a standard element. -/
def ofElement? (q : QName) : Option Flags :=
  (standardElements.findIdx? (·.2 == q)).map single

/-- The flag with a name. -/
def ofName? (name : String) : Option Flags :=
  (standardElements.findIdx? (·.1 == name)).map single

/-- The flags of either set. -/
def union (a b : Flags) : Flags := ⟨a.bits ||| b.bits⟩

/-- Whether every flag of `b` is in `a`. -/
def contains (a b : Flags) : Bool := a.bits &&& b.bits == b.bits

/-- Whether there is no flag. -/
def isEmpty (a : Flags) : Bool := a.bits == 0

/-- The names of the flags, in the order of their bits. -/
def names (a : Flags) : List String :=
  standardElements.zipIdx.filterMap fun e => if a.bits.getLsbD e.2 then some e.1.1 else Option.none

/-- The bits that belong to no standard element. -/
def unnamed (a : Flags) : Nat := (a.bits.toNat >>> standardElements.length) <<< standardElements.length

end Flags

/-- A set of elements: flags for the standard ones, names for the rest. -/
structure UsedOn where
  flags : Flags
  custom : SortedSet QName
deriving DecidableEq

namespace UsedOn

/-- The set without elements. -/
def empty : UsedOn := ⟨.none, ∅⟩

instance : EmptyCollection UsedOn := ⟨empty⟩
instance : Inhabited UsedOn := ⟨empty⟩

/-- Adds an element. -/
def insert (u : UsedOn) (q : QName) : UsedOn :=
  match Flags.ofElement? q with
  | some flag => { u with flags := u.flags.union flag }
  | none => { u with custom := u.custom.insert q }

/-- The set of the elements of a list. -/
def ofList (qs : List QName) : UsedOn := qs.foldl insert empty

/-- Whether an element is in the set. -/
def contains (u : UsedOn) (q : QName) : Bool :=
  match Flags.ofElement? q with
  | some flag => u.flags.contains flag
  | none => u.custom.contains q

/-- Whether every element of `v` is in `u`. -/
def includes (u v : UsedOn) : Bool := u.flags.contains v.flags && v.custom.subset u.custom

/-- The elements of either set. -/
def union (u v : UsedOn) : UsedOn := ⟨u.flags.union v.flags, u.custom.union v.custom⟩

/-- Whether there is no element. -/
def isEmpty (u : UsedOn) : Bool := u.flags.isEmpty && u.custom.isEmpty

/-- Whether one of two sets includes the other. -/
def nests (u v : UsedOn) : Bool := u.includes v || v.includes u

end UsedOn

end TaxonomySet
