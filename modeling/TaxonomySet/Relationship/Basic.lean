import TaxonomySet.Link.Equivalence

namespace TaxonomySet

/-- What a relationship starts from or leads to. -/
inductive Endpoint where
  | concept (name : QName)
  | resource (r : Resource)
deriving DecidableEq, Repr

namespace Endpoint

/-- What identifies the endpoint. -/
def key : Endpoint → EndKey
  | concept name => .concept name
  | resource r => .ofResource r

/-- The concept, if the endpoint is one. -/
def concept? : Endpoint → Option QName
  | concept name => some name
  | resource _ => none

/-- The resource, if the endpoint is one. -/
def resource? : Endpoint → Option Resource
  | concept _ => none
  | resource r => some r

end Endpoint

/-- What identifies a base set. A base set is made of the relationships of one arcrole in the links of one kind and
role, wherever in the taxonomy set they stand. -/
structure BaseSetKey where
  kind : LinkKind
  role : String
  arcrole : String
deriving DecidableEq, Repr

namespace BaseSetKey

/-- Base sets are ordered by kind, role and arcrole. -/
def order : BaseSetKey → BaseSetKey → Ordering :=
  compareLex (compareOn kind) <| compareLex (compareOn role) (compareOn arcrole)

instance : Ord BaseSetKey := ⟨order⟩

instance : Std.TransCmp order := by
  unfold order
  infer_instance

instance : Std.TransOrd BaseSetKey := inferInstanceAs (Std.TransCmp order)

instance : Std.LawfulEqOrd BaseSetKey where
  eq_of_compare {a b} h := by
    have h : (compare a.kind b.kind).then ((compare a.role b.role).then
      (compare a.arcrole b.arcrole)) = .eq := h
    simp only [Ordering.then_eq_eq, Std.compare_eq_iff_eq] at h
    cases a
    cases b
    simp_all

end BaseSetKey

/-- One relationship, with the arc that makes it and the place where it is made. -/
structure Relationship where
  source : Endpoint
  target : Endpoint
  arc : Arc
  role : String
  document : String
  link : Nat
deriving DecidableEq

namespace Relationship

instance : Overridable Relationship where
  priority r := r.arc.priority.toInt
  isProhibited r := r.arc.isProhibited

/-- What identifies the relationship within its base set. -/
def key (r : Relationship) : EquivalenceKey := .ofArc r.arc r.source.key r.target.key

/-- The order of the relationships of a base set: by source, then as the arcs say, then by target
and document. -/
def order : Relationship → Relationship → Ordering :=
  compareLex (compareOn (·.source.key)) <| compareLex (compareOn (·.arc.order)) <|
    compareLex (compareOn (·.target.key)) (compareOn document)

instance : Std.TransCmp order := by
  unfold order
  infer_instance

end Relationship

end TaxonomySet
