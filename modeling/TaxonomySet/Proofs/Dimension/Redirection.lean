import Mathlib
import TaxonomySet.Proofs.Dimension.Pruning
import TaxonomySet.Proofs.Sample
import TaxonomySet.Proofs.Session

namespace TaxonomySet

namespace Dimension

namespace Space

/-- An edge that a walk for a hypercube follows, with the table in force before it. The flag says
whether an earlier edge of the walk has led into the table of another role; the list holds the nodes
that the walk has not entered. -/
inductive Walk (s : Space) (role : String) : Bool → List QName → Table → Edge → Prop
  | hypercube {t e} (ht : s.tables.get? role = some t) (he : e ∈ t.effective)
    (harcrole : e.arcrole.isHasHypercube = true) : Walk s role false s.nodes.toList t e
  | dimension {redirected free t e below d} (h : Walk s role redirected free t e)
    (harcrole : e.arcrole.isHasHypercube = true) (hbelow : s.follow t e = .ok below)
    (hd : d ∈ below.edgesFrom e.target .hypercubeDimension) (hfree : d.target ∈ free.erase e.target) :
    Walk s role (redirected || e.targetRole.any (· ≠ role)) (free.erase e.target) below d
  | domain {redirected free t e below m} (h : Walk s role redirected free t e)
    (harcrole : e.arcrole = .hypercubeDimension) (hbelow : s.follow t e = .ok below)
    (htyped : s.isTyped e.target = false) (hm : m ∈ below.edgesFrom e.target .dimensionDomain)
    (hfree : m.target ∈ free.erase e.target) :
    Walk s role (redirected || e.targetRole.any (· ≠ role)) (free.erase e.target) below m
  | member {redirected free t e below m} (h : Walk s role redirected free t e)
    (harcrole : e.arcrole = .dimensionDomain ∨ e.arcrole = .domainMember)
    (hbelow : s.follow t e = .ok below) (hm : m ∈ below.edgesFrom e.target .domainMember)
    (hfree : m.target ∈ free.erase e.target) :
    Walk s role (redirected || e.targetRole.any (· ≠ role)) (free.erase e.target) below m

/-- A table that may be in force on a walk in a role. It keeps the name of the role whatever edges it
has taken over, and before the first redirection it is the table of the role. -/
structure InForce (s : Space) (role : String) (redirected : Bool) (t : Table) : Prop where
  role_eq : t.role = role
  grouped : t.Grouped
  current : t.Current
  own : redirected = false → s.tables.get? role = some t

theorem follow_self {s : Space} {t : Table} {e : Edge} (h : e.targetRole = some t.role) :
    s.follow t e = .ok t := by
  unfold follow
  rw [h]
  exact if_pos rfl

theorem InForce.follow {s : Space} {role : String} {redirected : Bool} {t below : Table} {e : Edge}
    (h : s.InForce role redirected t) (hbelow : s.follow t e = .ok below) :
    s.InForce role (redirected || e.targetRole.any (· ≠ role)) below := by
  unfold Space.follow at hbelow
  cases hrole : e.targetRole with
  | none =>
    rw [hrole] at hbelow
    cases hbelow
    simpa using h
  | some X =>
    simp only [hrole] at hbelow
    split at hbelow
    · rename_i heq
      cases hbelow
      rw [h.role_eq] at heq
      simpa [heq] using h
    · rename_i hne
      split at hbelow
      · cases hbelow
        rw [h.role_eq] at hne
        exact ⟨by simp [h.role_eq], (h.grouped.withoutDownstream _).merge _, Table.current_merge _ _,
          by simp [hne]⟩
      · cases hbelow

theorem Walk.inForce {s : Space} (hs : s.WellFormed) {role : String} {redirected : Bool}
    {free : List QName} {t : Table} {e : Edge} (h : s.Walk role redirected free t e) :
    s.InForce role redirected t := by
  induction h with
  | hypercube ht _ _ => exact ⟨hs.role_eq ht, hs.grouped ht, hs.current ht, fun _ => ht⟩
  | dimension _ _ hbelow _ _ ih => exact ih.follow hbelow
  | domain _ _ hbelow _ _ _ ih => exact ih.follow hbelow
  | member _ _ hbelow _ _ ih => exact ih.follow hbelow

end Space

end Dimension

namespace Session

open Dimension

/-- On a walk, an edge into the table of a role leads to what a full redirection would find, unless
that role is the one that the walk started from and the walk has been redirected before: then the
walk finds what leaves the target of the edge in the table in force, whether or not this is what
leaves it in the table of the role. -/
theorem Finalized.follow_edgesFrom_iff {s : Session} (h : s.Finalized) {role : String} {redirected : Bool}
    {free : List QName} {t u : Table} {e : Edge} (hwalk : s.space.Walk role redirected free t e)
    {targetRole : String} (hrole : e.targetRole = some targetRole)
    (hu : s.space.tables.get? targetRole = some u) :
    ∃ below, s.space.follow t e = .ok below ∧
      ((∀ arcrole, below.edgesFrom e.target arcrole =
          ((t.withoutDownstream e.target).merge u).edgesFrom e.target arcrole) ↔
        (targetRole = role → redirected = true →
          ∀ arcrole, t.edgesFrom e.target arcrole = u.edgesFrom e.target arcrole)) := by
  have hs := h.settled.wellFormed
  have hforce := hwalk.inForce hs
  have hfull := Table.edgesFrom_merge_withoutDownstream hforce.grouped (hs.grouped hu) (hs.current hu)
    e.target
  unfold Space.follow
  simp only [hrole, hforce.role_eq, hu, hfull]
  by_cases hhome : targetRole = role
  · subst hhome
    refine ⟨t, if_pos rfl, fun hall _ _ => hall, fun hall => ?_⟩
    cases redirected with
    | true => exact hall rfl rfl
    | false =>
      have htable : t = u := Option.some.inj ((hforce.own rfl).symm.trans hu)
      simp [htable]
  · exact ⟨_, if_neg hhome, fun _ heq => absurd heq hhome, fun _ => hfull⟩

/-- The hypercube leads into another role, and its dimension back into the first. -/
def homecoming : Session :=
  Sample.session [Sample.item "p", Sample.hypercube "h", Sample.dimension "d", Sample.item "m"] [
    Sample.link "r" [Sample.arc .all "p" "h" (some "q"), Sample.arc .hypercubeDimension "h" "d" none,
      Sample.arc .dimensionDomain "d" "m" none],
    Sample.link "q" [Sample.arc .hypercubeDimension "h" "d" (some "r")]]

theorem homecoming_tables (role : String) (h : role = "r" ∨ role = "q") :
    homecoming.space.tables.get? role = some (Sample.table homecoming role) := by
  rcases h with rfl | rfl
  · exact Sample.get?_tables (by decide +kernel)
  · exact Sample.get?_tables (by decide +kernel)

/-- The table in force once the hypercube has led into the other role. -/
def homecomingBelow : Table :=
  ((Sample.table homecoming "r").withoutDownstream (Sample.name "h")).merge (Sample.table homecoming "q")

theorem homecoming_follow :
    homecoming.space.follow (Sample.table homecoming "r") (Sample.edge .all "p" "h" (some "q")) =
      .ok homecomingBelow := by
  have hrole : (Sample.table homecoming "r").role = "r" := by decide +kernel
  unfold Space.follow
  change (if "q" = (Sample.table homecoming "r").role then _ else _) = _
  rw [hrole, if_neg (by decide), homecoming_tables "q" (.inr rfl)]
  rfl

set_option maxRecDepth 20000 in
theorem homecoming_walk :
    homecoming.space.Walk "r" true (homecoming.space.nodes.toList.erase (Sample.name "h")) homecomingBelow
      (Sample.edge .hypercubeDimension "h" "d" (some "r")) := by
  have heffective : Sample.edge .all "p" "h" (some "q") ∈ (Sample.table homecoming "r").effective := by
    unfold homecoming
    cbv
    exact .tail _ (.tail _ (.head _))
  refine .dimension (.hypercube (homecoming_tables "r" (.inl rfl)) heffective rfl) rfl homecoming_follow ?_ ?_
  · unfold homecomingBelow homecoming
    cbv
    exact .head _
  · unfold homecoming
    cbv
    exact .head _

set_option maxRecDepth 20000 in
/-- The domain of the dimension is in the table of the role, and the walk does not find it. -/
theorem homecoming_domain :
    homecomingBelow.edgesFrom (Sample.name "d") .dimensionDomain = [] ∧
      (Sample.table homecoming "r").edgesFrom (Sample.name "d") .dimensionDomain =
        [Sample.edge .dimensionDomain "d" "m" none] := by
  unfold homecomingBelow homecoming
  constructor
  · cbv
  · cbv

theorem follow_homecoming_iff :
    homecoming.Finalized ∧
      (homecoming.space.Walk "r" true (homecoming.space.nodes.toList.erase (Sample.name "h")) homecomingBelow
        (Sample.edge .hypercubeDimension "h" "d" (some "r"))) ∧
      homecoming.space.tables.get? "r" = some (Sample.table homecoming "r") ∧
      ∃ below, homecoming.space.follow homecomingBelow
          (Sample.edge .hypercubeDimension "h" "d" (some "r")) = .ok below ∧
        ((∀ arcrole, below.edgesFrom (Sample.name "d") arcrole =
            ((homecomingBelow.withoutDownstream (Sample.name "d")).merge
              (Sample.table homecoming "r")).edgesFrom (Sample.name "d") arcrole) ↔
          ("r" = "r" → true = true → ∀ arcrole, homecomingBelow.edgesFrom (Sample.name "d") arcrole =
            (Sample.table homecoming "r").edgesFrom (Sample.name "d") arcrole)) :=
  have htable := homecoming_tables "r" (.inl rfl)
  ⟨.finalize _, homecoming_walk, htable,
    Finalized.follow_edgesFrom_iff (.finalize _) homecoming_walk rfl htable⟩

theorem not_forall_follow_full :
    ¬ ∀ {s : Session}, s.Finalized → ∀ {role redirected free t e}, s.space.Walk role redirected free t e →
      ∀ {targetRole u}, e.targetRole = some targetRole → s.space.tables.get? targetRole = some u →
        ∃ below, s.space.follow t e = .ok below ∧ ∀ arcrole, below.edgesFrom e.target arcrole =
          ((t.withoutDownstream e.target).merge u).edgesFrom e.target arcrole := by
  intro hfull
  have hfinalized : homecoming.Finalized := .finalize _
  have htable := homecoming_tables "r" (.inl rfl)
  obtain ⟨below, hbelow, hedges⟩ := hfull hfinalized homecoming_walk rfl htable
  have hforce := homecoming_walk.inForce hfinalized.settled.wellFormed
  have hstays : below = homecomingBelow :=
    Except.ok.inj (hbelow.symm.trans (Space.follow_self (congrArg some hforce.role_eq.symm)))
  have hdomain := hedges .dimensionDomain
  rw [Table.edgesFrom_merge_withoutDownstream hforce.grouped (hfinalized.settled.wellFormed.grouped htable)
    (hfinalized.settled.wellFormed.current htable), hstays] at hdomain
  change homecomingBelow.edgesFrom (Sample.name "d") .dimensionDomain = _ at hdomain
  have htable_domain : (Sample.table homecoming "r").edgesFrom (Sample.name "d") .dimensionDomain = [] :=
    hdomain.symm.trans homecoming_domain.1
  rw [homecoming_domain.2] at htable_domain
  cases htable_domain

end Session

end TaxonomySet
