import Mathlib
import TaxonomySet.Proofs.Dimension.Inheritance
import TaxonomySet.Proofs.Dimension.Walks
import TaxonomySet.Proofs.Sample
import TaxonomySet.Proofs.Session

namespace TaxonomySet

universe u

/-- In a list without repetitions positions grow. -/
theorem pairwise_idxOf {α : Type u} [BEq α] [LawfulBEq α] {as : List α} (h : as.Nodup) :
    as.Pairwise fun a b => as.idxOf a < as.idxOf b := by
  refine List.pairwise_iff_getElem.2 fun i j hi hj hij => ?_
  rw [h.idxOf_getElem i hi, h.idxOf_getElem j hj]
  exact hij

namespace Dimension

/-- Walks in the order of their edges, each before those that go on from it. -/
def Table.Before (t : Table) (v w : List Edge) : Prop :=
  List.Lex (· < ·) (v.map (t.effective.idxOf ·)) (w.map (t.effective.idxOf ·))

namespace Space

/-- A walk that has followed an edge may follow another one next. -/
def Continues (s : Space) (d e : Edge) : Prop :=
  e.source = d.target ∧
    if d.arcrole = .hypercubeDimension then e.arcrole = .dimensionDomain ∧ s.isTyped d.target = false
    else e.arcrole = .domainMember

/-- A walk from a hypercube: to a dimension, to a domain unless the dimension is typed, and on to
members, along the effective edges of a table. -/
structure IsWalk (s : Space) (t : Table) (hypercube : QName) (w : List Edge) : Prop where
  effective : ∀ e ∈ w, e ∈ t.effective
  start : ∀ e ∈ w.head?, e.source = hypercube ∧ e.arcrole = .hypercubeDimension
  continues : w.IsChain s.Continues

/-- The nodes of a walk from a hypercube. -/
def nodesOf (hypercube : QName) (w : List Edge) : List QName := hypercube :: w.map (·.target)

/-- A walk of distinct nodes goes on by an edge back to one of its nodes. -/
structure Returns (s : Space) (t : Table) (hypercube : QName) (w : List Edge) (e : Edge) : Prop where
  isWalk : s.IsWalk t hypercube (w ++ [e])
  nodup : (nodesOf hypercube w).Nodup
  back : e.target ∈ nodesOf hypercube w

variable {s : Space} {t : Table}

section Current

variable (hcurrent : t.Current)
include hcurrent

theorem mem_onward {e next : Edge} :
    next ∈ s.onward t e ↔ next ∈ t.effective ∧ s.Continues e next := by
  unfold onward Continues
  by_cases harcrole : e.arcrole = .hypercubeDimension
  · rw [if_pos harcrole, if_pos harcrole]
    cases htyped : s.isTyped e.target with
    | true => simp
    | false => simp [hcurrent.mem_edgesFrom]
  · rw [if_neg harcrole, if_neg harcrole]
    exact hcurrent.mem_edgesFrom

theorem mem_walksFrom {free : List QName} (hfree : free.Nodup) {e : Edge} {w : List Edge} :
    w ∈ s.walksFrom t free e ↔
      ∃ rest, w = e :: rest ∧ (∀ f ∈ rest, f ∈ t.effective) ∧ w.IsChain s.Continues ∧
        (∀ f ∈ w.dropLast, f.target ∈ free) ∧ (w.dropLast.map (·.target)).Nodup := by
  induction free using erase_induction generalizing e w with
  | step free ih =>
    rw [mem_walksFrom_iff]
    constructor
    · rintro (rfl | ⟨hmem, next, hnext, v, hv, rfl⟩)
      · exact ⟨[], rfl, by simp, List.isChain_singleton e, by simp, by simp⟩
      · obtain ⟨rest, rfl, heffective, hchain, hin, hnodup⟩ :=
          (ih _ hmem (hfree.erase _)).1 hv
        obtain ⟨hnextEffective, hcontinues⟩ := (mem_onward hcurrent).1 hnext
        refine ⟨next :: rest, rfl, List.forall_mem_cons.2 ⟨hnextEffective, heffective⟩,
          List.isChain_cons_cons.2 ⟨hcontinues, hchain⟩, ?_, ?_⟩
        · rw [List.dropLast_cons_cons]
          exact List.forall_mem_cons.2 ⟨hmem, fun f hf => List.mem_of_mem_erase (hin f hf)⟩
        · rw [List.dropLast_cons_cons, List.map_cons, List.nodup_cons]
          refine ⟨fun hback => ?_, hnodup⟩
          obtain ⟨f, hf, hfe⟩ := List.mem_map.1 hback
          exact (hfree.mem_erase_iff.1 (hin f hf)).1 hfe
    · rintro ⟨rest, rfl, heffective, hchain, hin, hnodup⟩
      cases rest with
      | nil => exact .inl rfl
      | cons next rest =>
        rw [List.dropLast_cons_cons] at hin hnodup
        obtain ⟨hmem, hin⟩ := List.forall_mem_cons.1 hin
        rw [List.map_cons, List.nodup_cons] at hnodup
        obtain ⟨hnextEffective, heffective⟩ := List.forall_mem_cons.1 heffective
        obtain ⟨hcontinues, hchain⟩ := List.isChain_cons_cons.1 hchain
        refine .inr ⟨hmem, next, (mem_onward hcurrent).2 ⟨hnextEffective, hcontinues⟩, next :: rest, ?_, rfl⟩
        refine (ih _ hmem (hfree.erase _)).2
          ⟨rest, rfl, heffective, hchain, fun f hf => ?_, hnodup.2⟩
        exact hfree.mem_erase_iff.2 ⟨fun heq => hnodup.1 (List.mem_map.2 ⟨f, hf, heq⟩), hin f hf⟩

/-- A walk is blocked exactly if a walk of the list comes back by an edge that rules out cycles. -/
theorem blocked_iff {free : List QName} (hfree : free.Nodup) {e : Edge} :
    s.Blocked t free e ↔ ∃ v f, v ++ [f] ∈ s.walksFrom t free e ∧
      (f.target ∉ free ∨ f.target ∈ v.map (·.target)) ∧ (s.cyclesOf f.arcrole).allowsDirected = false := by
  constructor
  · intro h
    induction h with
    | @back free e hback hforbids =>
      exact ⟨[], e, mem_walksFrom_iff.2 (.inl rfl), .inl hback, hforbids⟩
    | @onward free e next hmem hnext _ ih =>
      obtain ⟨v, f, hv, hback, hforbids⟩ := ih (hfree.erase _)
      refine ⟨e :: v, f, mem_walksFrom_iff.2 (.inr ⟨hmem, next, hnext, _, hv, rfl⟩), ?_, hforbids⟩
      rcases hback with hback | hback
      · by_cases heq : f.target = e.target
        · exact .inr (by simp [heq])
        · exact .inl fun hmem' => hback ((List.mem_erase_of_ne heq).2 hmem')
      · exact .inr (List.mem_cons_of_mem _ hback)
  · rintro ⟨v, f, hv, hback, hforbids⟩
    induction v generalizing free e with
    | nil =>
      rcases mem_walksFrom_iff.1 hv with heq | ⟨_, next, _, v', hv', heq⟩
      · obtain rfl : f = e := by simpa using heq
        exact .back (by simpa using hback) hforbids
      · obtain ⟨-, rfl⟩ := List.cons.inj heq
        obtain ⟨rest, hrest, -⟩ := (mem_walksFrom hcurrent (hfree.erase _)).1 hv'
        cases hrest
    | cons d v ih =>
      rcases mem_walksFrom_iff.1 hv with heq | ⟨hmem, next, hnext, v', hv', heq⟩
      · simp at heq
      · obtain ⟨rfl, rfl⟩ := List.cons.inj heq
        refine .onward hmem hnext (ih (hfree.erase _) hv' ?_)
        rcases hback with hback | hback
        · exact .inl fun hmem' => hback (List.mem_of_mem_erase hmem')
        · rcases List.mem_cons.1 hback with hback | hback
          · exact .inl fun hmem' => (hfree.mem_erase_iff.1 hmem').1 hback
          · exact .inr hback

end Current

theorem IsWalk.arcrole_ne {hypercube : QName} {w : List Edge} {e : Edge}
    (h : s.IsWalk t hypercube (w ++ [e])) (hne : w ≠ []) : e.arcrole ≠ .hypercubeDimension := by
  obtain ⟨v, d, rfl⟩ := List.eq_nil_or_concat' w |>.resolve_left hne
  have hchain := h.continues
  rw [List.append_assoc, List.isChain_append] at hchain
  have hcontinues : s.Continues d e := (List.isChain_cons_cons.1 hchain.2.1).1
  unfold Continues at hcontinues
  split at hcontinues
  · rw [hcontinues.2.1]
    decide
  · rw [hcontinues.2]
    decide

theorem nodup_nodesOf_iff {hypercube : QName} {w : List Edge} :
    (nodesOf hypercube w).Nodup ↔
      (∀ f ∈ w, f.target ≠ hypercube) ∧ (w.map (·.target)).Nodup := by
  unfold nodesOf
  rw [List.nodup_cons]
  refine and_congr_left fun _ => ?_
  simp only [List.mem_map, not_exists, not_and]

theorem nodup_nodesOf_concat_iff {hypercube : QName} {w : List Edge} {e : Edge} :
    (nodesOf hypercube (w ++ [e])).Nodup ↔
      (nodesOf hypercube w).Nodup ∧ e.target ∉ nodesOf hypercube w := by
  have hconcat : nodesOf hypercube (w ++ [e]) = nodesOf hypercube w ++ [e.target] := by simp [nodesOf]
  rw [hconcat, List.nodup_append_comm, List.singleton_append, List.nodup_cons, and_comm]

theorem IsWalk.head_mem {hypercube : QName} {d : Edge} {rest : List Edge}
    (h : s.IsWalk t hypercube (d :: rest)) (hcurrent : t.Current) :
    d ∈ t.edgesFrom hypercube .hypercubeDimension :=
  hcurrent.mem_edgesFrom.2 ⟨h.effective d List.mem_cons_self, h.start d rfl⟩

section WellFormed

variable (hcurrent : t.Current) (htargets : ∀ e ∈ t.effective, e.target ∈ s.nodes.toList)
include hcurrent htargets

theorem mem_walksFrom_iff_isWalk {hypercube : QName} {d : Edge}
    (hd : d ∈ t.edgesFrom hypercube .hypercubeDimension) {w : List Edge} :
    w ∈ s.walksFrom t (s.nodes.toList.erase hypercube) d ↔
      w.head? = some d ∧ s.IsWalk t hypercube w ∧ (nodesOf hypercube w.dropLast).Nodup := by
  obtain ⟨hdEffective, hsource, harcrole⟩ := hcurrent.mem_edgesFrom.1 hd
  have hnodes := s.nodes.nodup_toList
  rw [mem_walksFrom hcurrent (hnodes.erase _), nodup_nodesOf_iff]
  constructor
  · rintro ⟨rest, rfl, heffective, hchain, hin, hnodup⟩
    refine ⟨rfl, ⟨List.forall_mem_cons.2 ⟨hdEffective, heffective⟩, ?_, hchain⟩,
      fun f hf => (hnodes.mem_erase_iff.1 (hin f hf)).1, hnodup⟩
    intro f hf
    cases hf
    exact ⟨hsource, harcrole⟩
  · rintro ⟨hhead, hwalk, hne, hnodup⟩
    obtain ⟨rest, rfl⟩ := List.head?_eq_some_iff.1 hhead
    refine ⟨rest, rfl, fun f hf => hwalk.effective f (List.mem_cons_of_mem _ hf), hwalk.continues, ?_, hnodup⟩
    intro f hf
    exact hnodes.mem_erase_iff.2
      ⟨hne f hf, htargets f (hwalk.effective f (List.dropLast_subset _ hf))⟩

/-- The walks of the list are those that enter no node twice, and those that return in their last
step by an edge to a domain or to a member. -/
theorem mem_walks {hypercube : QName} {w : List Edge} :
    w ∈ s.walks t hypercube ↔ (s.IsWalk t hypercube w ∧ (nodesOf hypercube w).Nodup) ∨
      ∃ v e, w = v ++ [e] ∧ s.Returns t hypercube v e ∧ e.arcrole ≠ .hypercubeDimension := by
  have hmem : w ∈ s.walks t hypercube ↔ w = [] ∨ ∃ d ∈ t.edgesFrom hypercube .hypercubeDimension,
      d.target ≠ hypercube ∧ w ∈ s.walksFrom t (s.nodes.toList.erase hypercube) d := by
    unfold walks
    rw [List.mem_cons, List.mem_flatMap]
    refine or_congr_right (exists_congr fun d => and_congr_right fun hd => ?_)
    have hfree : d.target ∈ s.nodes.toList.erase hypercube ↔ d.target ≠ hypercube := by
      rw [s.nodes.nodup_toList.mem_erase_iff]
      exact and_iff_left (htargets d (hcurrent.mem_edgesFrom.1 hd).1)
    rw [← hfree]
    split <;> simp_all
  rw [hmem]
  constructor
  · rintro (rfl | ⟨d, hd, hne, hw⟩)
    · exact .inl ⟨⟨by simp, by simp, .nil⟩, by simp [nodesOf]⟩
    · obtain ⟨hhead, hwalk, hnodup⟩ := (mem_walksFrom_iff_isWalk hcurrent htargets hd).1 hw
      obtain ⟨v, e, rfl⟩ := (List.eq_nil_or_concat' w).resolve_left fun hnil => by simp [hnil] at hhead
      rw [List.dropLast_concat] at hnodup
      by_cases hback : e.target ∈ nodesOf hypercube v
      · refine .inr ⟨v, e, rfl, ⟨hwalk, hnodup, hback⟩, ?_⟩
        cases v with
        | nil =>
          obtain rfl : e = d := by simpa using hhead
          exact absurd (by simpa [nodesOf] using hback) hne
        | cons => exact hwalk.arcrole_ne (by simp)
      · exact .inl ⟨hwalk, nodup_nodesOf_concat_iff.2 ⟨hnodup, hback⟩⟩
  · have hcons {d : Edge} {rest : List Edge} (hwalk : s.IsWalk t hypercube (d :: rest))
        (hne : d.target ≠ hypercube) (hnodup : (nodesOf hypercube (d :: rest).dropLast).Nodup) :
        ∃ d' ∈ t.edgesFrom hypercube .hypercubeDimension, d'.target ≠ hypercube ∧
          d :: rest ∈ s.walksFrom t (s.nodes.toList.erase hypercube) d' :=
      ⟨d, hwalk.head_mem hcurrent, hne,
        (mem_walksFrom_iff_isWalk hcurrent htargets (hwalk.head_mem hcurrent)).2 ⟨rfl, hwalk, hnodup⟩⟩
    rintro (⟨hwalk, hnodup⟩ | ⟨v, e, rfl, hreturns, harcrole⟩)
    · cases w with
      | nil => exact .inl rfl
      | cons d rest =>
        have hshort := nodup_nodesOf_iff.1 hnodup
        refine .inr (hcons hwalk (hshort.1 d List.mem_cons_self) (nodup_nodesOf_iff.2 ⟨?_, ?_⟩))
        · exact fun f hf => hshort.1 f (List.dropLast_subset _ hf)
        · exact hshort.2.sublist ((List.dropLast_sublist _).map _)
    · cases v with
      | nil => exact absurd (hreturns.isWalk.start e rfl).2 harcrole
      | cons d rest =>
        refine .inr (hcons hreturns.isWalk ((nodup_nodesOf_iff.1 hreturns.nodup).1 d List.mem_cons_self) ?_)
        change (nodesOf hypercube (d :: rest ++ [e]).dropLast).Nodup
        rw [List.dropLast_concat]
        exact hreturns.nodup

/-- A hypercube is blocked exactly if a walk from it returns by an edge that rules out cycles. -/
theorem exists_blocked_iff {hypercube : QName} :
    (∃ d ∈ t.edgesFrom hypercube .hypercubeDimension, s.Blocked t (s.nodes.toList.erase hypercube) d) ↔
      ∃ w e, s.Returns t hypercube w e ∧ (s.cyclesOf e.arcrole).allowsDirected = false := by
  have hnodes := s.nodes.nodup_toList
  constructor
  · rintro ⟨d, hd, hblocked⟩
    obtain ⟨w, e, hmem, hback, hforbids⟩ := (blocked_iff hcurrent (hnodes.erase _)).1 hblocked
    obtain ⟨-, hwalk, hnodup⟩ := (mem_walksFrom_iff_isWalk hcurrent htargets hd).1 hmem
    rw [List.dropLast_concat] at hnodup
    refine ⟨w, e, ⟨hwalk, hnodup, ?_⟩, hforbids⟩
    rcases hback with hback | hback
    · have heq : e.target = hypercube := by
        by_contra hne
        exact hback (hnodes.mem_erase_iff.2 ⟨hne, htargets e (hwalk.effective e (by simp))⟩)
      exact List.mem_cons.2 (.inl heq)
    · exact List.mem_cons_of_mem _ hback
  · rintro ⟨w, e, hreturns, hforbids⟩
    obtain ⟨d, rest, hcons⟩ := List.exists_cons_of_ne_nil (List.concat_ne_nil e w)
    have hd : d ∈ t.edgesFrom hypercube .hypercubeDimension :=
      (hcons ▸ hreturns.isWalk).head_mem hcurrent
    refine ⟨d, hd, (blocked_iff hcurrent (hnodes.erase _)).2 ⟨w, e, ?_, ?_, hforbids⟩⟩
    · refine (mem_walksFrom_iff_isWalk hcurrent htargets hd).2 ⟨by rw [hcons]; rfl, hreturns.isWalk, ?_⟩
      rw [List.dropLast_concat]
      exact hreturns.nodup
    · rcases List.mem_cons.1 hreturns.back with hback | hback
      · exact .inl fun hmem => (hnodes.mem_erase_iff.1 hmem).1 hback
      · exact .inr hback

end WellFormed

section Order

variable (hgrouped : t.Grouped)
include hgrouped

/-- Walks that are gathered by their first edges, in the order of the table, are in order if those
with the same first edge are. -/
theorem pairwise_flatMap_before {es : List Edge} {walksOf : Edge → List (List Edge)}
    (hes : es.Sublist t.effective) (hhead : ∀ e ∈ es, ∀ w ∈ walksOf e, w.head? = some e)
    (hwalks : ∀ e ∈ es, (walksOf e).Pairwise t.Before) : (es.flatMap walksOf).Pairwise t.Before := by
  refine List.pairwise_flatMap.2 ⟨hwalks, ?_⟩
  refine ((pairwise_idxOf (Table.nodup_effective hgrouped)).sublist hes).imp_of_mem ?_
  intro d e hd he hlt v hv w hw
  obtain ⟨v', rfl⟩ := List.head?_eq_some_iff.1 (hhead d hd v hv)
  obtain ⟨w', rfl⟩ := List.head?_eq_some_iff.1 (hhead e he w hw)
  exact .rel hlt

variable (hcurrent : t.Current)
include hcurrent

omit hgrouped in
theorem onward_sublist (e : Edge) : (s.onward t e).Sublist t.effective := by
  unfold onward
  split
  · split
    · exact List.nil_sublist _
    · rw [hcurrent.edgesFrom_eq]
      exact List.filter_sublist
  · rw [hcurrent.edgesFrom_eq]
    exact List.filter_sublist

omit hgrouped hcurrent in
theorem head?_of_mem_walksFrom {free : List QName} {e : Edge} {w : List Edge}
    (h : w ∈ s.walksFrom t free e) : w.head? = some e := by
  rcases mem_walksFrom_iff.1 h with rfl | ⟨-, _, -, v, -, rfl⟩ <;> rfl

theorem pairwise_walksFrom (free : List QName) (e : Edge) : (s.walksFrom t free e).Pairwise t.Before := by
  induction free using erase_induction generalizing e with
  | step free ih =>
    by_cases hmem : e.target ∈ free
    · rw [walksFrom_of_mem hmem, List.pairwise_cons]
      have hnext : ((s.onward t e).flatMap (s.walksFrom t (free.erase e.target))).Pairwise t.Before :=
        pairwise_flatMap_before hgrouped (onward_sublist hcurrent e)
          (fun next _ w hw => head?_of_mem_walksFrom hw)
          fun next _ => ih _ hmem next
      refine ⟨?_, List.pairwise_map.2 (hnext.imp fun h => .cons h)⟩
      intro w hw
      obtain ⟨v, hv, rfl⟩ := List.mem_map.1 hw
      obtain ⟨next, -, hv⟩ := List.mem_flatMap.1 hv
      obtain ⟨v', rfl⟩ := List.head?_eq_some_iff.1 (head?_of_mem_walksFrom hv)
      exact .cons .nil
    · rw [walksFrom_of_not_mem hmem]
      exact List.pairwise_singleton _ _

theorem pairwise_walks (hypercube : QName) : (s.walks t hypercube).Pairwise t.Before := by
  let free := s.nodes.toList.erase hypercube
  have hhead : ∀ e ∈ t.edgesFrom hypercube .hypercubeDimension,
      ∀ w ∈ (if e.target ∈ free then s.walksFrom t free e else []), w.head? = some e := by
    intro e _ w hw
    split at hw
    · exact head?_of_mem_walksFrom hw
    · cases hw
  refine List.pairwise_cons.2 ⟨?_, pairwise_flatMap_before hgrouped ?_ hhead ?_⟩
  · intro w hw
    obtain ⟨e, he, hw⟩ := List.mem_flatMap.1 hw
    obtain ⟨v, rfl⟩ := List.head?_eq_some_iff.1 (hhead e he w hw)
    exact .nil
  · rw [hcurrent.edgesFrom_eq]
    exact List.filter_sublist
  · intro e _
    split
    · exact pairwise_walksFrom hgrouped hcurrent free e
    · exact .nil

end Order

end Space

end Dimension

namespace Session

open Dimension

/-- The way up from a primary item leads to a cycle that is ruled out, or a walk from a hypercube
returns by an edge that rules out cycles. -/
def MeetsCycle (s : Session) (t : Table) (primary hypercube : QName) : Prop :=
  ((s.space.cyclesOf .domainMember).allowsDirected = false ∧ t.CycleAbove primary) ∨
    ∃ w e, s.space.Returns t hypercube w e ∧ (s.space.cyclesOf e.arcrole).allowsDirected = false

/-- The answer for a hypercube that a primary item, or one above it, is tied to in a role without
target roles. -/
theorem Finalized.resolveHypercube_of_table {s : Session} (h : s.Finalized) {role : String} {t : Table}
    (ht : s.space.tables.get? role = some t) (hroles : ∀ e ∈ t.effective, e.targetRole = none)
    {primary hypercube : QName} (hlinked : ∃ e ∈ t.effective, Relation.ReflTransGen t.Above primary e.source ∧
      e.arcrole.isHasHypercube = true ∧ e.target = hypercube) :
    ((∃ node arcrole, (s.resolveHypercube primary hypercube role).1 = .error (.cycle node arcrole role)) ↔
        s.MeetsCycle t primary hypercube) ∧
      (¬ s.MeetsCycle t primary hypercube →
        ∃ made, ∃ ws : List (List Edge), (s.resolveHypercube primary hypercube role).1 = .ok made ∧
          made.tree.paths = ws.map (Space.nodesOf hypercube) ∧ ws.Pairwise t.Before ∧
          ∀ w, w ∈ ws ↔ (s.space.IsWalk t hypercube w ∧ (Space.nodesOf hypercube w).Nodup) ∨
            ∃ v e, w = v ++ [e] ∧ s.space.Returns t hypercube v e ∧ e.arcrole ≠ .hypercubeDimension) := by
  have hs := h.settled.wellFormed
  have hcurrent := hs.current ht
  have hsources := hs.source_mem ht
  have htargets := hs.target_mem ht
  rw [(h.settled.resolveHypercube primary hypercube role).1]
  cases hes : s.space.hasHypercubeEdges t primary with
  | error f =>
    obtain ⟨hforbids, ⟨a, rfl⟩, hcycle⟩ := Space.hasHypercubeEdges_of_error hcurrent hsources hes
    have hmeets : s.MeetsCycle t primary hypercube := .inl ⟨hforbids, hcycle⟩
    rw [Space.findHypercube_of_error ht hes, hs.role_eq ht]
    exact ⟨⟨fun _ => hmeets, fun _ => ⟨a, _, rfl⟩⟩, fun hnot => absurd hmeets hnot⟩
  | ok es =>
    have hup := (Space.exists_hasHypercubeEdges_eq_ok hcurrent hsources).1 ⟨es, hes⟩
    obtain ⟨e, hfind⟩ : ∃ e, es.find? (·.target == hypercube) = some e := by
      obtain ⟨e, he, hreach, harcrole, htarget⟩ := hlinked
      refine Option.isSome_iff_exists.1 (List.find?_isSome.2 ⟨e, ?_, beq_iff_eq.2 htarget⟩)
      exact (Space.mem_of_hasHypercubeEdges hcurrent hsources hes e).2
        ⟨hreach, hcurrent.mem_hasHypercubeEdges.2 ⟨he, rfl, harcrole⟩⟩
    have htarget : e.target = hypercube := by simpa using List.find?_some hfind
    have heffective : e ∈ t.effective := by
      have hown := (Space.mem_of_hasHypercubeEdges hcurrent hsources hes e).1 (List.mem_of_find?_eq_some hfind)
      exact (hcurrent.mem_hasHypercubeEdges.1 hown.2).1
    subst htarget
    have hmakes := @Space.makes_hypercube s.space t hcurrent hroles e heffective
    have hmeets : s.MeetsCycle t primary e.target ↔
        ∃ w e', s.space.Returns t e.target w e' ∧ (s.space.cyclesOf e'.arcrole).allowsDirected = false :=
      or_iff_right hup
    rw [hmeets, ← Space.exists_blocked_iff hcurrent htargets, Space.findHypercube_of_ok ht hes hfind]
    cases htree : s.space.hypercube t e with
    | error f =>
      obtain ⟨hblocked, node, arcrole, rfl⟩ := hmakes.error htree
      refine ⟨⟨fun _ => hblocked, fun _ => ⟨node, arcrole, ?_⟩⟩, fun hnot => absurd hblocked hnot⟩
      rw [Space.edgeHypercube, htree, hs.role_eq ht]
      rfl
    | ok tree =>
      obtain ⟨hfree, hpaths⟩ := hmakes.ok htree
      have hanswer : s.space.edgeHypercube t primary e =
          .ok ⟨primary, e.target, t.role, e.arcrole, e.closed, e.contextElement, tree⟩ := by
        rw [Space.edgeHypercube, htree]
        rfl
      rw [hanswer]
      refine ⟨⟨fun ⟨_, _, hcycle⟩ => (by cases hcycle), fun hblocked => absurd hblocked hfree⟩, fun _ => ?_⟩
      exact ⟨_, s.space.walks t e.target, rfl, hpaths, Space.pairwise_walks (hs.grouped ht) hcurrent e.target,
        fun w => Space.mem_walks hcurrent htargets⟩

/-- The members of the dimension stand above each other. -/
def entwined : Session :=
  Sample.session [Sample.item "p", Sample.item "q", Sample.hypercube "h", Sample.dimension "d", Sample.item "m",
      Sample.item "n"] [
    Sample.link "r" [Sample.arc .domainMember "q" "p" none, Sample.arc .all "q" "h" none,
      Sample.arc .hypercubeDimension "h" "d" none, Sample.arc .dimensionDomain "d" "m" none,
      Sample.arc .domainMember "m" "n" none, Sample.arc .domainMember "n" "m" none]]

set_option maxRecDepth 20000 in
theorem entwined_tables :
    entwined.space.tables.get? "r" = some (Sample.table entwined "r") ∧
      (Sample.table entwined "r").effective =
        [Sample.edge .dimensionDomain "d" "m" none, Sample.edge .hypercubeDimension "h" "d" none,
          Sample.edge .domainMember "m" "n" none, Sample.edge .domainMember "n" "m" none,
          Sample.edge .all "q" "h" none, Sample.edge .domainMember "q" "p" none] := by
  refine ⟨Sample.get?_tables (by decide +kernel), ?_⟩
  unfold entwined
  cbv

theorem entwined_targetRole : ∀ e ∈ (Sample.table entwined "r").effective, e.targetRole = none := by
  rw [entwined_tables.2]
  decide

theorem entwined_linked : ∃ e ∈ (Sample.table entwined "r").effective,
    Relation.ReflTransGen (Sample.table entwined "r").Above (Sample.name "p") e.source ∧
      e.arcrole.isHasHypercube = true ∧ e.target = Sample.name "h" := by
  have habove : (Sample.table entwined "r").Above (Sample.name "p") (Sample.name "q") :=
    ⟨Sample.edge .domainMember "q" "p" none, by simp [entwined_tables.2], rfl, rfl, rfl⟩
  exact ⟨Sample.edge .all "q" "h" none, by simp [entwined_tables.2], .single habove, rfl, rfl⟩

/-- From the hypercube down to both members, and back to the first of them. -/
theorem entwined_returns :
    entwined.space.Returns (Sample.table entwined "r") (Sample.name "h")
      [Sample.edge .hypercubeDimension "h" "d" none, Sample.edge .dimensionDomain "d" "m" none,
        Sample.edge .domainMember "m" "n" none] (Sample.edge .domainMember "n" "m" none) := by
  have htyped : entwined.space.isTyped (Sample.name "d") = false := by decide +kernel
  refine ⟨⟨by simp [entwined_tables.2], ?_, ?_⟩, by decide, by decide⟩
  · rintro e ⟨⟩
    exact ⟨rfl, rfl⟩
  · exact .cons_cons ⟨rfl, rfl, htyped⟩ (.cons_cons ⟨rfl, rfl⟩ (.cons_cons ⟨rfl, rfl⟩ (.singleton _)))

theorem entwined_meetsCycle :
    entwined.MeetsCycle (Sample.table entwined "r") (Sample.name "p") (Sample.name "h") := by
  have hcycles : (entwined.space.cyclesOf .domainMember).allowsDirected = false := by decide +kernel
  exact .inr ⟨_, _, entwined_returns, hcycles⟩

theorem resolveHypercube_entwined :
    entwined.Finalized ∧ ∃ node arcrole,
      (entwined.resolveHypercube (Sample.name "p") (Sample.name "h") "r").1 =
        .error (.cycle node arcrole "r") :=
  ⟨.finalize _, (Finalized.resolveHypercube_of_table (.finalize _) entwined_tables.1 entwined_targetRole
    entwined_linked).1.2 entwined_meetsCycle⟩

end Session

end TaxonomySet
