import TaxonomySet.Proofs.Dimension.Pruning

namespace TaxonomySet.Dimension

namespace Edges

/-- The edges are there once each, and the indexes are theirs. -/
structure Indexed (es : Edges) : Prop where
  nodup : es.all.toList.Nodup
  eq_ofArray : es = .ofArray es.all

theorem indexed_empty : Indexed {} := ⟨List.nodup_nil, rfl⟩

namespace Indexed

variable {es : Edges} (h : es.Indexed)
include h

/-- The positions of a node are those of the edges that leave it. -/
theorem mem_outgoing_iff {node : QName} {i : Nat} :
    i ∈ (es.outgoing.get? node).getD [] ↔ ∃ hi : i < es.all.size, es.all[i].source = node := by
  have houtgoing : es.outgoing = .ofArray (some ·.source) es.all := congrArg outgoing h.eq_ofArray
  rw [houtgoing, Positions.mem_getD_ofArray]
  simp [Array.getElem?_eq_some_iff]

theorem mem_incoming_iff {node : QName} {i : Nat} :
    i ∈ (es.incoming.get? node).getD [] ↔ ∃ hi : i < es.all.size, es.all[i].target = node := by
  have hincoming : es.incoming = .ofArray (some ·.target) es.all := congrArg incoming h.eq_ofArray
  rw [hincoming, Positions.mem_getD_ofArray]
  simp [Array.getElem?_eq_some_iff]

end Indexed

end Edges

namespace Table

variable {t u : Table}

/-- What every operation on tables keeps. -/
structure Sound (t : Table) : Prop where
  grouped : t.Grouped
  indexed : t.view.edges.Indexed

/-- A view that is up to date is indexed. -/
theorem Grouped.sound (h : t.Grouped) (hcurrent : t.Current) : t.Sound where
  grouped := h
  indexed := by
    rw [hcurrent.edges_eq]
    exact ⟨nodup_effective h, rfl⟩

theorem sound_new (role : String) : Sound { role } := ⟨grouped_empty role, Edges.indexed_empty⟩

/-- An insertion leaves the view as it is. -/
theorem Sound.insert (h : t.Sound) (e : Edge) : (t.insert e).Sound := ⟨h.grouped.insert e, h.indexed⟩

theorem Sound.rebuild (h : t.Sound) : t.rebuild.Sound := h.grouped.rebuild.sound (current_rebuild t)

theorem Sound.merge (h : t.Sound) (u : Table) : (t.merge u).Sound := (h.grouped.merge u).sound (current_merge t u)

theorem Sound.withoutDownstream (h : t.Sound) (node : QName) : (t.withoutDownstream node).Sound :=
  (h.grouped.withoutDownstream node).sound (current_withoutDownstream t node)

/-- A table that operations have made from tables without edges. -/
inductive Built : Table → Prop
  | new (role : String) : Built { role }
  | insert {t : Table} (h : Built t) (e : Edge) : Built (t.insert e)
  | rebuild {t : Table} (h : Built t) : Built t.rebuild
  | merge {t u : Table} (ht : Built t) (hu : Built u) : Built (t.merge u)
  | withoutDownstream {t : Table} (h : Built t) (node : QName) : Built (t.withoutDownstream node)

theorem Built.sound (h : t.Built) : t.Sound := by
  induction h with
  | new role => exact sound_new role
  | insert _ e ih => exact ih.insert e
  | rebuild _ ih => exact ih.rebuild
  | @merge _ u _ _ ih _ => exact ih.merge u
  | withoutDownstream _ node ih => exact ih.withoutDownstream node

/-- The indexes of a table hold the positions of the edges that it shows, under their sources and under their targets,
and no others. What is asked of a node is answered by those of the edges, each once and in their order. -/
theorem Built.edges_indexed (h : t.Built) :
    let shown := t.view.edges
    (∀ node i, i ∈ (shown.outgoing.get? node).getD [] ↔ ∃ hi : i < shown.all.size, shown.all[i].source = node) ∧
      (∀ node i, i ∈ (shown.incoming.get? node).getD [] ↔ ∃ hi : i < shown.all.size, shown.all[i].target = node) ∧
      shown.all.toList.Nodup ∧
      ∀ node arcrole,
        t.edgesFrom node arcrole = (shown.all.toList.filter fun e => e.source == node && e.arcrole == arcrole) ∧
        t.edgesTo node arcrole = (shown.all.toList.filter fun e => e.target == node && e.arcrole == arcrole) ∧
        t.hasHypercubeEdges node =
          shown.all.toList.filter fun e => e.source == node && e.arcrole.isHasHypercube := by
  intro shown
  have hindexed : shown.Indexed := h.sound.indexed
  refine ⟨fun _ _ => hindexed.mem_outgoing_iff, fun _ _ => hindexed.mem_incoming_iff, hindexed.nodup,
    fun node arcrole => ⟨?_, ?_, ?_⟩⟩
  · change shown.fromNode node arcrole = _
    rw [hindexed.eq_ofArray]
    exact Edges.fromNode_ofArray shown.all node arcrole
  · change shown.toNode node arcrole = _
    rw [hindexed.eq_ofArray]
    exact Edges.toNode_ofArray shown.all node arcrole
  · change shown.hasHypercube node = _
    rw [hindexed.eq_ofArray]
    exact Edges.hasHypercube_ofArray shown.all node

/-- A table into which an edge has been inserted since it was rebuilt. -/
def outdated : Table :=
  ((({ role := "r" } : Table).insert (Sample.edge .all "p" "h" none)).rebuild).insert (Sample.edge .all "p" "g" none)

/-- The edge that has been inserted last is not shown, and the indexes still fit. -/
theorem edges_indexed_outdated :
    outdated.Built ∧ outdated.effective.length = 2 ∧
      outdated.hasHypercubeEdges (Sample.name "p") = [Sample.edge .all "p" "h" none] ∧
      (∀ node, ∀ i ∈ (outdated.view.edges.outgoing.get? node).getD [], i < 1) := by
  have hbuilt : outdated.Built := .insert (.rebuild (.insert (.new "r") _)) _
  have hshown : outdated.view.edges.all = #[Sample.edge .all "p" "h" none] := by cbv
  obtain ⟨houtgoing, -, -, hanswers⟩ := hbuilt.edges_indexed
  obtain ⟨-, -, hlinks⟩ := hanswers (Sample.name "p") .all
  refine ⟨hbuilt, by cbv, ?_, fun node i hi => ?_⟩
  · rw [hlinks, hshown]
    decide +kernel
  · obtain ⟨hi, -⟩ := (houtgoing node i).1 hi
    rwa [hshown] at hi

end Table

end TaxonomySet.Dimension
