import Mathlib.Data.List.Permutation
import Mathlib.Logic.Relation
import TaxonomySet.Proofs.Dimension.Answers
import TaxonomySet.Proofs.Outcome
import TaxonomySet.Proofs.Sample

namespace TaxonomySet

namespace Dimension

namespace Table

/-- The second concept stands directly above the first. -/
def Above (t : Table) (a b : QName) : Prop :=
  ∃ e ∈ t.effective, e.target = a ∧ e.arcrole = .domainMember ∧ e.source = b

/-- The way up from a concept leads to a cycle of domain-member edges. -/
def CycleAbove (t : Table) (a : QName) : Prop :=
  ∃ n, Relation.ReflTransGen t.Above a n ∧ Relation.TransGen t.Above n n

theorem not_cycleAbove_of_acc {t : Table} {a : QName} (h : Acc (fun b a => t.Above a b) a) :
    ¬ t.CycleAbove a := by
  rintro ⟨n, hreach, hcycle⟩
  have hn : Acc (fun b a => t.Above a b) n := by
    clear hcycle
    induction hreach with
    | refl => exact h
    | tail _ hstep ih => exact ih.inv hstep
  have htrans := hn.transGen
  clear h hn hreach
  induction htrans with
  | intro n _ ih => exact ih n (Relation.transGen_swap.1 hcycle) hcycle

/-- A way up that enters only some nodes. -/
inductive Climbs (t : Table) (free : List QName) : QName → QName → Prop
  | refl (a : QName) : t.Climbs free a a
  | step {a b c : QName} (h : t.Above a b) (hfree : b ∈ free) (hrest : t.Climbs free b c) :
    t.Climbs free a c

/-- A way up that may enter a node can enter it at most once, from its last visit there on. -/
theorem Climbs.erase {t : Table} {free : List QName} {a c : QName} (h : t.Climbs free a c) (n : QName) :
    t.Climbs (free.erase n) a c ∨ t.Climbs (free.erase n) n c := by
  induction h with
  | refl a => exact .inl (.refl a)
  | @step a b c hab hfree _ ih =>
    rcases ih with hrest | hrest
    · by_cases hb : b = n
      · subst hb
        exact .inr hrest
      · exact .inl (.step hab ((List.mem_erase_of_ne hb).2 hfree) hrest)
    · exact .inr hrest

theorem climbs_of_reach {t : Table} {free : List QName} (hsources : ∀ e ∈ t.effective, e.source ∈ free)
    {a c : QName} (h : Relation.ReflTransGen t.Above a c) : t.Climbs (free.erase a) a c := by
  have hclimbs : t.Climbs free a c := by
    induction h using Relation.ReflTransGen.head_induction_on with
    | refl => exact .refl c
    | @head a b hstep _ ih =>
      have hfree : b ∈ free := by
        obtain ⟨e, he, -, -, rfl⟩ := hstep
        exact hsources e he
      exact .step hstep hfree ih
  rcases hclimbs.erase a with h | h <;> exact h

end Table

namespace Space

variable {s : Space} {t : Table}

/-- What comes from the concept above an edge. -/
def inheritedAlong (s : Space) (t : Table) (free : List QName) (e : Edge) :
    Except DimensionFault (List Edge) :=
  if e.source ∈ free then s.inherited t (free.erase e.source) e.source
  else do
    s.checkCycle t e
    return []

theorem inherited_eq (s : Space) (t : Table) (free : List QName) (node : QName) :
    s.inherited t free node = do
      let above ← (t.edgesTo node .domainMember).mapM (s.inheritedAlong t free)
      return t.hasHypercubeEdges node ++ above.flatten := by
  rw [inherited]
  rfl

theorem inherited_eq_ok {free : List QName} {node : QName} {es : List Edge} :
    s.inherited t free node = .ok es ↔
      ∃ above, (t.edgesTo node .domainMember).mapM (s.inheritedAlong t free) = .ok above ∧
        es = t.hasHypercubeEdges node ++ above.flatten := by
  rw [inherited_eq, Outcome.bind_eq_ok]
  refine exists_congr fun above => and_congr_right fun _ => ?_
  exact ⟨fun h => (Except.ok.inj h).symm, fun h => h ▸ rfl⟩

theorem inheritedAlong_of_mem {free : List QName} {e : Edge} (h : e.source ∈ free) :
    s.inheritedAlong t free e = s.inherited t (free.erase e.source) e.source := if_pos h

theorem inheritedAlong_of_not_mem {free : List QName} {e : Edge} (h : e.source ∉ free) :
    s.inheritedAlong t free e =
      if (s.cyclesOf e.arcrole).allowsDirected then .ok [] else .error (.cycle e.target e.arcrole t.role) := by
  unfold inheritedAlong checkCycle
  rw [if_neg h]
  split <;> rfl

section Way

variable (hcurrent : t.Current)
include hcurrent

theorem above_of_mem_edgesTo {node : QName} {e : Edge} (h : e ∈ t.edgesTo node .domainMember) :
    t.Above node e.source ∧ e.arcrole = .domainMember := by
  obtain ⟨he, htarget, harcrole⟩ := hcurrent.mem_edgesTo.1 h
  exact ⟨⟨e, he, htarget, harcrole, rfl⟩, harcrole⟩

theorem exists_mem_edgesTo {node above : QName} (h : t.Above node above) :
    ∃ e ∈ t.edgesTo node .domainMember, e.source = above := by
  obtain ⟨e, he, htarget, harcrole, hsource⟩ := h
  exact ⟨e, hcurrent.mem_edgesTo.2 ⟨he, htarget, harcrole⟩, hsource⟩

/-- Where cycles are ruled out, a way up that does not fail comes to an end. -/
theorem acc_of_inherited {free : List QName} {node : QName} {es : List Edge}
    (hforbids : (s.cyclesOf .domainMember).allowsDirected = false)
    (h : s.inherited t free node = .ok es) : Acc (fun b a => t.Above a b) node := by
  induction free using erase_induction generalizing node es with
  | step free ih =>
    obtain ⟨above, habove, -⟩ := inherited_eq_ok.1 h
    refine .intro _ fun b hb => ?_
    obtain ⟨e, he, rfl⟩ := exists_mem_edgesTo hcurrent hb
    obtain ⟨es', -, hes'⟩ := Outcome.exists_of_mem_left habove he
    by_cases hfree : e.source ∈ free
    · rw [inheritedAlong_of_mem hfree] at hes'
      exact ih _ hfree hes'
    · rw [inheritedAlong_of_not_mem hfree, (above_of_mem_edgesTo hcurrent he).2, hforbids] at hes'
      cases hes'

/-- A way up fails only where cycles are ruled out and it comes back to where it has been. -/
theorem cycleAbove_of_inherited {free : List QName} {node : QName} {f : DimensionFault}
    (hsources : ∀ e ∈ t.effective, e.source ∈ s.nodes.toList)
    (hentered : ∀ a ∈ s.nodes.toList, a ∉ free → Relation.ReflTransGen t.Above a node)
    (h : s.inherited t free node = .error f) :
    (s.cyclesOf .domainMember).allowsDirected = false ∧ (∃ a, f = .cycle a .domainMember t.role) ∧
      t.CycleAbove node := by
  induction free using erase_induction generalizing node with
  | step free ih =>
    rw [inherited_eq, Outcome.bind_eq_error] at h
    rcases h with h | ⟨above, -, h⟩
    · obtain ⟨e, he, hfail⟩ := Outcome.mapM_eq_error h
      obtain ⟨habove, harcrole⟩ := above_of_mem_edgesTo hcurrent he
      by_cases hfree : e.source ∈ free
      · rw [inheritedAlong_of_mem hfree] at hfail
        have hentered' : ∀ a ∈ s.nodes.toList, a ∉ free.erase e.source →
            Relation.ReflTransGen t.Above a e.source := by
          intro a ha hleft
          by_cases heq : a = e.source
          · rw [heq]
          · exact (hentered a ha fun hmem => hleft ((List.mem_erase_of_ne heq).2 hmem)).tail habove
        obtain ⟨hforbids, hfault, c, hreach, hcycle⟩ :=
          ih _ hfree hentered' hfail
        exact ⟨hforbids, hfault, c, .head habove hreach, hcycle⟩
      · rw [inheritedAlong_of_not_mem hfree, harcrole] at hfail
        split at hfail
        · cases hfail
        · rename_i hforbids
          have hback := hentered e.source (hsources e (hcurrent.mem_edgesTo.1 he).1) hfree
          exact ⟨Bool.eq_false_iff.2 hforbids, ⟨_, (Except.error.inj hfail).symm⟩, node, .refl,
            .head' habove hback⟩
    · cases h

theorem source_of_mem_inherited {free : List QName} {node : QName} {es : List Edge} {e : Edge}
    (h : s.inherited t free node = .ok es) (he : e ∈ es) :
    Relation.ReflTransGen t.Above node e.source ∧ e ∈ t.hasHypercubeEdges e.source := by
  induction free using erase_induction generalizing node es with
  | step free ih =>
    obtain ⟨above, habove, rfl⟩ := inherited_eq_ok.1 h
    rcases List.mem_append.1 he with he | he
    · obtain ⟨-, rfl, -⟩ := hcurrent.mem_hasHypercubeEdges.1 he
      exact ⟨.refl, he⟩
    · obtain ⟨es', hes', he⟩ := List.mem_flatten.1 he
      obtain ⟨d, hd, hrun⟩ := Outcome.exists_of_mem_right habove hes'
      by_cases hfree : d.source ∈ free
      · rw [inheritedAlong_of_mem hfree] at hrun
        obtain ⟨hreach, hown⟩ := ih _ hfree hrun he
        exact ⟨.head (above_of_mem_edgesTo hcurrent hd).1 hreach, hown⟩
      · rw [inheritedAlong_of_not_mem hfree] at hrun
        split at hrun
        · cases hrun
          cases he
        · cases hrun

theorem mem_inherited_of_climbs {free : List QName} {node above : QName} {es : List Edge} {e : Edge}
    (h : s.inherited t free node = .ok es) (hclimbs : t.Climbs free node above)
    (he : e ∈ t.hasHypercubeEdges above) : e ∈ es := by
  induction free using erase_induction generalizing node es with
  | step free ih =>
    obtain ⟨along, halong, rfl⟩ := inherited_eq_ok.1 h
    cases hclimbs with
    | refl => exact List.mem_append_left _ he
    | @step _ b _ hab hfree hrest =>
      obtain ⟨d, hd, rfl⟩ := exists_mem_edgesTo hcurrent hab
      obtain ⟨es', hes', hrun⟩ := Outcome.exists_of_mem_left halong hd
      rw [inheritedAlong_of_mem hfree] at hrun
      have hshort : t.Climbs (free.erase d.source) d.source above := by
        rcases hrest.erase d.source with h | h <;> exact h
      exact List.mem_append_right _
        (List.mem_flatten.2 ⟨es', hes', ih _ hfree hrun hshort⟩)

/-- The first edge of some kind on the way up is the first of its kind at its own source. -/
theorem find?_own_of_inherited {free : List QName} {node : QName} {es : List Edge} {e : Edge}
    {p : Edge → Bool} (h : s.inherited t free node = .ok es) (he : es.find? p = some e) :
    (t.hasHypercubeEdges e.source).find? p = some e := by
  induction free using erase_induction generalizing node es with
  | step free ih =>
    obtain ⟨above, habove, rfl⟩ := inherited_eq_ok.1 h
    rw [List.find?_append, Option.or_eq_some_iff] at he
    rcases he with he | ⟨-, he⟩
    · obtain ⟨-, hsource, -⟩ := hcurrent.mem_hasHypercubeEdges.1 (List.mem_of_find?_eq_some he)
      rwa [hsource]
    · obtain ⟨hp, before, ys, zs, after, rfl, -, hys⟩ := List.find?_flatten_eq_some_iff.1 he
      obtain ⟨d, hd, hrun⟩ := Outcome.exists_of_mem_right habove
        (List.mem_append_right before List.mem_cons_self)
      have hfirst : (ys ++ e :: zs).find? p = some e := by
        rw [List.find?_eq_some_iff_append]
        exact ⟨hp, ys, zs, rfl, hys⟩
      by_cases hfree : d.source ∈ free
      · rw [inheritedAlong_of_mem hfree] at hrun
        exact ih _ hfree hrun hfirst
      · rw [inheritedAlong_of_not_mem hfree] at hrun
        split at hrun
        · have hnil := Except.ok.inj hrun
          simp at hnil
        · cases hrun

end Way

section Primary

variable (hcurrent : t.Current) (hsources : ∀ e ∈ t.effective, e.source ∈ s.nodes.toList)
include hcurrent hsources

theorem hasHypercubeEdges_of_error {primary : QName} {f : DimensionFault}
    (h : s.hasHypercubeEdges t primary = .error f) :
    (s.cyclesOf .domainMember).allowsDirected = false ∧ (∃ a, f = .cycle a .domainMember t.role) ∧
      t.CycleAbove primary := by
  refine cycleAbove_of_inherited hcurrent hsources (fun a ha hleft => ?_) (Outcome.map_eq_error.1 h)
  have heq : a = primary := by
    by_contra hne
    exact hleft ((List.mem_erase_of_ne hne).2 ha)
  rw [heq]

/-- The way up from a primary item succeeds unless cycles are ruled out and it leads to one. -/
theorem exists_hasHypercubeEdges_eq_ok {primary : QName} :
    (∃ es, s.hasHypercubeEdges t primary = .ok es) ↔
      ¬ ((s.cyclesOf .domainMember).allowsDirected = false ∧ t.CycleAbove primary) := by
  constructor
  · rintro ⟨es, hes⟩ ⟨hforbids, hcycle⟩
    obtain ⟨es', hes', -⟩ := Outcome.map_eq_ok.1 hes
    exact Table.not_cycleAbove_of_acc (acc_of_inherited hcurrent hforbids hes') hcycle
  · intro hnot
    cases h : s.hasHypercubeEdges t primary with
    | ok es => exact ⟨es, rfl⟩
    | error f =>
      obtain ⟨hforbids, -, hcycle⟩ := hasHypercubeEdges_of_error hcurrent hsources h
      exact absurd ⟨hforbids, hcycle⟩ hnot

theorem mem_of_hasHypercubeEdges {primary : QName} {es : List Edge}
    (h : s.hasHypercubeEdges t primary = .ok es) (e : Edge) :
    e ∈ es ↔ Relation.ReflTransGen t.Above primary e.source ∧ e ∈ t.hasHypercubeEdges e.source := by
  obtain ⟨es', hes', rfl⟩ := Outcome.map_eq_ok.1 h
  rw [List.mem_eraseDups]
  constructor
  · exact source_of_mem_inherited hcurrent hes'
  · rintro ⟨hreach, he⟩
    exact mem_inherited_of_climbs hcurrent hes' (Table.climbs_of_reach hsources hreach) he

end Primary

theorem find?_own_of_hasHypercubeEdges (hcurrent : t.Current) {primary : QName} {es : List Edge} {e : Edge}
    {p : Edge → Bool} (h : s.hasHypercubeEdges t primary = .ok es) (he : es.find? p = some e) :
    (t.hasHypercubeEdges e.source).find? p = some e := by
  obtain ⟨es', hes', rfl⟩ := Outcome.map_eq_ok.1 h
  rw [find?_eraseDups] at he
  exact find?_own_of_inherited hcurrent hes' he

theorem nodup_hasHypercubeEdges {primary : QName} {es : List Edge} (h : s.hasHypercubeEdges t primary = .ok es) :
    es.Nodup := by
  obtain ⟨es', -, rfl⟩ := Outcome.map_eq_ok.1 h
  exact nodup_eraseDups es'

theorem prefix_of_hasHypercubeEdges (hgrouped : t.Grouped) (hcurrent : t.Current) {primary : QName} {es : List Edge}
    (h : s.hasHypercubeEdges t primary = .ok es) : t.hasHypercubeEdges primary <+: es := by
  obtain ⟨es', hes', rfl⟩ := Outcome.map_eq_ok.1 h
  obtain ⟨above, -, rfl⟩ := inherited_eq_ok.1 hes'
  apply prefix_eraseDups_append
  rw [hcurrent.hasHypercubeEdges_eq]
  exact (Table.nodup_effective hgrouped).filter _

/-- The way up from a concept fails exactly if cycles are ruled out and it leads to one, however many ways there are
to get there. Otherwise it yields the links to hypercubes of the concept and of all that stand above it, each link
once, and those of the concept itself first and in the order of the table. -/
theorem hasHypercubeEdges_ofTables {tables : SortedMap String Table} {role : String} {t : Table}
    (ht : tables.get? role = some t) (hgrouped : t.Grouped) (hcurrent : t.Current) (isTyped : QName → Bool)
    (cyclesOf : Arcrole → Cycles) (primary : QName) :
    let s := ofTables tables isTyped cyclesOf
    let blocked := cyclesOf .domainMember ≠ .any ∧ t.CycleAbove primary
    ((∃ a, s.hasHypercubeEdges t primary = .error (.cycle a .domainMember t.role)) ↔ blocked) ∧
      (¬ blocked → ∃ es, s.hasHypercubeEdges t primary = .ok es ∧ es.Nodup ∧
        (∀ e, e ∈ es ↔ e ∈ t.effective ∧ e.arcrole.isHasHypercube = true ∧
          Relation.ReflTransGen t.Above primary e.source) ∧
        (t.effective.filter fun e => e.source == primary && e.arcrole.isHasHypercube) <+: es) := by
  intro s blocked
  have hsources : ∀ e ∈ t.effective, e.source ∈ s.nodes.toList := fun e he =>
    (mem_nodes_ofTables isTyped cyclesOf ht he).1
  have hpolicy : (s.cyclesOf .domainMember).allowsDirected = false ↔ cyclesOf .domainMember ≠ .any := by
    change (cyclesOf .domainMember == .any) = false ↔ _
    exact beq_eq_false_iff_ne
  have hok : (∃ es, s.hasHypercubeEdges t primary = .ok es) ↔ ¬ blocked := by
    rw [exists_hasHypercubeEdges_eq_ok hcurrent hsources, hpolicy]
  refine ⟨⟨?_, fun hblocked => ?_⟩, fun hfree => ?_⟩
  · rintro ⟨a, ha⟩
    obtain ⟨hforbids, -, hcycle⟩ := hasHypercubeEdges_of_error hcurrent hsources ha
    exact ⟨hpolicy.1 hforbids, hcycle⟩
  · cases h : s.hasHypercubeEdges t primary with
    | ok es => exact absurd hblocked (hok.1 ⟨es, h⟩)
    | error f =>
      obtain ⟨-, ⟨a, rfl⟩, -⟩ := hasHypercubeEdges_of_error hcurrent hsources h
      exact ⟨a, rfl⟩
  · obtain ⟨es, hes⟩ := hok.2 hfree
    refine ⟨es, hes, nodup_hasHypercubeEdges hes, fun e => ?_, ?_⟩
    · rw [mem_of_hasHypercubeEdges hcurrent hsources hes, hcurrent.mem_hasHypercubeEdges]
      tauto
    · rw [← hcurrent.hasHypercubeEdges_eq]
      exact prefix_of_hasHypercubeEdges hgrouped hcurrent hes

/-- Two ways lead up from a concept to another, which stands above itself and below the first. -/
def ringed : Table := .ofEdges "r" [
  Sample.edge .all "p" "h" none, Sample.edge .notAll "a" "k" none, Sample.edge .domainMember "q" "p" none,
  Sample.edge .domainMember "o" "p" none, Sample.edge .domainMember "a" "q" none,
  Sample.edge .domainMember "a" "o" none, Sample.edge .domainMember "a" "a" none,
  Sample.edge .domainMember "p" "a" none]

theorem effective_ringed :
    ringed.effective = [
      Sample.edge .notAll "a" "k" none, Sample.edge .domainMember "a" "a" none,
      Sample.edge .domainMember "a" "o" none, Sample.edge .domainMember "a" "q" none,
      Sample.edge .domainMember "o" "p" none, Sample.edge .all "p" "h" none,
      Sample.edge .domainMember "p" "a" none, Sample.edge .domainMember "q" "p" none] := by
  unfold ringed
  cbv

/-- Whether cycles are ruled out or not decides if the links of the other concept are found. -/
theorem hasHypercubeEdges_ringed :
    let tables : SortedMap String Table := SortedMap.insert ∅ "r" ringed
    tables.get? "r" = some ringed ∧ ringed.Grouped ∧ ringed.Current ∧
      (∃ a, (ofTables tables (fun _ => false) fun _ => .none).hasHypercubeEdges ringed (Sample.name "p") =
        .error (.cycle a .domainMember ringed.role)) ∧
      ∃ es, (ofTables tables (fun _ => false) fun _ => .any).hasHypercubeEdges ringed (Sample.name "p") = .ok es ∧
        es.Nodup ∧ Sample.edge .notAll "a" "k" none ∈ es ∧ [Sample.edge .all "p" "h" none] <+: es := by
  intro tables
  have ht : tables.get? "r" = some ringed := SortedMap.get?_insert_self _ _ _
  have hgrouped : ringed.Grouped := ((Table.grouped_empty "r").insertAll _).rebuild
  have hcurrent : ringed.Current := Table.current_rebuild _
  have hup : Relation.ReflTransGen ringed.Above (Sample.name "p") (Sample.name "a") := by
    refine .tail (.single (b := Sample.name "q") ?_) ?_
    · exact ⟨Sample.edge .domainMember "q" "p" none, by simp [effective_ringed], rfl, rfl, rfl⟩
    · exact ⟨Sample.edge .domainMember "a" "q" none, by simp [effective_ringed], rfl, rfl, rfl⟩
  have hcycle : ringed.CycleAbove (Sample.name "p") := by
    refine ⟨Sample.name "a", hup, .single ?_⟩
    exact ⟨Sample.edge .domainMember "a" "a" none, by simp [effective_ringed], rfl, rfl, rfl⟩
  have hforbidden := hasHypercubeEdges_ofTables ht hgrouped hcurrent (fun _ => false) (fun _ => .none) (Sample.name "p")
  have hallowed := hasHypercubeEdges_ofTables ht hgrouped hcurrent (fun _ => false) (fun _ => .any) (Sample.name "p")
  obtain ⟨es, hes, hnodup, hmem, hprefix⟩ := hallowed.2 fun hblocked => hblocked.1 rfl
  refine ⟨ht, hgrouped, hcurrent, hforbidden.1.2 ⟨by decide, hcycle⟩, es, hes, hnodup, (hmem _).2 ?_, ?_⟩
  · exact ⟨by simp [effective_ringed], rfl, hup⟩
  · have hown : (ringed.effective.filter fun e => e.source == Sample.name "p" && e.arcrole.isHasHypercube) =
        [Sample.edge .all "p" "h" none] := by
      rw [effective_ringed]
      decide +kernel
    rwa [hown] at hprefix

end Space

end Dimension

end TaxonomySet
