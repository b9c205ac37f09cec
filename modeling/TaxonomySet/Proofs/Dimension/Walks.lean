import TaxonomySet.Proofs.Dimension.Answers
import TaxonomySet.Proofs.Outcome

namespace TaxonomySet.Dimension

namespace Member

mutual

/-- The names from a member down to each member below it, in the order of a walk. -/
def paths : Member → List (List QName)
  | ⟨name, _, children⟩ => [name] :: (pathsAll children).map (name :: ·)

/-- The names down to the members of several trees. -/
def pathsAll : List Member → List (List QName)
  | [] => []
  | m :: ms => m.paths ++ pathsAll ms

end

theorem pathsAll_eq (ms : List Member) : pathsAll ms = ms.flatMap paths := by
  induction ms with
  | nil => rw [pathsAll, List.flatMap_nil]
  | cons m ms ih => rw [pathsAll, List.flatMap_cons, ih]

end Member

/-- The names from a dimension down to each of its members. -/
def ResolvedDimension.paths (d : ResolvedDimension) : List (List QName) :=
  [d.name] :: (d.domains.flatMap Member.paths).map (d.name :: ·)

/-- The names from a hypercube down to all that stands below it. -/
def HypercubeTree.paths (t : HypercubeTree) : List (List QName) :=
  [t.hypercube] :: (t.dimensions.flatMap ResolvedDimension.paths).map (t.hypercube :: ·)

namespace Space

/-- The edges by which a walk goes on from the target of an edge. -/
def onward (s : Space) (t : Table) (e : Edge) : List Edge :=
  if e.arcrole = .hypercubeDimension then
    if s.isTyped e.target then [] else t.edgesFrom e.target .dimensionDomain
  else t.edgesFrom e.target .domainMember

/-- The walks that begin with an edge, each before those that go on from it. -/
def walksFrom (s : Space) (t : Table) (free : List QName) (e : Edge) : List (List Edge) :=
  [e] :: if e.target ∈ free then
    (s.onward t e).flatMap fun next => (s.walksFrom t (free.erase e.target) next).map (e :: ·)
  else []
termination_by free.length
decreasing_by
  rename_i hmem
  exact length_erase_lt_of_mem hmem

/-- The walks from a hypercube. An edge from the hypercube back to it is not walked. Where no edge leads into another
table, the tree has one node for each of them, in the order of their edges. -/
def walks (s : Space) (t : Table) (hypercube : QName) : List (List Edge) :=
  let free := s.nodes.toList.erase hypercube
  [] :: (t.edgesFrom hypercube .hypercubeDimension).flatMap fun e =>
    if e.target ∈ free then s.walksFrom t free e else []

/-- A walk that begins with an edge comes back to a node that it may not enter, by an edge of an
arcrole that rules out cycles. -/
inductive Blocked (s : Space) (t : Table) : List QName → Edge → Prop
  | back {free e} (hback : e.target ∉ free) (hforbids : (s.cyclesOf e.arcrole).allowsDirected = false) :
    Blocked s t free e
  | onward {free e next} (hfree : e.target ∈ free) (hnext : next ∈ s.onward t e)
    (h : Blocked s t (free.erase e.target) next) : Blocked s t free e

variable {s : Space} {t : Table}

theorem mem_walksFrom_iff {free : List QName} {e : Edge} {w : List Edge} :
    w ∈ s.walksFrom t free e ↔ w = [e] ∨ e.target ∈ free ∧ ∃ next ∈ s.onward t e,
      ∃ v ∈ s.walksFrom t (free.erase e.target) next, w = e :: v := by
  rw [walksFrom, List.mem_cons]
  refine or_congr_right ?_
  by_cases hfree : e.target ∈ free
  · rw [if_pos hfree]
    simp only [List.mem_flatMap, List.mem_map, hfree, true_and, eq_comm]
  · simp [hfree]

theorem walksFrom_of_mem {free : List QName} {e : Edge} (h : e.target ∈ free) :
    s.walksFrom t free e = [e] :: ((s.onward t e).flatMap (s.walksFrom t (free.erase e.target))).map (e :: ·) := by
  rw [walksFrom, if_pos h, List.map_flatMap]

theorem walksFrom_of_not_mem {free : List QName} {e : Edge} (h : e.target ∉ free) :
    s.walksFrom t free e = [[e]] := by
  rw [walksFrom, if_neg h]

theorem follow_of_none {e : Edge} (h : e.targetRole = none) : s.follow t e = .ok t := by
  unfold follow
  rw [h]

/-- What making a part of the tree comes to: it has the paths of the walks, unless one of them is
blocked, and then the fault is a cycle. -/
structure Makes {α : Type} (t : Table) (run : Except DimensionFault α) (blocked : Prop) (holds : α → Prop) :
    Prop where
  ok : ∀ {a}, run = .ok a → ¬ blocked ∧ holds a
  error : ∀ {f}, run = .error f → blocked ∧ ∃ a arcrole, f = .cycle a arcrole t.role

theorem Makes.mapM {α β : Type} {run : α → Except DimensionFault β} {blocked : α → Prop}
    {paths : β → List (List QName)} {walks : α → List (List Edge)} {xs : List α}
    (h : ∀ x ∈ xs, Makes t (run x) (blocked x) fun b => paths b = (walks x).map (·.map Edge.target)) :
    Makes t (xs.mapM run) (∃ x ∈ xs, blocked x) fun bs =>
      bs.flatMap paths = (xs.flatMap walks).map (·.map Edge.target) where
  ok {bs} hrun := by
    have hall := Outcome.mapM_eq_ok.1 hrun
    clear hrun
    induction hall with
    | nil => simp
    | @cons x b xs bs hx hrest ih =>
      obtain ⟨hfree, hpaths⟩ := (h x List.mem_cons_self).ok hx
      obtain ⟨hrestFree, hrestPaths⟩ := ih fun y hy => h y (List.mem_cons_of_mem _ hy)
      refine ⟨?_, ?_⟩
      · rintro ⟨y, hy, hblocked⟩
        rcases List.mem_cons.1 hy with rfl | hy
        · exact hfree hblocked
        · exact hrestFree ⟨y, hy, hblocked⟩
      · rw [List.flatMap_cons, List.flatMap_cons, List.map_append, hpaths, hrestPaths]
  error hrun := by
    obtain ⟨x, hx, hfail⟩ := Outcome.mapM_eq_error hrun
    obtain ⟨hblocked, hcycle⟩ := (h x hx).error hfail
    exact ⟨⟨x, hx, hblocked⟩, hcycle⟩

theorem makes_checkCycle {e : Edge} {free : List QName} (h : e.target ∉ free) :
    Makes t (s.checkCycle t e) (s.Blocked t free e) fun _ => True := by
  have hiff : s.Blocked t free e ↔ (s.cyclesOf e.arcrole).allowsDirected = false := by
    constructor
    · intro hblocked
      cases hblocked with
      | back _ hforbids => exact hforbids
      | onward hfree _ _ => exact absurd hfree h
    · exact .back h
  rw [hiff]
  unfold checkCycle
  constructor
  · intro a hrun
    split at hrun
    · rename_i hallows
      exact ⟨by simp [hallows], trivial⟩
    · cases hrun
  · intro f hrun
    split at hrun
    · cases hrun
    · rename_i hforbids
      exact ⟨Bool.eq_false_iff.2 hforbids, _, _, (Except.error.inj hrun).symm⟩

theorem blocked_iff_of_mem {e : Edge} {free : List QName} (h : e.target ∈ free) :
    s.Blocked t free e ↔ ∃ next ∈ s.onward t e, s.Blocked t (free.erase e.target) next := by
  constructor
  · intro hblocked
    cases hblocked with
    | back hback _ => exact absurd h hback
    | onward _ hnext hbelow => exact ⟨_, hnext, hbelow⟩
  · rintro ⟨next, hnext, hbelow⟩
    exact .onward h hnext hbelow

theorem Makes.map {α β : Type} {run : Except DimensionFault α} {blocked : Prop} {holds : α → Prop}
    {holds' : β → Prop} (h : Makes t run blocked holds) (f : α → β) (hf : ∀ a, holds a → holds' (f a)) :
    Makes t (run >>= fun a => pure (f a)) blocked holds' where
  ok hrun := by
    obtain ⟨a, ha, hfa⟩ := Outcome.bind_eq_ok.1 hrun
    cases hfa
    exact ⟨(h.ok ha).1, hf a (h.ok ha).2⟩
  error hrun := by
    rcases Outcome.bind_eq_error.1 hrun with hfail | ⟨a, -, hfail⟩
    · exact h.error hfail
    · cases hfail

theorem Makes.of_iff {α : Type} {run : Except DimensionFault α} {blocked blocked' : Prop} {holds : α → Prop}
    (h : Makes t run blocked holds) (hiff : blocked ↔ blocked') : Makes t run blocked' holds where
  ok hrun := ⟨fun hblocked => (h.ok hrun).1 (hiff.2 hblocked), (h.ok hrun).2⟩
  error hrun := ⟨hiff.1 (h.error hrun).1, (h.error hrun).2⟩

section Trees

variable (hcurrent : t.Current) (hroles : ∀ e ∈ t.effective, e.targetRole = none)
include hcurrent hroles

theorem makes_member {free : List QName} {e : Edge} (he : e ∈ t.effective)
    (harcrole : e.arcrole ≠ .hypercubeDimension) :
    Makes t (s.member free t e) (s.Blocked t free e) fun m =>
      m.paths = (s.walksFrom t free e).map (·.map Edge.target) := by
  induction free using erase_induction generalizing e with
  | step free ih =>
    rw [Space.member]
    by_cases hfree : e.target ∈ free
    · have honward : s.onward t e = t.edgesFrom e.target .domainMember := if_neg harcrole
      have hchildren : Makes t ((s.onward t e).mapM (s.member (free.erase e.target) t))
          (∃ c ∈ s.onward t e, s.Blocked t (free.erase e.target) c) fun ms =>
          ms.flatMap Member.paths =
            ((s.onward t e).flatMap (s.walksFrom t (free.erase e.target))).map (·.map Edge.target) := by
        refine Makes.mapM fun c hc => ?_
        rw [honward] at hc
        obtain ⟨hc, -, hmember⟩ := hcurrent.mem_edgesFrom.1 hc
        exact ih _ hfree hc (by rw [hmember]; decide)
      simp only [hfree, if_true, follow_of_none (hroles e he)]
      change Makes t ((t.edgesFrom e.target .domainMember).mapM (s.member (free.erase e.target) t) >>=
        fun children => pure (Member.mk e.target (e.usable && !t.isUnusable e.target) children)) _ _
      rw [← honward]
      refine (hchildren.of_iff (blocked_iff_of_mem hfree).symm).map _ fun ms hms => ?_
      rw [Member.paths, Member.pathsAll_eq, hms, walksFrom_of_mem hfree]
      simp
    · simp only [hfree, if_false]
      refine (makes_checkCycle hfree).map _ fun _ _ => ?_
      rw [walksFrom_of_not_mem hfree, Member.paths, Member.pathsAll]
      rfl

/-- The paths of a dimension that may be there. -/
theorem makes_dimensionOf {free : List QName} {e : Edge} (he : e ∈ t.effective)
    (harcrole : e.arcrole = .hypercubeDimension) :
    Makes t (s.dimensionOf free t e) (s.Blocked t free e) fun d =>
      (d.map ResolvedDimension.paths).getD [] =
        (if e.target ∈ free then s.walksFrom t free e else []).map (·.map Edge.target) := by
  unfold dimensionOf
  by_cases hfree : e.target ∈ free
  · have honward : s.onward t e =
        if s.isTyped e.target then [] else t.edgesFrom e.target .dimensionDomain := if_pos harcrole
    have hdomains : Makes t ((s.onward t e).mapM (s.member (free.erase e.target) t))
        (∃ c ∈ s.onward t e, s.Blocked t (free.erase e.target) c) fun ms =>
        ms.flatMap Member.paths =
          ((s.onward t e).flatMap (s.walksFrom t (free.erase e.target))).map (·.map Edge.target) := by
      refine Makes.mapM fun c hc => ?_
      have hc' : c ∈ t.edgesFrom e.target .dimensionDomain := by
        rw [honward] at hc
        split at hc
        · cases hc
        · exact hc
      obtain ⟨hc', -, hdomain⟩ := hcurrent.mem_edgesFrom.1 hc'
      exact makes_member hcurrent hroles hc' (by rw [hdomain]; decide)
    have hdimension : s.dimension (free.erase e.target) t e.target =
        (s.onward t e).mapM (s.member (free.erase e.target) t) >>= fun domains =>
          pure ⟨e.target, s.isTyped e.target, s.default? e.target, domains⟩ := by
      unfold dimension
      rw [honward]
      cases s.isTyped e.target <;> rfl
    simp only [hfree, if_true, follow_of_none (hroles e he)]
    change Makes t (s.dimension (free.erase e.target) t e.target >>= fun d => pure (some d)) _ _
    rw [hdimension]
    refine ((hdomains.of_iff (blocked_iff_of_mem hfree).symm).map _ fun ms hms => ?_).map some fun d hd => hd
    change ResolvedDimension.paths _ = _
    rw [ResolvedDimension.paths, hms, walksFrom_of_mem hfree]
    simp
  · simp only [hfree, if_false]
    exact (makes_checkCycle hfree).map _ fun _ _ => rfl

/-- The tree of a hypercube has a path for each walk. -/
theorem makes_hypercube {e : Edge} (he : e ∈ t.effective) :
    Makes t (s.hypercube t e)
      (∃ d ∈ t.edgesFrom e.target .hypercubeDimension, s.Blocked t (s.nodes.toList.erase e.target) d)
      fun tree => tree.paths = (s.walks t e.target).map fun w => e.target :: w.map Edge.target := by
  let free := s.nodes.toList.erase e.target
  have hdimensions : Makes t ((t.edgesFrom e.target .hypercubeDimension).mapM (s.dimensionOf free t))
      (∃ d ∈ t.edgesFrom e.target .hypercubeDimension, s.Blocked t free d) fun ds =>
      ds.flatMap (fun d => (d.map ResolvedDimension.paths).getD []) =
        ((t.edgesFrom e.target .hypercubeDimension).flatMap fun d =>
          if d.target ∈ free then s.walksFrom t free d else []).map (·.map Edge.target) := by
    refine Makes.mapM fun d hd => ?_
    obtain ⟨hd, -, harcrole⟩ := hcurrent.mem_edgesFrom.1 hd
    exact makes_dimensionOf hcurrent hroles hd harcrole
  unfold hypercube
  simp only [follow_of_none (hroles e he)]
  refine hdimensions.map _ fun ds hds => ?_
  have hkept : (ds.filterMap id).flatMap ResolvedDimension.paths =
      ds.flatMap fun d => (d.map ResolvedDimension.paths).getD [] := by
    clear hds
    induction ds with
    | nil => rfl
    | cons d ds ih =>
      cases d with
      | none => exact ih
      | some d => exact congrArg (d.paths ++ ·) ih
  rw [HypercubeTree.paths, hkept, hds, walks]
  simp [free]

end Trees

end Space

end TaxonomySet.Dimension
