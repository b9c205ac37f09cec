import Mathlib
import TaxonomySet.Proofs.Dimension.Inheritance
import TaxonomySet.Proofs.Sample
import TaxonomySet.Proofs.Session.History

namespace TaxonomySet

/-- Whether a fault is told from the tables as they stand, without resolving a hypercube. -/
def DimensionFault.IsStanding : DimensionFault → Prop
  | .typedDimensionWithDomain _ | .tooManyDefaults .. => True
  | _ => False

/-- The role in which the resolution of a hypercube has met a fault. -/
def DimensionFault.role? : DimensionFault → Option String
  | .notLinked _ _ role | .targetRoleNotResolved role _ _ | .cycle _ _ role => some role
  | .typedDimensionWithDomain _ | .tooManyDefaults .. => none

namespace Finding

variable {α : Type} {found : List Finding}

theorem mem_gather {a : Except DimensionFault α} {x : Finding} :
    x ∈ gather found a ↔ x ∈ found ∨ ∃ f, a = .error f ∧ x = .dimension f := by
  cases a with
  | ok made => simp [gather]
  | error f =>
    by_cases hfound : .dimension f ∈ found
    · simp only [gather, hfound, if_true, Except.error.injEq, exists_eq_left']
      exact (or_iff_left_of_imp fun heq => heq ▸ hfound).symm
    · simp [gather, hfound]

theorem nodup_gather (h : found.Nodup) (a : Except DimensionFault α) : (gather found a).Nodup := by
  cases a with
  | ok made => exact h
  | error f =>
    by_cases hfound : .dimension f ∈ found
    · simpa only [gather, hfound, if_true] using h
    · simpa only [gather, hfound, if_false, List.concat_eq_append] using h.concat hfound

end Finding

namespace Conformance

open Dimension

variable {f : DimensionFault}

theorem dimension_not_mem_checkEdges (classOf : QName → ConceptClass) (tables : List Table) :
    Finding.dimension f ∉ checkEdges classOf tables := by
  unfold checkEdges
  intro h
  obtain ⟨t, -, h⟩ := List.mem_flatMap.1 h
  obtain ⟨e, -, h⟩ := List.mem_flatMap.1 h
  unfold checkEdge at h
  simp only [List.mem_append] at h
  rcases h with (h | h) | h
  · split at h <;> simp at h
  · split at h <;> simp at h
  · split at h <;> simp at h

theorem isStanding_of_mem_standing {checks : Checks} {d : Dts} {i : Index}
    (h : Finding.dimension f ∈ standing checks d i) : f.IsStanding := by
  unfold standing at h
  rcases List.mem_append.1 h with h | h
  · split at h
    · simp only [List.mem_append] at h
      rcases h with (h | h) | h
      · exact absurd h (dimension_not_mem_checkEdges _ _)
      · simp [checkHypercubes] at h
      · simp [checkCategories] at h
    · cases h
  · split at h
    · rcases List.mem_append.1 h with h | h
      · obtain ⟨d, -, h⟩ := List.mem_filterMap.1 h
        dsimp only at h
        split at h
        · cases h
          trivial
        · cases h
      · obtain ⟨d, -, h⟩ := List.mem_map.1 h
        cases h
        trivial
    · cases h

end Conformance

namespace Dimension

/-- The edge is the first of those that tie its source to its target. -/
def Table.IsFirstLink (t : Table) (e : Edge) : Prop :=
  (t.hasHypercubeEdges e.source).find? (·.target == e.target) = some e

theorem Table.IsFirstLink.mem {t : Table} (hcurrent : t.Current) {e : Edge} (h : t.IsFirstLink e) :
    e ∈ t.effective ∧ e.arcrole.isHasHypercube = true := by
  obtain ⟨he, -, harcrole⟩ := hcurrent.mem_hasHypercubeEdges.1 (List.mem_of_find?_eq_some h)
  exact ⟨he, harcrole⟩

/-- Every link has a first one with its ends. -/
theorem Table.exists_isFirstLink {t : Table} (hcurrent : t.Current) {e : Edge} (he : e ∈ t.effective)
    (harcrole : e.arcrole.isHasHypercube = true) :
    ∃ d, t.IsFirstLink d ∧ d.source = e.source ∧ d.target = e.target := by
  have hown : e ∈ t.hasHypercubeEdges e.source := hcurrent.mem_hasHypercubeEdges.2 ⟨he, rfl, harcrole⟩
  cases hfirst : (t.hasHypercubeEdges e.source).find? (·.target == e.target) with
  | none => exact absurd (List.find?_eq_none.1 hfirst e hown) (by simp)
  | some d =>
    have htarget : d.target = e.target := by simpa using List.find?_some hfirst
    obtain ⟨-, hsource, -⟩ := hcurrent.mem_hasHypercubeEdges.1 (List.mem_of_find?_eq_some hfirst)
    refine ⟨d, ?_, hsource, htarget⟩
    unfold IsFirstLink
    rwa [hsource, htarget]

namespace Space

variable {s : Space} {t : Table} {e : Edge} {f : DimensionFault}

theorem role_of_follow {below : Table} (h : s.follow t e = .ok below) : below.role = t.role := by
  unfold follow at h
  split at h
  · cases h
    rfl
  · split at h
    · cases h
      rfl
    · split at h
      · cases h
        rw [Table.role_merge, Table.role_withoutDownstream]
      · cases h

theorem follow_eq_error_iff :
    s.follow t e = .error f ↔ ∃ role, e.targetRole = some role ∧ role ≠ t.role ∧ s.tables.get? role = none ∧
      f = .targetRoleNotResolved t.role role e.arcrole := by
  unfold follow
  cases e.targetRole with
  | none => simp
  | some role =>
    by_cases hrole : role = t.role
    · simp [hrole]
    · cases hget : s.tables.get? role with
      | none => simp [hrole, hget, eq_comm]
      | some target => simp [hrole, hget]

theorem role?_of_follow (h : s.follow t e = .error f) : f.role? = some t.role := by
  obtain ⟨role, -, -, -, rfl⟩ := follow_eq_error_iff.1 h
  rfl

theorem role?_of_checkCycle (h : s.checkCycle t e = .error f) : f.role? = some t.role := by
  unfold checkCycle at h
  split at h
  · cases h
  · cases h
    rfl

theorem role?_of_member {free : List QName} (h : s.member free t e = .error f) : f.role? = some t.role := by
  induction free using erase_induction generalizing t e with
  | step free ih =>
    rw [Space.member] at h
    by_cases hfree : e.target ∈ free
    · simp only [hfree, if_true] at h
      rcases Outcome.bind_eq_error.1 h with h | ⟨below, hbelow, h⟩
      · exact role?_of_follow h
      · obtain ⟨child, -, h⟩ := Outcome.mapM_eq_error (Outcome.bind_pure_eq_error.1 h)
        rw [← role_of_follow hbelow]
        exact ih _ hfree h
    · simp only [hfree, if_false] at h
      exact role?_of_checkCycle (Outcome.bind_pure_eq_error.1 h)

theorem role?_of_dimension {free : List QName} {name : QName} (h : s.dimension free t name = .error f) :
    f.role? = some t.role := by
  unfold dimension at h
  dsimp only at h
  split at h
  · cases h
  · obtain ⟨d, -, h⟩ := Outcome.mapM_eq_error (Outcome.bind_pure_eq_error.1 h)
    exact role?_of_member h

theorem role?_of_dimensionOf {free : List QName} (h : s.dimensionOf free t e = .error f) :
    f.role? = some t.role := by
  unfold dimensionOf at h
  split at h
  · rcases Outcome.bind_eq_error.1 h with h | ⟨below, hbelow, h⟩
    · exact role?_of_follow h
    · rw [← role_of_follow hbelow]
      exact role?_of_dimension (Outcome.bind_pure_eq_error.1 h)
  · exact role?_of_checkCycle (Outcome.bind_pure_eq_error.1 h)

/-- Whatever other tables a hypercube leads into, its faults name the role that it was asked for in. -/
theorem role?_of_hypercube (h : s.hypercube t e = .error f) : f.role? = some t.role := by
  unfold hypercube at h
  rcases Outcome.bind_eq_error.1 h with h | ⟨below, hbelow, h⟩
  · exact role?_of_follow h
  · obtain ⟨d, -, h⟩ := Outcome.mapM_eq_error (Outcome.bind_pure_eq_error.1 h)
    rw [← role_of_follow hbelow]
    exact role?_of_dimensionOf h

theorem find?_of_find?_own {primary : QName} {es : List Edge} {p : Edge → Bool}
    (h : s.hasHypercubeEdges t primary = .ok es) (he : (t.hasHypercubeEdges primary).find? p = some e) :
    es.find? p = some e := by
  obtain ⟨es', hes', rfl⟩ := Outcome.map_eq_ok.1 h
  obtain ⟨above, -, rfl⟩ := inherited_eq_ok.1 hes'
  rw [find?_eraseDups, List.find?_append, he]
  rfl

/-- A question from the source of a link is answered with the hypercube at the end of the first link with the same
ends, if the way up does not fail. -/
theorem findHypercube_isFirstLink {role : String} (ht : s.tables.get? role = some t) (he : t.IsFirstLink e) :
    s.findHypercube e.source e.target role =
      s.hasHypercubeEdges t e.source >>= fun _ => s.edgeHypercube t e.source e := by
  cases hes : s.hasHypercubeEdges t e.source with
  | error f => exact findHypercube_of_error ht hes e.target
  | ok es => exact findHypercube_of_ok ht hes (find?_of_find?_own hes he)

/-- What stands in the way of a first link: a way up that fails, or its hypercube. -/
def Stops (s : Space) (t : Table) (e : Edge) (f : DimensionFault) : Prop :=
  s.hasHypercubeEdges t e.source = .error f ∨
    (∃ es, s.hasHypercubeEdges t e.source = .ok es) ∧ s.hypercube t e = .error f

theorem findHypercube_eq_error_iff {role : String} (ht : s.tables.get? role = some t) (he : t.IsFirstLink e) :
    s.findHypercube e.source e.target role = .error f ↔ s.Stops t e f := by
  rw [findHypercube_isFirstLink ht he, Outcome.bind_eq_error, Stops, exists_and_right]
  exact or_congr_right (and_congr_right fun _ => Outcome.map_eq_error)

/-- What is found are the faults that any of the links meets. -/
theorem mem_faults {found : List Finding} {links : List (QName × QName × String)} {x : Finding} :
    x ∈ s.faults found links ↔ x ∈ found ∨ ∃ l ∈ links, ∃ f,
      s.findHypercube l.1 l.2.1 l.2.2 = .error f ∧ x = .dimension f := by
  induction links generalizing found with
  | nil => simp [faults]
  | cons l links ih =>
    simp only [faults_cons, ih, Finding.mem_gather, List.mem_cons, or_and_right, exists_or, exists_eq_left, or_assoc]

/-- Each fault is found once. -/
theorem nodup_faults {found : List Finding} (h : found.Nodup) (links : List (QName × QName × String)) :
    (s.faults found links).Nodup := by
  induction links generalizing found with
  | nil => exact h
  | cons l links ih =>
    rw [faults_cons]
    exact ih (Finding.nodup_gather h _)

end Space

end Dimension

open Dimension

namespace Session

/-- Everything that a validation finds. -/
def found (s : Session) (checks : Conformance.Checks) : List Finding :=
  Conformance.standing checks s.dts s.index ++ s.resolving checks

/-- What a validation finds that does not have to be clean. -/
theorem Settled.validate_fst_of_not_strict {s : Session} (h : s.Settled) {checks : Conformance.Checks}
    (hstrict : checks.strict = false) : (s.validate checks).1 = .ok (s.found checks) := by
  rw [h.validate_fst]
  unfold findings
  rw [hstrict]
  rfl

theorem Settled.validate_eq_ok {s : Session} (h : s.Settled) {checks : Conformance.Checks}
    (hdimensions : checks.dimensions = true) (hstrict : checks.strict = false) :
    (s.validate checks).1 = .ok (Conformance.standing checks s.dts s.index ++
      s.space.faults [] (Conformance.hypercubeLinks s.index.tables.values)) := by
  rw [h.validate_fst_of_not_strict hstrict, found, resolving, if_pos hdimensions]

/-- Resolving the links finds what stands in the way of the first of those with the same ends. -/
theorem Settled.mem_faults {s : Session} (h : s.Settled) {f : DimensionFault} :
    .dimension f ∈ s.space.faults [] (Conformance.hypercubeLinks s.index.tables.values) ↔
      ∃ role t e, s.space.tables.get? role = some t ∧ t.IsFirstLink e ∧ s.space.Stops t e f := by
  rw [Space.mem_faults, or_iff_right List.not_mem_nil]
  constructor
  · rintro ⟨l, hl, f', hfault, heq⟩
    cases heq
    obtain ⟨t, ht, hl⟩ := List.mem_flatMap.1 hl
    obtain ⟨e, he, rfl⟩ := List.mem_map.1 hl
    obtain ⟨role, hrole⟩ := SortedMap.mem_values_iff.1 ht
    have htable : s.space.tables.get? role = some t := hrole
    have hcurrent := h.wellFormed.current htable
    obtain ⟨he, harcrole⟩ := List.mem_filter.1 he
    rw [hcurrent.all_eq] at he
    obtain ⟨d, hfirst, hsource, htarget⟩ := Table.exists_isFirstLink hcurrent he harcrole
    rw [h.wellFormed.role_eq htable, ← hsource, ← htarget] at hfault
    exact ⟨role, t, d, htable, hfirst, (Space.findHypercube_eq_error_iff htable hfirst).1 hfault⟩
  · rintro ⟨role, t, e, ht, hfirst, hstops⟩
    have hcurrent := h.wellFormed.current ht
    refine ⟨(e.source, e.target, role), List.mem_flatMap.2 ⟨t, SortedMap.mem_values_of_get? ht, ?_⟩, f,
      (Space.findHypercube_eq_error_iff ht hfirst).2 hstops, rfl⟩
    rw [hcurrent.all_eq, List.mem_map, h.wellFormed.role_eq ht]
    exact ⟨e, List.mem_filter.2 (hfirst.mem hcurrent), rfl⟩

/-- Cycles of domain-member edges are ruled out, and the way up from a concept leads to one. -/
def BlockedAbove (s : Session) (primary : QName) (role : String) : Prop :=
  ∃ t, s.space.tables.get? role = some t ∧ (s.space.cyclesOf .domainMember).allowsDirected = false ∧
    t.CycleAbove primary

theorem Settled.blockedAbove_iff {s : Session} (h : s.Settled) {role : String} {t : Table}
    (ht : s.space.tables.get? role = some t) {primary : QName} :
    s.BlockedAbove primary role ↔
      ∃ a, s.space.hasHypercubeEdges t primary = .error (.cycle a .domainMember role) := by
  have hcurrent := h.wellFormed.current ht
  have hsources := h.wellFormed.source_mem ht
  constructor
  · rintro ⟨t', ht', hblocked⟩
    obtain rfl : t = t' := Option.some.inj (ht.symm.trans ht')
    cases hes : s.space.hasHypercubeEdges t primary with
    | ok es => exact absurd hblocked ((Space.exists_hasHypercubeEdges_eq_ok hcurrent hsources).1 ⟨es, hes⟩)
    | error f =>
      obtain ⟨-, ⟨a, rfl⟩, -⟩ := Space.hasHypercubeEdges_of_error hcurrent hsources hes
      exact ⟨a, by rw [h.wellFormed.role_eq ht]⟩
  · rintro ⟨a, ha⟩
    obtain ⟨hforbids, -, hcycle⟩ := Space.hasHypercubeEdges_of_error hcurrent hsources ha
    exact ⟨t, ht, hforbids, hcycle⟩

theorem Settled.not_blockedAbove_iff {s : Session} (h : s.Settled) {role : String} {t : Table}
    (ht : s.space.tables.get? role = some t) {primary : QName} :
    ¬ s.BlockedAbove primary role ↔ ∃ es, s.space.hasHypercubeEdges t primary = .ok es := by
  rw [Space.exists_hasHypercubeEdges_eq_ok (h.wellFormed.current ht) (h.wellFormed.source_mem ht), not_iff_not]
  constructor
  · rintro ⟨t', ht', hblocked⟩
    obtain rfl : t = t' := Option.some.inj (ht.symm.trans ht')
    exact hblocked
  · exact fun hblocked => ⟨t, ht, hblocked⟩

/-- Among the findings is that a target role has no table, or the cycle that the way up from a concept comes to. -/
def Reports (s : Session) (findings : List Finding) (primary : QName) (role target : String) : Prop :=
  (∃ arcrole, .dimension (.targetRoleNotResolved role target arcrole) ∈ findings) ∨
    ∃ t a, s.space.tables.get? role = some t ∧
      s.space.hasHypercubeEdges t primary = .error (.cycle a .domainMember role) ∧
      .dimension (.cycle a .domainMember role) ∈ findings

theorem Settled.reports_iff {s : Session} (h : s.Settled) (checks : Conformance.Checks) {role : String} {t : Table}
    (ht : s.space.tables.get? role = some t) {e : Edge} (he : e ∈ t.effective)
    (harcrole : e.arcrole.isHasHypercube = true) (target : String) :
    s.Reports (Conformance.standing checks s.dts s.index ++
        s.space.faults [] (Conformance.hypercubeLinks s.index.tables.values)) e.source role target ↔
      s.BlockedAbove e.source role ∨
        ∃ d, t.IsFirstLink d ∧ ¬ s.BlockedAbove d.source role ∧
          ∃ arcrole, s.space.hypercube t d = .error (.targetRoleNotResolved role target arcrole) := by
  have hmem {f : DimensionFault} (hf : ¬ f.IsStanding) :
      .dimension f ∈ Conformance.standing checks s.dts s.index ++
          s.space.faults [] (Conformance.hypercubeLinks s.index.tables.values) ↔
        ∃ role t e, s.space.tables.get? role = some t ∧ t.IsFirstLink e ∧ s.space.Stops t e f := by
    rw [List.mem_append, h.mem_faults, or_iff_right (hf ∘ Conformance.isStanding_of_mem_standing)]
  constructor
  · rintro (⟨arcrole, hfound⟩ | ⟨t', a, ht', hcycle, -⟩)
    · obtain ⟨role', t', d, ht', hfirst, hstops⟩ := (hmem (by simp [DimensionFault.IsStanding])).1 hfound
      rcases hstops with hfail | ⟨hok, hfail⟩
      · obtain ⟨-, ⟨a, hcycle⟩, -⟩ := Space.hasHypercubeEdges_of_error (h.wellFormed.current ht')
          (h.wellFormed.source_mem ht') hfail
        cases hcycle
      · have hrole : role = role' :=
          (Option.some.inj (Space.role?_of_hypercube hfail)).trans (h.wellFormed.role_eq ht')
        subst hrole
        obtain rfl : t = t' := Option.some.inj (ht.symm.trans ht')
        exact .inr ⟨d, hfirst, (h.not_blockedAbove_iff ht).2 hok, arcrole, hfail⟩
    · exact .inl ((h.blockedAbove_iff ht').2 ⟨a, hcycle⟩)
  · rintro (hblocked | ⟨d, hfirst, hfree, arcrole, hfail⟩)
    · obtain ⟨a, hcycle⟩ := (h.blockedAbove_iff ht).1 hblocked
      obtain ⟨d, hfirst, hsource, -⟩ := Table.exists_isFirstLink (h.wellFormed.current ht) he harcrole
      refine .inr ⟨t, a, ht, hcycle, (hmem (by simp [DimensionFault.IsStanding])).2
        ⟨role, t, d, ht, hfirst, .inl ?_⟩⟩
      rwa [hsource]
    · exact .inl ⟨arcrole, (hmem (by simp [DimensionFault.IsStanding])).2
        ⟨role, t, d, ht, hfirst, .inr ⟨(h.not_blockedAbove_iff ht).1 hfree, hfail⟩⟩⟩

/-- A validation tells that the target role of a link has no table, or of the cycle above the link, exactly if there
is such a cycle or a link that is the first with its ends comes to the same target role. The link itself may be that
one. If another link with the same ends stands before it, nobody asks where it leads. -/
theorem Finalized.reports_of_validate {s : Session} (h : s.Finalized) (checks : Conformance.Checks)
    (hdimensions : checks.dimensions = true) (hstrict : checks.strict = false) {role : String} {t : Table}
    (ht : s.space.tables.get? role = some t) {e : Edge} (he : e ∈ t.effective)
    (harcrole : e.arcrole.isHasHypercube = true) {target : String} (htarget : e.targetRole = some target)
    (hother : target ≠ role) (hmissing : s.space.tables.get? target = none) :
    ∃ findings, (s.validate checks).1 = .ok findings ∧
      (s.Reports findings e.source role target ↔
        s.BlockedAbove e.source role ∨
          ∃ d, t.IsFirstLink d ∧ ¬ s.BlockedAbove d.source role ∧
            ∃ arcrole, s.space.hypercube t d = .error (.targetRoleNotResolved role target arcrole)) ∧
      (t.IsFirstLink e → s.Reports findings e.source role target) := by
  have hreports := h.settled.reports_iff checks ht he harcrole target
  refine ⟨_, h.settled.validate_eq_ok hdimensions hstrict, hreports, fun hfirst => hreports.2 ?_⟩
  by_cases hblocked : s.BlockedAbove e.source role
  · exact .inl hblocked
  · refine .inr ⟨e, hfirst, hblocked, e.arcrole, Outcome.bind_eq_error.2 (.inl ?_)⟩
    have hrole := h.settled.wellFormed.role_eq ht
    exact Space.follow_eq_error_iff.2 ⟨target, htarget, hrole ▸ hother, hmissing, by rw [hrole]⟩

/-- The first link may have a target role too. -/
def doubled (targetRole : Option String) : Session :=
  Sample.session [Sample.item "p", Sample.hypercube "h", Sample.dimension "d", Sample.item "m"] [
    Sample.link "r" [Sample.arc .all "p" "h" targetRole, Sample.arc .notAll "p" "h" (some "missing"),
      Sample.arc .hypercubeDimension "h" "d" none, Sample.arc .dimensionDomain "d" "m" none]]

set_option maxRecDepth 20000 in
theorem doubled_tables (targetRole : Option String) (h : targetRole = none ∨ targetRole = some "missing") :
    (doubled targetRole).space.tables.get? "r" = some (Sample.table (doubled targetRole) "r") ∧
      (doubled targetRole).space.tables.get? "missing" = none ∧
      (Sample.table (doubled targetRole) "r").effective = [
        Sample.edge .dimensionDomain "d" "m" none, Sample.edge .hypercubeDimension "h" "d" none,
        Sample.edge .all "p" "h" targetRole, Sample.edge .notAll "p" "h" (some "missing")] := by
  rcases h with rfl | rfl
  · refine ⟨Sample.get?_tables (by decide +kernel), by decide +kernel, ?_⟩
    unfold doubled
    cbv
  · refine ⟨Sample.get?_tables (by decide +kernel), by decide +kernel, ?_⟩
    unfold doubled
    cbv

/-- The target role of the first link is told. -/
theorem reports_doubled :
    let s := doubled (some "missing")
    let e := Sample.edge .all "p" "h" (some "missing")
    s.Finalized ∧ e ∈ (Sample.table s "r").effective ∧ (Sample.table s "r").IsFirstLink e ∧
      ∃ findings, (s.validate {}).1 = .ok findings ∧ s.Reports findings (Sample.name "p") "r" "missing" := by
  intro s e
  have hfinalized : s.Finalized := .finalize _
  obtain ⟨htable, hmissing, heffective⟩ := doubled_tables (some "missing") (.inr rfl)
  have he : e ∈ (Sample.table s "r").effective := by simp [s, e, heffective]
  have hfirst : (Sample.table s "r").IsFirstLink e := by
    unfold Table.IsFirstLink
    rw [(hfinalized.settled.wellFormed.current htable).hasHypercubeEdges_eq, heffective]
    decide +kernel
  obtain ⟨findings, hok, -, hreports⟩ := Finalized.reports_of_validate hfinalized {} rfl rfl htable he rfl rfl
    (by decide) hmissing
  exact ⟨hfinalized, he, hfirst, findings, hok, hreports hfirst⟩

set_option maxRecDepth 20000 in
theorem doubled_clean : ((doubled none).validate {}).1 = .ok [] := by
  unfold doubled
  cbv

theorem not_forall_reports :
    ¬ ∀ s : Session, s.Finalized →
      ∀ checks : Conformance.Checks, checks.dimensions = true → checks.strict = false → ∀ role t,
        s.space.tables.get? role = some t → ∀ e ∈ t.effective, e.arcrole.isHasHypercube = true →
        ∀ target, e.targetRole = some target → target ≠ role → s.space.tables.get? target = none →
          ∃ findings, (s.validate checks).1 = .ok findings ∧ s.Reports findings e.source role target := by
  intro hall
  obtain ⟨htable, hmissing, heffective⟩ := doubled_tables none (.inl rfl)
  have he : Sample.edge .notAll "p" "h" (some "missing") ∈ (Sample.table (doubled none) "r").effective := by
    simp [heffective]
  obtain ⟨findings, hok, hreports⟩ := hall (doubled none) (.finalize _) {} rfl rfl "r" _ htable _ he rfl "missing"
    rfl (by decide) hmissing
  obtain rfl : findings = [] := (Except.ok.inj (doubled_clean.symm.trans hok)).symm
  rcases hreports with ⟨_, hfound⟩ | ⟨_, _, -, -, hfound⟩ <;> exact List.not_mem_nil hfound

end Session

end TaxonomySet
