import TaxonomySet.Proofs.Dimension.Findings

namespace TaxonomySet

universe u v

/-- Two lists with the same members, the second without repetitions, hold them equally often if the first has no
repetitions either. -/
theorem map_perm_map_iff_nodup {α : Type u} {β : Type v} {as bs : List α} (hbs : bs.Nodup)
    (hmem : ∀ a, a ∈ as ↔ a ∈ bs) (f : α → β) : (as.map f).Perm (bs.map f) ↔ as.Nodup := by
  constructor
  · intro h
    have hlength : as.length = bs.length := by simpa using h.length_eq
    have hsub : bs.Subperm as := hbs.subperm fun b hb => (hmem b).2 hb
    exact (hsub.perm_of_length_le hlength.le).nodup_iff.1 hbs
  · exact fun has => ((List.perm_ext_iff_of_nodup has hbs).2 hmem).map f

namespace Journal

@[simp] theorem report_nil (j : Journal) : j.report [] = j := by
  obtain ⟨keeps, entries⟩ := j
  cases keeps <;> simp [report]

theorem report_report (j : Journal) (ds es : List Diagnostic) :
    (j.report ds).report es = j.report (ds ++ es) := by
  obtain ⟨keeps, entries⟩ := j
  cases keeps <;> simp [report]

end Journal

open Dimension

/-- The fault in an answer, if it is a cycle. -/
def DimensionFault.cycle? {α : Type} : Except DimensionFault α → Option DimensionFault
  | .ok _ => none
  | .error f => if f.isCycle then some f else none

theorem DimensionFault.cycle?_eq_some_iff {α : Type} {a : Except DimensionFault α} {f : DimensionFault} :
    cycle? a = some f ↔ a = .error f ∧ f.isCycle = true := by
  cases a with
  | ok made => simp [cycle?]
  | error g =>
    simp only [cycle?, Option.ite_none_right_eq_some, Option.some_inj, Except.error.injEq]
    constructor
    · rintro ⟨hcycle, rfl⟩
      exact ⟨rfl, hcycle⟩
    · rintro ⟨rfl, hcycle⟩
      exact ⟨hcycle, rfl⟩

namespace Dimension.Space

variable {s : Space} {links : List (QName × QName × String)}

/-- The cycles that stop questions for the hypercubes of links, once for every link. -/
def cyclesMet (s : Space) (links : List (QName × QName × String)) : List DimensionFault :=
  links.filterMap fun l => DimensionFault.cycle? (s.findHypercube l.1 l.2.1 l.2.2)

theorem mem_cyclesMet {f : DimensionFault} :
    f ∈ s.cyclesMet links ↔ f.isCycle = true ∧ ∃ l ∈ links, s.findHypercube l.1 l.2.1 l.2.2 = .error f := by
  unfold cyclesMet
  simp only [List.mem_filterMap, DimensionFault.cycle?_eq_some_iff]
  constructor
  · rintro ⟨l, hl, hfault, hcycle⟩
    exact ⟨hcycle, l, hl, hfault⟩
  · rintro ⟨hcycle, l, hl, hfault⟩
    exact ⟨l, hl, hfault, hcycle⟩

end Dimension.Space

theorem Conformance.isCycle_of_mem_standing {checks : Checks} {d : Dts} {i : Index} {x : Finding}
    (h : x ∈ standing checks d i) : x.isCycle = false := by
  cases x with
  | dimension f =>
    have hstanding := isStanding_of_mem_standing h
    cases f with
    | cycle node arcrole role => exact hstanding.elim
    | _ => rfl
  | _ => rfl

namespace Session

/-- What a validation reports, as a journal shows it that keeps everything and is empty before. Cycles are reported by
the questions that they stop, each time that one is asked, and all else by the validation itself. -/
def sent (s : Session) (checks : Conformance.Checks) : List Diagnostic :=
  (({ s with journal := {} } : Session).validate checks).2.journal.entries

/-- The cycles that a validation runs into, once for every link to a hypercube that leads it there. -/
def cyclesMet (s : Session) (checks : Conformance.Checks) : List Finding :=
  if checks.dimensions then
    (s.space.cyclesMet (Conformance.hypercubeLinks s.index.tables.values)).map .dimension
  else []

@[simp] theorem journal_report (s : Session) (ds : List Diagnostic) :
    (s.report ds).journal = s.journal.report ds := rfl

@[simp] theorem space_report (s : Session) (ds : List Diagnostic) : (s.report ds).space = s.space := rfl

theorem query_journal {α : Type} (s : Session) (q : Query α) :
    (s.query q).2.journal =
      s.journal.report ((DimensionFault.cycle? (s.query q).1).toList.map DimensionFault.diagnostic) := by
  unfold query
  rcases q.answer s.trees with ⟨fault | a, trees⟩
  · by_cases hcycle : fault.isCycle
    · simp [DimensionFault.cycle?, hcycle, report]
    · simp [DimensionFault.cycle?, hcycle]
  · simp [DimensionFault.cycle?]

/-- Resolving links reports nothing but the cycles that they run into, whatever trees are kept. -/
theorem Settled.checkResolution_journal {s : Session} (h : s.Settled) (found : List Finding)
    (links : List (QName × QName × String)) :
    (s.checkResolution found links).2.journal =
      s.journal.report ((s.space.cyclesMet links).map DimensionFault.diagnostic) := by
  induction links generalizing s found with
  | nil => exact (Journal.report_nil _).symm
  | cons l links ih =>
    obtain ⟨hanswer, hnext⟩ := h.resolveHypercube l.1 l.2.1 l.2.2
    have hasked : (s.resolveHypercube l.1 l.2.1 l.2.2).2.journal = s.journal.report
        ((DimensionFault.cycle? (s.space.findHypercube l.1 l.2.1 l.2.2)).toList.map DimensionFault.diagnostic) := by
      rw [← hanswer]
      exact query_journal s _
    rw [checkResolution_cons, ih hnext, hasked, resolveHypercube_space, Journal.report_report, ← List.map_append]
    simp only [Space.cyclesMet, List.filterMap_eq_flatMap_toList, List.flatMap_cons]

theorem Settled.checked_journal {s : Session} (h : s.Settled) (checks : Conformance.Checks) :
    (s.checked checks).2.journal = s.journal.report
      ((Conformance.standing checks s.dts s.index ++ s.cyclesMet checks).map Finding.diagnostic) := by
  have hreported := h.report ((Conformance.standing checks s.dts s.index).map Finding.diagnostic)
  unfold Session.checked cyclesMet
  dsimp only
  split
  · rw [hreported.checkResolution_journal, space_report, journal_report, Journal.report_report, List.map_append,
      List.map_map]
    rfl
  · rw [journal_report, List.append_nil]

theorem Settled.validate_journal {s : Session} (h : s.Settled) (checks : Conformance.Checks) :
    (s.validate checks).2.journal = s.journal.report
      ((Conformance.standing checks s.dts s.index ++ s.cyclesMet checks ++
        (s.resolving checks).filter fun f => !f.isCycle).map Finding.diagnostic) := by
  rw [validate_eq, h.checked_fst, journal_report, h.checked_journal, Journal.report_report, ← List.map_append]

theorem Settled.sent_eq {s : Session} (h : s.Settled) (checks : Conformance.Checks) :
    s.sent checks = (Conformance.standing checks s.dts s.index ++ s.cyclesMet checks ++
      (s.resolving checks).filter fun f => !f.isCycle).map Finding.diagnostic := by
  have hsettled : ({ s with journal := {} } : Session).Settled := h.of_trees rfl rfl h.keeps
  unfold sent
  rw [hsettled.validate_journal]
  exact List.nil_append _

theorem nodup_resolving (s : Session) (checks : Conformance.Checks) : (s.resolving checks).Nodup := by
  unfold resolving
  split
  · exact Space.nodup_faults List.nodup_nil _
  · exact List.nodup_nil

theorem filter_isCycle_found (s : Session) (checks : Conformance.Checks) :
    (s.found checks).filter Finding.isCycle = (s.resolving checks).filter Finding.isCycle := by
  have hnone : (Conformance.standing checks s.dts s.index).filter Finding.isCycle = [] :=
    List.filter_eq_nil_iff.2 fun x hx => Bool.not_eq_true _ ▸ Conformance.isCycle_of_mem_standing hx
  unfold found
  rw [List.filter_append, hnone, List.nil_append]

theorem filter_not_isCycle_found (s : Session) (checks : Conformance.Checks) :
    (s.found checks).filter (fun f => !f.isCycle) =
      Conformance.standing checks s.dts s.index ++ (s.resolving checks).filter fun f => !f.isCycle := by
  have hall : (Conformance.standing checks s.dts s.index).filter (fun f => !f.isCycle) =
      Conformance.standing checks s.dts s.index :=
    List.filter_eq_self.2 fun x hx => by rw [Conformance.isCycle_of_mem_standing hx, Bool.not_false]
  unfold found
  rw [List.filter_append, hall]

/-- The cycles that a validation finds are those that it runs into. -/
theorem mem_cyclesMet {s : Session} {checks : Conformance.Checks} {x : Finding} :
    x ∈ s.cyclesMet checks ↔ x ∈ s.found checks ∧ x.isCycle = true := by
  rw [← List.mem_filter, filter_isCycle_found, List.mem_filter]
  unfold cyclesMet resolving
  cases checks.dimensions with
  | false => simp
  | true =>
    rw [if_pos rfl, if_pos rfl, Space.mem_faults, or_iff_right List.not_mem_nil, List.mem_map]
    constructor
    · rintro ⟨f, hf, rfl⟩
      obtain ⟨hcycle, l, hl, hfault⟩ := Space.mem_cyclesMet.1 hf
      exact ⟨⟨l, hl, f, hfault, rfl⟩, hcycle⟩
    · rintro ⟨⟨l, hl, f, hfault, rfl⟩, hcycle⟩
      exact ⟨f, Space.mem_cyclesMet.2 ⟨hcycle, l, hl, hfault⟩, rfl⟩

theorem Settled.sent_perm {s : Session} (h : s.Settled) (checks : Conformance.Checks) :
    (s.sent checks).Perm
      (((s.found checks).filter (fun f => !f.isCycle) ++ s.cyclesMet checks).map Finding.diagnostic) := by
  rw [h.sent_eq, filter_not_isCycle_found, List.append_assoc, List.append_assoc]
  exact (List.perm_append_comm.append_left _).map _

theorem Settled.sent_perm_found_iff {s : Session} (h : s.Settled) (checks : Conformance.Checks) :
    (s.sent checks).Perm ((s.found checks).map Finding.diagnostic) ↔ (s.cyclesMet checks).Nodup := by
  have hsplit : ((s.found checks).map Finding.diagnostic).Perm
      (((s.found checks).filter fun f => !f.isCycle).map Finding.diagnostic ++
        ((s.found checks).filter Finding.isCycle).map Finding.diagnostic) := by
    rw [← List.map_append]
    exact (List.perm_append_comm.trans (List.filter_append_perm Finding.isCycle _)).symm.map _
  have hnodup : ((s.found checks).filter Finding.isCycle).Nodup := by
    rw [filter_isCycle_found]
    exact (nodup_resolving s checks).filter _
  have hsent := h.sent_perm checks
  rw [List.map_append] at hsent
  -- beside the cycles both lists hold the same, so it is the cycles that decide
  rw [hsent.congr_left, hsplit.congr_right, List.perm_append_left_iff]
  exact map_perm_map_iff_nodup hnodup (fun x => mem_cyclesMet.trans List.mem_filter.symm) _

/-- A validation that does not have to be clean reports each finding as often as it is found, but for the cycles. Those
it reports once for every link to a hypercube that leads into them. So its report is what it finds exactly if no two
links lead into the same cycle. -/
theorem Finalized.sent_of_validate {s : Session} (h : s.Finalized) (checks : Conformance.Checks)
    (hstrict : checks.strict = false) :
    ∃ findings, (s.validate checks).1 = .ok findings ∧
      (s.validate checks).2.journal = s.journal.report (s.sent checks) ∧
      (s.sent checks).Perm ((findings.filter (fun f => !f.isCycle) ++ s.cyclesMet checks).map Finding.diagnostic) ∧
      (∀ x, x ∈ s.cyclesMet checks ↔ x ∈ findings ∧ x.isCycle = true) ∧
      ((s.sent checks).Perm (findings.map Finding.diagnostic) ↔ (s.cyclesMet checks).Nodup) := by
  have hs := h.settled
  refine ⟨s.found checks, hs.validate_fst_of_not_strict hstrict, ?_, hs.sent_perm checks, fun x => mem_cyclesMet,
    hs.sent_perm_found_iff checks⟩
  rw [hs.sent_eq, hs.validate_journal]

/-- There is one link to each of the hypercubes. -/
def encircled (hypercubes : List String) : Session :=
  Sample.session (Sample.item "p" :: hypercubes.map Sample.hypercube) [
    Sample.link "r" (Sample.arc .domainMember "p" "p" none :: hypercubes.map fun h => Sample.arc .all "p" h none)]

set_option maxRecDepth 20000 in
theorem encircled_tables (hypercubes : List String) (h : hypercubes = ["h"] ∨ hypercubes = ["g", "h"]) :
    let s := encircled hypercubes
    s.space.tables.get? "r" = some (Sample.table s "r") ∧
      (s.space.cyclesOf .domainMember).allowsDirected = false ∧
      (Sample.table s "r").effective =
        (hypercubes.map fun h => Sample.edge .all "p" h none) ++ [Sample.edge .domainMember "p" "p" none] ∧
      Conformance.hypercubeLinks s.index.tables.values =
        hypercubes.map fun h => (Sample.name "p", Sample.name h, "r") := by
  rcases h with rfl | rfl
  all_goals
    refine ⟨Sample.get?_tables (by decide +kernel), by decide +kernel, ?_, ?_⟩
    · unfold encircled
      cbv
    · unfold encircled
      cbv

/-- Each link of the concept to a hypercube leads into the cycle. -/
theorem encircled_cyclesMet (hypercubes : List String) (h : hypercubes = ["h"] ∨ hypercubes = ["g", "h"]) :
    ∃ x, (encircled hypercubes).cyclesMet {} = hypercubes.map fun _ => x := by
  have hs : (encircled hypercubes).Settled := (Finalized.finalize _).settled
  obtain ⟨htable, hforbids, heffective, hlinks⟩ := encircled_tables hypercubes h
  have habove : (Sample.table (encircled hypercubes) "r").Above (Sample.name "p") (Sample.name "p") :=
    ⟨Sample.edge .domainMember "p" "p" none, by simp [heffective], rfl, rfl, rfl⟩
  obtain ⟨a, ha⟩ := (hs.blockedAbove_iff htable).1
    ⟨_, htable, hforbids, Sample.name "p", .refl, .single habove⟩
  refine ⟨.dimension (.cycle a .domainMember "r"), ?_⟩
  unfold cyclesMet Space.cyclesMet
  rw [if_pos rfl, hlinks, List.filterMap_map]
  simp [Function.comp_def, Space.findHypercube_of_error htable ha, DimensionFault.cycle?, DimensionFault.isCycle]

/-- One link leads into the cycle, and it is reported once. -/
theorem sent_encircled :
    let s := encircled ["h"]
    s.Finalized ∧ (s.cyclesMet {}).Nodup ∧ ∃ findings, (s.validate {}).1 = .ok findings ∧
      (s.sent {}).Perm (findings.map Finding.diagnostic) := by
  intro s
  have hfinalized : s.Finalized := .finalize _
  obtain ⟨x, hx⟩ := encircled_cyclesMet ["h"] (.inl rfl)
  have hnodup : (s.cyclesMet {}).Nodup := by
    rw [hx]
    exact List.nodup_singleton x
  obtain ⟨findings, hok, -, -, -, hsame⟩ := Finalized.sent_of_validate hfinalized {} rfl
  exact ⟨hfinalized, hnodup, findings, hok, hsame.2 hnodup⟩

/-- Two links lead into the cycle. It is found once and reported twice. -/
theorem not_forall_sent_perm :
    ¬ ∀ s : Session, s.Finalized → ∀ checks : Conformance.Checks, checks.strict = false →
      ∃ findings, (s.validate checks).1 = .ok findings ∧
        (s.sent checks).Perm (findings.map Finding.diagnostic) := by
  intro hall
  have hfinalized : (encircled ["g", "h"]).Finalized := .finalize _
  obtain ⟨findings, hok, hsame⟩ := hall _ hfinalized {} rfl
  obtain rfl : (encircled ["g", "h"]).found {} = findings :=
    Except.ok.inj ((hfinalized.settled.validate_fst_of_not_strict rfl).symm.trans hok)
  have hnodup := (hfinalized.settled.sent_perm_found_iff {}).1 hsame
  obtain ⟨x, hx⟩ := encircled_cyclesMet ["g", "h"] (.inr rfl)
  rw [hx] at hnodup
  simp at hnodup

end Session

end TaxonomySet
