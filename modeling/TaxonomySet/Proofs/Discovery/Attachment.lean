import Mathlib.Data.Nat.Init
import Mathlib.Logic.Function.Iterate
import TaxonomySet.Proofs.Discovery.Locators

namespace TaxonomySet.Discovery

/-- What reading schemas does to the records: those that are there stay, and new ones have no links. -/
structure Widens (d e : Discovery) : Prop where
  links : e.dts.links = d.dts.links
  loaded : e.loaded = d.loaded
  keeps : ∀ {i j r}, d.dts.record? i j = some r → e.dts.record? i j = some r
  adds : ∀ {i j r}, e.dts.record? i j = some r → d.dts.record? i j = some r ∨ d.dts.record? i j = none ∧ r.links = []

theorem stable_widens (store : Store) (d : Discovery) : Stable store fun _ _ e => Widens d e where
  skip h _ := h
  leave h _ _ hdts hloaded _ := ⟨hdts ▸ h.links, hloaded ▸ h.loaded, hdts ▸ h.keeps, hdts ▸ h.adds⟩
  enter {seen p queue e e' k more root} h _ _ henter := by
    obtain ⟨hlinks, hloaded⟩ := links_of_enter henter
    refine ⟨hlinks.trans h.links, hloaded.trans h.loaded,
      fun hr => record?_of_enter_of_some henter (h.keeps hr), fun {i j r} hr => ?_⟩
    rcases record?_of_enter henter p.isNormal hr with hr | ⟨hnone, hr, -⟩
    · exact h.adds hr
    · refine .inr ⟨?_, hr⟩
      cases hd : d.dts.record? i j with
      | none => rfl
      | some r' =>
        have hkept : e.dts.record? i j = some r' := h.keeps hd
        exact absurd (hkept.symm.trans hnone) (Option.some_ne_none r')
  main _ h := ⟨h.links, h.loaded, h.keeps, h.adds⟩

theorem Widens.refl (d : Discovery) : Widens d d := ⟨rfl, rfl, fun h => h, fun h => .inl h⟩

theorem widens_drain (store : Store) (seen : SortedSet String) (d : Discovery) (queue : List Pending) :
    Widens d (drain store seen d queue).2 :=
  (stable_widens store d).drain queue (.refl d)

/-- The links that several linkbases add to their documents they also add to all records of these. -/
theorem record?_addLinkbases (d : Discovery) (linkbases : List (String × Markup.Node)) :
    ∃ new : String → List Nat, (∀ l, l ∉ linkbases.map (·.1) → new l = []) ∧
      (∀ l, (d.addLinkbases linkbases).dts.linksIn l = d.dts.linksIn l ++ new l) ∧
      ∀ i j, (d.addLinkbases linkbases).dts.record? i j =
        (d.dts.record? i j).map fun r => { r with links := r.links ++ new r.location } := by
  induction linkbases generalizing d with
  | nil => exact ⟨fun _ => [], fun _ _ => rfl, fun l => (List.append_nil _).symm, fun i j => by simp [addLinkbases]⟩
  | cons linkbase rest ih =>
    obtain ⟨location, tree⟩ := linkbase
    obtain ⟨new, hnone, hlinks, hrecord⟩ := ih (d.addLinkbase (location, tree))
    let links := (ExtendedLink.readAll d.dts.registry location tree).value
    have hdocument : ∀ l ∈ links, l.document = location := fun l hl => ExtendedLink.document_of_mem_readAll hl
    refine ⟨fun l => (if l = location then d.dts.nextLinks links else []) ++ new l, fun l hl => ?_, fun l => ?_,
      fun i j => ?_⟩
    · rw [List.map_cons, List.mem_cons, not_or] at hl
      have hne : ¬ l = location := hl.1
      dsimp only
      rw [if_neg hne, hnone l hl.2, List.append_nil]
    · rw [← List.append_assoc, ← d.dts.linksIn_addLinkbase hdocument l]
      exact hlinks l
    · have hfirst : (d.addLinkbase (location, tree)).dts.record? i j = _ := d.dts.record?_addLinkbase location links i j
      refine (hrecord i j).trans ?_
      rw [hfirst, Option.map_map]
      congr 1
      funext r
      by_cases hr : r.location = location <;> simp [hr]

/-- The set that a load has found after so many rounds of linkbases, and the locations seen by then. -/
def stage (store : Store) (entries : List String) (journal : Journal) (n : Nat) : SortedSet String × Discovery :=
  (fun s => round store true s.1 s.2)^[n]
    (started store (enterEntries store { discovery := { dts := {}, journal := journal } } entries).1)

/-- A round with no linkbase left changes nothing. -/
theorem round_of_unloaded_eq_nil {store : Store} {seen : SortedSet String} {d : Discovery} (h : d.unloaded = []) :
    round store true seen d = (seen, d) := by
  unfold round takeLinkbases
  rw [h]
  unfold readTrees targets
  simp only [List.flatMap_nil, if_true]
  rw [drain]
  rfl

/-- From some stage on a load is complete. -/
theorem exists_stage_eq_rounds (store : Store) (s : SortedSet String × Discovery) :
    ∃ last, ∀ n, last ≤ n → (fun s => round store true s.1 s.2)^[n] s = rounds store true s.1 s.2 := by
  obtain ⟨seen, d⟩ := s
  dsimp only
  fun_induction Discovery.rounds store true seen d with
  | case1 seen d hnil =>
    refine ⟨0, fun n _ => ?_⟩
    exact Function.iterate_fixed (round_of_unloaded_eq_nil hnil) n
  | case2 seen d hne next ih =>
    obtain ⟨last, hlast⟩ := ih
    refine ⟨last + 1, fun n hn => ?_⟩
    obtain ⟨m, rfl⟩ : ∃ m, n = m + 1 := ⟨n - 1, by omega⟩
    rw [Function.iterate_succ_apply]
    exact hlast m (Nat.le_of_succ_le_succ hn)

/-- Which links the record in a place has after a round. If its linkbase had been taken before, it is as it
was, or new and without links; if not, it gets all links of the linkbase. -/
theorem record?_of_round {store : Store} {seen : SortedSet String} {d : Discovery} {i j : Nat} {r : LinkbaseRecord}
    (hr : (round store true seen d).2.dts.record? i j = some r) :
    let e := (round store true seen d).2
    (d.loaded.contains r.location = true → e.dts.linksIn r.location = d.dts.linksIn r.location ∧
      (d.dts.record? i j = some r ∨ d.dts.record? i j = none ∧ r.links = [])) ∧
    ∃ before new, r.links = before.links ++ new ∧
      e.dts.linksIn r.location = d.dts.linksIn r.location ++ new ∧ before.location = r.location ∧
      (d.dts.record? i j = some before ∨ d.dts.record? i j = none ∧ before.links = []) := by
  intro e
  obtain ⟨hdts, -, -⟩ := takeLinkbases_fst store d
  have hwidens := widens_drain store seen (d.takeLinkbases store).1
    (if true then (d.takeLinkbases store).1.targets seen (d.takeLinkbases store).2 else [])
  have hlinksIn (l : String) : (drain store seen (d.takeLinkbases store).1 (if true then
      (d.takeLinkbases store).1.targets seen (d.takeLinkbases store).2 else [])).2.dts.linksIn l = d.dts.linksIn l := by
    unfold Dts.linksIn
    rw [hwidens.links, hdts]
  obtain ⟨new, hnone, hlinks, hrecord⟩ := record?_addLinkbases (drain store seen (d.takeLinkbases store).1
    (if true then (d.takeLinkbases store).1.targets seen (d.takeLinkbases store).2 else [])).2 (d.takeLinkbases store).2
  obtain ⟨before, hbefore, rfl⟩ := Option.map_eq_some_iff.1 ((hrecord i j).symm.trans hr)
  have hadds := hwidens.adds hbefore
  rw [hdts] at hadds
  refine ⟨fun htaken => ?_, before, new before.location, rfl, ?_, rfl, hadds⟩
  · -- no linkbase is taken twice
    have hnew : new before.location = [] := by
      refine hnone _ fun hmem => ?_
      obtain ⟨⟨l, tree⟩, hl, heq⟩ := List.mem_map.1 hmem
      obtain ⟨embedded, hunloaded, -⟩ := mem_takeLinkbases.1 hl
      have hfresh := (exists_record?_of_mem_unloaded hunloaded).2
      rw [show l = before.location from heq] at hfresh
      rw [show d.loaded.contains before.location = true from htaken] at hfresh
      cases hfresh
    have hsame : { before with links := before.links ++ new before.location } = before := by
      rw [hnew, List.append_nil]
    rw [hsame]
    refine ⟨?_, hadds⟩
    refine (hlinks before.location).trans ?_
    rw [hnew, List.append_nil, hlinksIn]
  · exact (hlinks before.location).trans (congrArg (· ++ new before.location) (hlinksIn before.location))

theorem loaded_round {store : Store} {seen : SortedSet String} {d : Discovery} {l : String}
    (h : d.loaded.contains l = true) : (round store true seen d).2.loaded.contains l = true := by
  rw [(links_round store true seen d).1, (takeLinkbases_fst store d).2.2]
  exact SortedSet.mem_insertAll.2 (.inr h)

variable {store : Store} {entries : List String} {journal : Journal}

theorem stage_succ (n : Nat) : stage store entries journal (n + 1) =
    round store true (stage store entries journal n).1 (stage store entries journal n).2 :=
  Function.iterate_succ_apply' _ _ _

theorem followed_stage (n : Nat) :
    Followed store (stage store entries journal n).1 (stage store entries journal n).2 := by
  induction n with
  | zero => exact followed_started rfl
  | succ n ih =>
    rw [stage_succ]
    exact ih.round

theorem loaded_stage {m n : Nat} (hle : m ≤ n) {l : String}
    (h : (stage store entries journal m).2.loaded.contains l = true) :
    (stage store entries journal n).2.loaded.contains l = true := by
  induction n, hle using Nat.le_induction with
  | base => exact h
  | succ n _ ih =>
    rw [stage_succ]
    exact loaded_round ih

theorem linksIn_stage_of_fresh {n : Nat} {l : String}
    (h : (stage store entries journal n).2.loaded.contains l = false) :
    (stage store entries journal n).2.dts.linksIn l = [] := by
  unfold Dts.linksIn
  refine List.map_eq_nil_iff.2 (List.filter_eq_nil_iff.2 fun x hx hdocument => ?_)
  have htaken := ((followed_stage n).taken (List.fst_mem_of_mem_zipIdx hx)).1
  rw [beq_iff_eq.1 hdocument, h] at htaken
  cases htaken

/-- A record that was not there yet when its linkbase had been taken. -/
def LateBy (store : Store) (entries : List String) (journal : Journal) (n i j : Nat) (location : String) : Prop :=
  ∃ m ≤ n, (stage store entries journal m).2.loaded.contains location = true ∧
    (stage store entries journal m).2.dts.record? i j = none

/-- At each stage, a record has all links of its linkbase unless it is late, and otherwise none. -/
theorem links_of_record?_stage {n i j : Nat} {r : LinkbaseRecord}
    (hr : (stage store entries journal n).2.dts.record? i j = some r) :
    (¬ LateBy store entries journal n i j r.location →
      r.links = (stage store entries journal n).2.dts.linksIn r.location) ∧
    (LateBy store entries journal n i j r.location → r.links = []) := by
  induction n generalizing r with
  | zero =>
    have henter : enterEntries store { discovery := { dts := {}, journal := journal } } entries = (_, _) := rfl
    have hwidens := (stable_widens store { dts := {}, journal := journal }).started (fun h _ _ => h) (.refl _) henter
    have hnil : r.links = [] := by
      rcases hwidens.adds hr with hr | ⟨-, hnil⟩
      · cases hr
      · exact hnil
    have hempty : (stage store entries journal 0).2.dts.linksIn r.location = [] := by
      unfold Dts.linksIn
      rw [show (stage store entries journal 0).2.dts.links = [] from hwidens.links]
      rfl
    exact ⟨fun _ => hnil.trans hempty.symm, fun _ => hnil⟩
  | succ n ih =>
    have hnow : ¬ ((stage store entries journal (n + 1)).2.dts.record? i j = none) := by
      rw [hr]
      exact Option.some_ne_none r
    have hr' := hr
    rw [stage_succ] at hr'
    obtain ⟨htaken, before, new, hlinks, hlinksIn, hlocation, hbefore⟩ := record?_of_round hr'
    rw [← stage_succ] at htaken hlinksIn
    cases hloaded : (stage store entries journal n).2.loaded.contains r.location with
    | true =>
      obtain ⟨hsame, hold | ⟨hnone, hnil⟩⟩ := htaken hloaded
      · obtain ⟨htimely, hlate⟩ := ih hold
        refine ⟨fun h => ?_, fun ⟨m, hm, hl⟩ => hlate ⟨m, ?_, hl⟩⟩
        · rw [hsame]
          exact htimely fun ⟨m, hm, hl⟩ => h ⟨m, Nat.le_succ_of_le hm, hl⟩
        · rcases Nat.le_succ_iff.1 hm with hm | rfl
          · exact hm
          · exact absurd hl.2 hnow
      · exact ⟨fun h => absurd ⟨n, Nat.le_succ n, hloaded, hnone⟩ h, fun _ => hnil⟩
    | false =>
      -- the linkbase was taken in the last round
      have hnever {k : Nat} (hk : k = n ∨ k = n + 1) : ¬ LateBy store entries journal k i j r.location := by
        rintro ⟨m, hm, hl, hnone⟩
        rcases Nat.lt_or_ge n m with hlt | hle
        · obtain rfl : m = n + 1 := by omega
          exact hnow hnone
        · rw [loaded_stage hle hl] at hloaded
          cases hloaded
      have hempty := linksIn_stage_of_fresh hloaded
      have hnil : before.links = [] := by
        rcases hbefore with hold | ⟨-, hnil⟩
        · rw [(ih hold).1 (hlocation ▸ hnever (.inl rfl)), hlocation, hempty]
        · exact hnil
      refine ⟨fun _ => ?_, fun h => absurd h (hnever (.inr rfl))⟩
      rw [hlinks, hnil, hlinksIn, hempty]

/-- Whether the linkbase at a location had been taken before some load made the record in a place. -/
def Late (store : Store) (entries : List String) (journal : Journal) (i j : Nat) (location : String) : Prop :=
  ∃ n, (stage store entries journal n).2.loaded.contains location = true ∧
    (stage store entries journal n).2.dts.record? i j = none

/-- A load with the default options that succeeds ends with a stage after which nothing changes. -/
theorem exists_stage_eq_load {receipt : Receipt}
    (h : (load store {} entries { dts := {}, journal := journal }).2 = .ok receipt) :
    ∃ last, ∀ n, last ≤ n →
      (stage store entries journal n).2 = (load store {} entries { dts := {}, journal := journal }).1 := by
  obtain ⟨p, henter, hload⟩ := load_eq_ok h
  obtain ⟨last, hlast⟩ := exists_stage_eq_rounds store (started store p)
  refine ⟨last, fun n hn => ?_⟩
  unfold stage
  rw [henter, hload]
  exact congrArg Prod.snd (hlast n hn)

theorem late_iff_lateBy {last : Nat} {d : Discovery} (h : ∀ n, last ≤ n → (stage store entries journal n).2 = d)
    {i j : Nat} {location : String} :
    Late store entries journal i j location ↔ LateBy store entries journal last i j location := by
  constructor
  · rintro ⟨n, hn⟩
    rcases Nat.le_total n last with hle | hle
    · exact ⟨n, hle, hn⟩
    · refine ⟨last, Nat.le_refl last, ?_⟩
      rwa [h last (Nat.le_refl last), ← h n hle]
  · rintro ⟨n, -, hn⟩
    exact ⟨n, hn⟩

end TaxonomySet.Discovery

namespace TaxonomySet.Session

open Discovery

/-- The records of a loaded taxonomy have all links of their linkbases, in order, exactly if each was made
before the linkbase was taken, or there is no link in it; a record that is late has none. Without late records,
the tables of the taxonomy by itself are made of all links of its linkbases. -/
theorem records_iff_not_late {store : Store} {entries : List String} {journal : Journal} {receipt : Receipt}
    (hload : (load { journal := journal } store {} entries).2.2 = .ok receipt) {i : Nat} {t : Taxonomy}
    (ht : (load { journal := journal } store {} entries).1.dts.taxonomies[i]? = some t) :
    let s := (load { journal := journal } store {} entries).1
    (∀ j r, t.linkbases[j]? = some r →
      (r.links = s.dts.linksIn r.location ↔
        ¬ Late store entries journal i j r.location ∨ s.dts.linksIn r.location = []) ∧
      (Late store entries journal i j r.location → r.links = [])) ∧
    ((∀ j r, t.linkbases[j]? = some r → ¬ Late store entries journal i j r.location) →
      s.index.tablesOf i = Dimension.collect s.dts.resolve
        (t.linkbases.flatMap fun r => s.dts.links.filter (·.document == r.location))) := by
  intro s
  obtain ⟨hresult, hdts⟩ := load_eq { journal := journal } store {} entries
  obtain ⟨last, hlast⟩ := exists_stage_eq_load (hresult.symm.trans hload)
  have hstage : (stage store entries journal last).2.dts = s.dts :=
    (congrArg Discovery.dts (hlast last (Nat.le_refl last))).trans hdts.symm
  have hrecord {j : Nat} {r : LinkbaseRecord} (hr : t.linkbases[j]? = some r) :
      (¬ Late store entries journal i j r.location → r.links = s.dts.linksIn r.location) ∧
        (Late store entries journal i j r.location → r.links = []) := by
    rw [late_iff_lateBy hlast, ← hstage]
    refine links_of_record?_stage ?_
    rw [hstage]
    exact Dts.record?_eq_some_iff.2 ⟨t, ht, hr⟩
  refine ⟨fun j r hr => ⟨⟨fun h => ?_, fun h => ?_⟩, (hrecord hr).2⟩, fun hnever => ?_⟩
  · by_cases hlate : Late store entries journal i j r.location
    · exact .inr (h.symm.trans ((hrecord hr).2 hlate))
    · exact .inl hlate
  · by_cases hlate : Late store entries journal i j r.location
    · rw [(hrecord hr).2 hlate, h.resolve_left (not_not_intro hlate)]
    · exact (hrecord hr).1 hlate
  · have hlinks : s.dts.linksOf t = t.linkbases.flatMap fun r => s.dts.links.filter (·.document == r.location) := by
      unfold Dts.linksOf
      rw [List.filterMap_flatMap]
      refine List.flatMap_congr fun r hr => ?_
      obtain ⟨j, hj⟩ := List.mem_iff_getElem?.1 hr
      rw [(hrecord hj).1 (hnever j r hj), Dts.filterMap_linksIn]
    unfold Index.tablesOf
    rw [index_load hload]
    change ((s.dts.taxonomies.map fun t => Dimension.collect s.dts.resolve (s.dts.linksOf t))[i]?).getD ∅ = _
    rw [List.getElem?_map, show s.dts.taxonomies[i]? = some t from ht, Option.map_some, Option.getD_some, hlinks]

/-- The linkbase of two schemas has one link, and the second record of it is late. -/
theorem linkbases_latecomer {d : Dts}
    (hlinks : d.links.map (fun l => (l.document, l.locators.get? "x")) =
      [("l.xml", some [⟨"b.xsd", some "x"⟩]), ("b.xsd", some [⟨"c.xsd", some "x"⟩])])
    (hrecords : d.taxonomies.map (·.linkbases) = [[{ location := "l.xml", links := [0] }],
      [{ location := "b.xsd", embedded := true, links := [1] }], [{ location := "l.xml" }]]) :
    d.linksIn "l.xml" = [0] ∧
      (∃ t, d.taxonomies[0]? = some t ∧ t.linkbases = [{ location := "l.xml", links := [0] }]) ∧
      ∃ t, d.taxonomies[2]? = some t ∧ t.linkbases = [{ location := "l.xml" }] := by
  have hdocuments : d.links.map (·.document) = ["l.xml", "b.xsd"] := by
    have hfst := congrArg (List.map Prod.fst) hlinks
    rwa [List.map_map] at hfst
  have hget (i : Nat) : (d.taxonomies[i]?).map (·.linkbases) = [[{ location := "l.xml", links := [0] }],
      [{ location := "b.xsd", embedded := true, links := [1] }], [({ location := "l.xml" } : LinkbaseRecord)]][i]? := by
    rw [← hrecords, List.getElem?_map]
  refine ⟨?_, Option.map_eq_some_iff.1 (hget 0), Option.map_eq_some_iff.1 (hget 2)⟩
  rw [Dts.linksIn_eq, hdocuments]
  decide

theorem late_latecomer :
    (∃ receipt, (load {} (Shelf.ofTexts Sample.latecomer).store {} ["a.xsd"]).2.2 = .ok receipt) ∧
      ¬ Late (Shelf.ofTexts Sample.latecomer).store ["a.xsd"] {} 0 0 "l.xml" ∧
      Late (Shelf.ofTexts Sample.latecomer).store ["a.xsd"] {} 2 0 "l.xml" := by
  obtain ⟨⟨receipt, hload⟩, hlinks, hrecords⟩ := Sample.load_latecomer
  obtain ⟨hlinksIn, ⟨first, hfirst, hfirstRecords⟩, second, hsecond, hsecondRecords⟩ :=
    linkbases_latecomer hlinks hrecords
  refine ⟨⟨receipt, hload⟩, fun hlate => ?_, ?_⟩
  · have hnil := ((records_iff_not_late hload hfirst).1 0 { location := "l.xml", links := [0] }
      (by rw [hfirstRecords]; rfl)).2 hlate
    cases hnil
  · by_contra hnot
    have hall := ((records_iff_not_late hload hsecond).1 0 { location := "l.xml" }
      (by rw [hsecondRecords]; rfl)).1.2 (.inl hnot)
    rw [hlinksIn] at hall
    cases hall

/-- A record of a linkbase can lack the links of the linkbase. -/
theorem not_forall_links_eq_linksIn :
    ¬ ∀ (store : Store) (entries : List String) (receipt : Receipt),
      (load {} store {} entries).2.2 = .ok receipt →
      ∀ t ∈ (load {} store {} entries).1.dts.taxonomies, ∀ r ∈ t.linkbases,
        r.links = (load {} store {} entries).1.dts.linksIn r.location := by
  intro hall
  obtain ⟨⟨receipt, hload⟩, hlinks, hrecords⟩ := Sample.load_latecomer
  obtain ⟨hlinksIn, -, t, ht, hlinkbases⟩ := linkbases_latecomer hlinks hrecords
  have hlinksIn' := hall _ _ receipt hload t (List.mem_of_getElem? ht) { location := "l.xml" }
    (by rw [hlinkbases]; exact List.mem_cons_self)
  rw [hlinksIn] at hlinksIn'
  cases hlinksIn'

end TaxonomySet.Session
