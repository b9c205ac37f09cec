import TaxonomySet.Proofs.Discovery.Consistency
import TaxonomySet.Proofs.Discovery.Running

namespace TaxonomySet

theorem eraseDups_concat {α : Type} [BEq α] [LawfulBEq α] [DecidableEq α] (xs : List α) (x : α) :
    (xs ++ [x]).eraseDups = if x ∈ xs then xs.eraseDups else xs.eraseDups ++ [x] := by
  rw [List.eraseDups_append]
  split
  · rename_i hmem
    simp [List.removeAll, hmem]
  · rename_i hmem
    simp [List.removeAll, hmem, List.eraseDups_cons]

namespace Discovery

namespace Phase

/-- The schema whose turn it is. -/
def turn : Phase → Option Pending
  | entering _ (entry :: _) => some (.of entry .entry)
  | reading _ _ (p :: _) _ _ => some p
  | entering _ [] | reading _ _ [] _ _ | ended _ _ => none

/-- The schemas that have their turns within so many steps, in order. Pending schemas have them in the order in which
they are named; a location is read at its first turn. -/
def turns (store : Store) (options : Options) : Nat → Phase → List Pending
  | 0, _ => []
  | n + 1, phase => phase.turn.toList ++ turns store options n (phase.next store options).1

variable {store : Store} {options : Options}

/-- What each step keeps of a phase, of what has been read and of the turns that were had holds after any number of
steps. -/
theorem turns_induction {P : Phase → List Read → List Pending → Prop}
    (hnext : ∀ {phase reads ts}, P phase reads ts →
      P (phase.next store options).1 (reads ++ (phase.next store options).2) (ts ++ phase.turn.toList))
    (n : Nat) {phase : Phase} {reads : List Read} {ts : List Pending} (h : P phase reads ts) :
    P (phase.run store options n).1 (reads ++ (phase.run store options n).2) (ts ++ phase.turns store options n) := by
  induction n generalizing reads ts phase with
  | zero =>
    rw [run, turns, List.append_nil, List.append_nil]
    exact h
  | succ n ih =>
    rw [run, turns, ← List.append_assoc, ← List.append_assoc]
    exact ih (hnext h)

end Phase

/-- A statement about the turns that were had, what is pending and the taxonomy set, that goes on holding when a
pending schema has its turn, when one becomes pending that no taxonomy includes, and when links are added. -/
structure Lasting (store : Store) (P : List Pending → List Pending → Dts → Prop) : Prop where
  skip : ∀ {ts p queue d}, P ts (p :: queue) d → (∃ q ∈ ts, q.location = p.location) → P (ts ++ [p]) queue d
  leave : ∀ {ts p queue d}, P ts (p :: queue) d → (∀ q ∈ ts, q.location ≠ p.location) →
    store.schema? p.location = none → P (ts ++ [p]) queue d
  enter : ∀ {ts p queue i more root} {d d' : Discovery}, P ts (p :: queue) d.dts →
    (∀ q ∈ ts, q.location ≠ p.location) → d.dts.Consistent →
    (∀ j, p.origin = .including j → j < d.dts.taxonomies.length) → store.document p.location = .ok root →
    d.enter p.location p.origin root = .ok (d', i, more) → P (ts ++ [p]) (queue ++ more) d'.dts
  push : ∀ {ts p queue d}, P ts queue d → (∀ i, p.origin ≠ .including i) → P ts (p :: queue) d
  main : ∀ {ts queue d} ns, P ts queue d → P ts queue { d with mainNamespace := ns }
  link : ∀ {ts queue d} location links, P ts queue d → P ts queue (d.addLinkbase location links)

/-- How turns relate to what has been read and seen, beside a statement about them. -/
structure Turned (P : List Pending → List Pending → Dts → Prop) (reads : List Read) (ts : List Pending)
    (seen : SortedSet String) (queue : List Pending) (d : Discovery) : Prop where
  reads : reads.filterMap Read.schema? = (ts.map (·.location)).eraseDups
  had : ∀ {l}, seen.contains l = true ↔ ∃ q ∈ ts, q.location = l
  sound : d.Sound seen queue
  kept : P ts queue d.dts

namespace Turned

variable {store : Store} {P : List Pending → List Pending → Dts → Prop} {reads : List Read} {ts : List Pending}
  {seen : SortedSet String} {p : Pending} {queue : List Pending} {d d' : Discovery}

theorem skip (h : Turned P reads ts seen (p :: queue) d) (hP : Lasting store P)
    (hseen : seen.contains p.location = true) :
    Turned P reads (ts ++ [p]) seen queue d := by
  have hhad := h.had.1 hseen
  refine ⟨?_, fun {l} => ?_, (stable_sound store).skip h.sound hseen, hP.skip h.kept hhad⟩
  · rw [List.map_append, List.map_singleton, eraseDups_concat, if_pos (List.mem_map.2 hhad)]
    exact h.reads
  · rw [h.had]
    constructor
    · exact fun ⟨q, hq, hl⟩ => ⟨q, List.mem_append_left _ hq, hl⟩
    · rintro ⟨q, hq, rfl⟩
      rcases List.mem_append.1 hq with hq | hq
      · exact ⟨q, hq, rfl⟩
      · rwa [List.mem_singleton.1 hq]

theorem forall_ne (h : Turned P reads ts seen queue d) (hfresh : seen.contains p.location = false) :
    ∀ q ∈ ts, q.location ≠ p.location := by
  intro q hq heq
  rw [h.had.2 ⟨q, hq, heq⟩] at hfresh
  cases hfresh

/-- A schema is read when it has the first turn of its location. -/
theorem read (h : Turned P reads ts seen (p :: queue) d) (hfresh : seen.contains p.location = false)
    {queue' : List Pending} (hsound : d'.Sound (seen.insert p.location) queue')
    (hkept : P (ts ++ [p]) queue' d'.dts) :
    Turned P (reads ++ [.schema p.location]) (ts ++ [p]) (seen.insert p.location) queue' d' := by
  refine ⟨?_, fun {l} => ?_, hsound, hkept⟩
  · have hnew : p.location ∉ ts.map (·.location) := fun hmem => by
      obtain ⟨q, hq, heq⟩ := List.mem_map.1 hmem
      exact h.forall_ne hfresh q hq heq
    rw [List.map_append, List.map_singleton, eraseDups_concat, if_neg hnew, List.filterMap_append, h.reads]
    rfl
  · change l ∈ seen.insert p.location ↔ _
    rw [SortedSet.mem_insert]
    constructor
    · rintro (rfl | hl)
      · exact ⟨p, List.mem_append_right _ (List.mem_singleton_self p), rfl⟩
      · obtain ⟨q, hq, hl⟩ := h.had.1 hl
        exact ⟨q, List.mem_append_left _ hq, hl⟩
    · rintro ⟨q, hq, rfl⟩
      rcases List.mem_append.1 hq with hq | hq
      · exact .inr (h.had.2 ⟨q, hq, rfl⟩)
      · exact .inl (by rw [List.mem_singleton.1 hq])

theorem leave (h : Turned P reads ts seen (p :: queue) d) (hP : Lasting store P)
    (hfresh : seen.contains p.location = false) (hnone : store.schema? p.location = none) (hdts : d'.dts = d.dts)
    (hloaded : d'.loaded = d.loaded) (hembedded : d'.embedded = d.embedded) :
    Turned P (reads ++ [.schema p.location]) (ts ++ [p]) (seen.insert p.location) queue d' := by
  refine h.read hfresh ((stable_sound store).leave h.sound hfresh hnone hdts hloaded hembedded) ?_
  rw [hdts]
  exact hP.leave h.kept (h.forall_ne hfresh) hnone

theorem enter (h : Turned P reads ts seen (p :: queue) d) (hP : Lasting store P)
    (hfresh : seen.contains p.location = false) {root : Markup.Node}
    (hdocument : store.document p.location = .ok root) {i : Nat} {more : List Pending}
    (henter : (d.ask p.location).enter p.location p.origin root = .ok (d', i, more)) :
    Turned P (reads ++ [.schema p.location]) (ts ++ [p]) (seen.insert p.location) (queue ++ more) d' := by
  refine h.read hfresh ((stable_sound store).enter h.sound hfresh hdocument henter) ?_
  exact hP.enter (d := d.ask p.location) h.kept (h.forall_ne hfresh) h.sound.consistent
    (h.sound.including p List.mem_cons_self) hdocument henter

theorem push (h : Turned P reads ts seen queue d) (hP : Lasting store P) (horigin : ∀ i, p.origin ≠ .including i) :
    Turned P reads ts seen (p :: queue) d where
  reads := h.reads
  had := h.had
  sound := h.sound.of_queue fun q hq => by
    rcases List.mem_cons.1 hq with rfl | hq
    · exact .inr horigin
    · exact .inl hq
  kept := hP.push h.kept horigin

theorem pushAll (h : Turned P reads ts seen [] d) (hP : Lasting store P) :
    (∀ q ∈ queue, ∀ i, q.origin ≠ .including i) → Turned P reads ts seen queue d := by
  induction queue with
  | nil => exact fun _ => h
  | cons p queue ih =>
    intro horigin
    exact (ih fun q hq => horigin q (List.mem_cons_of_mem _ hq)).push hP (horigin p List.mem_cons_self)

theorem addLinkbases (h : Turned P reads ts seen [] d) (hP : Lasting store P)
    (linkbases : List (String × Markup.Node)) :
    Turned P reads ts seen [] (d.addLinkbases linkbases) where
  reads := h.reads
  had := h.had
  sound := h.sound.addLinkbases linkbases
  kept := List.foldlRecOn (motive := fun e : Discovery => P ts [] e.dts) linkbases addLinkbase h.kept
    fun _ he _ _ => hP.link _ _ he

theorem takeLinkbases (h : Turned P reads ts seen [] d) (store : Store) :
    Turned P (reads ++ (d.unloaded.filter fun l => !l.2).map fun l => .linkbase l.1) ts seen []
      (d.takeLinkbases store).1 := by
  have hdts := (takeLinkbases_fst store d).1
  refine ⟨?_, h.had, h.sound.of_dts hdts, hdts ▸ h.kept⟩
  rw [List.filterMap_append, h.reads, filterMap_schema?_linkbases, List.append_nil]

end Turned

namespace Phase

variable {store : Store} {options : Options} {P : List Pending → List Pending → Dts → Prop}

/-- What holds in each phase of a load. Once it has ended without a fault, nothing is pending. -/
def Turned (P : List Pending → List Pending → Dts → Prop) (reads : List Read) (ts : List Pending) : Phase → Prop
  | entering p _ => Discovery.Turned P reads ts p.seen p.queue p.discovery
  | reading seen d queue _ _ => Discovery.Turned P reads ts seen queue d
  | ended d result => ∃ seen queue, Discovery.Turned P reads ts seen queue d ∧
    ∀ receipt, result = .ok receipt → queue = []

/-- The turn of an entry. A fault ends the load. -/
theorem turned_enterEntry (hP : Lasting store P) {reads : List Read} {ts : List Pending} {p : Progress}
    (h : Discovery.Turned P reads ts p.seen p.queue p.discovery) (entry : String) (waiting : List String) :
    ((Phase.entering p (entry :: waiting)).next store options).1.Turned P
      (reads ++ ((Phase.entering p (entry :: waiting)).next store options).2) (ts ++ [.of entry .entry]) := by
  have hpushed : Discovery.Turned P reads ts p.seen (.of entry .entry :: p.queue) p.discovery :=
    h.push hP fun i hi => by cases hi
  rw [Phase.next]
  unfold enterEntry
  dsimp only
  by_cases hseen : p.seen.contains (Location.normalize entry) = true
  · rw [if_pos hseen, if_pos hseen, List.append_nil]
    exact hpushed.skip hP hseen
  · have hfresh := Bool.eq_false_iff.2 hseen
    rw [if_neg hseen, if_neg hseen]
    cases hread : store.document (Location.normalize entry) with
    | error f =>
      exact ⟨_, _, hpushed.leave hP hfresh (Store.schema?_of_error hread) rfl rfl rfl, fun _ h => by cases h⟩
    | ok root =>
      dsimp only
      cases henter : (p.discovery.ask (Location.normalize entry)).enter (Location.normalize entry) .entry root with
      | error f =>
        have hnone := schema?_of_enter_eq_error hread henter
        exact ⟨_, _, hpushed.leave hP hfresh hnone rfl rfl rfl, fun _ h => by cases h⟩
      | ok entered => exact hpushed.enter hP hfresh hread henter

/-- One step. -/
theorem Turned.next (hP : Lasting store P) {reads : List Read} {ts : List Pending} {phase : Phase}
    (h : phase.Turned P reads ts) : (phase.next store options).1.Turned P (reads ++ (phase.next store options).2)
      (ts ++ phase.turn.toList) := by
  match phase, h with
  | entering p [], h =>
    rw [Phase.next, List.append_nil]
    exact (List.append_nil ts).symm ▸
      ⟨h.reads, h.had, (stable_sound store).main p.entries h.sound, hP.main _ h.kept⟩
  | entering p (entry :: waiting), h => exact turned_enterEntry hP h entry waiting
  | reading seen d (p :: queue) trees entries, h =>
    change Turned P _ (ts ++ [p]) _
    rw [Phase.next]
    split
    · rename_i hseen
      rw [List.append_nil]
      exact h.skip hP hseen
    · rename_i hfresh
      rw [Bool.not_eq_true] at hfresh
      split
      · rename_i hread
        exact h.leave hP hfresh (Store.schema?_of_error hread) rfl rfl rfl
      · rename_i root hread
        dsimp only
        unfold enterPending
        split
        · rename_i henter
          exact h.enter hP hfresh hread henter
        · rename_i henter
          have hnone := schema?_of_enter_eq_error hread henter
          rw [List.append_nil]
          split <;> exact h.leave hP hfresh hnone rfl rfl rfl
  | reading seen d [] trees entries, h =>
    change Turned P _ (ts ++ []) _
    rw [List.append_nil]
    have hadded := h.addLinkbases hP trees
    rw [Phase.next]
    split
    · rw [List.append_nil]
      exact ⟨seen, [], hadded, fun _ _ => rfl⟩
    · refine (hadded.takeLinkbases store).pushAll hP fun q hq i hi => ?_
      split at hq
      · rw [origin_of_mem_targets hq] at hi
        cases hi
      · cases hq
  | ended d result, h =>
    change Turned P _ (ts ++ []) _
    rw [Phase.next, List.append_nil, List.append_nil]
    exact h

end Phase

/-- Whether these are the turns of a load from nothing, in order and until its end. A location is read as a schema at
the first of its turns. -/
def TakesTurns (store : Store) (options : Options) (entries : List String) (ts : List Pending) : Prop :=
  let d : Discovery := { dts := {}, journal := {} }
  ∃ n reads, (Phase.start entries d).run store options n =
      (.ended (load store options entries d).1 (load store options entries d).2, reads) ∧
    (Phase.start entries d).turns store options n = ts ∧
    reads.filterMap Read.schema? = (ts.map (·.location)).eraseDups

/-- What every turn keeps holds when a load from nothing has ended without a fault. Nothing is pending then. -/
theorem Lasting.load {store : Store} {P : List Pending → List Pending → Dts → Prop} (hP : Lasting store P)
    (hempty : P [] [] {}) {options : Options} {entries : List String} {receipt : Receipt}
    (hok : (load store options entries { dts := {}, journal := {} }).2 = .ok receipt) :
    ∃ ts, TakesTurns store options entries ts ∧
      P ts [] (Discovery.load store options entries { dts := {}, journal := {} }).1.dts := by
  obtain ⟨n, hn⟩ : Phase.Reaches store options (Phase.start entries { dts := {}, journal := {} }) (.ended _ _) :=
    Phase.reaches_load entries { dts := {}, journal := {} }
  have hbegin : Turned P [] [] ∅ [] { dts := {}, journal := {} } :=
    ⟨rfl, iff_of_false Bool.false_ne_true (fun ⟨_, hq, _⟩ => by cases hq), sound_empty {}, hempty⟩
  have hstart : (Phase.start entries { dts := {}, journal := {} }).Turned P [] [] := by
    unfold Phase.start
    split
    · exact ⟨∅, [], hbegin, fun _ h => by cases h⟩
    · exact hbegin
  have hturned : ((Phase.start entries { dts := {}, journal := {} }).run store options n).1.Turned P _ _ :=
    Phase.turns_induction (P := fun phase reads ts => phase.Turned P reads ts) (Phase.Turned.next hP) n hstart
  rw [hn] at hturned
  obtain ⟨seen, queue, hall, hend⟩ := hturned
  obtain rfl := hend receipt hok
  exact ⟨_, ⟨n, _, Prod.ext hn rfl, rfl, hall.reads⟩, hall.kept⟩

end Discovery

namespace Session

open Discovery

/-- What every turn keeps holds of the set that a load leaves. -/
theorem exists_turns_of_load {store : Store} {P : List Pending → List Pending → Dts → Prop} (hP : Lasting store P)
    (hempty : P [] [] {}) {options : Discovery.Options} {entries : List String} {receipt : Discovery.Receipt}
    (hok : (Session.load {} store options entries).2.2 = .ok receipt) :
    ∃ ts, TakesTurns store options entries ts ∧ P ts [] (Session.load {} store options entries).1.dts := by
  obtain ⟨hresult, hdts⟩ := load_eq {} store options entries
  rw [hdts]
  exact hP.load hempty (hresult.symm.trans hok)

end Session

end TaxonomySet
