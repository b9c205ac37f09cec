import TaxonomySet.Proofs.Discovery.Evaluation
import TaxonomySet.Proofs.Json.Struct
import TaxonomySet.Proofs.Snapshot.Flags
import TaxonomySet.Snapshot.Reader

namespace TaxonomySet.Snapshot

open Json

theorem roundTrips_text (o : Option String) : RoundTrips writeText (fun j => optional string? (some j)) o :=
  .option rfl fun s _ => roundTrips_string s

theorem roundTrips_texts (s : SortedSet String) : RoundTrips writeTexts stringSet? s where
  legible := legible_array fun t _ => .string t
  read_shown := by
    have hlist := RoundTrips.list (l := s.toList) fun t _ => roundTrips_string t
    unfold writeTexts stringSet?
    rw [hlist.read_shown, Option.map_some, SortedSet.ofList_toList]

theorem roundTrips_stringMap (m : SortedMap String String) : RoundTrips (ofMap string) (mapOf? string?) m :=
  .map fun v _ => roundTrips_string v

theorem roundTrips_word {α : Type} [BEq α] {words : List (String × α)} {a : α}
    (h : words.lookup (((words.find? (·.2 == a)).map (·.1)).getD "") = some a) :
    RoundTrips (writeWord words) (word? words) a where
  legible := .string _
  read_shown := by
    unfold writeWord
    rw [shown_string]
    exact h

theorem roundTrips_period (p : PeriodType) : RoundTrips (writeWord periodWords) (word? periodWords) p :=
  roundTrips_word (by cases p <;> rfl)

theorem roundTrips_balance (b : Balance) : RoundTrips (writeWord balanceWords) (word? balanceWords) b :=
  roundTrips_word (by cases b <;> rfl)

theorem roundTrips_cycles (c : Cycles) : RoundTrips (writeWord cyclesWords) (word? cyclesWords) c :=
  roundTrips_word (by cases c <;> rfl)

theorem roundTrips_use (u : ArcUse) : RoundTrips (writeWord useWords) (word? useWords) u :=
  roundTrips_word (by cases u <;> rfl)

theorem roundTrips_name (q : QName) : RoundTrips writeName readName? q := by
  refine .record (fun _ => rfl) rfl ⟨rfl, by simp⟩ ?_ ?_
  · simp only [List.forall_mem_cons, List.not_mem_nil, (roundTrips_string _).legible, implies_true, false_implies,
      and_self]
  · simp only [List.map_cons, List.map_nil, required_some, (roundTrips_string _).read_shown]
    rfl

theorem roundTrips_optionalName (o : Option QName) :
    RoundTrips (ofOption writeName) (fun j => optional readName? (some j)) o :=
  .option rfl fun q _ => roundTrips_name q

theorem roundTrips_kind (k : LinkKind) : RoundTrips writeKind readKind? k := by
  cases k with
  | custom q =>
    have hname := roundTrips_name q
    constructor
    · refine .object ?_
      simp [hname.legible]
    · unfold writeKind
      rw [shown_object]
      change (readName? (writeName q).shown).map LinkKind.custom = _
      rw [hname.read_shown, Option.map_some]
  | _ =>
    constructor
    · exact .string _
    · unfold writeKind writeWord
      rw [shown_string]
      rfl

theorem roundTrips_flags (f : Flags) :
    RoundTrips (fun f => string (flagsText f)) (fun j => j.string?.bind readFlags?) f where
  legible := .string _
  read_shown := by
    rw [(roundTrips_string _).read_shown, Option.bind_some, readFlags?_flagsText]

theorem roundTrips_usedOn (u : UsedOn) : RoundTrips writeUsedOn readUsedOn? u := by
  have hcustom := RoundTrips.list (l := u.custom.toList) fun q _ => roundTrips_name q
  refine .record (fun _ => rfl) rfl ⟨rfl, by simp⟩ ?_ ?_
  · simp only [List.forall_mem_cons, List.not_mem_nil, (roundTrips_flags _).legible, hcustom.legible,
      implies_true, false_implies, and_self]
  · simp only [List.map_cons, List.map_nil, required_some, (roundTrips_flags _).read_shown, hcustom.read_shown]
    change some (UsedOn.mk u.flags (.ofList u.custom.toList)) = _
    rw [SortedSet.ofList_toList]

theorem roundTrips_roleType (r : RoleType) : RoundTrips writeRoleType readRoleType? r := by
  refine .record (fun _ => rfl) rfl ⟨rfl, by simp⟩ ?_ ?_
  · simp only [List.forall_mem_cons, List.not_mem_nil, (roundTrips_string _).legible, (roundTrips_text _).legible,
      (roundTrips_usedOn _).legible, implies_true, false_implies, and_self]
  · simp only [List.map_cons, List.map_nil, required_some, (roundTrips_string _).read_shown,
      (roundTrips_text _).read_shown, (roundTrips_usedOn _).read_shown]
    rfl

theorem roundTrips_arcroleType (a : ArcroleType) : RoundTrips writeArcroleType readArcroleType? a := by
  refine .record (fun _ => rfl) rfl ⟨rfl, by simp⟩ ?_ ?_
  · simp only [List.forall_mem_cons, List.not_mem_nil, (roundTrips_string _).legible, (roundTrips_text _).legible,
      (roundTrips_usedOn _).legible, (roundTrips_cycles _).legible, implies_true, false_implies, and_self]
  · simp only [List.map_cons, List.map_nil, required_some, (roundTrips_string _).read_shown,
      (roundTrips_text _).read_shown, (roundTrips_usedOn _).read_shown, (roundTrips_cycles _).read_shown]
    rfl

theorem roundTrips_roleTypes (l : List RoleType) :
    RoundTrips (fun l => array (l.map writeRoleType)) (listOf? readRoleType?) l :=
  .list fun r _ => roundTrips_roleType r

theorem roundTrips_arcroleTypes (l : List ArcroleType) :
    RoundTrips (fun l => array (l.map writeArcroleType)) (listOf? readArcroleType?) l :=
  .list fun a _ => roundTrips_arcroleType a

theorem roundTrips_element (e : Element) : RoundTrips writeElement readElement? e := by
  have hperiod := RoundTrips.option (o := e.periodType) rfl fun p _ => roundTrips_period p
  have hbalance := RoundTrips.option (o := e.balance) rfl fun b _ => roundTrips_balance b
  refine .record (fun _ => rfl) rfl ⟨rfl, by simp⟩ ?_ ?_
  · simp only [List.forall_mem_cons, List.not_mem_nil, (roundTrips_string _).legible, (roundTrips_text _).legible,
      (roundTrips_name _).legible, (roundTrips_optionalName _).legible, (roundTrips_bool _).legible, hperiod.legible,
      hbalance.legible, implies_true, false_implies, and_self]
  · simp only [List.map_cons, List.map_nil, required_some, (roundTrips_string _).read_shown,
      (roundTrips_text _).read_shown, (roundTrips_name _).read_shown, (roundTrips_optionalName _).read_shown,
      (roundTrips_bool _).read_shown, hperiod.read_shown, hbalance.read_shown]
    rfl

theorem roundTrips_typeDef (t : TypeDef) : RoundTrips writeTypeDef readTypeDef? t := by
  refine .record (fun _ => rfl) rfl ⟨rfl, by simp⟩ ?_ ?_
  · simp only [List.forall_mem_cons, List.not_mem_nil, (roundTrips_name _).legible,
      (roundTrips_optionalName _).legible, implies_true, false_implies, and_self]
  · simp only [List.map_cons, List.map_nil, required_some, (roundTrips_name _).read_shown,
      (roundTrips_optionalName _).read_shown]
    rfl

theorem roundTrips_record {r : LinkbaseRecord} (h : ∀ i ∈ r.links, i < UInt64.size) :
    RoundTrips writeRecord readRecord? r := by
  have hlinks := RoundTrips.list (l := r.links) fun i hi => roundTrips_natBelow le_rfl (h i hi)
  refine .record (fun _ => rfl) rfl ⟨rfl, by simp⟩ ?_ ?_
  · simp only [List.forall_mem_cons, List.not_mem_nil, (roundTrips_string _).legible, (roundTrips_text _).legible,
      (roundTrips_bool _).legible, hlinks.legible, implies_true, false_implies, and_self]
  · simp only [List.map_cons, List.map_nil, required_some, (roundTrips_string _).read_shown,
      (roundTrips_text _).read_shown, (roundTrips_bool _).read_shown, hlinks.read_shown]
    rfl

theorem roundTrips_taxonomy {t : Taxonomy} (h : ∀ r ∈ t.linkbases, ∀ i ∈ r.links, i < UInt64.size) :
    RoundTrips writeTaxonomy readTaxonomy? t := by
  have helements := RoundTrips.map (m := t.elements) fun e _ => roundTrips_element e
  have htypes := RoundTrips.map (m := t.types) fun d _ => roundTrips_typeDef d
  have hrecords := RoundTrips.list (l := t.linkbases) fun r hr => roundTrips_record (h r hr)
  refine .record (fun _ => rfl) rfl ⟨rfl, by simp⟩ ?_ ?_
  · simp only [List.forall_mem_cons, List.not_mem_nil, (roundTrips_string _).legible, (roundTrips_text _).legible,
      (roundTrips_texts _).legible, helements.legible, (roundTrips_stringMap _).legible, htypes.legible,
      (roundTrips_roleTypes _).legible, (roundTrips_arcroleTypes _).legible, hrecords.legible, implies_true,
      false_implies, and_self]
  · simp only [List.map_cons, List.map_nil, required_some, (roundTrips_string _).read_shown,
      (roundTrips_text _).read_shown, (roundTrips_texts _).read_shown, helements.read_shown,
      (roundTrips_stringMap _).read_shown, htypes.read_shown, (roundTrips_roleTypes _).read_shown,
      (roundTrips_arcroleTypes _).read_shown, hrecords.read_shown]
    rfl

theorem roundTrips_href (h : Href) : RoundTrips writeHref readHref? h := by
  refine .record (fun _ => rfl) rfl ⟨rfl, by simp⟩ ?_ ?_
  · simp only [List.forall_mem_cons, List.not_mem_nil, (roundTrips_string _).legible, (roundTrips_text _).legible,
      implies_true, false_implies, and_self]
  · simp only [List.map_cons, List.map_nil, required_some, (roundTrips_string _).read_shown,
      (roundTrips_text _).read_shown]
    rfl

theorem roundTrips_resource (r : Resource) : RoundTrips writeResource readResource? r := by
  refine .record (fun _ => rfl) rfl ⟨rfl, by simp⟩ ?_ ?_
  · simp only [List.forall_mem_cons, List.not_mem_nil, (roundTrips_string _).legible, (roundTrips_text _).legible,
      (roundTrips_name _).legible, implies_true, false_implies, and_self]
  · simp only [List.map_cons, List.map_nil, required_some, (roundTrips_string _).read_shown,
      (roundTrips_text _).read_shown, (roundTrips_name _).read_shown]
    rfl

/-- What the text of an arc keeps: all but a weight that is not finite. -/
def keptArc (a : Arc) : Arc := { a with weight := a.weight.filter Binary64.isFinite }

/-- What the text of a link keeps. -/
def keptLink (l : ExtendedLink) : ExtendedLink :=
  { l with arcs := l.arcs.mapValues fun targets => targets.mapValues (·.map keptArc) }

/-- What the text of a snapshot keeps. -/
def kept (s : Snapshot) : Snapshot := { s with links := s.links.map keptLink }

/-- Whether the finite numbers of an arc are read back. -/
def ReadsNumbers (a : Arc) : Prop :=
  ∀ x : Binary64, x = a.order ∨ x ∈ a.weight → x.isFinite = true → x.ReadsBack

theorem roundTrips_int32 (n : Int32) : RoundTrips (fun n : Int32 => integer n.toInt) readInt32? n where
  legible := by
    have hmin : Int64.minValue.toInt ≤ n.toInt := le_trans (by decide) n.le_toInt
    have hmax : n.toInt < UInt64.size := lt_of_le_of_lt n.toInt_le (by decide)
    exact .integer hmin hmax
  read_shown := by
    rw [shown_integer]
    change (if Int32.minValue.toInt ≤ n.toInt ∧ n.toInt ≤ Int32.maxValue.toInt then some (Int32.ofInt n.toInt)
      else none) = _
    rw [if_pos ⟨n.le_toInt, n.toInt_le⟩, Int32.ofInt_toInt]

theorem roundTrips_optionalBool (o : Option Bool) :
    RoundTrips (ofOption bool) (fun j => optional bool? (some j)) o :=
  .option rfl fun b _ => roundTrips_bool b

theorem legible_writeArc {a : Arc} (h : ReadsNumbers a) : (writeArc a).Legible := by
  have horder : (float a.order).Legible := .float (h _ (.inl rfl))
  have hweight : (ofOption float a.weight).Legible := legible_ofOption fun w hw => .float (h w (.inr hw))
  refine .object ?_
  simp only [List.forall_mem_cons, List.not_mem_nil, (roundTrips_string _).legible, (roundTrips_text _).legible,
    (roundTrips_name _).legible, (roundTrips_int32 _).legible, (roundTrips_use _).legible, horder, hweight,
    (roundTrips_optionalBool _).legible, (roundTrips_stringMap _).legible, implies_true, false_implies, and_self]

/-- An arc without a finite order cannot be read. -/
theorem readArc?_shown (a : Arc) :
    readArc? (writeArc a).shown = if a.order.isFinite then some (keptArc a) else none := by
  rw [writeArc, readArc?, bind_fields?_shown]
  · simp only [List.map_cons, List.map_nil, required_some, (roundTrips_string _).read_shown,
      (roundTrips_text _).read_shown, (roundTrips_name _).read_shown, (roundTrips_int32 _).read_shown,
      (roundTrips_use _).read_shown, (roundTrips_optionalBool _).read_shown, (roundTrips_stringMap _).read_shown,
      number?_shown, optional_number?_shown]
    cases a.order.isFinite <;> rfl
  · exact ⟨rfl, by simp⟩

theorem keptArc_eq_iff {a : Arc} : keptArc a = a ↔ ∀ w ∈ a.weight, w.isFinite = true := by
  have hweight : keptArc a = a ↔ a.weight.filter Binary64.isFinite = a.weight := by
    cases a
    simp [keptArc]
  rw [hweight]
  cases a.weight <;> simp [Option.filter]

theorem mem_arcList {l : ExtendedLink} {a : Arc} :
    a ∈ l.arcList ↔ ∃ targets ∈ l.arcs.values, ∃ as ∈ targets.values, a ∈ as := by
  unfold ExtendedLink.arcList
  simp only [List.mem_flatMap, List.mem_flatten]

theorem keptLink_eq_iff {l : ExtendedLink} :
    keptLink l = l ↔ ∀ a ∈ l.arcList, ∀ w ∈ a.weight, w.isFinite = true := by
  have harcs : keptLink l = l ↔ (l.arcs.mapValues fun targets => targets.mapValues (·.map keptArc)) = l.arcs := by
    cases l
    simp [keptLink]
  have hlist (as : List Arc) : as.map keptArc = as ↔ ∀ a ∈ as, ∀ w ∈ a.weight, w.isFinite = true := by
    simpa only [List.map_id, id, keptArc_eq_iff] using @List.map_inj_left _ _ as keptArc id
  simp only [harcs, SortedMap.mapValues_eq_self_iff, hlist, mem_arcList]
  constructor
  · rintro h a ⟨targets, htargets, as, has, ha⟩
    exact h targets htargets as has a ha
  · intro h targets htargets as has a ha
    exact h a ⟨targets, htargets, as, has, ha⟩

theorem roundTrips_locators (m : SortedMap String (List Href)) :
    RoundTrips (ofMap fun hs => array (hs.map writeHref)) (mapOf? (listOf? readHref?)) m :=
  .map fun _ _ => .list fun h _ => roundTrips_href h

theorem roundTrips_resources (m : SortedMap String (List Resource)) :
    RoundTrips (ofMap fun rs => array (rs.map writeResource)) (mapOf? (listOf? readResource?)) m :=
  .map fun _ _ => .list fun r _ => roundTrips_resource r

theorem legible_writeLink {l : ExtendedLink} (h : ∀ a ∈ l.arcList, ReadsNumbers a) : (writeLink l).Legible := by
  have harcs : (ofMap (ofMap fun as => array (as.map writeArc)) l.arcs).Legible :=
    legible_ofMap fun targets htargets => legible_ofMap fun as has => legible_array fun a ha =>
      legible_writeArc (h a (mem_arcList.2 ⟨targets, htargets, as, has, ha⟩))
  refine .object ?_
  simp only [List.forall_mem_cons, List.not_mem_nil, (roundTrips_kind _).legible, (roundTrips_name _).legible,
    (roundTrips_string _).legible, (roundTrips_locators _).legible, (roundTrips_resources _).legible, harcs,
    implies_true, false_implies, and_self]

theorem readLink?_shown (l : ExtendedLink) :
    readLink? (writeLink l).shown = if l.arcList.all (·.order.isFinite) then some (keptLink l) else none := by
  have harcs : mapOf? (mapOf? (listOf? readArc?)) (ofMap (ofMap fun as => array (as.map writeArc)) l.arcs).shown =
      if l.arcs.values.all fun targets => targets.values.all fun as => as.all (·.order.isFinite) then
        some (l.arcs.mapValues fun targets => targets.mapValues (·.map keptArc)) else none :=
    mapOf?_shown fun targets _ => mapOf?_shown fun as _ => listOf?_shown fun a _ => readArc?_shown a
  have hall : (l.arcList.all (·.order.isFinite)) =
      l.arcs.values.all fun targets => targets.values.all fun as => as.all (·.order.isFinite) := by
    unfold ExtendedLink.arcList
    simp only [List.all_flatMap, List.all_flatten]
  rw [writeLink, readLink?, bind_fields?_shown]
  · simp only [List.map_cons, List.map_nil, required_some, (roundTrips_kind _).read_shown,
      (roundTrips_name _).read_shown, (roundTrips_string _).read_shown, (roundTrips_locators _).read_shown,
      (roundTrips_resources _).read_shown, harcs, hall]
    split <;> rfl
  · exact ⟨rfl, by simp⟩

variable {s : Snapshot}

/-- The arcs of all links. -/
def arcs (s : Snapshot) : List Arc := s.links.flatMap (·.arcList)

/-- A text keeps all of a snapshot if there are no weights that are not finite. -/
theorem kept_eq_iff : s.kept = s ↔ ∀ a ∈ s.arcs, ∀ w ∈ a.weight, w.isFinite = true := by
  have hlinks : s.kept = s ↔ s.links.map keptLink = s.links := by
    cases s
    simp [kept]
  have hlist := @List.map_inj_left _ _ s.links keptLink id
  simp only [List.map_id, id, keptLink_eq_iff] at hlist
  rw [hlinks, hlist]
  simp only [arcs, List.forall_mem_flatMap]

theorem roundTrips_timestamp {created : String} (h : Timestamp.isTimestamp created = true) :
    RoundTrips string readTimestamp? created where
  legible := .string created
  read_shown := by
    rw [shown_string]
    change (if Timestamp.isTimestamp created then some created else none) = _
    rw [if_pos h]

section Contents

variable (hcreated : Timestamp.isTimestamp s.created = true)
  (hnumbers : ∀ t ∈ s.taxonomies, ∀ r ∈ t.linkbases, ∀ i ∈ r.links, i < UInt64.size)
  (hexact : ∀ a ∈ s.arcs, ReadsNumbers a)
include hnumbers

include hexact in
theorem legible_write : s.write.Legible := by
  have hversion := roundTrips_natBelow (by decide) s.version.toNat_lt
  have htaxonomies := RoundTrips.list (l := s.taxonomies) fun t ht => roundTrips_taxonomy (hnumbers t ht)
  have hlinks : (array (s.links.map writeLink)).Legible :=
    legible_array fun l hl => legible_writeLink fun a ha => hexact a (List.mem_flatMap.2 ⟨l, hl, ha⟩)
  refine .object ?_
  simp only [List.forall_mem_cons, List.not_mem_nil, hversion.legible, (roundTrips_string _).legible,
    (roundTrips_text _).legible, htaxonomies.legible, hlinks, (roundTrips_roleTypes _).legible,
    (roundTrips_arcroleTypes _).legible, implies_true, false_implies, and_self]

include hcreated in
theorem read?_shown : read? s.write.shown = if s.arcs.all (·.order.isFinite) then some s.kept else none := by
  have hversion := roundTrips_natBelow (by decide) s.version.toNat_lt
  have htaxonomies := RoundTrips.list (l := s.taxonomies) fun t ht => roundTrips_taxonomy (hnumbers t ht)
  have hlinks : listOf? readLink? (array (s.links.map writeLink)).shown =
      if s.links.all fun l => l.arcList.all (·.order.isFinite) then some (s.links.map keptLink) else none :=
    listOf?_shown fun l _ => readLink?_shown l
  have hall : (s.arcs.all (·.order.isFinite)) = s.links.all fun l => l.arcList.all (·.order.isFinite) := by
    unfold arcs
    rw [List.all_flatMap]
  rw [write, read?, bind_fields?_shown]
  · simp only [List.map_cons, List.map_nil, required_some, hversion.read_shown,
      (roundTrips_timestamp hcreated).read_shown, (roundTrips_text _).read_shown, htaxonomies.read_shown, hlinks,
      (roundTrips_roleTypes _).read_shown, (roundTrips_arcroleTypes _).read_shown, hall]
    split
    · simp only [Option.bind_eq_bind, Option.bind_some, UInt32.ofNat_toNat]
      rfl
    · rfl
  · exact ⟨rfl, by simp⟩

include hcreated hexact

/-- The text of a snapshot is read back without the weights that are not finite, unless there is an order
that is not finite. -/
theorem load_save : load s.save = if s.arcs.all (·.order.isFinite) then .ok s.kept else .error .snapshotText := by
  unfold load save
  rw [(legible_write hnumbers hexact).parse?_render, Option.bind_some, read?_shown hcreated hnumbers]
  cases s.arcs.all (·.order.isFinite) <;> rfl

theorem load_save_eq_ok_iff :
    load s.save = .ok s ↔ ∀ a ∈ s.arcs, a.order.isFinite = true ∧ ∀ w ∈ a.weight, w.isFinite = true := by
  rw [load_save hcreated hnumbers hexact]
  constructor
  · intro h
    split at h
    · rename_i horders
      have hkept : s.kept = s := Except.ok.inj h
      exact fun a ha => ⟨List.all_eq_true.1 horders a ha, kept_eq_iff.1 hkept a ha⟩
    · cases h
  · intro h
    have horders : s.arcs.all (·.order.isFinite) = true := List.all_eq_true.2 fun a ha => (h a ha).1
    have hkept : s.kept = s := kept_eq_iff.2 fun a ha => (h a ha).2
    rw [if_pos horders, hkept]

end Contents

theorem lt_of_mem_links_capture {d : Dts} (h : d.Consistent) (created : String)
    (hlinks : (capture d created).links.length ≤ UInt64.size) :
    ∀ t ∈ (capture d created).taxonomies, ∀ r ∈ t.linkbases, ∀ i ∈ r.links, i < UInt64.size :=
  fun t ht r hr i hi => lt_of_lt_of_le (h.numbered t ht r hr i hi) hlinks

/-- A snapshot of what was loaded from nothing is read back from its text exactly if the orders and weights of
all arcs are finite. -/
theorem load_save_capture_iff (store : Store) (options : Discovery.Options) (entries : List String)
    (journal : Journal) (created : String) (hcreated : Timestamp.isTimestamp created = true) :
    let s := capture (Session.load { journal := journal } store options entries).1.dts created
    s.links.length ≤ UInt64.size → (∀ a ∈ s.arcs, ReadsNumbers a) →
      (load s.save = .ok s ↔ ∀ a ∈ s.arcs, a.order.isFinite = true ∧ ∀ w ∈ a.weight, w.isFinite = true) := by
  intro s hlinks hexact
  have hconsistent := Session.consistent_load store options entries journal
  exact load_save_eq_ok_iff hcreated (lt_of_mem_links_capture hconsistent created hlinks) hexact

section Instances

variable {d : Dts} {x : Binary64}

/-- The arc of a set with one arc only, which has no weight. -/
theorem exists_arcs_capture (h : Sample.numbers d = [[(x, none)]]) (created : String) :
    ∃ a, (capture d created).arcs = [a] ∧ a.order = x ∧ a.weight = none := by
  have harcs : (capture d created).arcs.map (fun a => (a.order, a.weight)) = [(x, none)] := by
    have hflat := congrArg List.flatten h
    unfold Sample.numbers at hflat
    unfold arcs
    rwa [List.map_flatMap]
  obtain ⟨a, ha, hnumbers⟩ := List.map_eq_singleton_iff.1 harcs
  exact ⟨a, ha, Prod.mk.inj hnumbers⟩

theorem length_links_capture (h : Sample.numbers d = [[(x, none)]]) (created : String) :
    (capture d created).links.length ≤ UInt64.size := by
  have hlength : d.links.length = 1 := by simpa [Sample.numbers] using congrArg List.length h
  change d.links.length ≤ _
  rw [hlength]
  decide

theorem readsNumbers_capture (h : Sample.numbers d = [[(x, none)]]) (hx : x.isFinite = true → x.ReadsBack)
    (created : String) : ∀ a ∈ (capture d created).arcs, ReadsNumbers a := by
  obtain ⟨a, harcs, horder, hweight⟩ := exists_arcs_capture h created
  rw [harcs, List.forall_mem_singleton]
  rintro y (rfl | hy)
  · rwa [horder]
  · rw [hweight] at hy
    cases hy

end Instances

theorem readsBack_two : Binary64.ReadsBack ⟨0x4000000000000000⟩ := by
  have htext : (floatText ⟨0x4000000000000000⟩).toList = ['2', '.', '0'] := by decide +kernel
  have hscale : (scale? (.ofNat 20) (-1)).getD .infinity = ⟨0x4000000000000000⟩ := by decide +kernel
  unfold Binary64.ReadsBack
  rw [htext, ← hscale]
  rfl

theorem load_save_capture_two :
    let s := capture (Session.load {} (Sample.orderingStore "2") {} ["schema.xsd"]).1.dts "2024-01-01T00:00:00Z"
    s.links.length ≤ UInt64.size ∧ (∀ a ∈ s.arcs, ReadsNumbers a) ∧ load s.save = .ok s := by
  obtain ⟨-, hnumbers⟩ := Sample.load_two
  have hlinks := length_links_capture hnumbers "2024-01-01T00:00:00Z"
  have hexact := readsNumbers_capture hnumbers (fun _ => readsBack_two) "2024-01-01T00:00:00Z"
  obtain ⟨a, harcs, horder, hweight⟩ := exists_arcs_capture hnumbers "2024-01-01T00:00:00Z"
  refine ⟨hlinks, hexact, (load_save_capture_iff _ _ _ _ _ (by decide +kernel) hlinks hexact).2 ?_⟩
  rw [harcs, List.forall_mem_singleton, horder, hweight]
  exact ⟨by decide, fun w hw => by cases hw⟩

/-- An order that is not finite is lost, and without it the text is not that of a snapshot. -/
theorem not_forall_load_save_capture :
    ¬ ∀ (store : Store) (options : Discovery.Options) (entries : List String) (journal : Journal) (created : String)
        (receipt : Discovery.Receipt),
      (Session.load { journal := journal } store options entries).2.2 = .ok receipt →
      Timestamp.isTimestamp created = true →
      let s := capture (Session.load { journal := journal } store options entries).1.dts created
      s.links.length ≤ UInt64.size → (∀ a ∈ s.arcs, ReadsNumbers a) → load s.save = .ok s := by
  intro hclaim
  obtain ⟨⟨receipt, hreceipt⟩, hnumbers⟩ := Sample.load_infinite
  have hcreated : Timestamp.isTimestamp "2024-01-01T00:00:00Z" = true := by decide +kernel
  have hlinks := length_links_capture hnumbers "2024-01-01T00:00:00Z"
  have hexact := readsNumbers_capture hnumbers (fun h => absurd h (by decide)) "2024-01-01T00:00:00Z"
  obtain ⟨a, harcs, horder, -⟩ := exists_arcs_capture hnumbers "2024-01-01T00:00:00Z"
  have hload := hclaim _ _ _ _ _ receipt hreceipt hcreated hlinks hexact
  have hconsistent := Session.consistent_load (Sample.orderingStore "INF") {} ["schema.xsd"] {}
  rw [load_save_eq_ok_iff hcreated (lt_of_mem_links_capture hconsistent _ hlinks) hexact, harcs,
    List.forall_mem_singleton, horder] at hload
  exact absurd hload.1 (by decide)

end TaxonomySet.Snapshot
