import TaxonomySet.Proofs.Discovery.Exploration
import TaxonomySet.Proofs.Markup.Tags
import TaxonomySet.Proofs.Sample

namespace TaxonomySet

/-- Documents on a shelf, the first of several at one location. -/
def Shelf.ofTexts : List (String × String) → Shelf
  | [] => {}
  | (location, text) :: rest => (ofTexts rest).put location text.toUTF8

/-- The tree of a document given by its characters. -/
def documentIn (texts : List (String × List Char)) (location : String) : Except Fault Markup.Node :=
  match (texts.find? fun t => t.1 == Location.normalize location).map (·.2) with
  | none => .error (.notFound location)
  | some text =>
    match Markup.build [] none (Markup.scan [] text) with
    | .error f => .error (.document location f)
    | .ok root => .ok root

/-- The locations are normal, and each document begins with a tag. -/
def Plain (texts : List (String × List Char)) : Prop :=
  ∀ t ∈ texts, Location.normalize t.1 = t.1 ∧ t.2.head? = some '<'

instance (texts : List (String × List Char)) : Decidable (Plain texts) :=
  inferInstanceAs (Decidable (∀ t ∈ texts, Location.normalize t.1 = t.1 ∧ t.2.head? = some '<'))

theorem Shelf.get?_ofTexts {texts : List (String × String)} (hnormal : ∀ t ∈ texts, Location.normalize t.1 = t.1)
    (k : String) : (ofTexts texts).documents.get? k = (texts.find? (·.1 == k)).map (·.2.toUTF8) := by
  induction texts with
  | nil => rfl
  | cons t rest ih =>
    have hrest := ih fun t ht => hnormal t (List.mem_cons_of_mem _ ht)
    rw [ofTexts, put]
    dsimp only
    rw [hnormal t List.mem_cons_self]
    by_cases h : k = t.1
    · rw [h, SortedMap.get?_insert_self, List.find?_cons_of_pos (by simp)]
      rfl
    · rw [SortedMap.get?_insert_of_ne _ _ h, List.find?_cons_of_neg (by simpa using Ne.symm h), hrest]

theorem Shelf.document_ofTexts {texts : List (String × String)}
    (hplain : Plain (texts.map fun t => (t.1, t.2.toList))) :
    (ofTexts texts).store.document = documentIn (texts.map fun t => (t.1, t.2.toList)) := by
  have hread : (ofTexts texts).store.read = (ofTexts texts).read := rfl
  have hnormal : ∀ t ∈ texts, Location.normalize t.1 = t.1 := fun t ht => (hplain _ (List.mem_map_of_mem ht)).1
  funext location
  unfold Store.document documentIn
  rw [hread, read, get?_ofTexts hnormal, List.find?_map]
  simp only [Function.comp_def]
  cases hfind : texts.find? fun t => t.1 == Location.normalize location with
  | none => rfl
  | some t =>
    have hparse := Markup.parse_toUTF8 (hplain _ (List.mem_map_of_mem (List.mem_of_find?_eq_some hfind))).2
    cases hbuild : Markup.build [] none (Markup.scan [] t.2.toList) <;>
      simp only [Option.map_some, hparse, hbuild]

/-- The schemas among documents given by their characters. -/
def schemasIn (texts : List (String × List Char)) : List Schema :=
  texts.filterMap fun t =>
    match documentIn texts t.1 with
    | .error _ => none
    | .ok root =>
      match Schema.read t.1 none root with
      | .error _ => none
      | .ok s => some s.value

theorem mem_schemasIn_of_offers {texts : List (String × String)}
    (hplain : Plain (texts.map fun t => (t.1, t.2.toList))) {s : Schema}
    (h : (Shelf.ofTexts texts).store.Offers s) : s ∈ schemasIn (texts.map fun t => (t.1, t.2.toList)) := by
  obtain ⟨hlocation, hschema⟩ := h
  unfold Store.schema? at hschema
  rw [Shelf.document_ofTexts hplain] at hschema
  refine List.mem_filterMap.2 ?_
  generalize texts.map (fun t => (t.1, t.2.toList)) = texts' at hschema ⊢
  cases hfind : texts'.find? fun t => t.1 == Location.normalize s.location with
  | none =>
    unfold documentIn at hschema
    rw [hfind] at hschema
    cases hschema
  | some t =>
    have hfound := List.find?_some hfind
    have heq : t.1 = s.location := (beq_iff_eq.1 hfound).trans hlocation
    refine ⟨t, List.mem_of_find?_eq_some hfind, ?_⟩
    rw [heq]
    exact hschema

theorem Shelf.orderly_ofTexts (texts : List (String × String))
    (hplain : Plain (texts.map fun t => (t.1, t.2.toList)))
    (horderly : Schema.Orderly (· ∈ schemasIn (texts.map fun t => (t.1, t.2.toList)))) :
    (ofTexts texts).store.Orderly :=
  horderly.mono fun _ hs => mem_schemasIn_of_offers hplain hs

namespace Discovery

variable (document : String → Except Fault Markup.Node)

/-- `drain` in at most so many steps. Since `drain` recurses over what is left unseen, it does not compute on given
documents; this does. -/
def drainWithin : Nat → SortedSet String → Discovery → List Pending → Option (SortedSet String × Discovery)
  | _, seen, d, [] => some (seen, d)
  | 0, _, _, _ :: _ => none
  | n + 1, seen, d, p :: queue =>
    if seen.contains p.location then drainWithin n seen d queue
    else match document p.location with
      | .error f =>
        drainWithin n (seen.insert p.location) ((d.ask p.location).report [unreadable p.location f]) queue
      | .ok root =>
        let entered := (d.ask p.location).enterPending p root
        drainWithin n (seen.insert p.location) entered.1 (queue ++ entered.2)

/-- `readTree` from given documents. -/
def readTreeFrom (d : Discovery) (location : String) (embedded : Bool) : Discovery × Option Markup.Node :=
  if embedded then (d, d.embedded.get? location)
  else
    match document location with
    | .ok root => (d.ask location, some root)
    | .error f => ((d.ask location).report [unreadable location f], none)

/-- `readTrees` from given documents. -/
def readTreesFrom (d : Discovery) : List (String × Bool) → Discovery × List (String × Markup.Node)
  | [] => (d, [])
  | (location, embedded) :: rest =>
    let (d, tree) := readTreeFrom document d location embedded
    let (d, trees) := readTreesFrom d rest
    (d, (tree.map (location, ·)).toList ++ trees)

/-- `rounds` in at most so many rounds and steps within each. -/
def roundsWithin (locators : Bool) :
    Nat → SortedSet String → Discovery → Option (SortedSet String × Discovery)
  | 0, seen, d => if d.unloaded = [] then some (seen, d) else none
  | n + 1, seen, d =>
    if d.unloaded = [] then some (seen, d)
    else
      let taken := readTreesFrom document
        { d with loaded := d.loaded.insertAll (d.unloaded.map (·.1)) } d.unloaded
      (drainWithin document n seen taken.1 (if locators then taken.1.targets seen taken.2 else [])).bind
        fun drained => roundsWithin locators n drained.1 (drained.2.addLinkbases taken.2)

/-- `enterEntry` from given documents. -/
def enterEntryFrom (p : Progress) (entry : String) : Progress × Option Fault :=
  let location := Location.normalize entry
  if p.seen.contains location then
    ({ p with entries := p.entries ++ (p.discovery.dts.byLocation.get? location).toList }, none)
  else
    let p := { p with seen := p.seen.insert location, discovery := p.discovery.ask location }
    match document location with
    | .error f => (p, some (.entryUnreadable location f))
    | .ok root =>
      match p.discovery.enter location .entry root with
      | .error f => (p, some (.entryNotSchema location (.document location f)))
      | .ok (d, taxonomy, more) =>
        ({ p with discovery := d, queue := p.queue ++ more, entries := p.entries ++ [taxonomy] }, none)

/-- `enterEntries` from given documents. -/
def enterEntriesFrom (p : Progress) : List String → Progress × Option Fault
  | [] => (p, none)
  | entry :: rest =>
    match enterEntryFrom document p entry with
    | (p, some f) => (p, some f)
    | (p, none) => enterEntriesFrom p rest

/-- What a load with the default options that succeeds in at most so many steps leaves. -/
def loadWithin (n : Nat) (entries : List String) (d : Discovery) : Option Discovery :=
  if entries.isEmpty then none
  else
    match enterEntriesFrom document { discovery := d } entries with
    | (_, some _) => none
    | (p, none) =>
      (drainWithin document n p.seen (p.discovery.nameMain p.entries) p.queue).bind fun drained =>
        (roundsWithin document true n drained.1 drained.2).map (·.2)

variable {document} {store : Store} (hdocument : store.document = document)
include hdocument

theorem drain_of_drainWithin {n : Nat} {seen : SortedSet String} {d : Discovery} {queue : List Pending}
    {r : SortedSet String × Discovery} (h : drainWithin document n seen d queue = some r) :
    drain store seen d queue = r := by
  subst hdocument
  fun_induction drainWithin store.document n seen d queue with
  | case1 n seen d =>
    rw [drain]
    exact Option.some_inj.1 h
  | case2 => cases h
  | case3 n seen d p queue hseen ih =>
    rw [drain, dif_pos hseen]
    exact ih h
  | case4 n seen d p queue hseen f hread ih =>
    rw [drain, dif_neg hseen]
    split
    · rename_i hread'
      cases hread.symm.trans hread'
      exact ih h
    · rename_i hread'
      cases hread.symm.trans hread'
  | case5 n seen d p queue hseen root hread entered ih =>
    rw [drain, dif_neg hseen]
    split
    · rename_i hread'
      cases hread.symm.trans hread'
    · rename_i hread'
      cases hread.symm.trans hread'
      exact ih h

theorem readTrees_eq_readTreesFrom (d : Discovery) (pending : List (String × Bool)) :
    readTrees store d pending = readTreesFrom document d pending := by
  subst hdocument
  induction pending generalizing d with
  | nil => rfl
  | cons p rest ih =>
    obtain ⟨location, embedded⟩ := p
    have hread : readTree store d location embedded = readTreeFrom store.document d location embedded := rfl
    rw [readTrees, readTreesFrom, hread]
    simp only [ih]

theorem rounds_of_roundsWithin {locators : Bool} {n : Nat} {seen : SortedSet String} {d : Discovery}
    {r : SortedSet String × Discovery} (h : roundsWithin document locators n seen d = some r) :
    rounds store locators seen d = r := by
  induction n generalizing seen d with
  | zero =>
    unfold roundsWithin at h
    split at h
    · rename_i hnil
      rw [rounds, dif_pos hnil]
      exact Option.some_inj.1 h
    · cases h
  | succ n ih =>
    unfold roundsWithin at h
    split at h
    · rename_i hnil
      rw [rounds, dif_pos hnil]
      exact Option.some_inj.1 h
    · rename_i hne
      obtain ⟨drained, hdrained, h⟩ := Option.bind_eq_some_iff.1 h
      rw [rounds, dif_neg hne]
      have hround : round store locators seen d = (drained.1, drained.2.addLinkbases
          (readTreesFrom document { d with loaded := d.loaded.insertAll (d.unloaded.map (·.1)) } d.unloaded).2) := by
        unfold round takeLinkbases
        dsimp only
        rw [readTrees_eq_readTreesFrom hdocument, drain_of_drainWithin hdocument hdrained]
      dsimp only
      rw [hround]
      exact ih h

theorem enterEntries_eq_enterEntriesFrom (p : Progress) (entries : List String) :
    enterEntries store p entries = enterEntriesFrom document p entries := by
  subst hdocument
  induction entries generalizing p with
  | nil => rfl
  | cons entry rest ih =>
    have hentry : enterEntry store p entry = enterEntryFrom store.document p entry := rfl
    unfold enterEntries enterEntriesFrom
    rw [hentry]
    rcases enterEntryFrom store.document p entry with ⟨q, _ | f⟩
    · exact ih q
    · rfl

/-- A load that ends within a number of steps succeeds, and leaves what the steps leave. -/
theorem load_of_loadWithin {n : Nat} {entries : List String} {d e : Discovery}
    (h : loadWithin document n entries d = some e) : ∃ receipt, load store {} entries d = (e, .ok receipt) := by
  unfold loadWithin at h
  unfold load
  split at h
  · cases h
  · rename_i hne
    rw [if_neg hne]
    split at h
    · cases h
    · rename_i p henter
      obtain ⟨drained, hdrained, h⟩ := Option.bind_eq_some_iff.1 h
      obtain ⟨r, hrounds, rfl⟩ := Option.map_eq_some_iff.1 h
      rw [enterEntries_eq_enterEntriesFrom hdocument, henter]
      dsimp only
      rw [drain_of_drainWithin hdocument hdrained, if_pos rfl, rounds_of_roundsWithin hdocument hrounds]
      exact ⟨_, rfl⟩

end Discovery

namespace Sample

/-- A discovery in documents from a shelf is made of the steps that it takes within a bound. -/
theorem discover_ofTexts (texts : List (String × String)) {entries : List String} (test : Discovery → Prop)
    [DecidablePred test] (n : Nat) {start : Discovery}
    (hplain : Plain (texts.map fun t => (t.1, t.2.toList)))
    (htest : ((Discovery.loadWithin (documentIn (texts.map fun t => (t.1, t.2.toList))) n entries start).any
      fun d => decide (test d)) = true) :
    ∃ d receipt, Discovery.load (Shelf.ofTexts texts).store {} entries start = (d, .ok receipt) ∧ test d := by
  cases hwithin : Discovery.loadWithin (documentIn (texts.map fun t => (t.1, t.2.toList))) n entries start with
  | none =>
    rw [hwithin] at htest
    cases htest
  | some d =>
    rw [hwithin] at htest
    obtain ⟨receipt, hload⟩ := Discovery.load_of_loadWithin (Shelf.document_ofTexts hplain) hwithin
    exact ⟨d, receipt, hload, of_decide_eq_true htest⟩

theorem load_of_loadWithin {texts : List (String × String)} {entries : List String} {n : Nat} {d : Discovery}
    (hplain : Plain (texts.map fun t => (t.1, t.2.toList)))
    (h : Discovery.loadWithin (documentIn (texts.map fun t => (t.1, t.2.toList))) n entries
      { dts := {}, journal := {} } = some d) :
    (∃ receipt, (Session.load {} (Shelf.ofTexts texts).store {} entries).2.2 = .ok receipt) ∧
      (Session.load {} (Shelf.ofTexts texts).store {} entries).1.dts = d.dts := by
  obtain ⟨receipt, hload⟩ := Discovery.load_of_loadWithin (Shelf.document_ofTexts hplain) h
  obtain ⟨hresult, hdts⟩ := Session.load_eq {} (Shelf.ofTexts texts).store {} entries
  change Discovery.load _ _ _ { dts := ({} : Session).dts, journal := ({} : Session).journal } = _ at hload
  rw [hresult, hdts, hload]
  exact ⟨⟨receipt, rfl⟩, rfl⟩

/-- A load of documents from a shelf is made of the steps that it takes within a bound. -/
theorem load_ofTexts (texts : List (String × String)) {entries : List String} (test : Dts → Prop)
    [DecidablePred test] (n : Nat)
    (hplain : Plain (texts.map fun t => (t.1, t.2.toList)))
    (htest : ((Discovery.loadWithin (documentIn (texts.map fun t => (t.1, t.2.toList))) n entries
      { dts := {}, journal := {} }).any fun d => decide (test d.dts)) = true) :
    (∃ receipt, (Session.load {} (Shelf.ofTexts texts).store {} entries).2.2 = .ok receipt) ∧
      test (Session.load {} (Shelf.ofTexts texts).store {} entries).1.dts := by
  obtain ⟨d, hd, htest⟩ := (Option.any_eq_true _ _).1 htest
  obtain ⟨hload, hdts⟩ := load_of_loadWithin hplain hd
  rw [hdts]
  exact ⟨hload, of_decide_eq_true htest⟩

/-- Two loads of documents from a shelf. -/
theorem loads_ofTexts (texts : List (String × String)) {baseEntries entries : List String} (test : Dts → Dts → Prop)
    [∀ b e, Decidable (test b e)] (n : Nat) (hplain : Plain (texts.map fun t => (t.1, t.2.toList)))
    (htest : ((Discovery.loadWithin (documentIn (texts.map fun t => (t.1, t.2.toList))) n baseEntries
        { dts := {}, journal := {} }).any fun b =>
      (Discovery.loadWithin (documentIn (texts.map fun t => (t.1, t.2.toList))) n entries
        { dts := {}, journal := {} }).any fun e => decide (test b.dts e.dts)) = true) :
    (∃ receipt, (Session.load {} (Shelf.ofTexts texts).store {} baseEntries).2.2 = .ok receipt) ∧
      (∃ receipt, (Session.load {} (Shelf.ofTexts texts).store {} entries).2.2 = .ok receipt) ∧
      test (Session.load {} (Shelf.ofTexts texts).store {} baseEntries).1.dts
        (Session.load {} (Shelf.ofTexts texts).store {} entries).1.dts := by
  obtain ⟨b, hb, htest⟩ := (Option.any_eq_true _ _).1 htest
  obtain ⟨e, he, htest⟩ := (Option.any_eq_true _ _).1 htest
  obtain ⟨hbase, hbdts⟩ := load_of_loadWithin hplain hb
  obtain ⟨hload, hedts⟩ := load_of_loadWithin hplain he
  rw [hbdts, hedts]
  exact ⟨hbase, hload, of_decide_eq_true htest⟩

/-- The tree of a document on a shelf is made of its characters. -/
theorem document_ofTexts (texts : List (String × String)) {location : String} (test : Markup.Node → Prop)
    [DecidablePred test] (hplain : Plain (texts.map fun t => (t.1, t.2.toList)))
    (htest : ((documentIn (texts.map fun t => (t.1, t.2.toList)) location).toOption.any
      fun root => decide (test root)) = true) :
    ∃ root, (Shelf.ofTexts texts).store.document location = .ok root ∧ test root := by
  rw [Shelf.document_ofTexts hplain]
  cases hdocument : documentIn (texts.map fun t => (t.1, t.2.toList)) location with
  | error f =>
    rw [hdocument] at htest
    cases htest
  | ok root =>
    rw [hdocument] at htest
    exact ⟨root, rfl, of_decide_eq_true htest⟩

theorem eq_ok_of_toOption {ε α : Type} {x : Except ε α} {a : α} (h : x.toOption = some a) : x = .ok a := by
  cases x with
  | error e => cases h
  | ok b => exact congrArg Except.ok (Option.some_inj.1 h)

/-- The load of the schema with the numbers of an arc. -/
theorem load_ordering {order : String} {expected : List (List (Binary64 × Option Binary64))}
    (hplain : Plain [("schema.xsd", (orderingSchema order).toList)])
    (hnumbers : ((Discovery.loadWithin (documentIn [("schema.xsd", (orderingSchema order).toList)]) 2 ["schema.xsd"]
      { dts := {}, journal := {} }).any fun d => decide (numbers d.dts = expected)) = true) :
    (∃ receipt, (Session.load {} (orderingStore order) {} ["schema.xsd"]).2.2 = .ok receipt) ∧
      numbers (Session.load {} (orderingStore order) {} ["schema.xsd"]).1.dts = expected :=
  load_ofTexts [("schema.xsd", orderingSchema order)] (fun d => numbers d = expected) 2 hplain hnumbers

set_option maxRecDepth 100000 in
/-- The order `2` is read as two. -/
theorem load_two : (∃ receipt, (Session.load {} (orderingStore "2") {} ["schema.xsd"]).2.2 = .ok receipt) ∧
    numbers (Session.load {} (orderingStore "2") {} ["schema.xsd"]).1.dts = [[(⟨0x4000000000000000⟩, none)]] := by
  refine load_ordering ?_ ?_
  all_goals
    unfold orderingSchema
    -- the characters of a literal are put in its place, since they are slow to decode
    repeat rw [String.toList_append]
    repeat rw [String.toList_ofList]
    decide +kernel

set_option maxRecDepth 100000 in
/-- The order `INF` is read as infinity. -/
theorem load_infinite : (∃ receipt, (Session.load {} (orderingStore "INF") {} ["schema.xsd"]).2.2 = .ok receipt) ∧
    numbers (Session.load {} (orderingStore "INF") {} ["schema.xsd"]).1.dts = [[(.infinity, none)]] := by
  refine load_ordering ?_ ?_
  all_goals
    unfold orderingSchema
    repeat rw [String.toList_append]
    repeat rw [String.toList_ofList]
    decide +kernel

end Sample

end TaxonomySet
