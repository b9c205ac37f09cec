import TaxonomySet.Proofs.Diagnostic
import TaxonomySet.Proofs.Link.Acceptance

namespace TaxonomySet

/-- Whether two arcs have their labels, their arcrole and their priority in common. -/
def Arc.Repeats (a b : Arc) : Prop :=
  a.source = b.source ∧ a.target = b.target ∧ a.arcrole = b.arcrole ∧ a.priority = b.priority

instance (a b : Arc) : Decidable (a.Repeats b) := inferInstanceAs (Decidable (_ ∧ _))

namespace ExtendedLink

open Markup

/-- Whether two lists have the same locators, the same resources and the same arcs, each in the same order. -/
def SameParts (children others : List Node) : Prop :=
  ∀ type ∈ ["locator", "resource", "arc"], childrenOf type children = childrenOf type others

/-- Whether a child of a link gives a label something to stand for: a locator that refers to something, or a
resource. -/
def Provides (label : String) (c : Node) : Prop := c.xlink? "label" = some label ∧
  (c.xlink? "type" = some "locator" ∧ (c.xlink? "href").isSome = true ∨ c.xlink? "type" = some "resource")

instance (label : String) (c : Node) : Decidable (Provides label c) := inferInstanceAs (Decidable (_ ∧ _))

/-- Whether a child of a link is an arc between two labels that is to be kept: its arcrole may be used on it, and both
labels are given somewhere among the children. -/
def Connects (registry : Registry) (children : List Node) (source target : String) (c : Node) : Prop :=
  c.xlink? "type" = some "arc" ∧ c.xlink? "from" = some source ∧ c.xlink? "to" = some target ∧
    (∃ arcrole ∈ c.xlink? "arcrole", registry.allowsArcrole arcrole c.name = true) ∧
    (∃ d ∈ children, Provides source d) ∧ ∃ d ∈ children, Provides target d

instance (registry : Registry) (children : List Node) (source target : String) (c : Node) :
    Decidable (Connects registry children source target c) := inferInstanceAs (Decidable (_ ∧ _))

/-- The arc that a child of a link stands for. -/
def arcFrom (location : String) (c : Node) : Arc :=
  arcOf c ((c.xlink? "from").getD "") ((c.xlink? "to").getD "") ((c.xlink? "arcrole").getD "")
    (readPriority location c).value

/-- The arcs of a link that are to be kept, in document order. -/
def arcsIn (registry : Registry) (location : String) (children : List Node) : List Arc :=
  (children.filter fun c => decide (∃ source ∈ c.xlink? "from", ∃ target ∈ c.xlink? "to",
    Connects registry children source target c)).map (arcFrom location)

/-- The arcs between two labels are the arcs of the children that connect these. -/
theorem filter_arcsIn (registry : Registry) (location : String) (children : List Node) (source target : String) :
    (arcsIn registry location children).filter (fun a => decide (a.source = source ∧ a.target = target)) =
      (children.filter fun c => decide (Connects registry children source target c)).map (arcFrom location) := by
  unfold arcsIn
  rw [List.filter_map, List.filter_filter]
  refine congrArg (List.map _) (List.filter_congr fun c _ => ?_)
  rw [Bool.eq_iff_iff, Bool.and_eq_true, decide_eq_true_iff, Function.comp_apply, decide_eq_true_iff, decide_eq_true_iff]
  constructor
  · rintro ⟨⟨rfl, rfl⟩, s, hs, t, ht, hconnects⟩
    have hsource : c.xlink? "from" = some s := hs
    have htarget : c.xlink? "to" = some t := ht
    simpa [arcFrom, arcOf, hsource, htarget] using hconnects
  · intro hconnects
    have hsource : c.xlink? "from" = some source := hconnects.2.1
    have htarget : c.xlink? "to" = some target := hconnects.2.2.1
    exact ⟨by simp [arcFrom, arcOf, hsource, htarget], source, hsource, target, htarget, hconnects⟩

/-- What is reported of the locators and resources among the children of a link. -/
def endReports (location : String) (children : List Node) : List Diagnostic :=
  (childrenOf "locator" children).flatMap (fun c => (readLocator location c).diagnostics) ++
    (childrenOf "resource" children).flatMap fun c => (readResource location c).diagnostics

/-- The labels of a link are those that its children give. -/
theorem hasLabel_withEnds (location : String) {l : ExtendedLink} (hlocators : l.locators = ∅)
    (hresources : l.resources = ∅) (children : List Node) (label : String) :
    (withEnds location l children).hasLabel label = true ↔ ∃ d ∈ children, Provides label d := by
  unfold hasLabel withEnds
  dsimp only
  rw [Bool.or_eq_true, SortedMap.contains_foldl_push Prod.fst Prod.snd,
    SortedMap.contains_foldl_push Resource.label fun r => r, hlocators, hresources]
  have hlocator (c : Node) : (∃ e, (readLocator location c).value = some e ∧ e.1 = label) ↔
      c.xlink? "label" = some label ∧ (c.xlink? "href").isSome = true := by
    unfold readLocator
    cases c.xlink? "label" <;> cases c.xlink? "href" <;> simp [Reported.pure, Reported.drop]
  have hresource (c : Node) : (∃ r, (readResource location c).value = some r ∧ r.label = label) ↔
      c.xlink? "label" = some label := by
    unfold readResource
    cases c.xlink? "label" <;> simp [Reported.pure, Reported.drop]
  simp only [SortedMap.contains, SortedMap.get?_empty, Option.isSome_none, Bool.false_eq_true, false_or, locatorsIn,
    resourcesIn, childrenOf, List.mem_filterMap, List.mem_filter, beq_iff_eq, Provides]
  constructor
  · rintro (⟨e, ⟨c, ⟨hc, htype⟩, hread⟩, hlabel⟩ | ⟨r, ⟨c, ⟨hc, htype⟩, hread⟩, hlabel⟩)
    · obtain ⟨hname, hhref⟩ := (hlocator c).1 ⟨e, hread, hlabel⟩
      exact ⟨c, hc, hname, .inl ⟨htype, hhref⟩⟩
    · exact ⟨c, hc, (hresource c).1 ⟨r, hread, hlabel⟩, .inr htype⟩
  · rintro ⟨c, hc, hname, ⟨htype, hhref⟩ | htype⟩
    · obtain ⟨e, hread, hlabel⟩ := (hlocator c).2 ⟨hname, hhref⟩
      exact .inl ⟨e, ⟨c, ⟨hc, htype⟩, hread⟩, hlabel⟩
    · obtain ⟨r, hread, hlabel⟩ := (hresource c).2 hname
      exact .inr ⟨r, ⟨c, ⟨hc, htype⟩, hread⟩, hlabel⟩

section Reading

variable {registry : Registry} {location : String} {l : ExtendedLink} {children : List Node}
  (hlabels : ∀ label, l.hasLabel label = true ↔ ∃ d ∈ children, Provides label d)
include hlabels

/-- An arc is read exactly if it connects labels of its link. -/
theorem value_readArc {c : Node} (htype : c.xlink? "type" = some "arc") : (readArc registry location l c).value =
    if ∃ source ∈ c.xlink? "from", ∃ target ∈ c.xlink? "to", Connects registry children source target c then
      some (arcFrom location c) else none := by
  unfold readArc Connects arcFrom
  simp only [← hlabels, htype]
  cases c.xlink? "from" with
  | none => simp [Reported.drop]
  | some source =>
    cases c.xlink? "to" with
    | none => simp [Reported.drop]
    | some target =>
      cases c.xlink? "arcrole" with
      | none => simp [Reported.drop]
      | some arcrole =>
        cases hallows : registry.allowsArcrole arcrole c.name with
        | false => simp [Reported.drop, hallows]
        | true =>
          cases hsource : l.hasLabel source <;> cases htarget : l.hasLabel target <;>
            simp [Reported.drop, Reported.map, hallows, hsource, htarget]

/-- The arcs that are read from the children of a link are those to be kept. -/
theorem filterMap_readArc : ((childrenOf "arc" children).filterMap fun c => (readArc registry location l c).value) =
    arcsIn registry location children := by
  unfold arcsIn childrenOf
  rw [← List.filterMap_eq_map', List.filterMap_filter, List.filterMap_filter]
  refine List.filterMap_congr fun c _ => ?_
  by_cases htype : c.xlink? "type" = some "arc"
  · simp [htype, value_readArc hlabels htype]
  · have hnot (source target : String) : ¬ Connects registry children source target c :=
      fun hconnects => htype hconnects.1
    simp [htype, hnot]

end Reading

/-- The arcs of a list that repeat an earlier one. -/
def repeated (as : List Arc) : List Arc :=
  (as.zipIdx.filter fun a : Arc × Nat => decide (∃ b ∈ as.take a.2, a.1.Repeats b)).map Prod.fst

theorem repeated_concat (as : List Arc) (a : Arc) :
    repeated (as ++ [a]) = repeated as ++ if ∃ b ∈ as, a.Repeats b then [a] else [] := by
  have hbefore : (as.zipIdx.filter fun c : Arc × Nat => decide (∃ b ∈ (as ++ [a]).take c.2, c.1.Repeats b)) =
      as.zipIdx.filter fun c : Arc × Nat => decide (∃ b ∈ as.take c.2, c.1.Repeats b) := by
    refine List.filter_congr fun c hc => ?_
    have hlt := (List.getElem?_eq_some_iff.1 (List.mem_zipIdx_iff_getElem?.1 hc)).1
    rw [List.take_append_of_le_length (Nat.le_of_lt hlt)]
  have hlast : (as ++ [a]).take as.length = as := List.take_left
  unfold repeated
  rw [List.zipIdx_append, List.filter_append, hbefore, List.map_append]
  refine congrArg _ ?_
  by_cases hrepeats : ∃ b ∈ as, a.Repeats b <;> simp [hlast, hrepeats]

theorem role_foldl_addArc (as : List Arc) (l : ExtendedLink) : (as.foldl addArc l).role = l.role := by
  obtain ⟨arcs, harcs⟩ := exists_foldl_addArc as l
  rw [harcs]

/-- Whether a link made of some arcs has one like another: whether that one repeats any of them. -/
theorem hasArcLike_foldl_addArc {l : ExtendedLink} (hnone : l.arcs = ∅) (as : List Arc) (a : Arc) :
    (as.foldl addArc l).hasArcLike a = decide (∃ b ∈ as, a.Repeats b) := by
  have hbetween : l.arcsBetween a.source a.target = [] := arcsBetween_eq_nil hnone a.source a.target
  unfold hasArcLike
  rw [arcsBetween_foldl_addArc, hbetween, List.nil_append, List.any_filter, Bool.eq_iff_iff, List.any_eq_true,
    decide_eq_true_iff]
  refine exists_congr fun b => and_congr_right fun _ => ?_
  simp only [Bool.and_eq_true, decide_eq_true_eq, beq_iff_eq, Arc.Repeats]
  tauto

/-- The code that repetitions are reported under. -/
def isDuplicate (d : Diagnostic) : Bool := d.code == "xbrl.3.5.3.9:duplicateArc"

theorem isDuplicate_of_within {α : Type} {r : Reported α} (h : r.Within partCodes) {d : Diagnostic}
    (hd : d ∈ r.diagnostics) : isDuplicate d = false := by
  have hcode := h d hd
  unfold isDuplicate
  refine beq_eq_false_iff_ne.2 fun heq => ?_
  rw [heq] at hcode
  exact absurd hcode (by unfold partCodes; decide)

/-- While arcs are added, a repetition is reported for each that repeats an earlier one, and for no other. -/
theorem filter_diagnostics_foldl_addReadArc (location : String) {acc : Reported ExtendedLink}
    (hnone : acc.value.arcs = ∅) (rs : List (Reported (Option Arc))) (hrs : ∀ r ∈ rs, r.Within partCodes) :
    (rs.foldl (addReadArc location) acc).diagnostics.filter isDuplicate = acc.diagnostics.filter isDuplicate ++
      (repeated (rs.filterMap Reported.value)).map (duplicateArc location acc.value) := by
  induction rs using List.reverseRecOn with
  | nil => simp [repeated]
  | append_singleton rs r ih =>
    have hr : r.diagnostics.filter isDuplicate = [] := List.filter_eq_nil_iff.2 fun d hd => by
      rw [isDuplicate_of_within (hrs r (List.mem_append_right _ List.mem_cons_self)) hd]
      exact Bool.false_ne_true
    have hbefore := ih fun r hr => hrs r (List.mem_append_left _ hr)
    have hvalue := value_foldl_addReadArc location rs acc
    rw [List.foldl_append, List.foldl_cons, List.foldl_nil, List.filterMap_append]
    generalize rs.foldl (addReadArc location) acc = before at hbefore hvalue
    unfold addReadArc
    cases hread : r.value with
    | none => simp [hread, hr, hbefore]
    | some a =>
      have hlike : before.value.hasArcLike a = decide (∃ b ∈ rs.filterMap Reported.value, a.Repeats b) := by
        rw [hvalue, hasArcLike_foldl_addArc hnone]
      have hrole : duplicateArc location before.value a = duplicateArc location acc.value a := by
        unfold duplicateArc
        rw [hvalue, role_foldl_addArc]
      have hlast : [r].filterMap Reported.value = [a] := by simp [hread]
      rw [hlast, repeated_concat, List.map_append, ← List.append_assoc, ← hbefore]
      dsimp only
      rw [List.filter_append, List.filter_append, hr, List.append_nil, hlike, hrole]
      refine congrArg _ ?_
      by_cases hrepeats : ∃ b ∈ rs.filterMap Reported.value, a.Repeats b
      · rw [if_pos hrepeats, if_pos (decide_eq_true hrepeats)]
        rfl
      · rw [if_neg hrepeats, if_neg fun h => hrepeats (of_decide_eq_true h)]
        rfl

theorem diagnostics_foldl_addEnds_perm (location : String) (children : List Node) (acc : Reported ExtendedLink) :
    (children.foldl (addEnds location) acc).diagnostics.Perm (acc.diagnostics ++ endReports location children) := by
  induction children generalizing acc with
  | nil => simp [endReports, childrenOf]
  | cons c children ih =>
    rw [List.foldl_cons]
    refine (ih _).trans ?_
    unfold addEnds endReports
    simp only [childrenOf_cons]
    by_cases hlocator : c.xlink? "type" = some "locator"
    · simp [hlocator]
    · by_cases hresource : c.xlink? "type" = some "resource"
      · simp only [hresource, Option.some_inj, String.reduceEq, if_true, if_false, List.flatMap_cons, List.append_assoc]
        exact .append_left _ (List.perm_append_comm_assoc _ _ _)
      · simp [hlocator, hresource]

/-- What was reported before arcs are added stays in front. -/
theorem foldl_addReadArc (location : String) (rs : List (Reported (Option Arc))) (acc : Reported ExtendedLink) :
    (rs.foldl (addReadArc location) acc).diagnostics =
      acc.diagnostics ++ (rs.foldl (addReadArc location) ⟨acc.value, []⟩).diagnostics := by
  induction rs generalizing acc with
  | nil => simp
  | cons r rs ih =>
    rw [List.foldl_cons, List.foldl_cons, ih, ih (addReadArc location ⟨acc.value, []⟩ r), ← List.append_assoc]
    unfold addReadArc
    cases r.value <;> simp

section Content

variable (registry : Registry) (location : String) {l : ExtendedLink}

/-- The content of a link: its labels, and between them the arcs to be kept. -/
theorem value_readContent_eq (hlocators : l.locators = ∅) (hresources : l.resources = ∅) (children : List Node) :
    (readContent registry location l children).value =
      (arcsIn registry location children).foldl addArc (withEnds location l children) := by
  rw [value_readContent, filterMap_readArc (hasLabel_withEnds location hlocators hresources children)]

/-- Between two labels a link has the arcs that connect them. -/
theorem arcsBetween_readContent (hlocators : l.locators = ∅) (hresources : l.resources = ∅) (harcs : l.arcs = ∅)
    (children : List Node) (source target : String) :
    (readContent registry location l children).value.arcsBetween source target = (children.filter fun c =>
      decide (Connects registry children source target c)).map (arcFrom location) := by
  have hnone : (withEnds location l children).arcsBetween source target = [] := arcsBetween_eq_nil harcs source target
  rw [value_readContent_eq registry location hlocators hresources, arcsBetween_foldl_addArc, hnone, List.nil_append,
    filter_arcsIn]

/-- Of the content of a link repetitions are reported, each once, and nothing else as such. -/
theorem filter_diagnostics_readContent (hlocators : l.locators = ∅) (hresources : l.resources = ∅) (harcs : l.arcs = ∅)
    (children : List Node) : (readContent registry location l children).diagnostics.filter isDuplicate =
      (repeated (arcsIn registry location children)).map (duplicateArc location l) := by
  have hends : ((children.foldl (addEnds location) ⟨l, []⟩).diagnostics.filter isDuplicate) = [] := by
    refine List.filter_eq_nil_iff.2 fun d hd => ?_
    rcases List.mem_append.1 ((diagnostics_foldl_addEnds_perm location children ⟨l, []⟩).mem_iff.1 hd) with hd | hd
    · cases hd
    · rcases List.mem_append.1 hd with hd | hd <;> obtain ⟨c, -, hd⟩ := List.mem_flatMap.1 hd
      · rw [isDuplicate_of_within (within_readLocator location c) hd]
        exact Bool.false_ne_true
      · rw [isDuplicate_of_within (within_readResource location c) hd]
        exact Bool.false_ne_true
  have hvalue := value_foldl_addEnds location children ⟨l, []⟩
  unfold readContent
  dsimp only
  generalize children.foldl (addEnds location) ⟨l, []⟩ = ends at hends hvalue
  rw [filter_diagnostics_foldl_addReadArc location (by rw [hvalue]; exact harcs), hends, List.nil_append, hvalue]
  · rw [List.filterMap_map]
    exact congrArg (List.map _ ∘ repeated)
      (filterMap_readArc (hasLabel_withEnds location hlocators hresources children))
  · intro r hr
    obtain ⟨c, -, rfl⟩ := List.mem_map.1 hr
    exact within_readArc registry location _ c

/-- Where locators, resources and arcs stand among each other makes no difference but to the order of reports. -/
theorem readContent_congr {children others : List Node} (h : SameParts children others) :
    (readContent registry location l children).value = (readContent registry location l others).value ∧
      (readContent registry location l children).diagnostics.Perm
        (readContent registry location l others).diagnostics := by
  have hlocators : childrenOf "locator" children = childrenOf "locator" others := h _ (by simp)
  have hresources : childrenOf "resource" children = childrenOf "resource" others := h _ (by simp)
  have harcs : childrenOf "arc" children = childrenOf "arc" others := h _ (by simp)
  have hends : withEnds location l children = withEnds location l others := by
    unfold withEnds locatorsIn resourcesIn
    rw [hlocators, hresources]
  have hreports : (children.foldl (addEnds location) ⟨l, []⟩).diagnostics.Perm
      (others.foldl (addEnds location) ⟨l, []⟩).diagnostics := by
    refine (diagnostics_foldl_addEnds_perm location children _).trans (.trans ?_
      (diagnostics_foldl_addEnds_perm location others _).symm)
    unfold endReports
    rw [hlocators, hresources]
  refine ⟨by rw [value_readContent, value_readContent, hends, harcs], ?_⟩
  unfold childrenOf at harcs
  unfold readContent
  dsimp only
  rw [foldl_addReadArc, foldl_addReadArc location _ (others.foldl _ _), value_foldl_addEnds, value_foldl_addEnds,
    hends, harcs]
  exact hreports.append_right _

end Content

/-- A link whose role may be used on it keeps, between any two labels and in document order, exactly the arcs among
its children that connect these, wherever the labels are given. It stays the same, and so do the reports but for their
order, if the children are ordered differently but locators, resources and arcs keep their order among themselves. A
repetition is reported once for each arc that it keeps and that repeats an earlier one, and for no other. -/
theorem arcsBetween_readLink {registry : Registry} {n : Node} {role : String} (hrole : n.xlink? "role" = some role)
    (hallows : registry.allowsRole role n.name = true) (location : String) :
    ∃ l, (readLink registry location n).value = some l ∧
      (∀ source target, l.arcsBetween source target = (n.children.filter fun c =>
        decide (Connects registry n.children source target c)).map (arcFrom location)) ∧
      (∀ children, SameParts children n.children →
        (readLink registry location { n with children }).value = some l ∧
          (readLink registry location { n with children }).diagnostics.Perm
            (readLink registry location n).diagnostics) ∧
      (readLink registry location n).diagnostics.filter isDuplicate =
        (repeated (arcsIn registry location n.children)).map (duplicateArc location l) := by
  let empty : ExtendedLink := { kind := .ofElement n.name, element := n.name, role := role, document := location }
  have hread (children : List Node) : readLink registry location { n with children } =
      (readContent registry location empty children).map some := by
    have hrole' : Node.xlink? { n with children } "role" = some role := hrole
    have hallows' : registry.allowsRole role (Node.name { n with children }) = true := hallows
    unfold readLink
    rw [hrole']
    dsimp only
    rw [if_pos hallows']
    rfl
  have hself : readLink registry location n = (readContent registry location empty n.children).map some :=
    hread n.children
  have hvalue := value_readContent_eq registry location (l := empty) rfl rfl n.children
  refine ⟨_, congrArg Reported.value hself, fun source target => ?_, fun children hsame => ?_, ?_⟩
  · exact arcsBetween_readContent registry location rfl rfl rfl n.children source target
  · obtain ⟨hsame, hreports⟩ := readContent_congr registry location (l := empty) hsame
    rw [hread, hself]
    exact ⟨congrArg some hsame, hreports⟩
  · rw [hself]
    refine (filter_diagnostics_readContent registry location (l := empty) rfl rfl rfl n.children).trans ?_
    refine List.map_congr_left fun a _ => ?_
    unfold duplicateArc
    rw [hvalue, role_foldl_addArc]
    rfl

/-- An element of a link with attributes of the link vocabulary. -/
def part (localName : String) (attributes : List (String × String)) : Node where
  ns := some Vocabulary.link
  localName := localName
  attributes := attributes.map fun a => ⟨some Vocabulary.xlink, a.1, a.2⟩
  children := []
  text := ""
  scope := {}

/-- An arc between two labels. -/
def partArc (source target : String) : Node :=
  part "presentationArc" [("type", "arc"), ("from", source), ("to", target), ("arcrole", Vocabulary.parentChild)]

/-- The label `x` has a locator that refers to nothing, and one arc leads to no label. -/
def mixedLink : Node :=
  { part "presentationLink" [("type", "extended"), ("role", Vocabulary.standardLinkRole)] with
    children := [partArc "a" "b", part "loc" [("type", "locator"), ("label", "x")], partArc "a" "x",
      part "loc" [("type", "locator"), ("label", "a"), ("href", "s.xsd#a")], partArc "a" "b",
      part "presentationArc" [("type", "arc"), ("from", "a"), ("arcrole", Vocabulary.parentChild)],
      part "label" [("type", "resource"), ("label", "b")]] }

/-- The two arcs between the labels that are given are kept, and the second is reported. -/
theorem arcsBetween_mixedLink : mixedLink.xlink? "role" = some Vocabulary.standardLinkRole ∧
    ({} : Registry).allowsRole Vocabulary.standardLinkRole mixedLink.name = true ∧
    ∃ l, (readLink {} "l.xml" mixedLink).value = some l ∧
      l.arcsBetween "a" "b" = [arcFrom "l.xml" (partArc "a" "b"), arcFrom "l.xml" (partArc "a" "b")] ∧
      l.arcsBetween "a" "x" = [] ∧ (readLink {} "l.xml" mixedLink).diagnostics.filter isDuplicate =
        [duplicateArc "l.xml" l (arcFrom "l.xml" (partArc "a" "b"))] := by
  have hrole : mixedLink.xlink? "role" = some Vocabulary.standardLinkRole := by decide +kernel
  have hallows : ({} : Registry).allowsRole Vocabulary.standardLinkRole mixedLink.name = true := by decide +kernel
  obtain ⟨l, hread, hbetween, -, hreports⟩ := arcsBetween_readLink hrole hallows "l.xml"
  refine ⟨hrole, hallows, l, hread, ?_, ?_, ?_⟩
  · rw [hbetween]
    decide +kernel
  · rw [hbetween]
    decide +kernel
  · rw [hreports]
    have hrepeated : repeated (arcsIn {} "l.xml" mixedLink.children) = [arcFrom "l.xml" (partArc "a" "b")] := by
      decide +kernel
    rw [hrepeated]
    rfl

end ExtendedLink

end TaxonomySet
