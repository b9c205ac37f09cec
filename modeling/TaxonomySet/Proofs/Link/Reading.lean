import TaxonomySet.Proofs.Link.Content
import TaxonomySet.Proofs.Markup.Traversal

namespace TaxonomySet.ExtendedLink

open Markup

/-- Whether an element stands for a locator of a link read from a document, and which one. -/
def Locates (location : String) (n : Node) (h : Href) : Prop :=
  n.xlink? "type" = some "locator" ∧ ∃ raw, n.xlink? "href" = some raw ∧ h = Href.parse location raw

theorem document_readContent (registry : Registry) (location : String) (l : ExtendedLink) (children : List Node) :
    (readContent registry location l children).value.document = l.document := by
  rw [value_readContent]
  obtain ⟨arcs, harcs⟩ := exists_foldl_addArc _ (withEnds location l children)
  rw [harcs]
  rfl

/-- What a label of a link stands for is what some locator among its children refers to. -/
theorem locates_of_mem_readContent {registry : Registry} {location label : String} {l : ExtendedLink}
    {children : List Node} {hrefs : List Href} (hnone : l.locators = ∅)
    (hget : (readContent registry location l children).value.locators.get? label = some hrefs) {h : Href}
    (hmem : h ∈ hrefs) : ∃ n ∈ children, Locates location n h := by
  rw [value_readContent] at hget
  obtain ⟨arcs, harcs⟩ := exists_foldl_addArc _ (withEnds location l children)
  rw [harcs] at hget
  change ((locatorsIn location children).foldl (fun m e => m.push e.1 e.2) l.locators).get? label = some hrefs at hget
  rw [SortedMap.get?_foldl_push Prod.fst Prod.snd, hnone] at hget
  split at hget
  · cases hget
  · cases hget
    obtain ⟨e, he, rfl⟩ := List.mem_map.1 hmem
    obtain ⟨n, hn, hread⟩ := List.mem_filterMap.1 (List.mem_of_mem_filter he)
    obtain ⟨hn, htype⟩ := List.mem_filter.1 hn
    refine ⟨n, hn, beq_iff_eq.1 htype, ?_⟩
    unfold readLocator at hread
    split at hread
    · rename_i raw _ hhref
      cases hread
      exact ⟨raw, hhref, rfl⟩
    · cases hread

/-- A link that is read is the content of an element of the document. -/
theorem exists_of_mem_readAll {registry : Registry} {location : String} {tree : Node} {l : ExtendedLink}
    (h : l ∈ (readAll registry location tree).value) : ∃ n ∈ tree.descendants, ∃ role,
      l = (readContent registry location
        { kind := .ofElement n.name, element := n.name, role := role, document := location } n.children).value := by
  obtain ⟨r, hr, hvalue⟩ := List.mem_filterMap.1 h
  obtain ⟨n, hn, rfl⟩ := List.mem_map.1 hr
  unfold linkNodes at hn
  obtain ⟨linkbase, hlinkbase, hn⟩ := List.mem_flatMap.1 hn
  refine ⟨n, Node.mem_descendants_of_mem_children (List.mem_of_mem_filter hlinkbase) (List.mem_of_mem_filter hn), ?_⟩
  unfold readLink at hvalue
  split at hvalue
  · cases hvalue
  · rename_i role _
    split at hvalue
    · exact ⟨role, (Option.some_inj.1 hvalue).symm⟩
    · cases hvalue

theorem document_of_mem_readAll {registry : Registry} {location : String} {tree : Node} {l : ExtendedLink}
    (h : l ∈ (readAll registry location tree).value) : l.document = location := by
  obtain ⟨n, -, role, rfl⟩ := exists_of_mem_readAll h
  exact document_readContent _ _ _ _

/-- What a label of a link stands for is what some locator element of the document refers to. -/
theorem locates_of_mem_readAll {registry : Registry} {location label : String} {tree : Node} {l : ExtendedLink}
    (h : l ∈ (readAll registry location tree).value) {hrefs : List Href} (hget : l.locators.get? label = some hrefs)
    {href : Href} (hmem : href ∈ hrefs) : ∃ n ∈ tree.descendants, Locates location n href := by
  obtain ⟨n, hn, role, rfl⟩ := exists_of_mem_readAll h
  obtain ⟨m, hm, hlocates⟩ := locates_of_mem_readContent rfl hget hmem
  exact ⟨m, Node.mem_descendants_of_mem_children hn hm, hlocates⟩

/-- Registries that allow the same uses lead to the same links. -/
theorem readAll_congr {r s : Registry} (hrole : ∀ uri element, r.allowsRole uri element = s.allowsRole uri element)
    (harcrole : ∀ uri element, r.allowsArcrole uri element = s.allowsArcrole uri element) (location : String)
    (tree : Node) : readAll r location tree = readAll s location tree := by
  have harc (l : ExtendedLink) : readArc r location l = readArc s location l := by
    funext n
    unfold readArc
    simp only [harcrole]
  have hcontent (l : ExtendedLink) (children : List Node) :
      readContent r location l children = readContent s location l children := by
    unfold readContent
    simp only [harc]
  unfold readAll
  congr 2
  funext n
  unfold readLink
  simp only [hrole, hcontent]

end TaxonomySet.ExtendedLink
