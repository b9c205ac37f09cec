import TaxonomySet.Dts.Index
import TaxonomySet.Link.Reader
import TaxonomySet.Schema.Reader

namespace TaxonomySet

@[simp] theorem Diagnostic.code_error (concern : Concern) (code message : String) :
    (Diagnostic.error concern code message).code = code := rfl

@[simp] theorem Diagnostic.code_warning (concern : Concern) (code message : String) :
    (Diagnostic.warning concern code message).code = code := rfl

@[simp] theorem Diagnostic.code_withField (d : Diagnostic) (name value : String) :
    (d.withField name value).code = d.code := rfl

@[simp] theorem Schema.code_structural (location code message : String) :
    (structural location code message).code = code := rfl

namespace Reported

variable {α β : Type} {codes : List String}

/-- Whether nothing is reported but under one of some codes. -/
def Within (codes : List String) (r : Reported α) : Prop := ∀ d ∈ r.diagnostics, d.code ∈ codes

theorem within_nil (codes : List String) (a : α) : (⟨a, []⟩ : Reported α).Within codes := fun _ h => by cases h

theorem within_pure (codes : List String) (a : α) : (pure a).Within codes := within_nil codes a

theorem within_singleton {d : Diagnostic} (h : d.code ∈ codes) (a : α) : (⟨a, [d]⟩ : Reported α).Within codes :=
  fun _ hd => List.mem_singleton.1 hd ▸ h

theorem within_drop {d : Diagnostic} (h : d.code ∈ codes) : (drop d : Reported (Option α)).Within codes :=
  within_singleton h none

theorem Within.append {ds ds' : List Diagnostic} {a : α} (h : (⟨a, ds⟩ : Reported α).Within codes) {b : β}
    (h' : (⟨b, ds'⟩ : Reported β).Within codes) : (⟨a, ds ++ ds'⟩ : Reported α).Within codes :=
  fun d hd => (List.mem_append.1 hd).elim (h d) (h' d)

theorem Within.map {r : Reported α} (h : r.Within codes) (f : α → β) : (r.map f).Within codes := h

theorem Within.value {r : Reported α} (h : r.Within codes) (b : β) : (⟨b, r.diagnostics⟩ : Reported β).Within codes :=
  h

theorem Within.mono {r : Reported α} (h : r.Within codes) {more : List String} (hsub : codes ⊆ more) : r.Within more :=
  fun d hd => hsub (h d hd)

theorem within_collect {rs : List (Reported α)} (h : ∀ r ∈ rs, r.Within codes) : (collect rs).Within codes := by
  intro d hd
  obtain ⟨r, hr, hd⟩ := List.mem_flatMap.1 hd
  exact h r hr d hd

theorem within_collectSome {rs : List (Reported (Option α))} (h : ∀ r ∈ rs, r.Within codes) :
    (collectSome rs).Within codes := by
  intro d hd
  obtain ⟨r, hr, hd⟩ := List.mem_flatMap.1 hd
  exact h r hr d hd

theorem within_foldl {f : Reported α → β → Reported α}
    (hf : ∀ acc : Reported α, ∀ b, acc.Within codes → (f acc b).Within codes) (bs : List β) {acc : Reported α}
    (h : acc.Within codes) : (bs.foldl f acc).Within codes :=
  List.foldlRecOn (motive := fun acc : Reported α => acc.Within codes) bs f h fun acc hacc b _ => hf acc b hacc

end Reported

open Reported

namespace Schema

/-- The codes that a schema is reported under when it is read. -/
def codes : List String := ["xmlschema:elementName", "xmlschema:includeLocation", "xbrl.5.1.3:roleURI",
  "xbrl.5.1.3.4:usedOn", "xbrl.5.1.4:arcroleTypeAttributes", "xbrl.4.3.2:linkbaseRefHref"]

theorem within_readUsedOn (location : String) (n : Markup.Node) : (readUsedOn location n).Within codes := by
  refine Within.map (within_collectSome fun r hr => ?_) _
  obtain ⟨entry, -, rfl⟩ := List.mem_map.1 hr
  split
  · exact within_nil _ _
  · exact within_drop (by simp [codes])

theorem within_readRoleType (location : String) (n : Markup.Node) : (readRoleType location n).Within codes := by
  unfold readRoleType
  split
  · exact within_drop (by simp [codes])
  · exact (within_readUsedOn location n).map _

theorem within_readArcroleType (location : String) (n : Markup.Node) :
    (readArcroleType location n).Within codes := by
  unfold readArcroleType
  split
  · exact (within_readUsedOn location n).map _
  · exact within_drop (by simp [codes])

theorem within_readAppinfoItem (location : String) (n : Markup.Node) :
    (readAppinfoItem location n).Within codes := by
  unfold readAppinfoItem
  repeat' split
  · exact (within_readRoleType location n).map _
  · exact (within_readArcroleType location n).map _
  · refine Within.map ?_ _
    unfold readLinkbaseRef
    split
    · exact within_drop (by simp [codes])
    · exact within_pure _ _
  · exact within_pure _ _
  · exact within_pure _ _

theorem within_readItems (location ns : String) (n : Markup.Node) : (readItems location ns n).Within codes := by
  unfold readItems
  split
  · exact within_pure _ _
  · split
    · refine Within.map ?_ _
      unfold readElement
      split
      · exact within_drop (by simp [codes])
      · exact within_pure _ _
    · exact within_pure _ _
    · exact within_pure _ _
    · exact within_pure _ _
    · split
      · exact within_pure _ _
      · exact within_singleton (by simp [codes]) _
    · refine within_collectSome fun r hr => ?_
      obtain ⟨appinfo, -, hr⟩ := List.mem_flatMap.1 hr
      obtain ⟨c, -, rfl⟩ := List.mem_map.1 hr
      exact within_readAppinfoItem location c
    · exact within_pure _ _

theorem within_read {location : String} {adopted : Option String} {root : Markup.Node} {r : Reported Schema}
    (h : read location adopted root = .ok r) : r.Within codes := by
  unfold read at h
  split at h
  · cases h
    refine Within.map (within_collect fun r hr => ?_) _
    obtain ⟨n, -, rfl⟩ := List.mem_map.1 hr
    exact within_readItems location _ n
  · cases h

end Schema

/-- The codes that declarations are reported under that do not go with earlier ones. -/
def RoleConflict.codes : List String := ["xbrl.5.1.3:roleTypeRedefinition", "xbrl.5.1.4:arcroleTypeRedefinition"]

theorem RoleConflict.code_mem_codes (c : RoleConflict) : c.code ∈ codes := by
  cases c <;> simp [code, codes]

theorem Registry.within_addAll (r : Registry) (roles : List RoleType) (arcroles : List ArcroleType) :
    (r.addAll roles arcroles).Within RoleConflict.codes := by
  refine within_foldl (fun acc arcrole hacc => ?_) _ (within_foldl (fun acc role hacc => ?_) _ (within_nil _ _))
  · split
    · exact hacc
    · exact hacc.append (within_singleton (RoleConflict.code_mem_codes _) ())
  · split
    · exact hacc
    · exact hacc.append (within_singleton (RoleConflict.code_mem_codes _) ())

theorem Taxonomy.within_addSchema (t : Taxonomy) (s : Schema) :
    (t.addSchema s).Within ["xmlschema:duplicateElement"] := by
  refine Within.map (within_foldl (fun acc e hacc => ?_) _ (within_nil _ _)) _
  unfold declare
  split
  · exact hacc.append (within_singleton (List.mem_singleton.2 rfl) ())
  · exact hacc.value _

namespace ExtendedLink

/-- The codes that the links of a linkbase are reported under when they are read. -/
def codes : List String := ["xbrl.3.5.3:missingLinkRole", "xbrl.5.1.3:roleNotUsable",
  "xbrl.3.5.3.7:locatorAttributes", "xbrl.3.5.3.8:resourceLabel", "xbrl.3.5.3.9:arcAttributes",
  "xbrl.3.5.3.9:priority", "xbrl.3.5.3.9:duplicateArc", "xbrl.5.1.4:arcroleNotUsable", "xlink:arcLabelNotFound"]

/-- The codes that a part of a link, taken by itself, is reported under. -/
def partCodes : List String := ["xbrl.3.5.3.7:locatorAttributes", "xbrl.3.5.3.8:resourceLabel",
  "xbrl.3.5.3.9:arcAttributes", "xbrl.3.5.3.9:priority", "xbrl.5.1.4:arcroleNotUsable", "xlink:arcLabelNotFound"]

theorem partCodes_subset : partCodes ⊆ codes := by
  unfold partCodes codes
  decide

theorem within_readArc (registry : Registry) (location : String) (l : ExtendedLink) (n : Markup.Node) :
    (readArc registry location l n).Within partCodes := by
  unfold readArc
  split
  · split
    · exact within_drop (by simp [partCodes])
    · split
      · exact within_drop (by simp [partCodes])
      · refine Within.map ?_ _
        unfold readPriority
        split
        · exact within_pure _ _
        · split
          · exact within_pure _ _
          · exact within_singleton (by simp [partCodes]) _
  · exact within_drop (by simp [partCodes])

theorem within_readLocator (location : String) (n : Markup.Node) : (readLocator location n).Within partCodes := by
  unfold readLocator
  split
  · exact within_pure _ _
  · exact within_drop (by simp [partCodes])

theorem within_readResource (location : String) (n : Markup.Node) : (readResource location n).Within partCodes := by
  unfold readResource
  split
  · exact within_pure _ _
  · exact within_drop (by simp [partCodes])

theorem within_addEnds (location : String) {acc : Reported ExtendedLink} (h : acc.Within codes) (n : Markup.Node) :
    (addEnds location acc n).Within codes := by
  unfold addEnds
  split
  · exact (h.value _).append ((within_readLocator location n).mono partCodes_subset)
  · exact (h.value _).append ((within_readResource location n).mono partCodes_subset)
  · exact h

theorem within_addReadArc (location : String) {acc : Reported ExtendedLink} (h : acc.Within codes)
    {r : Reported (Option Arc)} (hr : r.Within codes) : (addReadArc location acc r).Within codes := by
  unfold addReadArc
  split
  · exact (h.value _).append (hr.value ())
  · refine ((h.value _).append (hr.value ())).append (b := ()) ?_
    split
    · exact within_singleton (by simp [duplicateArc, codes]) _
    · exact within_nil _ _

theorem within_readContent (registry : Registry) (location : String) (l : ExtendedLink)
    (children : List Markup.Node) : (readContent registry location l children).Within codes := by
  have hends : (children.foldl (addEnds location) ⟨l, []⟩).Within codes :=
    within_foldl (fun _ n hacc => within_addEnds location hacc n) _ (within_nil _ _)
  refine List.foldlRecOn (motive := fun acc : Reported ExtendedLink => acc.Within codes) _ _ hends
    fun acc hacc arc harc => ?_
  obtain ⟨n, -, rfl⟩ := List.mem_map.1 harc
  exact within_addReadArc location hacc ((within_readArc registry location _ n).mono partCodes_subset)

theorem within_readAll (registry : Registry) (location : String) (document : Markup.Node) :
    (readAll registry location document).Within codes := by
  refine within_collectSome fun r hr => ?_
  obtain ⟨n, -, rfl⟩ := List.mem_map.1 hr
  unfold readLink
  split
  · exact within_drop (by simp [codes])
  · split
    · exact Within.map (within_readContent registry location _ n.children) _
    · exact within_drop (by simp [codes])

end ExtendedLink

theorem Dts.within_index (d : Dts) : d.index.Within ["xbrl.3.5.3.7.2:locatorTarget"] := by
  refine Within.map (r := Network.ofLinks d.resolve d.links) (fun x hx => ?_) _
  obtain ⟨_, -, rfl⟩ := List.mem_map.1 hx
  exact List.mem_singleton.2 rfl

end TaxonomySet
