import TaxonomySet.Location.Normal
import TaxonomySet.Schema.Reader

namespace TaxonomySet.Schema

open Markup

/-- Whether an element declares a type. -/
def isTypeDeclaration (n : Node) : Bool :=
  n.isNamed Vocabulary.xmlSchema "complexType" || n.isNamed Vocabulary.xmlSchema "simpleType"

/-- What an element within `appinfo` can contribute. -/
inductive Item.Informs : Item → Prop
  | role (r : RoleType) : Informs (.role r)
  | arcrole (a : ArcroleType) : Informs (.arcrole a)
  | linkbase {r : LinkbaseRef} (h : Location.normalize r.location = r.location) : Informs (.linkbase r)
  | embeddedLinkbase : Informs .embeddedLinkbase

theorem informs_of_readAppinfoItem {location : String} {n : Node} {item : Item}
    (h : (readAppinfoItem location n).value = some item) : item.Informs := by
  unfold readAppinfoItem at h
  split at h
  · obtain ⟨r, -, rfl⟩ := Option.map_eq_some_iff.1 h
    exact .role r
  split at h
  · obtain ⟨a, -, rfl⟩ := Option.map_eq_some_iff.1 h
    exact .arcrole a
  split at h
  · obtain ⟨r, hr, rfl⟩ := Option.map_eq_some_iff.1 h
    unfold readLinkbaseRef at hr
    split at hr
    · cases hr
    · cases hr
      exact .linkbase (Location.normalize_resolve _ _)
  split at h
  · cases h
    exact .embeddedLinkbase
  · cases h

/-- What a child of the schema element can contribute. -/
inductive Item.Stems (location ns : String) (n : Node) : Item → Prop
  | element {e : Element} (h : (readElement location ns n).value = some e) : Stems location ns n (.element e)
  | typeDef {t : TypeDef} (hn : isTypeDeclaration n = true) (h : readType ns n = some t) :
    Stems location ns n (.typeDef t)
  | importing {i : Import} (h : Location.normalize i.location = i.location) : Stems location ns n (.importing i)
  | including {l : String} (h : Location.normalize l = l) : Stems location ns n (.including l)
  | noting {item : Item} (h : item.Informs) : Stems location ns n item

theorem isTypeDeclaration_iff {n : Node} : isTypeDeclaration n = true ↔
    n.ns = some Vocabulary.xmlSchema ∧ (n.localName = "complexType" ∨ n.localName = "simpleType") := by
  simp only [isTypeDeclaration, Node.isNamed, Bool.or_eq_true, Bool.and_eq_true, beq_iff_eq]
  rw [← or_and_right, and_comm]

theorem mem_readItems {location ns : String} {n : Node} {item : Item} (h : item ∈ (readItems location ns n).value) :
    item.Stems location ns n := by
  unfold readItems at h
  split at h
  · cases h
  · rename_i hns
    replace hns := Decidable.not_not.1 hns
    split at h
    · obtain ⟨e, he, rfl⟩ := Option.map_eq_some_iff.1 (Option.mem_toList.1 h)
      exact .element he
    · rename_i hname
      obtain ⟨t, ht, rfl⟩ := Option.map_eq_some_iff.1 (Option.mem_toList.1 h)
      exact .typeDef (isTypeDeclaration_iff.2 ⟨hns, .inl hname⟩) ht
    · rename_i hname
      obtain ⟨t, ht, rfl⟩ := Option.map_eq_some_iff.1 (Option.mem_toList.1 h)
      exact .typeDef (isTypeDeclaration_iff.2 ⟨hns, .inr hname⟩) ht
    · obtain ⟨href, -, rfl⟩ := Option.map_eq_some_iff.1 (Option.mem_toList.1 h)
      exact .importing (Location.normalize_resolve _ _)
    · split at h
      · rw [List.mem_singleton.1 h]
        exact .including (Location.normalize_resolve _ _)
      · cases h
    · obtain ⟨read, hread, hvalue⟩ := List.mem_filterMap.1 h
      obtain ⟨appinfo, -, hread⟩ := List.mem_flatMap.1 hread
      obtain ⟨c, -, rfl⟩ := List.mem_map.1 hread
      exact .noting (informs_of_readAppinfoItem hvalue)
    · cases h

/-- A schema is made of what the children of the schema element contribute, one after the other. -/
theorem eq_ofItems_of_read {location : String} {adopted : Option String} {root : Node} {s : Schema}
    {ds : List Diagnostic} (h : read location adopted root = .ok ⟨s, ds⟩) :
    s = ofItems location s.ns s.nsPrefix (root.children.flatMap fun n => (readItems location s.ns n).value) := by
  unfold read at h
  split at h
  · cases h
    change ofItems _ _ _ _ = ofItems _ _ _ _
    rw [List.flatMap_def]
    congr 2
    exact List.map_map
  · cases h

theorem exists_stems_of_read {location : String} {adopted : Option String} {root : Node} {s : Schema}
    {ds : List Diagnostic} (h : read location adopted root = .ok ⟨s, ds⟩) :
    ∃ items, s = ofItems location s.ns s.nsPrefix items ∧
      ∀ item ∈ items, ∃ n ∈ root.children, item.Stems location s.ns n := by
  refine ⟨_, eq_ofItems_of_read h, fun item hitem => ?_⟩
  obtain ⟨n, hn, hitem⟩ := List.mem_flatMap.1 hitem
  exact ⟨n, hn, mem_readItems hitem⟩

end TaxonomySet.Schema
