import Mathlib
import TaxonomySet.Link.Equivalence
import TaxonomySet.Link.Reader
import TaxonomySet.Proofs.Decimal.Text
import TaxonomySet.Proofs.Sample
import TaxonomySet.Proofs.Sorted

namespace TaxonomySet

namespace Markup

/-- The attributes of an element have different names, in which there are no braces. -/
structure Node.WellNamed (n : Node) : Prop where
  nodup : (n.attributes.map fun a => (a.ns, a.localName)).Nodup
  plain : ∀ a ∈ n.attributes, '\x7b' ∉ a.localName.toList ∧ '\x7d' ∉ a.localName.toList

end Markup

namespace ExtendedLink

open Markup

theorem toList_attributeName (ns localName value : String) :
    (attributeName ⟨some ns, localName, value⟩).toList = '\x7b' :: (ns.toList ++ '\x7d' :: localName.toList) := by
  unfold attributeName
  rw [String.toList_append, String.toList_append, String.toList_append, List.append_assoc, List.append_assoc]
  rfl

/-- A text is cut at its last brace in one way. -/
theorem append_cons_inj {cs ds as bs : List Char} {c : Char} (ha : c ∉ as) (hb : c ∉ bs)
    (h : cs ++ c :: as = ds ++ c :: bs) : cs = ds ∧ as = bs := by
  rcases List.append_eq_append_iff.1 h with ⟨xs, rfl, hrest⟩ | ⟨xs, rfl, hrest⟩
  all_goals cases xs with
  | nil => simp_all
  | cons x xs => simp_all

theorem attributeName_inj {a b : Attribute} (ha : '\x7b' ∉ a.localName.toList ∧ '\x7d' ∉ a.localName.toList)
    (hb : '\x7b' ∉ b.localName.toList ∧ '\x7d' ∉ b.localName.toList) (h : attributeName a = attributeName b) :
    a.ns = b.ns ∧ a.localName = b.localName := by
  obtain ⟨_ | ans, alocal, avalue⟩ := a <;> obtain ⟨_ | bns, blocal, bvalue⟩ := b
  · exact ⟨rfl, h⟩
  · have hlist : alocal.toList = _ := (congrArg String.toList h).trans (toList_attributeName bns blocal bvalue)
    exact absurd (hlist ▸ List.mem_cons_self) ha.1
  · have hlist : blocal.toList = _ := (congrArg String.toList h.symm).trans (toList_attributeName ans alocal avalue)
    exact absurd (hlist ▸ List.mem_cons_self) hb.1
  · have hlist := congrArg String.toList h
    rw [toList_attributeName, toList_attributeName] at hlist
    obtain ⟨hns, hlocal⟩ := append_cons_inj ha.2 hb.2 (List.cons_eq_cons.1 hlist).2
    exact ⟨congrArg some (String.toList_inj.1 hns), String.toList_inj.1 hlocal⟩

theorem bind_find?_attributes {α : Type} {n : Node} {ns : Option String} {localName : String}
    {f : Attribute → Option α} {g : String → Option α}
    (h : ∀ a : Attribute, a.ns = ns → a.localName = localName → f a = g a.value) :
    (n.attributes.find? fun a => a.ns == ns && a.localName == localName).bind f =
      ((n.attributes.find? fun a => a.ns == ns && a.localName == localName).map (·.value)).bind g := by
  cases hfind : n.attributes.find? fun a => a.ns == ns && a.localName == localName with
  | none => rfl
  | some a =>
    have ha := List.find?_some hfind
    rw [Bool.and_eq_true, beq_iff_eq, beq_iff_eq] at ha
    exact h a ha.1 ha.2

theorem attr?_eq (n : Node) (localName : String) :
    n.attr? localName = (n.attributes.find? fun a => a.ns == none && a.localName == localName).map (·.value) := by
  unfold Node.attr?
  refine congrArg (fun p => (n.attributes.find? p).map (·.value)) (funext fun a => ?_)
  cases a.ns <;> rfl

section Canonical

variable {n : Node} (hn : n.WellNamed) {isCalculation : Bool} {order : Binary64} {weight : Option Binary64}
include hn

/-- Under the name of an attribute stands the canonical form of that attribute. -/
theorem get?_canonicalAttributes {ns : Option String} {localName : String}
    (hlocal : '\x7b' ∉ localName.toList ∧ '\x7d' ∉ localName.toList) :
    (canonicalAttributes isCalculation order weight n.attributes).get? (attributeName ⟨ns, localName, ""⟩) =
      (n.attributes.find? fun a => a.ns == ns && a.localName == localName).bind
        (canonicalValue? isCalculation order weight) := by
  have hkeys : ((n.attributes.filterMap fun a => (canonicalValue? isCalculation order weight a).map fun value =>
      (attributeName a, value)).map (·.1)).Nodup := by
    have hnames : n.attributes.Pairwise fun a b => (a.ns, a.localName) ≠ (b.ns, b.localName) :=
      List.pairwise_map.1 hn.nodup
    rw [List.Nodup, List.pairwise_map, List.pairwise_filterMap]
    refine hnames.imp_of_mem fun {a b} ha hb hne e he f hf heq => ?_
    obtain ⟨_, -, rfl⟩ := Option.map_eq_some_iff.1 he
    obtain ⟨_, -, rfl⟩ := Option.map_eq_some_iff.1 hf
    obtain ⟨hns, hlocal⟩ := attributeName_inj (hn.plain a ha) (hn.plain b hb) heq
    exact hne (by rw [hns, hlocal])
  have hfind (a : Attribute) : (n.attributes.find? fun a => a.ns == ns && a.localName == localName) = some a ↔
      a ∈ n.attributes ∧ (a.ns, a.localName) = (ns, localName) := by
    have hnodup : (n.attributes.map fun a => (a.ns, a.localName)).Nodup := hn.nodup
    rw [← find?_eq_some_iff_of_nodup hnodup]
    refine iff_of_eq (congrArg (· = some a) (congrArg (List.find? · n.attributes) (funext fun b => ?_)))
    rw [Bool.eq_iff_iff, Bool.and_eq_true, beq_iff_eq, beq_iff_eq]
    exact ⟨fun h => decide_eq_true (Prod.ext h.1 h.2), fun h => Prod.mk.inj (of_decide_eq_true h)⟩
  ext value
  unfold canonicalAttributes
  rw [SortedMap.get?_ofList_eq_some_iff hkeys, List.mem_filterMap, Option.bind_eq_some_iff]
  refine exists_congr fun a => ?_
  rw [hfind, and_assoc, Option.map_eq_some_iff]
  refine and_congr_right fun ha => ⟨?_, fun ⟨hname, hvalue⟩ => ⟨value, hvalue, ?_⟩⟩
  · rintro ⟨_, hvalue, heq⟩
    obtain ⟨hname, rfl⟩ := Prod.mk.inj heq
    obtain ⟨hns, hlocalName⟩ := attributeName_inj (hn.plain a ha) hlocal hname
    exact ⟨by rw [hns, hlocalName], hvalue⟩
  · obtain ⟨hns, hlocalName⟩ := Prod.mk.inj hname
    unfold attributeName
    rw [hns, hlocalName]

/-- The canonical form of an attribute in no namespace depends on its value. -/
theorem get?_canonicalAttributes_attr {localName : String} (g : String → Option String)
    (hlocal : '\x7b' ∉ localName.toList ∧ '\x7d' ∉ localName.toList)
    (h : ∀ a : Attribute, a.ns = none → a.localName = localName →
      canonicalValue? isCalculation order weight a = g a.value) :
    (canonicalAttributes isCalculation order weight n.attributes).get? localName = (n.attr? localName).bind g := by
  rw [attr?_eq, ← bind_find?_attributes h, ← get?_canonicalAttributes hn hlocal]
  rfl

/-- The canonical form of an attribute of dimensions depends on its value. -/
theorem get?_canonicalAttributes_dimensions {localName : String} (g : String → Option String)
    (hlocal : '\x7b' ∉ localName.toList ∧ '\x7d' ∉ localName.toList)
    (h : ∀ a : Attribute, a.ns = some Vocabulary.dimensions → a.localName = localName →
      canonicalValue? isCalculation order weight a = g a.value) :
    (canonicalAttributes isCalculation order weight n.attributes).get?
        (QName.clark ⟨Vocabulary.dimensions, localName⟩) =
      (n.attrIn? Vocabulary.dimensions localName).bind g := by
  rw [Node.attrIn?, ← bind_find?_attributes h, ← get?_canonicalAttributes hn hlocal]
  rfl

end Canonical

end ExtendedLink

/-- The attributes of an arc tell what its fields say. -/
structure Arc.Canonical (a : Arc) : Prop where
  order : a.attributes.get? "order" =
    if a.element = ⟨Vocabulary.link, "calculationArc"⟩ ∨ a.order = Binary64.one then none else some a.order.text
  weight : a.attributes.get? "weight" = a.weight.map Binary64.text
  preferredLabel : a.attributes.get? "preferredLabel" = a.preferredLabel.map Text.trim
  targetRole : a.attributes.get? (QName.clark ⟨Vocabulary.dimensions, "targetRole"⟩) = a.targetRole.map Text.trim
  contextElement : a.attributes.get? (QName.clark ⟨Vocabulary.dimensions, "contextElement"⟩) = a.contextElement
  closed : a.attributes.get? (QName.clark ⟨Vocabulary.dimensions, "closed"⟩) =
    if a.closed.getD false then some "true" else none
  usable : a.attributes.get? (QName.clark ⟨Vocabulary.dimensions, "usable"⟩) =
    if a.usable.getD true then none else some "false"

namespace ExtendedLink

open Markup

theorem canonical_arcOf {n : Node} (hn : n.WellNamed) (source target arcrole : String) (priority : Int32) :
    (arcOf n source target arcrole priority).Canonical := by
  unfold arcOf
  constructor <;> dsimp only
  · rw [get?_canonicalAttributes_attr hn (fun _ => if n.name = ⟨Vocabulary.link, "calculationArc"⟩ ∨
        (numberAttr? n "order").getD Binary64.one = Binary64.one then none
      else some ((numberAttr? n "order").getD Binary64.one).text) (by decide)
      fun a hns hlocal => by simp [canonicalValue?, hns, hlocal]]
    cases hattr : n.attr? "order" with
    | none =>
      have hnone : numberAttr? n "order" = none := by
        unfold numberAttr?
        rw [hattr, Option.bind_none]
      rw [hnone]
      exact (if_pos (.inr rfl)).symm
    | some value => exact Option.bind_some value _
  · rw [get?_canonicalAttributes_attr hn (fun _ => (numberAttr? n "weight").map Binary64.text) (by decide)
      fun a hns hlocal => by simp [canonicalValue?, hns, hlocal]]
    cases hattr : n.attr? "weight" with
    | none =>
      unfold numberAttr?
      rw [hattr]
      rfl
    | some value => exact Option.bind_some value _
  · rw [get?_canonicalAttributes_attr hn (fun value => some (Text.trim value)) (by decide)
      fun a hns hlocal => by simp [canonicalValue?, hns, hlocal]]
    cases n.attr? "preferredLabel" <;> rfl
  · rw [get?_canonicalAttributes_dimensions hn (fun value => some (Text.trim value)) (by decide)
      fun a hns hlocal => by simp [canonicalValue?, hns, hlocal, Vocabulary.dimensions, Vocabulary.xlink]]
    cases n.attrIn? Vocabulary.dimensions "targetRole" <;> rfl
  · rw [get?_canonicalAttributes_dimensions hn (fun value => some (Text.trim value)) (by decide)
      fun a hns hlocal => by simp [canonicalValue?, hns, hlocal, Vocabulary.dimensions, Vocabulary.xlink]]
    cases n.attrIn? Vocabulary.dimensions "contextElement" <;> rfl
  · rw [get?_canonicalAttributes_dimensions hn (canonicalFlag? · false) (by decide)
      fun a hns hlocal => by simp [canonicalValue?, hns, hlocal, Vocabulary.dimensions, Vocabulary.xlink]]
    cases n.attrIn? Vocabulary.dimensions "closed" with
    | none => rfl
    | some value =>
      unfold canonicalFlag?
      cases hflag : flagValue value <;> simp [hflag]
  · rw [get?_canonicalAttributes_dimensions hn (canonicalFlag? · true) (by decide)
      fun a hns hlocal => by simp [canonicalValue?, hns, hlocal, Vocabulary.dimensions, Vocabulary.xlink]]
    cases n.attrIn? Vocabulary.dimensions "usable" with
    | none => rfl
    | some value =>
      unfold canonicalFlag?
      cases hflag : flagValue value <;> simp [hflag]

theorem exists_arcOf_of_readArc {registry : Registry} {location : String} {l : ExtendedLink} {n : Node} {a : Arc}
    (h : (readArc registry location l n).value = some a) :
    ∃ source target arcrole priority, a = arcOf n source target arcrole priority := by
  unfold readArc at h
  split at h
  · split at h
    · cases h
    · split at h
      · cases h
      · exact ⟨_, _, _, _, (Option.some_inj.1 h).symm⟩
  · cases h

end ExtendedLink

namespace Arc

/-- Two arcs say the same of their ends. The order of calculation arcs is for display only. -/
structure Agrees (a b : Arc) : Prop where
  order : a.element ≠ ⟨Vocabulary.link, "calculationArc"⟩ → a.order = b.order
  weight : a.weight = b.weight
  preferredLabel : a.preferredLabel = b.preferredLabel
  targetRole : a.targetRole = b.targetRole
  contextElement : a.contextElement = b.contextElement
  closed : a.closed.getD false = b.closed.getD false
  usable : a.usable.getD true = b.usable.getD true

/-- Two arcs say the same of their ends up to blanks around labels and roles. Patterns that stand for no number are
not told apart. -/
structure Resembles (a b : Arc) : Prop where
  order : a.element ≠ ⟨Vocabulary.link, "calculationArc"⟩ →
    a.order = b.order ∨ a.order.isNaN = true ∧ b.order.isNaN = true
  weight : a.weight = b.weight ∨ a.weight.any Binary64.isNaN = true ∧ b.weight.any Binary64.isNaN = true
  preferredLabel : a.preferredLabel.map Text.trim = b.preferredLabel.map Text.trim
  targetRole : a.targetRole.map Text.trim = b.targetRole.map Text.trim
  contextElement : a.contextElement = b.contextElement
  closed : a.closed.getD false = b.closed.getD false
  usable : a.usable.getD true = b.usable.getD true

variable {a b : Arc}

theorem Canonical.resembles (ha : a.Canonical) (hb : b.Canonical) (helement : a.element = b.element)
    (hattributes : a.attributes = b.attributes) : a.Resembles b where
  order hdisplay := by
    have horder := ha.order
    rw [hattributes, hb.order, ← helement] at horder
    simp only [hdisplay, false_or] at horder
    split at horder <;> split at horder
    · rename_i hbOne haOne
      exact .inl (haOne.trans hbOne.symm)
    · cases horder
    · cases horder
    · exact (Binary64.text_inj (Option.some_inj.1 horder)).imp Eq.symm And.symm
  weight := by
    have hweight := ha.weight
    rw [hattributes, hb.weight] at hweight
    cases haWeight : a.weight <;> cases hbWeight : b.weight <;> rw [haWeight, hbWeight] at hweight
    · exact .inl rfl
    · cases hweight
    · cases hweight
    · exact (Binary64.text_inj (Option.some_inj.1 hweight)).imp (fun heq => congrArg some heq.symm) And.symm
  preferredLabel := by rw [← ha.preferredLabel, ← hb.preferredLabel, hattributes]
  targetRole := by rw [← ha.targetRole, ← hb.targetRole, hattributes]
  contextElement := by rw [← ha.contextElement, ← hb.contextElement, hattributes]
  closed := by
    have hclosed := ha.closed
    rw [hattributes, hb.closed] at hclosed
    cases ha' : a.closed.getD false <;> cases hb' : b.closed.getD false <;> simp_all
  usable := by
    have husable := ha.usable
    rw [hattributes, hb.usable] at husable
    cases ha' : a.usable.getD true <;> cases hb' : b.usable.getD true <;> simp_all

theorem Resembles.agrees (h : a.Resembles b) (hlabel : a.preferredLabel = b.preferredLabel)
    (hrole : a.targetRole = b.targetRole) (horder : a.order.isNaN = false)
    (hweight : a.weight.any Binary64.isNaN = false) : a.Agrees b where
  order hdisplay := (h.order hdisplay).resolve_right fun hnan => by simp [horder] at hnan
  weight := h.weight.resolve_right fun hnan => by simp [hweight] at hnan
  preferredLabel := hlabel
  targetRole := hrole
  contextElement := h.contextElement
  closed := h.closed
  usable := h.usable

/-- Equivalent arcs say the same of their ends, but that labels and roles may stand between other blanks. -/
theorem resembles_of_key_eq {registry registry' : Registry} {location location' : String} {l l' : ExtendedLink}
    {n n' : Markup.Node} (ha : (ExtendedLink.readArc registry location l n).value = some a)
    (hb : (ExtendedLink.readArc registry' location' l' n').value = some b)
    (hn : n.WellNamed) (hn' : n'.WellNamed) {source target : EndKey}
    (hkey : EquivalenceKey.ofArc a source target = EquivalenceKey.ofArc b source target) :
    a.Resembles b ∧ (a.preferredLabel = b.preferredLabel → a.targetRole = b.targetRole → a.order.isNaN = false →
      a.weight.any Binary64.isNaN = false → a.Agrees b) := by
  obtain ⟨_, _, _, _, rfl⟩ := ExtendedLink.exists_arcOf_of_readArc ha
  obtain ⟨_, _, _, _, rfl⟩ := ExtendedLink.exists_arcOf_of_readArc hb
  obtain ⟨helement, -, -, -, hentries⟩ := EquivalenceKey.mk.inj hkey
  have hresembles := (ExtendedLink.canonical_arcOf hn _ _ _ _).resembles (ExtendedLink.canonical_arcOf hn' _ _ _ _)
    helement (SortedMap.ext_get? fun k => congrArg (SortedMap.find k) hentries)
  exact ⟨hresembles, hresembles.agrees⟩

/-- An arc that ties a primary item to a hypercube, with a role and an order. -/
def tieNode (role order : String) : Markup.Node where
  ns := some Vocabulary.link
  localName := "definitionArc"
  attributes := [⟨some Vocabulary.xlink, "from", "p"⟩, ⟨some Vocabulary.xlink, "to", "h"⟩,
    ⟨some Vocabulary.xlink, "arcrole", Dimension.Arcrole.all.uri⟩,
    ⟨some Vocabulary.dimensions, "targetRole", role⟩, ⟨none, "order", order⟩]
  children := []
  text := ""
  scope := {}

theorem wellNamed_tieNode (role order : String) : (tieNode role order).WellNamed where
  nodup := by
    change [(some Vocabulary.xlink, "from"), (some Vocabulary.xlink, "to"), (some Vocabulary.xlink, "arcrole"),
      (some Vocabulary.dimensions, "targetRole"), (none, "order")].Nodup
    decide
  plain a ha := by
    have hplain : ∀ s ∈ ["from", "to", "arcrole", "targetRole", "order"],
        '\x7b' ∉ s.toList ∧ '\x7d' ∉ s.toList := by decide
    exact hplain _ (List.mem_map_of_mem (f := (·.localName)) ha)

/-- The link of such arcs. -/
def tieLink : ExtendedLink := Sample.link "r" [Sample.arc .all "p" "h" none]

/-- The arc that is read. -/
def tie (role order : String) : Arc := ExtendedLink.arcOf (tieNode role order) "p" "h" Dimension.Arcrole.all.uri 0

theorem readArc_tieNode (role order : String) :
    (ExtendedLink.readArc {} "links.xml" tieLink (tieNode role order)).value = some (tie role order) := rfl

theorem key_tie : EquivalenceKey.ofArc (tie "q" "2") (.concept (Sample.name "p")) (.concept (Sample.name "h")) =
    EquivalenceKey.ofArc (tie "q " "2.0") (.concept (Sample.name "p")) (.concept (Sample.name "h")) := by
  decide +kernel

theorem resembles_tie :
    (ExtendedLink.readArc {} "links.xml" tieLink (tieNode "q" "2")).value = some (tie "q" "2") ∧
      (ExtendedLink.readArc {} "links.xml" tieLink (tieNode "q " "2.0")).value = some (tie "q " "2.0") ∧
      (tieNode "q" "2").WellNamed ∧ (tieNode "q " "2.0").WellNamed ∧
      EquivalenceKey.ofArc (tie "q" "2") (.concept (Sample.name "p")) (.concept (Sample.name "h")) =
        EquivalenceKey.ofArc (tie "q " "2.0") (.concept (Sample.name "p")) (.concept (Sample.name "h")) ∧
      (tie "q" "2").Resembles (tie "q " "2.0") :=
  ⟨readArc_tieNode _ _, readArc_tieNode _ _, wellNamed_tieNode _ _, wellNamed_tieNode _ _, key_tie,
    (resembles_of_key_eq (readArc_tieNode _ _) (readArc_tieNode _ _) (wellNamed_tieNode _ _) (wellNamed_tieNode _ _)
      key_tie).1⟩

/-- Equivalent arcs may have roles between other blanks. -/
theorem not_forall_agrees_of_key_eq :
    ¬ ∀ {registry registry' : Registry} {location location' : String} {l l' : ExtendedLink} {n n' : Markup.Node}
      {a b : Arc}, (ExtendedLink.readArc registry location l n).value = some a →
      (ExtendedLink.readArc registry' location' l' n').value = some b → ∀ {source target : EndKey},
      EquivalenceKey.ofArc a source target = EquivalenceKey.ofArc b source target → a.Agrees b := by
  intro hall
  have hagrees := hall (readArc_tieNode "q" "2") (readArc_tieNode "q " "2.0") key_tie
  have hrole : some "q" = some "q " := hagrees.targetRole
  exact absurd (Option.some_inj.1 hrole) (by decide)

end Arc

end TaxonomySet
