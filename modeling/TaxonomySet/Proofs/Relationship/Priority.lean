import TaxonomySet.Proofs.Decimal.Integer
import TaxonomySet.Proofs.Link.Arcs
import TaxonomySet.Proofs.Relationship.Effective

namespace TaxonomySet

open Markup

/-- Whether an arc has an integer for its priority. -/
def Markup.Node.Ranks (c : Node) (p : ℤ) : Prop := ∃ raw, c.attr? "priority" = some raw ∧ Numeral.Writes raw p

/-- Whether an arc counts at an integer: the one that it has for its priority, or zero if it has none of 32 bits. -/
def Markup.Node.Counts (c : Node) (p : ℤ) : Prop :=
  c.Ranks p ∧ Numeral.FitsInt32 p ∨ p = 0 ∧ ∀ q, c.Ranks q → ¬ Numeral.FitsInt32 q

namespace ExtendedLink

/-- The priority of an arc is the integer that it counts at. -/
theorem toInt_readPriority_iff (location : String) (c : Node) (p : ℤ) :
    (readPriority location c).value.toInt = p ↔ c.Counts p := by
  unfold readPriority Node.Counts Node.Ranks
  cases c.attr? "priority" with
  | none => simp [Reported.pure, eq_comm]
  | some raw =>
    simp only [Option.some_inj, exists_eq_left']
    cases hread : Numeral.int32? (Text.trim raw) with
    | some x =>
      have hwrites := Numeral.int32?_trim_eq_some_iff.1 hread
      have hfits := Numeral.fitsInt32_iff.2 ⟨x, rfl⟩
      constructor
      · rintro rfl
        exact .inl ⟨hwrites, hfits⟩
      · rintro (⟨hp, -⟩ | ⟨-, hnone⟩)
        · exact hwrites.unique hp
        · exact absurd hfits (hnone _ hwrites)
    | none =>
      have hnone := Numeral.int32?_trim_eq_none_iff.1 hread
      constructor
      · rintro rfl
        exact .inr ⟨rfl, hnone⟩
      · rintro (⟨hp, hfits⟩ | ⟨rfl, -⟩)
        · exact absurd hfits (hnone p hp)
        · rfl

/-- A priority is reported exactly if it is no integer of 32 bits. -/
theorem diagnostics_readPriority_eq_nil_iff (location : String) (c : Node) :
    (readPriority location c).diagnostics = [] ↔
      c.attr? "priority" = none ∨ ∃ p, c.Ranks p ∧ Numeral.FitsInt32 p := by
  unfold readPriority Node.Ranks
  cases c.attr? "priority" with
  | none => simp [Reported.pure]
  | some raw =>
    simp only [Option.some_inj, exists_eq_left', reduceCtorEq, false_or]
    cases hread : Numeral.int32? (Text.trim raw) with
    | some x =>
      exact iff_of_true rfl ⟨_, Numeral.int32?_trim_eq_some_iff.1 hread, Numeral.fitsInt32_iff.2 ⟨x, rfl⟩⟩
    | none =>
      refine iff_of_false (List.cons_ne_nil _ _) ?_
      rintro ⟨p, hp, hfits⟩
      exact Numeral.int32?_trim_eq_none_iff.1 hread p hp hfits

end ExtendedLink

/-- An element that a link is read from, with the location of its document and what is declared by then. -/
structure LinkElement where
  registry : Registry
  location : String
  node : Node
  link : ExtendedLink
  value_readLink : (ExtendedLink.readLink registry location node).value = some link

/-- Whether a link keeps an arc among the children of its element, and which one. -/
def LinkElement.Keeps (e : LinkElement) (c : Node) (a : Arc) : Prop :=
  c ∈ e.node.children ∧ ExtendedLink.Connects e.registry e.node.children a.source a.target c ∧
    a = ExtendedLink.arcFrom e.location c

/-- Each arc of a link is one of the children of its element. -/
theorem LinkElement.exists_keeps (e : LinkElement) {a : Arc} (h : a ∈ e.link.arcList) : ∃ c, e.Keeps c a := by
  obtain ⟨role, hrole, hallows, hlink⟩ := ExtendedLink.readLink_eq_some e.value_readLink
  obtain ⟨source, target, ha⟩ := ExtendedLink.mem_arcList_iff.1 h
  rw [hlink, ExtendedLink.arcsBetween_readContent e.registry e.location rfl rfl rfl] at ha
  obtain ⟨c, hc, rfl⟩ := List.mem_map.1 ha
  rw [List.mem_filter, decide_eq_true_iff] at hc
  obtain ⟨hmem, hconnects⟩ := hc
  have hsource : (ExtendedLink.arcFrom e.location c).source = source := by
    simp [ExtendedLink.arcFrom, ExtendedLink.arcOf, hconnects.2.1]
  have htarget : (ExtendedLink.arcFrom e.location c).target = target := by
    simp [ExtendedLink.arcFrom, ExtendedLink.arcOf, hconnects.2.2.1]
  exact ⟨c, hmem, by rwa [hsource, htarget], rfl⟩

/-- Whether an arc in one of some elements makes a relationship of a base set. -/
def BaseSetKey.Makes (key : BaseSetKey) (resolve : Resolver) (elements : List LinkElement) (c : Node)
    (r : Relationship) : Prop :=
  r ∈ key.arising resolve (elements.map (·.link)) ∧ ∃ e, elements[r.link]? = some e ∧ e.Keeps c r.arc

namespace BaseSetKey

variable {key : BaseSetKey} {resolve : Resolver} {links : List ExtendedLink} {elements : List LinkElement}

/-- Each relationship is made by an arc. -/
theorem exists_makes {r : Relationship} (h : r ∈ key.arising resolve (elements.map (·.link))) :
    ∃ c, key.Makes resolve elements c r := by
  obtain ⟨l, hl, harc, -⟩ := mem_arising_iff.1 h
  rw [List.getElem?_map, Option.map_eq_some_iff] at hl
  obtain ⟨e, he, rfl⟩ := hl
  obtain ⟨c, hc⟩ := e.exists_keeps harc
  exact ⟨c, h, e, he, hc⟩

theorem Makes.toInt_priority_iff {c : Node} {r : Relationship} (h : key.Makes resolve elements c r) (p : ℤ) :
    r.arc.priority.toInt = p ↔ c.Counts p := by
  obtain ⟨-, e, -, -, -, harc⟩ := h
  rw [harc]
  exact ExtendedLink.toInt_readPriority_iff e.location c p

end BaseSetKey

namespace Network

/-- Of two equivalent relationships the one whose arc counts at less is overridden. If the arc that counts at most is
a prohibition, all that are equivalent are. -/
theorem relationships_overridden (resolve : Resolver) (elements : List LinkElement) (key : BaseSetKey) :
    let n := (ofLinks resolve (elements.map (·.link))).value
    (∀ c d r s p q, key.Makes resolve elements c r → key.Makes resolve elements d s → r.key = s.key →
      c.Counts p → d.Counts q → p < q → r ∉ n.relationships key) ∧
    ∀ c r p, key.Makes resolve elements c r → c.Counts p → r.arc.use = .prohibited →
      (∀ d s q, key.Makes resolve elements d s → s.key = r.key → d.Counts q → q ≤ p) →
      ∀ s ∈ n.relationships key, s.key ≠ r.key := by
  refine ⟨fun c d r s p q hc hd hkey hp hq hlt hmem => ?_, fun c r p hc hp huse hmost s hs hkey => ?_⟩
  · have hle := ((mem_relationships_iff.1 hmem).2 s hd.1 hkey.symm).1
    rw [(hc.toInt_priority_iff p).2 hp, (hd.toInt_priority_iff q).2 hq] at hle
    omega
  · -- what is left is as strong as the prohibition, and so would not be left
    obtain ⟨hmem, hprevails⟩ := mem_relationships_iff.1 hs
    obtain ⟨d, hd⟩ := BaseSetKey.exists_makes hmem
    have hle := hmost d s _ hd hkey ((hd.toInt_priority_iff _).1 rfl)
    have hcounts := hprevails r hc.1 hkey.symm
    rw [(hc.toInt_priority_iff p).2 hp] at hcounts
    exact hcounts.2 (Int.le_antisymm hcounts.1 hle) huse

/-- An arc with a priority. -/
def rankedArc (source target priority use : String) : Node :=
  { ExtendedLink.partArc source target with
    attributes := (ExtendedLink.partArc source target).attributes ++ [⟨none, "priority", priority⟩, ⟨none, "use", use⟩] }

/-- Two arcs that lead from one concept to another one, and two that lead back. 32 bits do not hold the priority of the
second arc. -/
def rankedArcs : List Node :=
  [rankedArc "a" "b" "1" "optional", rankedArc "a" "b" "2147483648" "prohibited",
    rankedArc "b" "a" " +5 " "prohibited", rankedArc "b" "a" "-3" "optional"]

/-- The link with these arcs. -/
def ranked : LinkElement :=
  let node : Node := { ExtendedLink.part "presentationLink" [("type", "extended"), ("role", Vocabulary.standardLinkRole)] with
    children := ExtendedLink.part "loc" [("type", "locator"), ("label", "a"), ("href", "s.xsd#a")] ::
      ExtendedLink.part "loc" [("type", "locator"), ("label", "b"), ("href", "s.xsd#b")] :: rankedArcs }
  { registry := {}
    location := "l.xml"
    node
    link := (ExtendedLink.readLink {} "l.xml" node).value.get (by decide +kernel)
    value_readLink := (Option.some_get _).symm }

/-- Finds the concepts that the link connects. -/
def rankedResolver : Resolver := fun href => href.fragment.map fun id => .concept (Sample.name id)

/-- The base set of the link. -/
def rankedKey : BaseSetKey := ⟨.presentation, Vocabulary.standardLinkRole, Vocabulary.parentChild⟩

/-- What an arc of the link makes. -/
def rankedRelationship (c : Node) : Relationship :=
  let arc := ExtendedLink.arcFrom "l.xml" c
  { source := .concept (Sample.name arc.source)
    target := .concept (Sample.name arc.target)
    arc
    role := Vocabulary.standardLinkRole
    document := "l.xml"
    link := 0 }

theorem arising_ranked : rankedKey.arising rankedResolver [ranked.link] = rankedArcs.map rankedRelationship := by
  decide +kernel

theorem makes_ranked {c : Node} (h : c ∈ rankedArcs) :
    rankedKey.Makes rankedResolver [ranked] c (rankedRelationship c) := by
  have hconnects : ∀ c ∈ rankedArcs, ExtendedLink.Connects ranked.registry ranked.node.children
      (rankedRelationship c).arc.source (rankedRelationship c).arc.target c := by decide +kernel
  refine ⟨?_, ranked, rfl, List.mem_cons_of_mem _ (List.mem_cons_of_mem _ h), hconnects c h, rfl⟩
  change _ ∈ rankedKey.arising rankedResolver [ranked.link]
  rw [arising_ranked]
  exact List.mem_map_of_mem h

/-- The arc whose priority is too large counts at zero and is overridden; the prohibition that counts most leaves
nothing of the other pair. -/
theorem relationships_overridden_ranked :
    let n := (ofLinks rankedResolver [ranked.link]).value
    let second := rankedArc "a" "b" "2147483648" "prohibited"
    let third := rankedArc "b" "a" " +5 " "prohibited"
    second.Ranks 2147483648 ∧ second.Counts 0 ∧ rankedRelationship second ∉ n.relationships rankedKey ∧
      third.Counts 5 ∧ ∀ s ∈ n.relationships rankedKey, s.key ≠ (rankedRelationship third).key := by
  intro n second third
  have hfirst := makes_ranked (c := rankedArc "a" "b" "1" "optional") (by simp [rankedArcs])
  have hsecond := makes_ranked (c := second) (by simp [rankedArcs, second])
  have hthird := makes_ranked (c := third) (by simp [rankedArcs, third])
  have hone := (hfirst.toInt_priority_iff 1).1 (by decide +kernel)
  have hzero := (hsecond.toInt_priority_iff 0).1 (by decide +kernel)
  have hfive := (hthird.toInt_priority_iff 5).1 (by decide +kernel)
  have hmost : ∀ s ∈ rankedArcs.map rankedRelationship, s.key = (rankedRelationship third).key →
      s.arc.priority.toInt ≤ 5 := by decide +kernel
  obtain ⟨hoverridden, hprohibited⟩ := relationships_overridden rankedResolver [ranked] rankedKey
  refine ⟨⟨_, rfl, Numeral.integer?_trim_eq_some_iff.1 (by decide +kernel)⟩, hzero, ?_, hfive, ?_⟩
  · exact hoverridden _ _ _ _ 0 1 hsecond hfirst (by decide +kernel) hzero hone Int.zero_lt_one
  · refine hprohibited _ _ 5 hthird hfive (by decide +kernel) fun d s q hs hkey hq => ?_
    rw [← (hs.toInt_priority_iff q).2 hq]
    have hs := hs.1
    change s ∈ rankedKey.arising rankedResolver [ranked.link] at hs
    rw [arising_ranked] at hs
    exact hmost s hs hkey

/-- With integers of any size this fails: the arc with the priority 1 is not overridden by that with 2147483648. -/
theorem not_forall_relationships_overridden :
    ¬ ∀ (resolve : Resolver) (elements : List LinkElement) (key : BaseSetKey),
      let n := (ofLinks resolve (elements.map (·.link))).value
      (∀ c d r s p q, key.Makes resolve elements c r → key.Makes resolve elements d s → r.key = s.key →
        c.Ranks p → d.Ranks q → p < q → r ∉ n.relationships key) ∧
      ∀ c r p, key.Makes resolve elements c r → c.Ranks p → r.arc.use = .prohibited →
        (∀ d s q, key.Makes resolve elements d s → s.key = r.key → d.Ranks q → q ≤ p) →
        ∀ s ∈ n.relationships key, s.key ≠ r.key := by
  intro h
  let first := rankedArc "a" "b" "1" "optional"
  let second := rankedArc "a" "b" "2147483648" "prohibited"
  have hfirst := makes_ranked (c := first) (by simp [rankedArcs, first])
  have hsecond := makes_ranked (c := second) (by simp [rankedArcs, second])
  have hprevails : (rankedRelationship first).Prevails (rankedArcs.map rankedRelationship) := by decide +kernel
  refine (h rankedResolver [ranked] rankedKey).1 first second _ _ 1 2147483648 hfirst hsecond (by decide +kernel)
    ⟨_, rfl, Numeral.integer?_trim_eq_some_iff.1 (by decide +kernel)⟩
    ⟨_, rfl, Numeral.integer?_trim_eq_some_iff.1 (by decide +kernel)⟩ (by decide) ?_
  refine mem_relationships_iff.2 ⟨hfirst.1, ?_⟩
  rw [← arising_ranked] at hprevails
  exact hprevails

end Network

end TaxonomySet
