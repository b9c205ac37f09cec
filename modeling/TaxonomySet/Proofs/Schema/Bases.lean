import TaxonomySet.Proofs.Discovery.Evaluation
import TaxonomySet.Proofs.Schema.Reading

namespace TaxonomySet.Schema

open Markup

/-- Whether an element is a restriction or an extension. -/
def isDerivation (n : Node) : Bool :=
  n.isNamed Vocabulary.xmlSchema "restriction" || n.isNamed Vocabulary.xmlSchema "extension"

/-- Whether an element is the simple or complex content of a type. -/
def isContent (n : Node) : Bool :=
  n.isNamed Vocabulary.xmlSchema "simpleContent" || n.isNamed Vocabulary.xmlSchema "complexContent"

/-- The restrictions and extensions that derive a type itself. -/
def ownDerivations (n : Node) : List Node :=
  n.children.flatMap fun c => if isContent c then c.children.filter isDerivation else [c].filter isDerivation

/-- The base that a type itself is derived from. -/
def ownBase? (n : Node) : Option QName := (ownDerivations n).head?.bind (nameAttr? · "base")

/-- The restrictions and extensions of a subtree in document order, each with a note whether it is the root. -/
def derivationsAt (c : Node) : List (Node × Bool) :=
  ([c].filter isDerivation).map (·, true) ++ ((Node.preorderAll c.children).filter isDerivation).map (·, false)

/-- The restrictions and extensions below a type in document order, each with a note whether it derives the type
itself. -/
def derivations (n : Node) : List (Node × Bool) :=
  n.children.flatMap fun c => if isContent c then c.children.flatMap derivationsAt else derivationsAt c

/-- The named types among the children of a schema element. -/
def namedTypes (root : Node) : List Node :=
  root.children.filter fun n => isTypeDeclaration n && (n.attr? "name").isSome

theorem not_isDerivation_of_isContent {n : Node} (h : isContent n = true) : isDerivation n = false := by
  simp only [isContent, isDerivation, Node.isNamed, Bool.or_eq_true, Bool.and_eq_true, beq_iff_eq] at h ⊢
  rcases h with ⟨hname, -⟩ | ⟨hname, -⟩
  · rw [hname]
    rfl
  · rw [hname]
    rfl

theorem not_isDerivation_of_isTypeDeclaration {n : Node} (h : isTypeDeclaration n = true) : isDerivation n = false := by
  obtain ⟨-, hname⟩ := isTypeDeclaration_iff.1 h
  simp only [isDerivation, Node.isNamed]
  rcases hname with hname | hname
  · rw [hname]
    rfl
  · rw [hname]
    rfl

theorem fst_derivationsAt (c : Node) : (derivationsAt c).map Prod.fst = c.preorder.filter isDerivation := by
  have hfst (b : Bool) (ns : List Node) : (ns.map fun d => (d, b)).map Prod.fst = ns := by
    rw [List.map_map]
    exact List.map_id _
  rw [derivationsAt, List.map_append, hfst, hfst, ← List.filter_append, Node.preorder_eq]
  rfl

/-- All restrictions and extensions below a type are listed. -/
theorem fst_derivations (n : Node) :
    (derivations n).map Prod.fst = (Node.preorderAll n.children).filter isDerivation := by
  rw [derivations, Node.preorderAll_eq_flatMap, List.map_flatMap, List.filter_flatMap]
  refine List.flatMap_congr fun c _ => ?_
  split
  · rename_i hcontent
    have hself : ¬ isDerivation c = true := by simp [not_isDerivation_of_isContent hcontent]
    rw [Node.preorder_eq, List.filter_cons_of_neg hself, Node.preorderAll_eq_flatMap, List.map_flatMap,
      List.filter_flatMap]
    exact List.flatMap_congr fun d _ => fst_derivationsAt d
  · exact fst_derivationsAt c

/-- Those with the note are the type's own. -/
theorem filter_derivations (n : Node) : (derivations n).filter Prod.snd = (ownDerivations n).map (·, true) := by
  have hat (c : Node) : (derivationsAt c).filter Prod.snd = ([c].filter isDerivation).map (·, true) := by
    rw [derivationsAt, List.filter_append, List.filter_map, List.filter_map]
    change List.map _ (List.filter (fun _ => true) _) ++ List.map _ (List.filter (fun _ => false) _) = _
    rw [List.filter_true, List.filter_false, List.map_nil, List.append_nil]
  rw [derivations, ownDerivations, List.filter_flatMap, List.map_flatMap]
  refine List.flatMap_congr fun c _ => ?_
  split
  · rw [List.filter_flatMap, List.flatMap_congr fun d _ => hat d, ← List.map_flatMap]
    congr 1
    induction c.children with
    | nil => rfl
    | cons d ds ih =>
      rw [List.flatMap_cons, ih, ← List.filter_append]
      rfl
  · exact hat c

theorem readType_of_isTypeDeclaration {n : Node} (hn : isTypeDeclaration n = true) {x : String}
    (hx : n.attr? "name" = some x) (ns : String) :
    readType ns n = some ⟨⟨ns, x⟩, (derivations n).head?.bind fun d => nameAttr? d.1 "base"⟩ := by
  have hfind : n.descendants.find? isDerivation = (derivations n).head?.map Prod.fst := by
    have hself : ¬ isDerivation n = true := by simp [not_isDerivation_of_isTypeDeclaration hn]
    rw [Node.descendants_eq_preorder, Node.preorder_eq, List.find?_cons_of_neg hself, ← List.head?_map,
      fst_derivations, List.head?_filter]
  unfold readType
  rw [hx]
  change some (TypeDef.mk _ ((n.descendants.find? isDerivation).bind _)) = _
  rw [hfind, Option.bind_map]
  rfl

/-- The type that an item is. -/
def Item.typeDef? : Item → Option TypeDef
  | typeDef t => some t
  | _ => none

theorem types_readItems (location ns : String) (n : Node) : (readItems location ns n).value.filterMap Item.typeDef? =
    (if isTypeDeclaration n then readType ns n else none).toList := by
  split
  · rename_i hn
    obtain ⟨hns, hname⟩ := isTypeDeclaration_iff.1 hn
    have hitems : (readItems location ns n).value = ((readType ns n).map Item.typeDef).toList := by
      unfold readItems
      rw [if_neg (not_not.2 hns)]
      rcases hname with hname | hname
      · rw [hname]
        rfl
      · rw [hname]
        rfl
    rw [hitems]
    cases readType ns n <;> rfl
  · rename_i hn
    refine List.filterMap_eq_nil_iff.2 fun item hitem => ?_
    cases mem_readItems hitem with
    | typeDef htype => exact absurd htype hn
    | noting hinforms => cases hinforms <;> rfl
    | _ => rfl

/-- The types of a schema are read from the declarations of named types in their order. -/
theorem types_of_read {location : String} {adopted : Option String} {root : Node} {s : Schema} {ds : List Diagnostic}
    (h : read location adopted root = .ok ⟨s, ds⟩) : s.types = (namedTypes root).filterMap (readType s.ns) := by
  have htypes : s.types =
      (root.children.flatMap fun n => (readItems location s.ns n).value).filterMap Item.typeDef? :=
    congrArg Schema.types (eq_ofItems_of_read h)
  rw [htypes, List.filterMap_flatMap, namedTypes, List.filterMap_filter, List.filterMap_eq_flatMap_toList]
  refine List.flatMap_congr fun n _ => ?_
  rw [types_readItems]
  cases isTypeDeclaration n with
  | false => rfl
  | true =>
    cases hname : n.attr? "name" with
    | none =>
      unfold readType
      rw [hname]
      rfl
    | some x => rfl

/-- Which base the reading of a schema finds for a named type. For every document and each of its named types, in
their order, it is the base of the restriction or extension that derives the type itself, and none without such
a derivation, exactly if the first restriction or extension below the type is such a one or has the same base. -/
theorem base_read_iff {location : String} {adopted : Option String} {root : Node} {s : Schema} {ds : List Diagnostic}
    (h : read location adopted root = .ok ⟨s, ds⟩) :
    List.Forall₂ (fun n t => n.attr? "name" = some t.name.localName ∧ t.name.ns = s.ns ∧
      (t.base = ownBase? n ↔ ∀ d, (derivations n).head? = some (d, false) → nameAttr? d "base" = ownBase? n))
      (namedTypes root) s.types := by
  rw [types_of_read h]
  have hall : ∀ n ∈ namedTypes root, isTypeDeclaration n = true ∧ ∃ x, n.attr? "name" = some x := fun n hn => by
    obtain ⟨htype, hname⟩ := Bool.and_eq_true_iff.1 (List.mem_filter.1 hn).2
    exact ⟨htype, Option.isSome_iff_exists.1 hname⟩
  generalize namedTypes root = ns at hall ⊢
  induction ns with
  | nil => exact .nil
  | cons n ns ih =>
    obtain ⟨htype, x, hx⟩ := hall n List.mem_cons_self
    rw [List.filterMap_cons_some (readType_of_isTypeDeclaration htype hx s.ns)]
    refine .cons ⟨hx, rfl, ?_⟩ (ih fun m hm => hall m (List.mem_cons_of_mem _ hm))
    have hown := filter_derivations n
    unfold ownBase?
    cases hfirst : derivations n with
    | nil =>
      rw [hfirst] at hown
      rw [List.map_eq_nil_iff.1 hown.symm]
      exact iff_of_true rfl fun d hd => by cases hd
    | cons first rest =>
      obtain ⟨d, own⟩ := first
      cases own with
      | false => exact ⟨fun hbase d' hd' => by cases hd'; exact hbase, fun hsame => hsame d rfl⟩
      | true =>
        rw [hfirst, List.filter_cons_of_pos rfl] at hown
        obtain ⟨own, owns, howns, hd, -⟩ := List.map_eq_cons_iff.1 hown.symm
        cases hd
        rw [howns]
        exact iff_of_true rfl fun d' hd' => by cases hd'

/-- A schema with a type that is not derived, in which an element has an anonymous type that is, and with a type that
is derived from the first. -/
def nested : List (String × String) := [
  ("a.xsd", "<schema xmlns=\"http://www.w3.org/2001/XMLSchema\" xmlns:a=\"a\" targetNamespace=\"a\">" ++
    "<complexType name=\"t\"><sequence><element name=\"x\"><simpleType><restriction base=\"string\"/></simpleType>" ++
    "</element></sequence></complexType>" ++
    "<complexType name=\"u\"><complexContent><extension base=\"a:t\"/></complexContent></complexType></schema>")]

set_option maxRecDepth 100000 in
theorem read_nested : ∃ root s ds, (Shelf.ofTexts nested).store.document "a.xsd" = .ok root ∧
    read "a.xsd" none root = .ok ⟨s, ds⟩ ∧
    s.types.map (·.base) = [some ⟨Vocabulary.xmlSchema, "string"⟩, some ⟨"a", "t"⟩] ∧
    (namedTypes root).map ownBase? = [none, some ⟨"a", "t"⟩] := by
  have htest : ∃ root, (Shelf.ofTexts nested).store.document "a.xsd" = .ok root ∧
      ((read "a.xsd" none root).toOption.map fun s => s.value.types.map (·.base)) =
        some [some ⟨Vocabulary.xmlSchema, "string"⟩, some ⟨"a", "t"⟩] ∧
      (namedTypes root).map ownBase? = [none, some ⟨"a", "t"⟩] := by
    refine Sample.document_ofTexts nested
      (fun root => (read "a.xsd" none root).toOption.map _ = some _ ∧ (namedTypes root).map ownBase? = _) ?_ ?_
    all_goals
      unfold nested
      simp only [List.map_cons, List.map_nil]
      repeat rw [String.toList_append]
      repeat rw [String.toList_ofList]
      decide +kernel
  obtain ⟨root, hroot, hbases, hown⟩ := htest
  obtain ⟨⟨s, ds⟩, hread, hbases⟩ := Option.map_eq_some_iff.1 hbases
  exact ⟨root, s, ds, hroot, Sample.eq_ok_of_toOption hread, hbases, hown⟩

/-- Of the two types of a schema the second has the base that it is derived from. The first is not derived, but has
the base of the anonymous type within it. -/
theorem base_read_nested : ∃ root s ds, (Shelf.ofTexts nested).store.document "a.xsd" = .ok root ∧
    read "a.xsd" none root = .ok ⟨s, ds⟩ ∧
    s.types.map (·.base) = [some ⟨Vocabulary.xmlSchema, "string"⟩, some ⟨"a", "t"⟩] ∧
    (namedTypes root).map ownBase? = [none, some ⟨"a", "t"⟩] ∧
    List.Forall₂ (fun n t => n.attr? "name" = some t.name.localName ∧ t.name.ns = s.ns ∧
      (t.base = ownBase? n ↔ ∀ d, (derivations n).head? = some (d, false) → nameAttr? d "base" = ownBase? n))
      (namedTypes root) s.types := by
  obtain ⟨root, s, ds, hroot, hread, hbases, hown⟩ := read_nested
  exact ⟨root, s, ds, hroot, hread, hbases, hown, base_read_iff hread⟩

/-- A named type need not have the base that it is itself derived from. -/
theorem not_forall_base_eq : ¬ ∀ (store : Store) (location : String) (adopted : Option String) (root : Node)
    (s : Schema) (ds : List Diagnostic), store.document location = .ok root →
    read location adopted root = .ok ⟨s, ds⟩ →
    List.Forall₂ (fun n t => n.attr? "name" = some t.name.localName ∧ t.name.ns = s.ns ∧ t.base = ownBase? n)
      (namedTypes root) s.types := by
  intro h
  obtain ⟨root, s, ds, hroot, hread, hbases, hown⟩ := read_nested
  have hall := h _ _ _ _ _ _ hroot hread
  have hsame : s.types.map (·.base) = (namedTypes root).map ownBase? := by
    clear hbases hown
    generalize namedTypes root = ns, s.types = ts at hall ⊢
    induction hall with
    | nil => rfl
    | cons hone _ ih => rw [List.map_cons, List.map_cons, hone.2.2, ih]
  rw [hbases, hown] at hsame
  exact absurd hsame (by decide)

end TaxonomySet.Schema
