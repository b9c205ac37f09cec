import TaxonomySet.Markup.Node
import TaxonomySet.Proofs.Sorted

namespace TaxonomySet.Markup.Node

/-- What an element has if its children have it, all elements have. -/
@[elab_as_elim]
theorem children_induction {motive : Node → Prop} (n : Node) (step : ∀ n, (∀ c ∈ n.children, motive c) → motive n) :
    motive n := by
  apply preorder.induct motive fun ns => ∀ c ∈ ns, motive c
  case case1 =>
    intro ns localName attributes children text scope ih
    exact step _ ih
  case case2 => exact nofun
  case case3 =>
    intro n ns hn hns
    exact List.forall_mem_cons.2 ⟨hn, hns⟩

/-- The element at an address. An address consists of the places of the children that lead down to the element. -/
def at? (n : Node) : List Nat → Option Node
  | [] => some n
  | i :: address => n.children[i]?.bind (·.at? address)

theorem at?_append (n : Node) (address rest : List Nat) :
    n.at? (address ++ rest) = (n.at? address).bind (·.at? rest) := by
  induction address generalizing n with
  | nil => rfl
  | cons i address ih =>
    rw [List.cons_append, at?, at?, Option.bind_assoc]
    exact congrArg _ (funext fun c => ih c)

/-- An element with its address in a child, as it stands in the parent. -/
def inChild (i : Nat) (entry : List Nat × Node) : List Nat × Node := (i :: entry.1, entry.2)

mutual

/-- The elements of a tree with their addresses, by recursion. -/
def placed : Node → List (List Nat × Node)
  | ⟨ns, localName, attributes, children, text, scope⟩ =>
    ([], ⟨ns, localName, attributes, children, text, scope⟩) :: placedAll 0 children

/-- The elements of the children from a place on, with their addresses in the parent. -/
def placedAll (i : Nat) : List Node → List (List Nat × Node)
  | [] => []
  | n :: ns => n.placed.map (inChild i) ++ placedAll (i + 1) ns

end

theorem placedAll_eq_flatMap (i : Nat) (ns : List Node) :
    placedAll i ns = (ns.zipIdx i).flatMap fun e => e.1.placed.map (inChild e.2) := by
  induction ns generalizing i with
  | nil => simp [placedAll]
  | cons n ns ih => simp [placedAll, ih]

theorem placed_eq (n : Node) :
    n.placed = ([], n) :: n.children.zipIdx.flatMap fun e => e.1.placed.map (inChild e.2) := by
  cases n
  rw [placed, placedAll_eq_flatMap]

theorem mem_placed_cons_iff {root n : Node} {i : Nat} {address : List Nat} :
    (i :: address, n) ∈ root.placed ↔ ∃ c, root.children[i]? = some c ∧ (address, n) ∈ c.placed := by
  rw [placed_eq]
  simp [inChild, List.mk_mem_zipIdx_iff_getElem?]

/-- An element is listed with the address that it stands at. -/
theorem mem_placed_iff {root n : Node} {address : List Nat} :
    (address, n) ∈ root.placed ↔ root.at? address = some n := by
  induction address generalizing root with
  | nil =>
    rw [placed_eq, at?]
    simp [inChild, eq_comm]
  | cons i address ih =>
    rw [mem_placed_cons_iff, at?, Option.bind_eq_some_iff]
    exact exists_congr fun c => and_congr_right fun _ => ih

/-- The addresses are listed in their order, so that none is listed twice. -/
theorem pairwise_placed (n : Node) : n.placed.Pairwise (·.1 < ·.1) := by
  induction n using children_induction with
  | _ n ih =>
    have hplaces : n.children.zipIdx.Pairwise (·.2 < ·.2) := by
      rw [← List.pairwise_map, List.zipIdx_map_snd]
      exact List.pairwise_lt_range'
    rw [placed_eq, List.pairwise_cons, List.pairwise_flatMap]
    refine ⟨?_, ?_, ?_⟩
    · -- the element comes before what stands below it
      intro entry hentry
      obtain ⟨e, -, hentry⟩ := List.mem_flatMap.1 hentry
      obtain ⟨f, -, rfl⟩ := List.mem_map.1 hentry
      exact List.nil_lt_cons _ _
    · -- within a child the order is that of the child
      intro e he
      refine List.pairwise_map.2 ((ih e.1 (List.fst_mem_of_mem_zipIdx he)).imp fun hlt => ?_)
      exact List.cons_lt_cons_iff.2 (.inr ⟨rfl, hlt⟩)
    · -- a child comes before the later ones
      refine hplaces.imp fun hlt x hx y hy => ?_
      obtain ⟨e, -, rfl⟩ := List.mem_map.1 hx
      obtain ⟨f, -, rfl⟩ := List.mem_map.1 hy
      exact List.cons_lt_cons_iff.2 (.inl hlt)

theorem map_snd_placedAll {ns : List Node} (h : ∀ n ∈ ns, n.placed.map Prod.snd = n.preorder) (i : Nat) :
    (placedAll i ns).map Prod.snd = preorderAll ns := by
  induction ns generalizing i with
  | nil => rfl
  | cons n ns ih =>
    obtain ⟨hn, hns⟩ := List.forall_mem_cons.1 h
    have hchild : (n.placed.map (inChild i)).map Prod.snd = n.preorder := by
      rw [List.map_map, ← hn]
      rfl
    rw [placedAll, preorderAll, List.map_append, hchild, ih hns]

theorem map_snd_placed (n : Node) : n.placed.map Prod.snd = n.preorder := by
  induction n using children_induction with
  | _ n ih =>
    cases n
    rw [placed, preorder, List.map_cons, map_snd_placedAll ih]

/-- The elements listed with their addresses are those of the traversal, in the same places. -/
theorem map_snd_placed_eq_descendants (n : Node) : n.placed.map Prod.snd = n.descendants := by
  rw [map_snd_placed, descendants_eq_preorder]

theorem mem_descendants_iff {root n : Node} : n ∈ root.descendants ↔ ∃ address, root.at? address = some n := by
  rw [← map_snd_placed_eq_descendants, List.mem_map]
  constructor
  · rintro ⟨⟨address, _⟩, hentry, rfl⟩
    exact ⟨address, mem_placed_iff.1 hentry⟩
  · rintro ⟨address, hn⟩
    exact ⟨(address, n), mem_placed_iff.2 hn, rfl⟩

theorem mem_descendants_of_mem_children {root n c : Node} (hn : n ∈ root.descendants) (hc : c ∈ n.children) :
    c ∈ root.descendants := by
  obtain ⟨address, hn⟩ := mem_descendants_iff.1 hn
  obtain ⟨i, hi⟩ := List.getElem?_of_mem hc
  refine mem_descendants_iff.2 ⟨address ++ [i], ?_⟩
  rw [at?_append, hn, Option.bind_some, at?, hi]
  rfl

/-- Whether an element is the first of a tree, in document order, that has a property. -/
def IsFirst (root : Node) (p : Node → Prop) (n : Node) : Prop :=
  ∃ address, root.at? address = some n ∧ p n ∧ ∀ earlier m, root.at? earlier = some m → earlier < address → ¬ p m

/-- A search of the traversal finds the first element with the property. -/
theorem find?_descendants_eq_some_iff {root n : Node} {p : Node → Bool} :
    root.descendants.find? p = some n ↔ root.IsFirst (p · = true) n := by
  rw [← map_snd_placed_eq_descendants, List.find?_map, Option.map_eq_some_iff]
  constructor
  · rintro ⟨⟨address, _⟩, hfind, rfl⟩
    obtain ⟨hmem, hp, hleast⟩ := (find?_eq_some_iff_of_pairwise root.pairwise_placed).1 hfind
    exact ⟨address, mem_placed_iff.1 hmem, hp, fun earlier m hm => hleast (earlier, m) (mem_placed_iff.2 hm)⟩
  · rintro ⟨address, hn, hp, hleast⟩
    refine ⟨(address, n), (find?_eq_some_iff_of_pairwise root.pairwise_placed).2 ⟨mem_placed_iff.2 hn, hp, ?_⟩, rfl⟩
    exact fun f hf => hleast f.1 f.2 (mem_placed_iff.1 hf)

/-- A search of the traversal finds something if there is an element with the property. -/
theorem isSome_find?_descendants_iff {root : Node} {p : Node → Bool} :
    (root.descendants.find? p).isSome = true ↔ ∃ address n, root.at? address = some n ∧ p n = true := by
  rw [List.find?_isSome]
  constructor
  · rintro ⟨n, hn, hp⟩
    obtain ⟨address, hn⟩ := mem_descendants_iff.1 hn
    exact ⟨address, n, hn, hp⟩
  · rintro ⟨address, n, hn, hp⟩
    exact ⟨n, mem_descendants_iff.2 ⟨address, hn⟩, hp⟩

/-- The traversal with a stack lists what the recursion does: an element, and then the listings of its children in
their order. The element at each address is listed once, in the order of the addresses. What is found by an id is the
first element with it, and something is found if there is one. -/
theorem descendants_in_document_order (root : Node) :
    (root.descendants = root.preorder ∧ root.preorder = root :: root.children.flatMap preorder) ∧
    (root.placed.map Prod.snd = root.descendants ∧ root.placed.Pairwise (·.1 < ·.1) ∧
      ∀ address n, (address, n) ∈ root.placed ↔ root.at? address = some n) ∧
    ∀ id, (∀ n, root.findById? id = some n ↔ root.IsFirst (·.id? = some id) n) ∧
      ((root.findById? id).isSome = true ↔ ∃ address n, root.at? address = some n ∧ n.id? = some id) := by
  refine ⟨⟨root.descendants_eq_preorder, ?_⟩, ⟨root.map_snd_placed_eq_descendants, root.pairwise_placed, ?_⟩, ?_⟩
  · rw [preorder_eq, preorderAll_eq_flatMap]
  · exact fun address n => mem_placed_iff
  · intro id
    unfold findById?
    refine ⟨fun n => ?_, ?_⟩
    · rw [find?_descendants_eq_some_iff]
      simp only [beq_iff_eq]
    · rw [isSome_find?_descendants_iff]
      simp only [beq_iff_eq]

end TaxonomySet.Markup.Node
