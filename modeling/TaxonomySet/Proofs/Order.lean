import Mathlib.Data.List.Nodup
import Mathlib.Order.Compare

namespace TaxonomySet.Order

universe u

variable {α : Type u} {cmp : α → α → Ordering} [Std.TransCmp cmp]

theorem isLE_trans (a b c : α) (hab : (cmp a b).isLE = true) (hbc : (cmp b c).isLE = true) :
    (cmp a c).isLE = true :=
  Std.TransCmp.isLE_trans hab hbc

theorem isLE_total (a b : α) : ((cmp a b).isLE || (cmp b a).isLE) = true := by
  have hswap : cmp b a = (cmp a b).swap := Std.OrientedCmp.eq_swap
  rw [hswap]
  cases cmp a b <;> rfl

theorem pairwise_mergeSort (xs : List α) :
    (xs.mergeSort fun a b => (cmp a b).isLE).Pairwise fun a b => (cmp a b).isLE :=
  List.pairwise_mergeSort isLE_trans isLE_total xs

/-- Sorting leaves the elements of a class in their order. -/
theorem filter_mergeSort_class (xs : List α) (x : α) :
    (xs.mergeSort fun a b => (cmp a b).isLE).filter (cmp x · == .eq) = xs.filter (cmp x · == .eq) := by
  have hclass : (xs.filter (cmp x · == .eq)).Pairwise fun a b => (cmp a b).isLE := by
    refine List.pairwise_filter.2 (List.pairwise_of_forall fun a b ha hb => ?_)
    have hax : cmp a x = .eq := Std.OrientedCmp.eq_symm (by simpa using ha)
    have hab : cmp a b = .eq := Std.TransCmp.eq_trans hax (by simpa using hb)
    rw [hab]
    rfl
  have hsub := (List.sublist_mergeSort isLE_trans isLE_total hclass List.filter_sublist).filter
    (cmp x · == .eq)
  rw [List.filter_filter] at hsub
  simp only [Bool.and_self] at hsub
  exact (hsub.eq_of_length ((List.mergeSort_perm xs _).filter _).length_eq.symm).symm

/-- What holds of any two elements in their order holds after sorting of any two that compare as equal. -/
theorem pairwise_mergeSort_of_pairwise {R : α → α → Prop} {xs : List α} (h : xs.Pairwise R) :
    (xs.mergeSort fun a b => (cmp a b).isLE).Pairwise fun a b => cmp a b = .lt ∨ cmp a b = .eq ∧ R a b := by
  refine List.pairwise_iff_forall_sublist.2 fun {a b} hsub => ?_
  have hle := List.pairwise_iff_forall_sublist.1 (pairwise_mergeSort xs) hsub
  cases hab : cmp a b with
  | lt => exact .inl rfl
  | gt =>
    rw [hab] at hle
    cases hle
  | eq =>
    have hself : cmp a a = .eq := Std.ReflCmp.compare_self
    have hclass := hsub.filter (cmp a · == .eq)
    rw [filter_mergeSort_class, List.filter_eq_self.2 (by simp [hself, hab])] at hclass
    exact .inr ⟨rfl, List.pairwise_iff_forall_sublist.1 h (hclass.trans List.filter_sublist)⟩

theorem mem_of_filter_class {xs ys : List α}
    (h : ∀ x, xs.filter (cmp x · == .eq) = ys.filter (cmp x · == .eq)) {x : α} (hx : x ∈ xs) : x ∈ ys := by
  have hself : x ∈ xs.filter (cmp x · == .eq) :=
    List.mem_filter.2 ⟨hx, beq_iff_eq.2 Std.ReflCmp.compare_self⟩
  rw [h x] at hself
  exact List.mem_of_mem_filter hself

/-- Sorted lists with the same classes are the same. -/
theorem eq_of_filter_class {xs ys : List α} (hxs : xs.Pairwise fun a b => (cmp a b).isLE)
    (hys : ys.Pairwise fun a b => (cmp a b).isLE)
    (h : ∀ x, xs.filter (cmp x · == .eq) = ys.filter (cmp x · == .eq)) : xs = ys := by
  induction xs generalizing ys with
  | nil =>
    cases ys with
    | nil => rfl
    | cons y ys => exact absurd (mem_of_filter_class (fun x => (h x).symm) List.mem_cons_self) (by simp)
  | cons x xs ih =>
    cases ys with
    | nil => exact absurd (mem_of_filter_class h List.mem_cons_self) (by simp)
    | cons y ys =>
      have hle {a b : α} {zs : List α} (hsorted : (a :: zs).Pairwise fun a b => (cmp a b).isLE)
          (hb : b ∈ a :: zs) : (cmp a b).isLE := by
        rcases List.mem_cons.1 hb with rfl | hb
        · exact Std.ReflCmp.isLE_rfl
        · exact (List.pairwise_cons.1 hsorted).1 b hb
      have hxy := hle hxs (mem_of_filter_class (fun z => (h z).symm) List.mem_cons_self)
      have hyx := hle hys (mem_of_filter_class h List.mem_cons_self)
      have heq : cmp x y = .eq := Std.OrientedCmp.isLE_antisymm hxy hyx
      have hself : cmp x x = .eq := Std.ReflCmp.compare_self
      have hheads := h x
      rw [List.filter_cons_of_pos (by simp [hself]), List.filter_cons_of_pos (by simp [heq])] at hheads
      obtain ⟨rfl, -⟩ := List.cons.inj hheads
      rw [ih (List.pairwise_cons.1 hxs).2 (List.pairwise_cons.1 hys).2 fun z => ?_]
      have hz := h z
      rw [List.filter_cons, List.filter_cons] at hz
      split at hz
      · exact (List.cons.inj hz).2
      · exact hz

/-- Sorting depends only on the classes. -/
theorem mergeSort_congr {xs ys : List α}
    (h : ∀ x, xs.filter (cmp x · == .eq) = ys.filter (cmp x · == .eq)) :
    (xs.mergeSort fun a b => (cmp a b).isLE) = ys.mergeSort fun a b => (cmp a b).isLE := by
  refine eq_of_filter_class (pairwise_mergeSort xs) (pairwise_mergeSort ys) fun x => ?_
  rw [filter_mergeSort_class, filter_mergeSort_class, h x]

theorem filter_mergeSort (xs : List α) (p : α → Bool) :
    (xs.mergeSort fun a b => (cmp a b).isLE).filter p =
      (xs.filter p).mergeSort fun a b => (cmp a b).isLE := by
  refine eq_of_filter_class ((pairwise_mergeSort xs).filter p) (pairwise_mergeSort _) fun x => ?_
  rw [filter_mergeSort_class, List.filter_comm, filter_mergeSort_class, List.filter_comm]

end TaxonomySet.Order

namespace TaxonomySet

universe u v w

variable {α : Type u} {β : Type v} {κ : Type w} [DecidableEq κ]

/-- Lists that hold the same elements of each key, in the same order. -/
def Alike (key : α → κ) (xs ys : List α) : Prop :=
  ∀ k, (xs.filter fun x => key x == k) = ys.filter fun y => key y == k

namespace Alike

variable {key : α → κ} {xs ys : List α} (h : Alike key xs ys)
include h

theorem perm [DecidableEq α] : xs.Perm ys := by
  refine List.perm_iff_count.2 fun a => ?_
  have hcount (zs : List α) : (zs.filter fun z => key z == key a).count a = zs.count a :=
    List.count_filter (beq_self_eq_true (key a))
  rw [← hcount xs, ← hcount ys, h (key a)]

theorem filter (p : α → Bool) : Alike key (xs.filter p) (ys.filter p) := by
  intro k
  rw [List.filter_comm, h k, List.filter_comm]

/-- A test that only elements of one key pass finds the same in both. -/
theorem filter_eq {p : α → Bool} {k : κ} (hp : ∀ a, p a = true → key a = k) : xs.filter p = ys.filter p := by
  have hsub (zs : List α) : zs.filter p = (zs.filter fun z => key z == k).filter p := by
    rw [List.filter_filter]
    refine List.filter_congr fun a _ => ?_
    cases hpa : p a with
    | false => rfl
    | true => simp [hp a hpa]
  rw [hsub xs, hsub ys, h k]

theorem flatMap {f : α → List β} {key' : β → κ} (hf : ∀ a, ∀ b ∈ f a, key' b = key a) :
    Alike key' (xs.flatMap f) (ys.flatMap f) := by
  intro k
  have hfilter (zs : List α) : ((zs.flatMap f).filter fun b => key' b == k) =
      (zs.filter fun z => key z == k).flatMap f := by
    induction zs with
    | nil => rfl
    | cons z zs ih =>
      rw [List.flatMap_cons, List.filter_append, ih, List.filter_cons]
      split
      · rename_i hz
        rw [List.flatMap_cons, List.filter_eq_self.2 fun b hb => by rwa [hf z b hb]]
      · rename_i hz
        rw [List.filter_eq_nil_iff.2 fun b hb => by rwa [hf z b hb], List.nil_append]
  rw [hfilter xs, hfilter ys, h k]

theorem append {xs' ys' : List α} (h' : Alike key xs' ys') : Alike key (xs ++ xs') (ys ++ ys') := by
  intro k
  rw [List.filter_append, List.filter_append, h k, h' k]

end Alike

/-- Where no key comes twice, the order does not matter. -/
theorem Alike.of_perm {key : α → κ} {xs ys : List α} (h : xs.Perm ys) (hnodup : (ys.map key).Nodup) :
    Alike key xs ys := by
  intro k
  have hperm := h.filter fun x => key x == k
  have hle : (ys.filter fun y => key y == k).length ≤ 1 := by
    have hsub : ((ys.filter fun y => key y == k).map key).Nodup := hnodup.sublist (List.filter_sublist.map key)
    have hkey : ∀ y ∈ ys.filter fun y => key y == k, key y = k := fun y hy => beq_iff_eq.1 (List.mem_filter.1 hy).2
    rw [List.map_congr_left hkey, List.map_const', List.nodup_replicate] at hsub
    exact hsub
  generalize ys.filter (fun y => key y == k) = ys' at hperm hle
  match ys', hle with
  | [], _ => exact hperm.eq_nil
  | [y], _ => exact List.perm_singleton.1 hperm

end TaxonomySet
