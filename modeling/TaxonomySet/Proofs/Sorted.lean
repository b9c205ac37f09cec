import Mathlib.Data.List.Induction
import Mathlib.Data.List.Nodup
import Mathlib.Data.List.Perm.Basic
import TaxonomySet.Sorted.Positions
import TaxonomySet.Sorted.Set

namespace TaxonomySet

universe u v w

/-- Among elements with distinct keys the first with a key is the only one. -/
theorem find?_eq_some_iff_of_nodup {α : Type u} {κ : Type v} [DecidableEq κ] {key : α → κ} {as : List α}
    (h : (as.map key).Nodup) {k : κ} {a : α} :
    as.find? (fun b => key b == k) = some a ↔ a ∈ as ∧ key a = k := by
  constructor
  · intro hfind
    exact ⟨List.mem_of_find?_eq_some hfind, by simpa using List.find?_some hfind⟩
  · rintro ⟨hmem, rfl⟩
    cases hfind : as.find? (fun b => key b == key a) with
    | none => exact absurd (List.find?_eq_none.1 hfind a hmem) (by simp)
    | some b =>
      have hb : key b = key a := by simpa using List.find?_some hfind
      rw [List.inj_on_of_nodup_map h (List.mem_of_find?_eq_some hfind) hmem hb]

/-- Among entries that are sorted by their keys the first with a property is the one with the least key. -/
theorem find?_eq_some_iff_of_pairwise {κ : Type u} {α : Type v} [LT κ] [Std.Asymm (α := κ) (· < ·)]
    {entries : List (κ × α)} (h : entries.Pairwise (·.1 < ·.1)) {p : κ × α → Bool} {e : κ × α} :
    entries.find? p = some e ↔ e ∈ entries ∧ p e = true ∧ ∀ f ∈ entries, f.1 < e.1 → ¬ p f = true := by
  rw [List.find?_eq_some_iff_append]
  constructor
  · rintro ⟨he, before, after, rfl, hbefore⟩
    obtain ⟨-, hafter, -⟩ := List.pairwise_append.1 h
    refine ⟨by simp, he, fun f hf hlt => ?_⟩
    rcases List.mem_append.1 hf with hf | hf
    · simpa using hbefore f hf
    · rcases List.mem_cons.1 hf with rfl | hf
      · exact (Std.Irrefl.irrefl _ hlt).elim
      · exact (Std.Asymm.asymm _ _ hlt (List.rel_of_pairwise_cons hafter hf)).elim
  · rintro ⟨hmem, he, hleast⟩
    obtain ⟨before, after, rfl⟩ := List.append_of_mem hmem
    refine ⟨he, before, after, rfl, fun f hf => ?_⟩
    have hlt : f.1 < e.1 := (List.pairwise_append.1 h).2.2 f hf e List.mem_cons_self
    simpa using hleast f (List.mem_append_left _ hf) hlt

/-- Induction for functions that go on with a part of what follows the first element. -/
@[elab_as_elim]
theorem filter_induction {α : Type u} {motive : List α → Prop} (nil : motive [])
    (cons : ∀ a as, (∀ p : α → Bool, motive (as.filter p)) → motive (a :: as)) (as : List α) : motive as := by
  induction hlen : as.length using Nat.strongRecOn generalizing as with
  | ind n ih =>
    subst hlen
    cases as with
    | nil => exact nil
    | cons a as => exact cons a as fun p => ih _ (Nat.lt_succ_of_le (List.length_filter_le p as)) _ rfl

/-- Dropping repetitions keeps what stands first. -/
theorem find?_eraseDups {α : Type u} [BEq α] [LawfulBEq α] (p : α → Bool) (as : List α) :
    as.eraseDups.find? p = as.find? p := by
  induction as using filter_induction with
  | nil => rfl
  | cons a as ih =>
    rw [List.eraseDups_cons, List.find?_cons, List.find?_cons]
    cases ha : p a with
    | true => rfl
    | false =>
      rw [ih, List.find?_filter]
      refine congrArg (List.find? · as) (funext fun b => ?_)
      by_cases hb : b = a
      · simp [hb, ha]
      · simp [hb]

theorem eraseDupsBy_sublist_nodup {α : Type u} {κ : Type v} [BEq κ] [LawfulBEq κ] (key : α → κ) (as : List α) :
    (as.eraseDupsBy fun a b => key a == key b).Sublist as ∧
      ((as.eraseDupsBy fun a b => key a == key b).map key).Nodup := by
  induction as using filter_induction with
  | nil => exact ⟨List.Sublist.slnil, List.nodup_nil⟩
  | cons a as ih =>
    rw [List.eraseDupsBy_cons]
    obtain ⟨hsub, hnodup⟩ := ih fun b => decide ((key b == key a) = false)
    refine ⟨(hsub.trans List.filter_sublist).cons_cons a, ?_⟩
    rw [List.map_cons, List.nodup_cons]
    refine ⟨fun hmem => ?_, hnodup⟩
    obtain ⟨b, hb, hkey⟩ := List.mem_map.1 hmem
    have hne := of_decide_eq_true (List.mem_filter.1 (hsub.subset hb)).2
    exact absurd hkey (beq_eq_false_iff_ne.1 hne)

theorem nodup_eraseDups {α : Type u} [BEq α] [LawfulBEq α] (as : List α) : as.eraseDups.Nodup := by
  have hnodup := (eraseDupsBy_sublist_nodup id as).2
  rwa [List.map_id] at hnodup

/-- Dropping repetitions keeps a first part that has none. -/
theorem prefix_eraseDups_append {α : Type u} [BEq α] [LawfulBEq α] {as : List α} (h : as.Nodup) (bs : List α) :
    as <+: (as ++ bs).eraseDups := by
  have hself : as.eraseDups = as := by
    induction as with
    | nil => rfl
    | cons a as ih =>
      obtain ⟨ha, hnodup⟩ := List.nodup_cons.1 h
      have hfilter : (as.filter fun b => !b == a) = as := by
        refine List.filter_eq_self.2 fun b hb => ?_
        have hne : b ≠ a := fun heq => ha (heq ▸ hb)
        simpa using hne
      rw [List.eraseDups_cons, hfilter, ih hnodup]
  rw [List.eraseDups_append, hself]
  exact List.prefix_append _ _

/-- Of the elements of one key only the first is left. -/
theorem mem_eraseDupsBy_iff {α : Type u} {κ : Type v} [BEq κ] [LawfulBEq κ] (key : α → κ) {as : List α} {a : α} :
    a ∈ (as.eraseDupsBy fun a b => key a == key b) ↔ as.find? (fun b => key b == key a) = some a := by
  induction as using filter_induction with
  | nil => simp [List.eraseDupsBy, List.eraseDupsBy.loop]
  | cons b as ih =>
    rw [List.eraseDupsBy_cons, List.mem_cons, ih, List.find?_cons]
    by_cases hkey : key b = key a
    · rw [beq_iff_eq.2 hkey, Option.some_inj]
      refine ⟨fun h => h.elim Eq.symm fun h => ?_, fun h => .inl h.symm⟩
      have hne := of_decide_eq_true (List.mem_filter.1 (List.mem_of_find?_eq_some h)).2
      exact absurd hkey.symm (beq_eq_false_iff_ne.1 hne)
    · have hne : a ≠ b := fun h => hkey (congrArg key h.symm)
      rw [beq_eq_false_iff_ne.2 hkey, or_iff_right hne, List.find?_filter]
      -- the elements of the key are not among those left out
      have hsame : (fun c => decide (decide ((key c == key b) = false) = true ∧ (key c == key a) = true)) =
          fun c => key c == key a := by
        funext c
        by_cases hc : key c = key a
        · simp [hc, Ne.symm hkey]
        · simp [hc]
      rw [hsame]

/-- No key is lost. -/
theorem mem_map_eraseDupsBy_iff {α : Type u} {κ : Type v} [BEq κ] [LawfulBEq κ] (key : α → κ) {as : List α} {k : κ} :
    k ∈ (as.eraseDupsBy fun a b => key a == key b).map key ↔ k ∈ as.map key := by
  constructor
  · exact fun h => ((eraseDupsBy_sublist_nodup key as).1.map key).subset h
  · intro h
    obtain ⟨a, ha, rfl⟩ := List.mem_map.1 h
    have hsome : (as.find? fun b => key b == key a).isSome = true := List.find?_isSome.2 ⟨a, ha, beq_self_eq_true _⟩
    obtain ⟨b, hb⟩ := Option.isSome_iff_exists.1 hsome
    have hkey : key b = key a := by simpa using List.find?_some hb
    refine List.mem_map.2 ⟨b, (mem_eraseDupsBy_iff key).2 ?_, hkey⟩
    rwa [hkey]

namespace SortedMap

variable {κ : Type u} {α : Type v} {β : Type w} [Ord κ]

section Entries

variable [Std.TransOrd κ]

theorem nodup_entries (m : SortedMap κ α) : m.entries.Nodup := by
  refine m.sorted.imp fun {a b} hlt heq => ?_
  subst heq
  rw [Std.compare_self] at hlt
  cases hlt

theorem nodup_keys (m : SortedMap κ α) : m.keys.Nodup := by
  refine List.pairwise_map.2 (m.sorted.imp fun {a b} hlt heq => ?_)
  rw [heq, Std.compare_self] at hlt
  cases hlt

theorem find_of_mem {k : κ} {a : α} {es : List (κ × α)}
    (hsorted : es.Pairwise fun a b => compare a.1 b.1 = .lt) (hmem : (k, a) ∈ es) :
    find k es = some a := by
  induction es with
  | nil => simp at hmem
  | cons e rest ih =>
    obtain ⟨k', b⟩ := e
    obtain ⟨hhead, htail⟩ := List.pairwise_cons.1 hsorted
    unfold find
    rcases List.mem_cons.1 hmem with heq | hmem
    · cases heq
      rw [if_pos Std.compare_self]
    · have hlt : compare k' k = .lt := hhead (k, a) hmem
      have hne : compare k k' ≠ .eq := by
        have hswap : compare k k' = (compare k' k).swap := Std.OrientedCmp.eq_swap
        rw [hswap, hlt]
        simp
      rw [if_neg hne]
      exact ih htail hmem

variable [Std.LawfulEqOrd κ]

theorem get?_eq_some_iff {m : SortedMap κ α} {k : κ} {a : α} :
    m.get? k = some a ↔ (k, a) ∈ m.entries :=
  ⟨mem_entries_of_get?, find_of_mem m.sorted⟩

theorem get?_eq_none_iff {m : SortedMap κ α} {k : κ} : m.get? k = none ↔ k ∉ m.keys := by
  constructor
  · intro hnone hmem
    obtain ⟨⟨k', a⟩, he, rfl⟩ := List.mem_map.1 hmem
    rw [get?_eq_some_iff.2 he] at hnone
    cases hnone
  · intro hmem
    cases h : m.get? k with
    | none => rfl
    | some a => exact absurd (List.mem_map.2 ⟨_, mem_entries_of_get? h, rfl⟩) hmem

theorem mem_values_iff {m : SortedMap κ α} {a : α} : a ∈ m.values ↔ ∃ k, m.get? k = some a := by
  simp only [values, List.mem_map, get?_eq_some_iff, Prod.exists, exists_eq_right]

theorem mem_values_of_get? {m : SortedMap κ α} {k : κ} {a : α} (h : m.get? k = some a) :
    a ∈ m.values :=
  mem_values_iff.2 ⟨k, h⟩

/-- A map is determined by its look-ups. -/
theorem ext_get? {m n : SortedMap κ α} (h : ∀ k, m.get? k = n.get? k) : m = n := by
  have hmem (e : κ × α) : e ∈ m.entries ↔ e ∈ n.entries := by
    rw [← get?_eq_some_iff, ← get?_eq_some_iff, h]
  have hperm := (List.perm_ext_iff_of_nodup m.nodup_entries n.nodup_entries).2 hmem
  have hentries : m.entries = n.entries := by
    refine hperm.eq_of_pairwise (fun a b _ _ hab hba => ?_) m.sorted n.sorted
    have hswap : compare a.1 b.1 = (compare b.1 a.1).swap := Std.OrientedCmp.eq_swap
    rw [hswap, hba] at hab
    cases hab
  cases m
  cases n
  cases hentries
  rfl

theorem get?_insert_self (m : SortedMap κ α) (k : κ) (a : α) : (m.insert k a).get? k = some a := by
  rw [get?_insert, if_pos Std.compare_self]

theorem get?_insert_of_ne (m : SortedMap κ α) {k j : κ} (a : α) (h : j ≠ k) :
    (m.insert k a).get? j = m.get? j := by
  rw [get?_insert, if_neg fun heq => h (Std.LawfulEqCmp.eq_of_compare heq)]

theorem get?_alter_self (m : SortedMap κ α) (k : κ) (f : Option α → α) :
    (m.alter k f).get? k = some (f (m.get? k)) := by
  rw [get?_alter, if_pos Std.compare_self]

theorem get?_alter_of_ne (m : SortedMap κ α) {k j : κ} (f : Option α → α) (h : j ≠ k) :
    (m.alter k f).get? j = m.get? j := by
  rw [get?_alter, if_neg fun heq => h (Std.LawfulEqCmp.eq_of_compare heq)]

theorem get?_filter (p : κ → α → Bool) (m : SortedMap κ α) (k : κ) :
    (m.filter p).get? k = (m.get? k).filter (p k) := by
  apply Option.ext
  intro a
  rw [get?_eq_some_iff, Option.filter_eq_some_iff, get?_eq_some_iff]
  exact List.mem_filter

theorem get?_mapValues (f : α → β) (m : SortedMap κ α) (k : κ) :
    (m.mapValues f).get? k = (m.get? k).map f := by
  apply Option.ext
  intro b
  rw [get?_eq_some_iff, Option.map_eq_some_iff]
  constructor
  · intro h
    obtain ⟨⟨k', a⟩, he, heq⟩ := List.mem_map.1 h
    cases heq
    exact ⟨a, get?_eq_some_iff.2 he, rfl⟩
  · rintro ⟨a, ha, rfl⟩
    exact List.mem_map.2 ⟨(k, a), get?_eq_some_iff.1 ha, rfl⟩

/-- Maps that have the same keys list them in the same order. -/
theorem keys_congr {m : SortedMap κ α} {n : SortedMap κ β} (h : ∀ k, (m.get? k).isSome = (n.get? k).isSome) :
    m.keys = n.keys := by
  have hunit : m.mapValues (fun _ => ()) = n.mapValues fun _ => () := by
    refine ext_get? fun k => ?_
    have hk := h k
    rw [get?_mapValues, get?_mapValues]
    cases hm : m.get? k <;> cases hn : n.get? k <;> simp_all
  have hkeys := congrArg keys hunit
  unfold keys mapValues at hkeys
  rwa [List.map_map, List.map_map] at hkeys

/-- The lists of a map whose elements carry their keys fall apart by these. -/
theorem filter_flatten_values [DecidableEq κ] {m : SortedMap κ (List α)} (key : α → κ)
    (h : ∀ {k as}, m.get? k = some as → ∀ a ∈ as, key a = k) (k : κ) :
    (m.values.flatten.filter fun a => key a == k) = (m.get? k).getD [] := by
  have hmem : ∀ e ∈ m.entries, ∀ a ∈ e.2, key a = e.1 := fun e he => h (get?_eq_some_iff.2 he)
  obtain ⟨es, hsorted⟩ := m
  unfold values get?
  change ∀ e ∈ es, ∀ a ∈ e.2, key a = e.1 at hmem
  clear h
  induction es with
  | nil => rfl
  | cons e rest ih =>
    obtain ⟨k', as⟩ := e
    obtain ⟨hhead, htail⟩ := List.pairwise_cons.1 hsorted
    have has : ∀ a ∈ as, key a = k' := hmem (k', as) List.mem_cons_self
    have hrest := ih htail fun e he => hmem e (List.mem_cons_of_mem _ he)
    simp only [List.map_cons, List.flatten_cons, List.filter_append, find]
    by_cases hk : k = k'
    · subst hk
      have hnone : (rest.map (·.2)).flatten.filter (fun a => key a == k) = [] := by
        refine List.filter_eq_nil_iff.2 fun a ha => ?_
        obtain ⟨bs, hbs, hab⟩ := List.mem_flatten.1 ha
        obtain ⟨e, he, rfl⟩ := List.mem_map.1 hbs
        have hkey := hmem e (List.mem_cons_of_mem _ he) a hab
        intro heq
        have hlt := hhead e he
        rw [← hkey, beq_iff_eq.1 heq, Std.compare_self] at hlt
        cases hlt
      rw [hnone, if_pos Std.compare_self, List.append_nil]
      exact List.filter_eq_self.2 fun a ha => beq_iff_eq.2 (has a ha)
    · have hnone : as.filter (fun a => key a == k) = [] :=
        List.filter_eq_nil_iff.2 fun a ha heq => hk ((beq_iff_eq.1 heq).symm.trans (has a ha))
      rw [hnone, if_neg fun heq => hk (Std.LawfulEqCmp.eq_of_compare heq), List.nil_append]
      exact hrest

/-- A test of what a map yields that the entries decide can be made on the map. -/
theorem filter_filterMap_values (m : SortedMap κ α) {f : α → Option β} {p : β → Bool} {q : κ → α → Bool}
    (h : ∀ {k a}, m.get? k = some a → ∀ b, f a = some b → p b = q k a) :
    (m.values.filterMap f).filter p = (m.filter q).values.filterMap f := by
  unfold values filter
  rw [List.filterMap_map, List.filterMap_map, List.filter_filterMap, List.filterMap_filter]
  refine List.filterMap_congr fun e he => ?_
  have hget : m.get? e.1 = some e.2 := get?_eq_some_iff.2 he
  cases hf : f e.2 with
  | none => simp [hf]
  | some b =>
    have hb := h hget b hf
    simp [hf, Option.filter, hb]

section Keyed

variable {m : SortedMap κ α} {key : α → κ} (h : ∀ {k a}, m.get? k = some a → key a = k)
include h

theorem map_values_of_keyed : m.values.map key = m.keys := by
  unfold values keys
  rw [List.map_map]
  refine List.map_congr_left fun e he => ?_
  exact h (get?_eq_some_iff.2 he)

theorem nodup_map_values : (m.values.map key).Nodup := by
  rw [map_values_of_keyed h]
  exact m.nodup_keys

theorem mem_values_iff_of_keyed {a : α} : a ∈ m.values ↔ m.get? (key a) = some a := by
  rw [mem_values_iff]
  constructor
  · rintro ⟨k, hk⟩
    rwa [h hk]
  · exact fun ha => ⟨key a, ha⟩

theorem find?_filter_values [DecidableEq κ] (p : α → Bool) (k : κ) :
    (m.values.filter p).find? (fun a => key a == k) = (m.get? k).filter p := by
  have hnodup : ((m.values.filter p).map key).Nodup :=
    (nodup_map_values h).sublist (List.filter_sublist.map key)
  apply Option.ext
  intro a
  rw [find?_eq_some_iff_of_nodup hnodup, List.mem_filter, mem_values_iff_of_keyed h, Option.filter_eq_some_iff]
  constructor
  · rintro ⟨⟨ha, hp⟩, rfl⟩
    exact ⟨ha, hp⟩
  · rintro ⟨ha, hp⟩
    have hk := h ha
    subst hk
    exact ⟨⟨ha, hp⟩, rfl⟩

theorem find?_values [DecidableEq κ] (k : κ) : m.values.find? (fun a => key a == k) = m.get? k := by
  have hfind := find?_filter_values h (fun _ => true) k
  rw [List.filter_true] at hfind
  rw [hfind]
  cases m.get? k <;> rfl

theorem find?_reverse_values [DecidableEq κ] (k : κ) :
    m.values.reverse.find? (fun a => key a == k) = m.get? k := by
  have hnodup : (m.values.reverse.map key).Nodup := by
    rw [List.map_reverse, List.nodup_reverse]
    exact nodup_map_values h
  apply Option.ext
  intro a
  rw [find?_eq_some_iff_of_nodup hnodup, List.mem_reverse, mem_values_iff_of_keyed h]
  constructor
  · rintro ⟨ha, rfl⟩
    exact ha
  · intro ha
    have hk := h ha
    subst hk
    exact ⟨ha, rfl⟩

end Keyed

/-- What is done to the values of many keys in turn is done to the value of each. -/
theorem get?_foldl_alter [DecidableEq κ] (key : β → κ) (f : β → Option α → α) (bs : List β) (m : SortedMap κ α)
    (k : κ) : (bs.foldl (fun m b => m.alter (key b) (f b)) m).get? k =
      (bs.filter fun b => key b == k).foldl (fun found b => some (f b found)) (m.get? k) := by
  induction bs generalizing m with
  | nil => rfl
  | cons b bs ih =>
    rw [List.foldl_cons, ih]
    by_cases hb : key b = k
    · subst hb
      rw [get?_alter_self, List.filter_cons_of_pos (by simp), List.foldl_cons]
    · rw [get?_alter_of_ne _ _ fun heq => hb heq.symm, List.filter_cons_of_neg (by simpa using hb)]

/-- The same where what is missing counts as a default. -/
theorem get?_foldl_alter_getD [DecidableEq κ] (key : β → κ) (init : κ → α) (f : α → β → α) (bs : List β)
    (m : SortedMap κ α) (k : κ) :
    (bs.foldl (fun m b => m.alter (key b) fun found => f (found.getD (init (key b))) b) m).get? k =
      if (bs.filter fun b => key b == k) = [] then m.get? k
      else some ((bs.filter fun b => key b == k).foldl f ((m.get? k).getD (init k))) := by
  rw [get?_foldl_alter key fun b found => f (found.getD (init (key b))) b]
  have hkey : ∀ b ∈ bs.filter fun b => key b == k, key b = k := fun b hb => by simpa using (List.mem_filter.1 hb).2
  generalize bs.filter (fun b => key b == k) = cs at hkey
  generalize m.get? k = found
  induction cs generalizing found with
  | nil => rfl
  | cons c cs ih =>
    rw [List.foldl_cons, ih (fun b hb => hkey b (List.mem_cons_of_mem _ hb)) _, hkey c List.mem_cons_self,
      if_neg (List.cons_ne_nil _ _), List.foldl_cons]
    split
    · rename_i hnil
      rw [hnil]
      rfl
    · rfl

/-- Values that are pushed come behind those of their key, in their order. -/
theorem get?_foldl_push [DecidableEq κ] (key : β → κ) (value : β → α) (bs : List β) (m : SortedMap κ (List α)) (k : κ) :
    (bs.foldl (fun m b => m.push (key b) (value b)) m).get? k =
      if (bs.filter fun b => key b == k) = [] then m.get? k
      else some ((m.get? k).getD [] ++ (bs.filter fun b => key b == k).map value) := by
  have hget := get?_foldl_alter_getD key (fun _ => []) (fun as b => as ++ [value b]) bs m k
  rw [List.foldl_append_eq_append, ← List.flatMap_def, ← List.map_eq_flatMap] at hget
  exact hget

/-- A key has values after some have been pushed if it had any before or one was pushed. -/
theorem contains_foldl_push [DecidableEq κ] (key : β → κ) (value : β → α) (bs : List β) (m : SortedMap κ (List α))
    (k : κ) : (bs.foldl (fun m b => m.push (key b) (value b)) m).contains k = true ↔
      m.contains k = true ∨ ∃ b ∈ bs, key b = k := by
  unfold contains
  rw [get?_foldl_push]
  split
  · rename_i hnil
    refine (or_iff_left ?_).symm
    rintro ⟨b, hb, hk⟩
    exact List.filter_eq_nil_iff.1 hnil b hb (beq_iff_eq.2 hk)
  · rename_i hsome
    obtain ⟨b, hb⟩ := List.exists_mem_of_ne_nil _ hsome
    rw [List.mem_filter, beq_iff_eq] at hb
    exact iff_of_true rfl (.inr ⟨b, hb⟩)

/-- Puts what an update makes of the value of a key in its place, if it makes anything. -/
def update (f : Option α → β → Option α) (key : β → κ) (m : SortedMap κ α) (b : β) : SortedMap κ α :=
  match f (m.get? (key b)) b with
  | some a => m.insert (key b) a
  | none => m

theorem get?_update_self (f : Option α → β → Option α) (key : β → κ) (m : SortedMap κ α) (b : β) :
    (m.update f key b).get? (key b) = (f (m.get? (key b)) b).or (m.get? (key b)) := by
  unfold update
  cases f (m.get? (key b)) b with
  | none => rfl
  | some a => exact get?_insert_self _ _ _

theorem get?_update_of_ne (f : Option α → β → Option α) {key : β → κ} (m : SortedMap κ α) {b : β} {k : κ}
    (h : k ≠ key b) : (m.update f key b).get? k = m.get? k := by
  unfold update
  split
  · exact get?_insert_of_ne _ _ h
  · rfl

/-- Values stay under their own keys if an update makes each for its key. -/
theorem keyed_update [DecidableEq κ] {f : Option α → β → Option α} {key : β → κ} {name : α → κ}
    (hf : ∀ {old b a}, f old b = some a → (∀ o, old = some o → name o = key b) → name a = key b)
    {m : SortedMap κ α} (h : ∀ {k a}, m.get? k = some a → name a = k) (b : β) {k : κ} {a : α}
    (hget : (m.update f key b).get? k = some a) : name a = k := by
  by_cases hk : k = key b
  · subst hk
    rw [get?_update_self, Option.or_eq_some_iff] at hget
    rcases hget with hmade | ⟨-, hget⟩
    · exact hf hmade fun _ => h
    · exact h hget
  · rw [get?_update_of_ne _ _ hk] at hget
    exact h hget

/-- Updates under distinct keys do not meet: what each makes of its key depends on what was there at
first. -/
theorem get?_foldl_update [DecidableEq κ] (f : Option α → β → Option α) {key : β → κ} {bs : List β}
    (hdistinct : (bs.map key).Nodup) (m : SortedMap κ α) (k : κ) :
    (bs.foldl (update f key) m).get? k =
      ((bs.find? fun b => key b == k).bind (f (m.get? k))).or (m.get? k) := by
  induction bs generalizing m with
  | nil => simp
  | cons b bs ih =>
    rw [List.map_cons, List.nodup_cons] at hdistinct
    rw [List.foldl_cons, ih hdistinct.2]
    by_cases hb : key b = k
    · subst hb
      have hrest : bs.find? (fun c => key c == key b) = none :=
        List.find?_eq_none.2 fun c hc heq => hdistinct.1 (List.mem_map.2 ⟨c, hc, by simpa using heq⟩)
      rw [hrest, List.find?_cons_of_pos (by simp), get?_update_self]
      rfl
    · rw [get?_update_of_ne f m fun heq => hb heq.symm, List.find?_cons_of_neg (by simpa using hb)]

end Entries

section Rebuilding

variable [Std.TransOrd κ]

/-- A key that is greater than all others is put at the end. -/
theorem place_of_forall_lt {k : κ} {f : Option α → α} {es : List (κ × α)} (h : ∀ e ∈ es, compare e.1 k = .lt) :
    place k f es = es ++ [(k, f none)] := by
  induction es with
  | nil => rfl
  | cons e es ih =>
    have he : compare k e.1 = .gt := Std.OrientedCmp.gt_iff_lt.2 (h e List.mem_cons_self)
    unfold place
    rw [he, ih fun b hb => h b (List.mem_cons_of_mem _ hb), List.cons_append]

theorem entries_foldl_insert (es : List (κ × α)) {m : SortedMap κ α}
    (h : (m.entries ++ es).Pairwise fun a b => compare a.1 b.1 = .lt) :
    (es.foldl (fun m e => m.insert e.1 e.2) m).entries = m.entries ++ es := by
  induction es generalizing m with
  | nil => exact (List.append_nil _).symm
  | cons e es ih =>
    have hentries : (m.insert e.1 e.2).entries = m.entries ++ [e] :=
      place_of_forall_lt fun b hb => (List.pairwise_append.1 h).2.2 b hb e List.mem_cons_self
    rw [List.foldl_cons, ih, hentries, List.append_assoc, List.singleton_append]
    rwa [hentries, List.append_assoc, List.singleton_append]

/-- What a list with distinct keys holds for a key is found in the map that is made of the list. -/
theorem get?_ofList_eq_some_iff [Std.LawfulEqOrd κ] [DecidableEq κ] {es : List (κ × α)} (h : (es.map (·.1)).Nodup)
    {k : κ} {a : α} : (ofList es).get? k = some a ↔ (k, a) ∈ es := by
  unfold ofList
  induction es using List.reverseRecOn with
  | nil => exact iff_of_false nofun List.not_mem_nil
  | append_singleton es e ih =>
    obtain ⟨j, b⟩ := e
    rw [List.map_append, List.map_singleton, List.nodup_append_comm, List.singleton_append, List.nodup_cons] at h
    rw [List.foldl_append, List.foldl_cons, List.foldl_nil, List.mem_append, List.mem_singleton]
    by_cases hk : k = j
    · subst hk
      have hnew : (k, a) ∉ es := fun hmem => h.1 (List.mem_map.2 ⟨(k, a), hmem, rfl⟩)
      rw [get?_insert_self, Option.some_inj]
      simp [hnew, eq_comm]
    · rw [get?_insert_of_ne _ _ hk, ih h.2]
      simp [hk]

/-- A map is made of its entries. -/
theorem ofList_entries (m : SortedMap κ α) : ofList m.entries = m := by
  have hentries : (ofList m.entries).entries = [] ++ m.entries := entries_foldl_insert m.entries m.sorted
  generalize ofList m.entries = n at hentries
  cases m
  cases n
  cases hentries
  rfl

end Rebuilding

theorem mapValues_eq_self_iff {m : SortedMap κ α} {f : α → α} : m.mapValues f = m ↔ ∀ a ∈ m.values, f a = a := by
  have hentries : m.mapValues f = m ↔ m.entries.map (fun e => (e.1, f e.2)) = m.entries.map id := by
    rw [List.map_id]
    cases m
    simp [mapValues]
  rw [hentries, List.map_inj_left]
  simp only [values, List.forall_mem_map, id, Prod.ext_iff, true_and]

theorem values_mapValues (f : α → β) (m : SortedMap κ α) : (m.mapValues f).values = m.values.map f := by
  simp [values, mapValues]

end SortedMap

namespace SortedSet

variable {κ : Type u} [Ord κ]

theorem not_mem_empty (k : κ) : k ∉ (∅ : SortedSet κ) := by
  intro h
  cases h

/-- A set is listed in order. -/
theorem pairwise_toList (s : SortedSet κ) : s.toList.Pairwise fun a b => compare a b = .lt :=
  List.pairwise_map.2 s.members.sorted

variable [Std.TransOrd κ]

theorem nodup_toList (s : SortedSet κ) : s.toList.Nodup := s.members.nodup_keys

variable [Std.LawfulEqOrd κ]

theorem contains_iff_mem_toList {s : SortedSet κ} {k : κ} : s.contains k = true ↔ k ∈ s.toList := by
  unfold contains SortedMap.contains toList
  rw [Option.isSome_iff_ne_none, ne_eq, SortedMap.get?_eq_none_iff, not_not]

theorem mem_toList {s : SortedSet κ} {k : κ} : k ∈ s.toList ↔ k ∈ s :=
  contains_iff_mem_toList.symm

theorem mem_insert {s : SortedSet κ} {k j : κ} : j ∈ s.insert k ↔ j = k ∨ j ∈ s := by
  change (s.insert k).contains j = true ↔ j = k ∨ s.contains j = true
  rw [contains_insert]
  simp

theorem mem_insertAll {s : SortedSet κ} {ks : List κ} {j : κ} :
    j ∈ s.insertAll ks ↔ j ∈ ks ∨ j ∈ s := by
  change (s.insertAll ks).contains j = true ↔ j ∈ ks ∨ s.contains j = true
  rw [contains_insertAll]
  simp

theorem mem_ofList {ks : List κ} {j : κ} : j ∈ ofList ks ↔ j ∈ ks := by
  unfold ofList
  rw [mem_insertAll, or_iff_left (not_mem_empty j)]

theorem mem_union {s t : SortedSet κ} {j : κ} : j ∈ s.union t ↔ j ∈ s ∨ j ∈ t := by
  unfold union
  rw [mem_insertAll, mem_toList, or_comm]

theorem mem_filter {s : SortedSet κ} {p : κ → Bool} {k : κ} : k ∈ s.filter p ↔ k ∈ s ∧ p k = true := by
  change ((s.members.filter fun k _ => p k).get? k).isSome = true ↔ (s.members.get? k).isSome = true ∧ p k = true
  rw [SortedMap.get?_filter]
  cases s.members.get? k <;> simp [Option.filter]

theorem subset_iff {s t : SortedSet κ} : s.subset t = true ↔ ∀ k ∈ s, k ∈ t := by
  unfold subset
  rw [List.all_eq_true]
  exact forall_congr' fun k => imp_congr_left mem_toList

theorem isEmpty_iff {s : SortedSet κ} : s.isEmpty = true ↔ ∀ k, k ∉ s := by
  have hnil : s.isEmpty = true ↔ s.toList = [] := List.isEmpty_iff.trans List.map_eq_nil_iff.symm
  simp only [hnil, List.eq_nil_iff_forall_not_mem, mem_toList]

/-- A set is determined by its members. -/
theorem ext_mem {s t : SortedSet κ} (h : ∀ k, k ∈ s ↔ k ∈ t) : s = t := by
  have hmembers : s.members = t.members := by
    apply SortedMap.ext_get?
    intro k
    have hk : (s.members.get? k).isSome = (t.members.get? k).isSome := Bool.eq_iff_iff.2 (h k)
    cases hs : s.members.get? k <;> cases ht : t.members.get? k <;> simp_all
  cases s
  cases t
  cases hmembers
  rfl

/-- A set is made of its members. -/
theorem ofList_toList (s : SortedSet κ) : ofList s.toList = s :=
  ext_mem fun k => by rw [mem_ofList, mem_toList]

end SortedSet

namespace Positions

variable {κ : Type u} {α : Type v} [Ord κ] [Std.TransOrd κ] [Std.LawfulEqOrd κ] [DecidableEq κ]

/-- Entering a list puts the positions of a key behind those that the index holds for it. -/
theorem getD_addFrom (key : α → Option κ) (k : κ) (xs : List α) (start : Nat) (index : Positions κ) :
    ((addFrom key start index xs).get? k).getD [] =
      (index.get? k).getD [] ++
        ((xs.zipIdx start).filter fun x => key x.1 == some k).map (·.2) := by
  induction xs generalizing start index with
  | nil => simp [addFrom]
  | cons x xs ih =>
    rw [addFrom, ih, List.zipIdx_cons]
    cases hx : key x with
    | none => simp [hx]
    | some j =>
      by_cases hj : k = j
      · subst hj
        simp [hx, SortedMap.push, SortedMap.get?_alter_self]
      · have hne : (some j == some k) = false := by simpa using fun h => hj h.symm
        simp [hx, hne, SortedMap.push, SortedMap.get?_alter_of_ne _ _ hj]

theorem filterMap_getElem?_zipIdx (xs : List α) (p : α → Bool) :
    (((xs.zipIdx).filter fun x => p x.1).map (·.2)).filterMap (xs[·]?) = xs.filter p := by
  have hget : ∀ x ∈ xs.zipIdx, xs[x.2]? = some x.1 := by
    intro x hx
    exact List.mem_zipIdx_iff_getElem?.1 hx
  rw [List.filterMap_map]
  have hsome : ∀ x ∈ xs.zipIdx.filter fun x => p x.1, ((xs[·]?) ∘ fun x => x.2) x = some x.1 :=
    fun x hx => hget x (List.mem_of_mem_filter hx)
  rw [List.filterMap_congr hsome, List.filterMap_eq_map']
  have hfilter := List.filter_map (f := fun x : α × Nat => x.1) (p := p) (l := xs.zipIdx)
  rw [List.zipIdx_map_fst] at hfilter
  exact hfilter.symm

theorem getD_ofArray (key : α → Option κ) (xs : Array α) (k : κ) :
    ((ofArray key xs).get? k).getD [] = (xs.toList.zipIdx.filter fun x => key x.1 == some k).map (·.2) := by
  unfold ofArray
  rw [getD_addFrom, SortedMap.get?_empty, Option.getD_none, List.nil_append]

/-- The positions of a key are those of the elements that have it. -/
theorem mem_getD_ofArray {key : α → Option κ} {xs : Array α} {k : κ} {i : Nat} :
    i ∈ ((ofArray key xs).get? k).getD [] ↔ ∃ x, xs[i]? = some x ∧ key x = some k := by
  simp [getD_ofArray, List.mem_zipIdx_iff_getElem?]

/-- An index selects the elements with a key, in the order of the array. -/
theorem select_ofArray (key : α → Option κ) (xs : Array α) (k : κ) :
    (ofArray key xs).select xs k = xs.toList.filter fun x => key x == some k := by
  unfold select
  have hget (i : Nat) : xs[i]? = xs.toList[i]? := by simp
  simp only [getD_ofArray, hget]
  exact filterMap_getElem?_zipIdx xs.toList fun x => key x == some k

end Positions

end TaxonomySet
