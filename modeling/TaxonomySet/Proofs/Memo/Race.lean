import Mathlib.Algebra.BigOperators.Fin
import TaxonomySet.Proofs.Memo

namespace TaxonomySet.Memo

/-- A call for the value of a key, with what its computation gives. -/
structure Call (κ ε α : Type) where
  key : κ
  outcome : Except ε α

/-- How far a call has come: before its look-up, with nothing found, with a value to be stored, or at its end. -/
inductive Progress (ε α : Type) where
  | called
  | missed
  | computed (a : α)
  | done (result : Except ε α)

/-- The number of steps that are left at most. -/
def Progress.left {ε α : Type} : Progress ε α → Nat
  | called => 3
  | missed => 2
  | computed _ => 1
  | done _ => 0

theorem Progress.exists_eq_done {ε α : Type} {p : Progress ε α} (h : p.left = 0) : ∃ result, p = .done result := by
  cases p with
  | done result => exact ⟨result, rfl⟩
  | _ => cases h

/-- The number of look-ups that are made. -/
def Progress.looks {ε α : Type} : Progress ε α → Nat
  | called => 0
  | missed | computed _ | done _ => 1

variable {κ ε α : Type} [DecidableEq κ]

/-- What a call does next: the look-up, the computation, or the storing. -/
def Call.step (c : Call κ ε α) (m : Memo κ α) : Progress ε α → Progress ε α × Memo κ α
  | .called => ((m.look c.key).1.elim .missed fun a => .done (.ok a), (m.look c.key).2)
  | .missed =>
    match c.outcome with
    | .ok a => (.computed a, m)
    | .error e => (.done (.error e), m)
  | .computed a => (.done (.ok (m.store c.key a).1), (m.store c.key a).2)
  | .done result => (.done result, m)

namespace Call

variable (c : Call κ ε α) (m : Memo κ α)

/-- A call that takes its steps without a break computes the value of its key. -/
theorem steps_eq_compute :
    let looked := c.step m .called
    let computed := c.step looked.2 looked.1
    c.step computed.2 computed.1 =
      (.done (m.compute c.key fun _ => c.outcome).1, (m.compute c.key fun _ => c.outcome).2) := by
  unfold compute
  rcases hlook : m.look c.key with ⟨found | a, looked⟩
  · cases houtcome : c.outcome <;> simp [step, hlook, houtcome]
  · simp [step, hlook]

theorem snd_step_missed : (c.step m .missed).2 = m := by
  unfold step
  cases c.outcome <;> rfl

/-- The value of a key stays. -/
theorem find?_step (p : Progress ε α) {k : κ} {a : α} (h : m.find? k = some a) :
    (c.step m p).2.find? k = some a := by
  cases p with
  | called => exact (m.find?_look c.key k).trans h
  | missed => rwa [snd_step_missed]
  | computed b =>
    unfold step
    rw [find?_store, h, Option.some_or]
  | done result => exact h

/-- Only a call that has computed a value changes the values of the table. -/
theorem entries_step {p : Progress ε α} (hp : ∀ a, p ≠ .computed a) : (c.step m p).2.entries = m.entries := by
  cases p with
  | called => exact m.entries_look c.key
  | missed => rw [snd_step_missed]
  | computed a => exact absurd rfl (hp a)
  | done result => rfl

/-- A value that is new in the table is the one that the call has computed for its key. -/
theorem find?_of_find?_step {p : Progress ε α} {k : κ} {a : α} (h : (c.step m p).2.find? k = some a) :
    m.find? k = some a ∨ c.key = k ∧ p = .computed a := by
  cases p with
  | called => exact .inl ((m.find?_look c.key k).symm.trans h)
  | missed =>
    rw [snd_step_missed] at h
    exact .inl h
  | computed b =>
    unfold step at h
    rw [find?_store, Option.or_eq_some_iff] at h
    rcases h with hold | ⟨-, hnew⟩
    · exact .inl hold
    · obtain ⟨hkey, hb⟩ := Option.ite_none_right_eq_some.1 hnew
      exact .inr ⟨(beq_iff_eq.1 hkey).symm, congrArg _ (Option.some.inj hb)⟩
  | done result => exact .inl h

theorem outcome_of_step_eq_computed {p : Progress ε α} (hp : ∀ a, p = .computed a → c.outcome = .ok a) {a : α}
    (h : (c.step m p).1 = .computed a) : c.outcome = .ok a := by
  cases p with
  | called =>
    unfold step at h
    cases hlook : (m.look c.key).1 <;> rw [hlook] at h <;> cases h
  | missed =>
    unfold step at h
    cases houtcome : c.outcome <;> rw [houtcome] at h <;> cases h
    rfl
  | computed b => cases h
  | done result => cases h

/-- A call that ends with a value leaves that value in the table. -/
theorem find?_of_step_eq_done {p : Progress ε α} (hp : ∀ b, p = .done (.ok b) → m.find? c.key = some b) {a : α}
    (h : (c.step m p).1 = .done (.ok a)) : (c.step m p).2.find? c.key = some a := by
  cases p with
  | called =>
    unfold step at h ⊢
    dsimp only at h ⊢
    rw [look_fst] at h
    rw [find?_look]
    cases hfind : m.find? c.key with
    | none =>
      rw [hfind] at h
      cases h
    | some b =>
      rw [hfind] at h
      cases h
      rfl
  | missed =>
    unfold step at h
    cases houtcome : c.outcome <;> rw [houtcome] at h <;> cases h
  | computed b =>
    unfold step at h ⊢
    cases h
    rw [find?_store, store_fst]
    cases m.find? c.key <;> simp
  | done result =>
    cases h
    exact hp a rfl

/-- A call counts its look-up and nothing else. -/
theorem counts_step (p : Progress ε α) :
    (c.step m p).2.hits + (c.step m p).2.misses + p.looks = m.hits + m.misses + (c.step m p).1.looks := by
  cases p with
  | called =>
    have hlooks : (c.step m .called).1.looks = 1 := by
      unfold step
      cases (m.look c.key).1 <;> rfl
    rw [hlooks]
    exact m.counts_look c.key
  | missed =>
    unfold step
    cases c.outcome <;> rfl
  | computed b => exact congrArg (· + 1) (m.counts_store c.key b)
  | done result => rfl

theorem left_step (p : Progress ε α) : (c.step m p).1.left = p.left - 1 ∨ (c.step m p).1.left = 0 := by
  cases p with
  | called =>
    unfold step
    cases (m.look c.key).1 with
    | none => exact .inl rfl
    | some a => exact .inr rfl
  | missed =>
    unfold step
    cases c.outcome with
    | ok a => exact .inl rfl
    | error e => exact .inr rfl
  | computed b => exact .inl rfl
  | done result => exact .inl rfl

end Call

/-- A table with a number of calls on it under way. Between any two steps of a call others may take theirs, and
whoever stores first wins. -/
structure Race (κ ε α : Type) (n : Nat) where
  memo : Memo κ α
  progress : Fin n → Progress ε α

namespace Race

variable {n : Nat} {calls : Fin n → Call κ ε α} {m : Memo κ α} {s : Race κ ε α n}

/-- The table before the first step. -/
def start (m : Memo κ α) : Race κ ε α n := ⟨m, fun _ => .called⟩

/-- The next step of one call. -/
def step (calls : Fin n → Call κ ε α) (s : Race κ ε α n) (i : Fin n) : Race κ ε α n :=
  let next := (calls i).step s.memo (s.progress i)
  ⟨next.2, Function.update s.progress i next.1⟩

/-- The steps of a schedule, which says for each whose turn it is. -/
def run (calls : Fin n → Call κ ε α) (s : Race κ ε α n) (schedule : List (Fin n)) : Race κ ε α n :=
  schedule.foldl (step calls) s

theorem progress_step_self (i : Fin n) :
    (s.step calls i).progress i = ((calls i).step s.memo (s.progress i)).1 := Function.update_self ..

theorem progress_step_of_ne {i j : Fin n} (h : j ≠ i) : (s.step calls i).progress j = s.progress j :=
  Function.update_of_ne h ..

/-- What holds between the steps: what was returned is in the table, a value to be stored is the one computed, the
table holds what it held before and what calls computed, and each call that has begun is counted once. -/
structure Coherent (calls : Fin n → Call κ ε α) (m : Memo κ α) (s : Race κ ε α n) : Prop where
  returned : ∀ i a, s.progress i = .done (.ok a) → s.memo.find? (calls i).key = some a
  computed : ∀ i a, s.progress i = .computed a → (calls i).outcome = .ok a
  stored : ∀ k a, s.memo.find? k = some a →
    m.find? k = some a ∨ ∃ i, (calls i).key = k ∧ (calls i).outcome = .ok a
  counted : s.memo.hits + s.memo.misses = m.hits + m.misses + Finset.univ.sum fun i => (s.progress i).looks

theorem coherent_start (calls : Fin n → Call κ ε α) (m : Memo κ α) : Coherent calls m (start m) where
  returned _ _ h := by cases h
  computed _ _ h := by cases h
  stored _ _ h := .inl h
  counted := by simp [start, Progress.looks]

theorem find?_step (i : Fin n) {k : κ} {a : α} (h : s.memo.find? k = some a) :
    (s.step calls i).memo.find? k = some a := (calls i).find?_step s.memo _ h

theorem sum_looks_step (calls : Fin n → Call κ ε α) (s : Race κ ε α n) (i : Fin n) :
    (Finset.univ.sum fun j => ((s.step calls i).progress j).looks) + (s.progress i).looks =
      (Finset.univ.sum fun j => (s.progress j).looks) + ((s.step calls i).progress i).looks := by
  have hothers : ((Finset.univ.erase i).sum fun j => ((s.step calls i).progress j).looks) =
      (Finset.univ.erase i).sum fun j => (s.progress j).looks :=
    Finset.sum_congr rfl fun j hj => by rw [progress_step_of_ne (Finset.ne_of_mem_erase hj)]
  rw [← Finset.add_sum_erase _ _ (Finset.mem_univ i), ← Finset.add_sum_erase _ (fun j => (s.progress j).looks)
    (Finset.mem_univ i), hothers]
  omega

theorem Coherent.step (h : Coherent calls m s) (i : Fin n) : Coherent calls m (s.step calls i) where
  returned j a hj := by
    by_cases hij : j = i
    · subst hij
      rw [progress_step_self] at hj
      exact (calls j).find?_of_step_eq_done s.memo (h.returned j) hj
    · rw [progress_step_of_ne hij] at hj
      exact find?_step i (h.returned j a hj)
  computed j a hj := by
    by_cases hij : j = i
    · subst hij
      rw [progress_step_self] at hj
      exact (calls j).outcome_of_step_eq_computed s.memo (h.computed j) hj
    · rw [progress_step_of_ne hij] at hj
      exact h.computed j a hj
  stored k a hk := by
    rcases (calls i).find?_of_find?_step s.memo hk with hold | ⟨hkey, hp⟩
    · exact h.stored k a hold
    · exact .inr ⟨i, hkey, h.computed i a hp⟩
  counted := by
    have hcall : (s.step calls i).memo.hits + (s.step calls i).memo.misses + (s.progress i).looks =
        s.memo.hits + s.memo.misses + ((s.step calls i).progress i).looks := by
      rw [progress_step_self]
      exact (calls i).counts_step s.memo (s.progress i)
    have hsum := sum_looks_step calls s i
    have hcounted := h.counted
    omega

theorem Coherent.run (h : Coherent calls m s) (schedule : List (Fin n)) :
    Coherent calls m (s.run calls schedule) :=
  List.foldlRecOn _ _ h fun _ hs i _ => hs.step i

theorem find?_run (schedule : List (Fin n)) {k : κ} {a : α} (h : s.memo.find? k = some a) :
    (s.run calls schedule).memo.find? k = some a :=
  List.foldlRecOn (motive := fun s : Race κ ε α n => s.memo.find? k = some a) _ _ h fun _ hs i _ => find?_step i hs

theorem left_run (schedule : List (Fin n)) (i : Fin n) :
    ((s.run calls schedule).progress i).left ≤ (s.progress i).left - schedule.count i := by
  induction schedule generalizing s with
  | nil => exact Nat.le_refl _
  | cons j schedule ih =>
    refine Nat.le_trans (ih (s := s.step calls j)) ?_
    by_cases hij : i = j
    · subst hij
      rw [List.count_cons_self, progress_step_self]
      rcases (calls i).left_step s.memo (s.progress i) with hleft | hleft <;> omega
    · rw [List.count_cons_of_ne (Ne.symm hij), progress_step_of_ne hij]

/-- Any number of calls on one table, their steps in any order. A call that returns a value returns what the table
holds for its key, so calls on one key return the same; what the table holds stays, and is what it held before or what
a call on that key computed. A call whose computation fails changes nothing that the table holds. A call that has its
turn three times ends, and when all have ended, each has been counted once. -/
theorem run_coherent (m : Memo κ α) (calls : Fin n → Call κ ε α) (schedule : List (Fin n)) :
    let s := (start m).run calls schedule
    (∀ i a, s.progress i = .done (.ok a) → s.memo.find? (calls i).key = some a) ∧
    (∀ i j a b, (calls i).key = (calls j).key → s.progress i = .done (.ok a) → s.progress j = .done (.ok b) → a = b) ∧
    (∀ k a, s.memo.find? k = some a → ∀ more, (s.run calls more).memo.find? k = some a) ∧
    (∀ k a, s.memo.find? k = some a → m.find? k = some a ∨ ∃ i, (calls i).key = k ∧ (calls i).outcome = .ok a) ∧
    (∀ i e, (calls i).outcome = .error e → (s.step calls i).memo.entries = s.memo.entries) ∧
    (∀ i, 3 ≤ schedule.count i → ∃ result, s.progress i = .done result) ∧
    ((∀ i, ∃ result, s.progress i = .done result) → s.memo.hits + s.memo.misses = m.hits + m.misses + n) := by
  intro s
  have hs : Coherent calls m s := (coherent_start calls m).run schedule
  refine ⟨hs.returned, fun i j a b hkey hi hj => ?_, fun k a hk more => find?_run more hk, hs.stored,
    fun i e he => ?_, fun i hi => ?_, fun hdone => ?_⟩
  · have ha := hs.returned i a hi
    rw [hkey, hs.returned j b hj] at ha
    exact (Option.some.inj ha).symm
  · refine (calls i).entries_step s.memo fun a ha => ?_
    cases he.symm.trans (hs.computed i a ha)
  · have hleft : (s.progress i).left ≤ 3 - schedule.count i := left_run schedule i
    exact Progress.exists_eq_done (by omega)
  · have hlooks : (Finset.univ.sum fun i => (s.progress i).looks) = n := by
      have hone : ∀ i ∈ Finset.univ, (s.progress i).looks = 1 := fun i _ => by
        obtain ⟨result, hresult⟩ := hdone i
        rw [hresult]
        rfl
      rw [Finset.sum_congr rfl hone]
      simp
    rw [hs.counted, hlooks]

end Race

end TaxonomySet.Memo
