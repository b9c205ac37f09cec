import TaxonomySet.Derivation
import TaxonomySet.Proofs.Sample

namespace TaxonomySet

variable {next : QName → Option QName} {heads : List QName}

/-- The name that so many steps lead to. -/
def chain (next : QName → Option QName) (name : QName) : Nat → Option QName
  | 0 => some name
  | n + 1 => (chain next name n).bind next

theorem chain_succ (next : QName → Option QName) (name : QName) (n : Nat) :
    chain next name (n + 1) = (next name).bind fun name' => chain next name' n := by
  induction n with
  | zero => exact (Option.bind_fun_some (next name)).symm
  | succ n ih =>
    change (chain next name (n + 1)).bind next = _
    rw [ih, Option.bind_assoc]
    rfl

/-- Whether a chain comes to one of the heads, at once or later. -/
def Meets (next : QName → Option QName) (heads : List QName) (name : QName) : Prop :=
  ∃ n, ∃ h ∈ heads, chain next name n = some h

theorem meets_of_mem {name : QName} (h : name ∈ heads) : Meets next heads name := ⟨0, name, h, rfl⟩

/-- A name that is no head comes to a head if the name after it does. -/
theorem meets_iff_of_not_mem {name : QName} (h : name ∉ heads) :
    Meets next heads name ↔ ∃ name', next name = some name' ∧ Meets next heads name' := by
  constructor
  · rintro ⟨n, head, hhead, hchain⟩
    cases n with
    | zero =>
      cases hchain
      exact absurd hhead h
    | succ n =>
      rw [chain_succ, Option.bind_eq_some_iff] at hchain
      obtain ⟨name', hnext, hchain⟩ := hchain
      exact ⟨name', hnext, n, head, hhead, hchain⟩
  · rintro ⟨name', hnext, n, head, hhead, hchain⟩
    refine ⟨n + 1, head, hhead, ?_⟩
    rw [chain_succ, hnext]
    exact hchain

/-- A walk under way: the names that it has met, and the name that it has come to. It ends at a name that it has met
before. It misses nothing by that: from such a name on it would meet only names again that it has met. -/
structure Walk where
  seen : List QName
  current : QName

namespace Walk

/-- One turn: the answer if the walk ends here, and else the walk one step further on. -/
def turn (next : QName → Option QName) (heads : List QName) (w : Walk) : Bool ⊕ Walk :=
  if w.current ∈ heads then .inl true
  else if w.current ∈ w.seen then .inl false
  else
    match next w.current with
    | some name => .inr ⟨w.current :: w.seen, name⟩
    | none => .inl false

/-- The answer of a walk, if it ends within so many turns. -/
def answer? (next : QName → Option QName) (heads : List QName) : Nat → Walk → Option Bool
  | 0, _ => none
  | n + 1, w =>
    match w.turn next heads with
    | .inl answer => some answer
    | .inr w => answer? next heads n w

/-- What holds of a walk under way: it has met no head, and each name that it has met leads to one that it has met
or has come to. -/
structure Fruitless (next : QName → Option QName) (heads : List QName) (w : Walk) : Prop where
  not_mem : ∀ q ∈ w.seen, q ∉ heads
  leads : ∀ q ∈ w.seen, ∀ q', next q = some q' → q' = w.current ∨ q' ∈ w.seen

variable {w : Walk}

theorem fruitless_start (name : QName) : Fruitless next heads ⟨[], name⟩ :=
  ⟨fun _ h => absurd h List.not_mem_nil, fun _ h => absurd h List.not_mem_nil⟩

/-- One step of a walk that goes on. -/
theorem Fruitless.step (h : w.Fruitless next heads) (hhead : w.current ∉ heads) {name : QName}
    (hnext : next w.current = some name) : Fruitless next heads ⟨w.current :: w.seen, name⟩ where
  not_mem := List.forall_mem_cons.2 ⟨hhead, h.not_mem⟩
  leads := by
    refine List.forall_mem_cons.2 ⟨fun q' hq' => .inl (Option.some.inj (hq'.symm.trans hnext)), fun q hq q' hq' => ?_⟩
    rcases h.leads q hq q' hq' with rfl | hseen
    · exact .inr List.mem_cons_self
    · exact .inr (List.mem_cons_of_mem _ hseen)

/-- A walk that has come back to a name met before does not leave the names met before. -/
theorem Fruitless.mem_of_chain (h : w.Fruitless next heads) (hseen : w.current ∈ w.seen) {n : Nat} {q : QName}
    (hchain : chain next w.current n = some q) : q ∈ w.seen := by
  induction n generalizing q with
  | zero =>
    cases hchain
    exact hseen
  | succ n ih =>
    obtain ⟨p, hp, hnext⟩ := Option.bind_eq_some_iff.1 hchain
    rcases h.leads p (ih hp) q hnext with rfl | hq
    · exact hseen
    · exact hq

theorem Fruitless.not_meets (h : w.Fruitless next heads) (hseen : w.current ∈ w.seen) :
    ¬ Meets next heads w.current := fun ⟨_, _, hhead, hchain⟩ =>
  h.not_mem _ (h.mem_of_chain hseen hchain) hhead

/-- Of the names that lead on fewer are left after each turn, and the answer is right when the walk ends. -/
theorem answer?_of_fruitless {names : List QName} (hnames : ∀ {q q'}, next q = some q' → q ∈ names) {n : Nat}
    (h : w.Fruitless next heads) (hn : (names.filter (· ∉ w.seen)).length < n) :
    ∃ answer, w.answer? next heads n = some answer ∧ (answer = true ↔ Meets next heads w.current) := by
  induction n generalizing w with
  | zero => exact absurd hn (Nat.not_lt_zero _)
  | succ n ih =>
    unfold answer? turn
    by_cases hhead : w.current ∈ heads
    · rw [if_pos hhead]
      exact ⟨true, rfl, iff_of_true rfl (meets_of_mem hhead)⟩
    · rw [if_neg hhead]
      by_cases hseen : w.current ∈ w.seen
      · rw [if_pos hseen]
        exact ⟨false, rfl, iff_of_false Bool.false_ne_true (h.not_meets hseen)⟩
      · rw [if_neg hseen]
        cases hnext : next w.current with
        | none =>
          refine ⟨false, rfl, iff_of_false Bool.false_ne_true fun hmeets => ?_⟩
          obtain ⟨name, hname, -⟩ := (meets_iff_of_not_mem hhead).1 hmeets
          rw [hnext] at hname
          cases hname
        | some name =>
          have hfewer : (names.filter (· ∉ w.current :: w.seen)).length < (names.filter (· ∉ w.seen)).length := by
            have hsub : names.filter (· ∉ w.current :: w.seen) =
                (names.filter (· ∉ w.seen)).filter (· ≠ w.current) := by
              rw [List.filter_filter]
              refine List.filter_congr fun q _ => ?_
              simp [List.mem_cons]
            rw [hsub]
            exact List.length_filter_lt_length_iff_exists.2 ⟨w.current,
              List.mem_filter.2 ⟨hnames hnext, by simpa using hseen⟩, by simp⟩
          obtain ⟨answer, hanswer, hiff⟩ :=
            ih (h.step hhead hnext) (Nat.lt_of_lt_of_le hfewer (Nat.le_of_lt_succ hn))
          refine ⟨answer, hanswer, hiff.trans ?_⟩
          rw [meets_iff_of_not_mem hhead, hnext]
          exact ⟨fun hmeets => ⟨name, rfl, hmeets⟩, fun ⟨_, hname, hmeets⟩ => Option.some.inj hname ▸ hmeets⟩

end Walk

/-- A walk that takes its steps from unused names only comes to the same answer, if all names that lead on are
either unused or have been met. -/
theorem reaches_iff_of_fruitless {unused seen : List QName} {name : QName}
    (h : Walk.Fruitless next heads ⟨seen, name⟩)
    (hcovers : ∀ {q q'}, next q = some q' → q ∈ unused ∨ q ∈ seen) :
    reaches next heads unused name = true ↔ Meets next heads name := by
  fun_induction reaches next heads unused name generalizing seen with
  | case1 unused name hhead => exact iff_of_true rfl (meets_of_mem hhead)
  | case2 unused name hhead hunused name' hnext ih =>
    have hleft {q q' : QName} (hq : next q = some q') : q ∈ unused.erase name ∨ q ∈ name :: seen := by
      by_cases hname : q = name
      · exact .inr (hname ▸ List.mem_cons_self)
      · exact (hcovers hq).imp (List.mem_erase_of_ne hname).2 (List.mem_cons_of_mem _)
    rw [ih (h.step hhead hnext) hleft, meets_iff_of_not_mem hhead, hnext]
    exact ⟨fun hmeets => ⟨name', rfl, hmeets⟩, fun ⟨_, hname, hmeets⟩ => Option.some.inj hname ▸ hmeets⟩
  | case3 unused name hhead hunused hnext =>
    refine iff_of_false Bool.false_ne_true fun hmeets => ?_
    obtain ⟨name', hname, -⟩ := (meets_iff_of_not_mem hhead).1 hmeets
    rw [hnext] at hname
    cases hname
  | case4 unused name hhead hunused =>
    refine iff_of_false Bool.false_ne_true fun hmeets => ?_
    -- a name that leads on and is not unused has been met before
    obtain ⟨name', hname, -⟩ := (meets_iff_of_not_mem hhead).1 hmeets
    exact h.not_meets ((hcovers hname).resolve_left hunused) hmeets

/-- Whether a chain comes to a head is decided by a walk, with the names used up or with the names met. -/
theorem reaches_iff {names : List QName} (hnames : ∀ {q q'}, next q = some q' → q ∈ names) (name : QName) :
    reaches next heads names name = true ↔ Meets next heads name :=
  reaches_iff_of_fruitless (Walk.fruitless_start name) fun hq => .inl (hnames hq)

theorem Walk.answer?_eq_reaches {names : List QName} (hnames : ∀ {q q'}, next q = some q' → q ∈ names) (name : QName)
    {n : Nat} (hn : names.length < n) :
    Walk.answer? next heads n ⟨[], name⟩ = some (reaches next heads names name) := by
  have hstart : Walk.Fruitless next heads ⟨[], name⟩ := Walk.fruitless_start name
  obtain ⟨answer, hanswer, hiff⟩ := Walk.answer?_of_fruitless hnames hstart
    (Nat.lt_of_le_of_lt (List.length_filter_le _ _) hn)
  rw [hanswer, Option.some_inj, Bool.eq_iff_iff, hiff, reaches_iff hnames]

/-- A class apart from the note whether a dimension is typed. -/
def ConceptClass.untyped : ConceptClass → ConceptClass
  | dimension _ => dimension false
  | c => c

namespace Declarations

variable {ds : Declarations}

/-- The names whose substitution groups make the classes. -/
def classHeads : List QName := [⟨Vocabulary.dimensions, "hypercubeItem"⟩, ⟨Vocabulary.dimensions, "dimensionItem"⟩,
  ⟨Vocabulary.instanceDocument, "item"⟩, ⟨Vocabulary.instanceDocument, "tuple"⟩]

theorem mem_elementNames_of_group? {q q' : QName} (h : ds.group? q = some q') : q ∈ ds.elementNames := by
  obtain ⟨e, he, -⟩ := Option.bind_eq_some_iff.1 h
  exact ds.mem_elementNames he

theorem mem_typeNames_of_base? {q q' : QName} (h : ds.base? q = some q') : q ∈ ds.typeNames := by
  obtain ⟨t, ht, -⟩ := Option.bind_eq_some_iff.1 h
  exact ds.mem_typeNames ht

/-- An element belongs to the group of a head other than itself if the element that it may stand for does. -/
theorem substitutes_of_group? {name group head : QName} (hgroup : ds.group? name = some group) (hne : name ≠ head) :
    ds.substitutes name [head] = ds.substitutes group [head] := by
  have hhead : name ∉ [head] := by simpa using hne
  unfold substitutes
  rw [Bool.eq_iff_iff, reaches_iff mem_elementNames_of_group?, reaches_iff mem_elementNames_of_group?,
    meets_iff_of_not_mem hhead, hgroup]
  exact ⟨fun ⟨_, hname, hmeets⟩ => Option.some.inj hname ▸ hmeets, fun hmeets => ⟨group, rfl, hmeets⟩⟩

theorem classify_of_group? {name group : QName} {e g : Element} (he : ds.element name = some e)
    (hgroup : e.group = some group) (hg : ds.element group = some g) (hname : name ∉ classHeads) :
    (ds.classify name).untyped = (ds.classify group).untyped := by
  have hnext : ds.group? name = some group := by
    unfold group?
    rw [he]
    exact hgroup
  have hsame {head : QName} (hhead : head ∈ classHeads) : ds.substitutes name [head] = ds.substitutes group [head] :=
    substitutes_of_group? hnext fun heq => hname (heq ▸ hhead)
  unfold classify
  rw [he, hg]
  dsimp only
  rw [hsame (by simp [classHeads]), hsame (by simp [classHeads]), hsame (by simp [classHeads]),
    hsame (by simp [classHeads])]
  -- the flags of the two elements are all that may differ
  repeat' split
  all_goals rfl

/-- Whatever cycles the chains of substitution groups and of base types run into, a walk ends after at most one turn
for each declaration and one more, and tells whether one of the names of the chain is among the heads. So an element
that is none of the heads of the classes, and whose substitution group is a declared element, is of the class of
that element, but for the note whether a dimension is typed. -/
theorem walks_decide (ds : Declarations) :
    (∀ name heads,
      (∀ n, ds.elementNames.length < n →
        Walk.answer? ds.group? heads n ⟨[], name⟩ = some (ds.substitutes name heads)) ∧
      (ds.substitutes name heads = true ↔ ∃ n, ∃ h ∈ heads, chain ds.group? name n = some h)) ∧
    (∀ name bases,
      (∀ n, ds.typeNames.length < n → Walk.answer? ds.base? bases n ⟨[], name⟩ = some (ds.derives name bases)) ∧
      (ds.derives name bases = true ↔ ∃ n, ∃ b ∈ bases, chain ds.base? name n = some b)) ∧
    ∀ name group e, ds.element name = some e → e.group = some group → (ds.element group).isSome = true →
      name ∉ classHeads → (ds.classify name).untyped = (ds.classify group).untyped := by
  refine ⟨fun name heads => ⟨fun n hn => ?_, reaches_iff mem_elementNames_of_group? name⟩,
    fun name bases => ⟨fun n hn => ?_, reaches_iff mem_typeNames_of_base? name⟩,
    fun name group e he hgroup hdeclared hname => ?_⟩
  · exact Walk.answer?_eq_reaches mem_elementNames_of_group? name hn
  · exact Walk.answer?_eq_reaches mem_typeNames_of_base? name hn
  · obtain ⟨g, hg⟩ := Option.isSome_iff_exists.1 hdeclared
    exact classify_of_group? he hgroup hg hname

/-- A hypercube, an element in its substitution group, and two elements in the groups of each other. -/
def looped : Declarations :=
  ofLists [Sample.hypercube "h", Sample.element (Sample.name "h") "x", Sample.element (Sample.name "q") "p",
    Sample.element (Sample.name "p") "q"] [] []

/-- The element is a hypercube like the one that it may stand for. On the cycle a walk ends, with a head met there
or without one. -/
theorem walks_decide_looped :
    looped.element (Sample.name "x") = some (Sample.element (Sample.name "h") "x") ∧
      Sample.name "x" ∉ classHeads ∧ looped.elementNames.length < 5 ∧
      (looped.classify (Sample.name "x")).untyped = (looped.classify (Sample.name "h")).untyped ∧
      looped.classify (Sample.name "h") = .hypercube ∧
      Walk.answer? looped.group? [Sample.name "q"] 5 ⟨[], Sample.name "p"⟩ = some true ∧
      Walk.answer? looped.group? [Sample.name "x"] 5 ⟨[], Sample.name "p"⟩ = some false := by
  obtain ⟨hsubstitutes, -, hclass⟩ := walks_decide looped
  have hx : looped.element (Sample.name "x") = some (Sample.element (Sample.name "h") "x") := by decide
  have hnone : Sample.name "x" ∉ classHeads := by decide
  have hlength : looped.elementNames.length < 5 := by decide
  refine ⟨hx, hnone, hlength, hclass _ _ _ hx rfl (by decide) hnone, by decide +kernel, ?_, ?_⟩
  · rw [(hsubstitutes _ _).1 5 hlength]
    decide +kernel
  · rw [(hsubstitutes _ _).1 5 hlength]
    decide +kernel

end Declarations

end TaxonomySet
