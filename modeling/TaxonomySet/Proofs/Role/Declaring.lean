import Mathlib.Data.List.Induction
import TaxonomySet.Proofs.Role.Extension

namespace TaxonomySet

/-- A declaration of a role or of an arcrole. -/
inductive Declaration where
  | role (d : RoleType)
  | arcrole (d : ArcroleType)

/-- What a declaration is about. Roles and arcroles of one URI have nothing to do with each other. -/
inductive Subject where
  | role (uri : String)
  | arcrole (uri : String)
deriving DecidableEq

namespace Declaration

/-- The role or arcrole that is declared. -/
def subject : Declaration → Subject
  | role d => .role d.uri
  | arcrole d => .arcrole d.uri

/-- What is declared of it: the elements that it is used on, and of an arcrole the cycles that are allowed. -/
def rule : Declaration → UsedOn × Option Cycles
  | role d => (d.usedOn, none)
  | arcrole d => (d.usedOn, some d.cycles)

end Declaration

namespace Registry

/-- Adds a declaration. -/
def declare (r : Registry) : Declaration → Except RoleConflict Registry
  | .role d => r.addRole d
  | .arcrole d => r.addArcrole d

/-- The registry after a declaration, accepted or not. -/
def declared (r : Registry) (d : Declaration) : Registry := (r.declare d).toOption.getD r

/-- The registry after a list of declarations. -/
def after (ds : List Declaration) : Registry := ds.foldl declared {}

/-- What is kept of a role or arcrole. -/
def rule? (r : Registry) : Subject → Option (UsedOn × Option Cycles)
  | .role uri => (r.roles.get? uri).map fun d => (d.usedOn, none)
  | .arcrole uri => (r.arcroles.get? uri).map fun d => (d.usedOn, some d.cycles)

/-- Whether two registries answer alike about a role or arcrole. -/
def AnswersAs (s r : Registry) : Subject → Prop
  | .role uri => s.roles.get? uri = r.roles.get? uri ∧ ∀ element, s.allowsRole uri element = r.allowsRole uri element
  | .arcrole uri => s.arcroles.get? uri = r.arcroles.get? uri ∧
    (∀ element, s.allowsArcrole uri element = r.allowsArcrole uri element) ∧ s.cyclesOf uri = r.cyclesOf uri

/-- Whether a declaration is one of a list and was accepted in its place. -/
def Accepted (ds : List Declaration) (d : Declaration) : Prop :=
  ∃ before rest s, ds = before ++ d :: rest ∧ (after before).declare d = .ok s

variable {r s : Registry}

theorem addRole_eq_ok_iff {d : RoleType} :
    r.addRole d = .ok s ↔ (∀ a, r.roles.get? d.uri = some a → Compatible a.rule d.rule) ∧
      s = { r with roles := r.roles.update RoleType.merged (·.uri) d } := by
  rw [← r.withRole_eq d]
  unfold withRole addRole
  cases r.roles.get? d.uri with
  | none => simp [eq_comm]
  | some old =>
    have hfits : (∀ a, some old = some a → Compatible a.rule d.rule) ↔ old.usedOn.nests d.usedOn = true := by
      simp [Compatible, RoleType.rule]
    rw [hfits]
    by_cases hnests : old.usedOn.nests d.usedOn = true <;> simp [hnests, eq_comm]

theorem addArcrole_eq_ok_iff {d : ArcroleType} :
    r.addArcrole d = .ok s ↔ (∀ a, r.arcroles.get? d.uri = some a → Compatible a.rule d.rule) ∧
      s = { r with arcroles := r.arcroles.update ArcroleType.merged (·.uri) d } := by
  rw [← r.withArcrole_eq d]
  unfold withArcrole addArcrole
  cases r.arcroles.get? d.uri with
  | none => simp [eq_comm]
  | some old =>
    have hfits : (∀ a, some old = some a → Compatible a.rule d.rule) ↔
        old.usedOn.nests d.usedOn = true ∧ old.cycles = d.cycles := by
      simp [Compatible, ArcroleType.rule]
    rw [hfits]
    by_cases hcycles : old.cycles = d.cycles
    · by_cases hnests : old.usedOn.nests d.usedOn = true <;> simp [hcycles, hnests, eq_comm]
    · simp [hcycles]

theorem declared_of_ok {d : Declaration} (h : r.declare d = .ok s) : r.declared d = s := by
  unfold declared
  rw [h]
  rfl

theorem declared_of_error {d : Declaration} {c : RoleConflict} (h : r.declare d = .error c) : r.declared d = r := by
  unfold declared
  rw [h]
  rfl

/-- Exactly the declarations are accepted that do not contradict what is kept. -/
theorem exists_declare_iff {d : Declaration} :
    (∃ s, r.declare d = .ok s) ↔ ∀ u, r.rule? d.subject = some u → Compatible u d.rule := by
  have hmap {α : Type} {kept : Option α} {rule : α → UsedOn × Option Cycles} :
      (∀ u, kept.map rule = some u → Compatible u d.rule) ↔ ∀ a, kept = some a → Compatible (rule a) d.rule := by
    cases kept <;> simp
  cases d with
  | role d =>
    refine Iff.trans ?_ hmap.symm
    refine ⟨fun ⟨s, hs⟩ a ha => ⟨((addRole_eq_ok_iff.1 hs).1 a ha).1, rfl⟩, fun h => ?_⟩
    exact ⟨_, addRole_eq_ok_iff.2 ⟨fun a ha => ⟨(h a ha).1, rfl⟩, rfl⟩⟩
  | arcrole d =>
    refine Iff.trans ?_ hmap.symm
    refine ⟨fun ⟨s, hs⟩ a ha => ?_, fun h => ?_⟩
    · obtain ⟨hnests, hcycles⟩ := (addArcrole_eq_ok_iff.1 hs).1 a ha
      exact ⟨hnests, congrArg some hcycles⟩
    · exact ⟨_, addArcrole_eq_ok_iff.2 ⟨fun a ha => ⟨(h a ha).1, Option.some.inj (h a ha).2⟩, rfl⟩⟩

/-- What is kept of the subject of an accepted declaration: its elements and those from before. -/
theorem rule?_of_declare {d : Declaration} (h : r.declare d = .ok s) :
    s.rule? d.subject = some (((r.rule? d.subject).elim d.rule.1 fun u => u.1.union d.rule.1), d.rule.2) := by
  cases d with
  | role d =>
    obtain ⟨hcompatible, rfl⟩ := addRole_eq_ok_iff.1 h
    unfold rule? Declaration.subject Declaration.rule
    dsimp only
    rw [SortedMap.get?_update_self]
    cases hget : r.roles.get? d.uri with
    | none => rfl
    | some a =>
      obtain ⟨b, hb, hrule⟩ := RoleType.merges.later (hcompatible a hget)
      rw [hb]
      exact congrArg (fun u : UsedOn × Unit => some (u.1, none)) hrule
  | arcrole d =>
    obtain ⟨hcompatible, rfl⟩ := addArcrole_eq_ok_iff.1 h
    unfold rule? Declaration.subject Declaration.rule
    dsimp only
    rw [SortedMap.get?_update_self]
    cases hget : r.arcroles.get? d.uri with
    | none => rfl
    | some a =>
      obtain ⟨b, hb, hrule⟩ := ArcroleType.merges.later (hcompatible a hget)
      have hcycles : a.cycles = d.cycles := (hcompatible a hget).2
      rw [hb, ← hcycles]
      exact congrArg (fun u : UsedOn × Cycles => some (u.1, some u.2)) hrule

/-- An accepted declaration changes no answer about anything else. -/
theorem answersAs_of_declare {d : Declaration} (h : r.declare d = .ok s) {k : Subject} (hk : k ≠ d.subject) :
    s.AnswersAs r k := by
  cases d with
  | role d =>
    obtain ⟨-, rfl⟩ := addRole_eq_ok_iff.1 h
    cases k with
    | role uri =>
      have huri : uri ≠ d.uri := fun heq => hk (congrArg Subject.role heq)
      have hget := SortedMap.get?_update_of_ne RoleType.merged r.roles huri
      refine ⟨hget, fun element => ?_⟩
      unfold allowsRole
      rw [hget]
    | arcrole uri => exact ⟨rfl, fun _ => rfl, rfl⟩
  | arcrole d =>
    obtain ⟨-, rfl⟩ := addArcrole_eq_ok_iff.1 h
    cases k with
    | role uri => exact ⟨rfl, fun _ => rfl⟩
    | arcrole uri =>
      have huri : uri ≠ d.uri := fun heq => hk (congrArg Subject.arcrole heq)
      have hget := SortedMap.get?_update_of_ne ArcroleType.merged r.arcroles huri
      refine ⟨hget, fun element => ?_, ?_⟩
      · unfold allowsArcrole
        rw [hget]
      · unfold cyclesOf
        rw [hget]

theorem extends_declared (r : Registry) (d : Declaration) : (r.declared d).Extends r := by
  cases d with
  | role d =>
    have heq : r.declared (.role d) = r.withRole d := by
      unfold declared declare withRole
      dsimp only
      cases r.addRole d <;> rfl
    exact heq ▸ r.extends_withRole d
  | arcrole d =>
    have heq : r.declared (.arcrole d) = r.withArcrole d := by
      unfold declared declare withArcrole
      dsimp only
      cases r.addArcrole d <;> rfl
    exact heq ▸ r.extends_withArcrole d

theorem after_concat (ds : List Declaration) (d : Declaration) : after (ds ++ [d]) = (after ds).declared d :=
  List.foldl_concat _ _ _ _

theorem accepted_concat {ds : List Declaration} {d e : Declaration} :
    Accepted (ds ++ [d]) e ↔ Accepted ds e ∨ e = d ∧ ∃ s, (after ds).declare d = .ok s := by
  constructor
  · rintro ⟨before, rest, s, hsplit, hs⟩
    rcases List.eq_nil_or_concat' rest with rfl | ⟨rest, x, rfl⟩
    · obtain ⟨rfl, hd⟩ := List.append_inj' hsplit rfl
      cases hd
      exact .inr ⟨rfl, s, hs⟩
    · rw [← List.cons_append, ← List.append_assoc] at hsplit
      exact .inl ⟨before, rest, s, (List.append_inj' hsplit rfl).1, hs⟩
  · rintro (⟨before, rest, s, rfl, hs⟩ | ⟨rfl, s, hs⟩)
    · exact ⟨before, rest ++ [d], s, by simp, hs⟩
    · exact ⟨ds, [], s, rfl, hs⟩

/-- What is kept after a list of declarations is what the accepted ones declare. By induction on the list; a
declaration that is not accepted leaves both as they are. -/
theorem keeps_after (ds : List Declaration) :
    (after ds).Keeps (fun d => Accepted ds (.role d)) fun d => Accepted ds (.arcrole d) := by
  induction ds using List.reverseRecOn with
  | nil =>
    have hnone (d : Declaration) : False ↔ Accepted [] d := ⟨nofun, fun ⟨before, _, _, h, _⟩ => by
      cases before <;> cases h⟩
    exact Keeps.empty.congr (fun d => (hnone (.role d)).symm) fun d => (hnone (.arcrole d)).symm
  | append_singleton ds d ih =>
    rw [after_concat]
    cases hd : (after ds).declare d with
    | error c =>
      rw [declared_of_error hd]
      refine ih.congr (fun e => ?_) fun e => ?_ <;> rw [accepted_concat, hd] <;> simp
    | ok s =>
      rw [declared_of_ok hd]
      cases d with
      | role d =>
        obtain ⟨hcompatible, rfl⟩ := addRole_eq_ok_iff.1 hd
        refine ⟨(ih.roles.update RoleType.merges hcompatible).congr fun e => ?_, ih.arcroles.congr fun e => ?_⟩ <;>
          rw [accepted_concat, hd] <;> simp [or_comm]
      | arcrole d =>
        obtain ⟨hcompatible, rfl⟩ := addArcrole_eq_ok_iff.1 hd
        refine ⟨ih.roles.congr fun e => ?_, (ih.arcroles.update ArcroleType.merges hcompatible).congr fun e => ?_⟩ <;>
          rw [accepted_concat, hd] <;> simp [or_comm]

theorem exists_accepted_of_rule? {ds : List Declaration} {k : Subject} {u : UsedOn × Option Cycles}
    (h : (after ds).rule? k = some u) : ∃ e, Accepted ds e ∧ e.subject = k ∧ e.rule = u := by
  cases k with
  | role uri =>
    obtain ⟨a, ha, rfl⟩ := Option.map_eq_some_iff.1 h
    obtain ⟨e, he, huri, hrule⟩ := (keeps_after ds).roles.declared ha
    exact ⟨.role e, he, congrArg Subject.role huri, congrArg (fun u : UsedOn × Unit => (u.1, none)) hrule⟩
  | arcrole uri =>
    obtain ⟨a, ha, rfl⟩ := Option.map_eq_some_iff.1 h
    obtain ⟨e, he, huri, hrule⟩ := (keeps_after ds).arcroles.declared ha
    exact ⟨.arcrole e, he, congrArg Subject.arcrole huri, congrArg (fun u : UsedOn × Cycles => (u.1, some u.2)) hrule⟩

theorem cyclesOf_of_accepted {ds : List Declaration} {a : ArcroleType} (h : Accepted ds (.arcrole a)) :
    (after ds).cyclesOf a.uri = a.cycles := by
  obtain ⟨b, hb, -, hcycles⟩ := (keeps_after ds).arcroles.covers h
  unfold cyclesOf
  rw [hb]
  exact hcycles

theorem Accepted.append {ds : List Declaration} {d : Declaration} (h : Accepted ds d) (more : List Declaration) :
    Accepted (ds ++ more) d := by
  obtain ⟨before, rest, s, rfl, hs⟩ := h
  exact ⟨before, rest ++ more, s, by simp, hs⟩

theorem extends_after_append (ds more : List Declaration) : (after (ds ++ more)).Extends (after ds) := by
  have happend : after (ds ++ more) = more.foldl declared (after ds) := List.foldl_append
  rw [happend]
  exact List.foldlRecOn (motive := fun s : Registry => s.Extends (after ds)) _ _ (.refl _)
    fun s hs d _ => (s.extends_declared d).trans hs

/-- Declarations made one after another, in any number and order. One is accepted exactly if it does not contradict
what is kept of its subject. One that is not changes nothing; one that is changes no answer about anything else, and
what is kept of its subject has its elements in addition. What is kept says what some accepted declaration says by
itself. The rule on cycles stays that of every accepted declaration, and a role that may be used stays usable. -/
theorem declare_after (ds : List Declaration) (d : Declaration) :
    ((∃ s, (after ds).declare d = .ok s) ↔
      ∀ u, (after ds).rule? d.subject = some u → Compatible u d.rule) ∧
    (∀ c, (after ds).declare d = .error c → after (ds ++ [d]) = after ds) ∧
    (∀ s, (after ds).declare d = .ok s → after (ds ++ [d]) = s ∧ (∀ k, k ≠ d.subject → s.AnswersAs (after ds) k) ∧
      s.rule? d.subject =
        some ((((after ds).rule? d.subject).elim d.rule.1 fun u => u.1.union d.rule.1), d.rule.2)) ∧
    (∀ k u, (after ds).rule? k = some u → ∃ e, Accepted ds e ∧ e.subject = k ∧ e.rule = u) ∧
    (∀ a, Accepted ds (.arcrole a) → ∀ more, (after (ds ++ more)).cyclesOf a.uri = a.cycles) ∧
    ∀ uri element, (after ds).allowsRole uri element = true →
      ∀ more, (after (ds ++ more)).allowsRole uri element = true := by
  refine ⟨exists_declare_iff, fun c hc => ?_, fun s hs => ⟨?_, fun k hk => ?_, ?_⟩, fun k u hu => ?_,
    fun a ha more => ?_, fun uri element hallows more => ?_⟩
  · rw [after_concat, declared_of_error hc]
  · rw [after_concat, declared_of_ok hs]
  · exact answersAs_of_declare hs hk
  · exact rule?_of_declare hs
  · exact exists_accepted_of_rule? hu
  · exact cyclesOf_of_accepted (ha.append more)
  · exact (extends_after_append ds more).allowsRole hallows

end Registry

end TaxonomySet
