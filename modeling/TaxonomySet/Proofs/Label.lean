import Mathlib
import TaxonomySet.Proofs.Order
import TaxonomySet.Proofs.Relationship.Network
import TaxonomySet.Proofs.Sample
import TaxonomySet.Proofs.Session.History
import TaxonomySet.Proofs.Text

namespace TaxonomySet

universe u v w

/-- What a search finds among the things that are there, each at a rank: one of the least rank, and nothing only if
there is nothing. Searches that are made one in the other rank what they find by the outer one first. -/
inductive FindsLeast {ρ : Type u} {β : Type v} [LE ρ] (P : ρ → β → Prop) : Option β → Prop
  | some (rank : ρ) {b : β} (h : P rank b) (hleast : ∀ rank' b', P rank' b' → rank ≤ rank') : FindsLeast P (some b)
  | none (h : ∀ rank b, ¬ P rank b) : FindsLeast P none

namespace FindsLeast

variable {α : Type w} {ρ : Type u} {β : Type v} {f : α → Option β}

theorem congr [LE ρ] {P Q : ρ → β → Prop} {found : Option β} (h : FindsLeast P found)
    (hPQ : ∀ rank b, P rank b ↔ Q rank b) : FindsLeast Q found := by
  cases h with
  | some rank hb hleast => exact .some rank ((hPQ _ _).1 hb) fun rank' b' h => hleast rank' b' ((hPQ _ _).2 h)
  | none hnone => exact .none fun rank b h => hnone rank b ((hPQ _ _).2 h)

theorem eq_none_iff [LE ρ] {P : ρ → β → Prop} {found : Option β} (h : FindsLeast P found) :
    found = .none ↔ ∀ rank b, ¬ P rank b := by
  cases h with
  | some rank hb hleast => exact iff_of_false nofun fun hnone => hnone rank _ hb
  | none hnone => exact iff_of_true rfl hnone

/-- There is one least rank. If there is one thing at each, that one is found. -/
theorem eq_some_iff [PartialOrder ρ] {P : ρ → β → Prop} {found : Option β} (h : FindsLeast P found)
    (hP : ∀ {rank b b'}, P rank b → P rank b' → b = b') {b : β} :
    found = .some b ↔ ∃ rank, P rank b ∧ ∀ rank' b', P rank' b' → rank ≤ rank' := by
  cases h with
  | none hnone => exact iff_of_false nofun fun ⟨rank, hb, _⟩ => hnone rank b hb
  | @some rank a ha hleast =>
    constructor
    · rintro ⟨⟩
      exact ⟨rank, ha, hleast⟩
    · rintro ⟨rank', hb, hleast'⟩
      obtain rfl : rank = rank' := le_antisymm (hleast _ _ hb) (hleast' _ _ ha)
      rw [hP ha hb]

/-- A search through a list ranks what it finds by its place. -/
theorem findSome?_place (f : α → Option β) (xs : List α) :
    FindsLeast (fun (i : Nat) b => ∃ a, xs[i]? = .some a ∧ f a = .some b) (xs.findSome? f) := by
  cases hfound : xs.findSome? f with
  | none =>
    refine .none fun i b ⟨a, ha, hb⟩ => ?_
    rw [List.findSome?_eq_none_iff.1 hfound a (List.mem_of_getElem? ha)] at hb
    cases hb
  | some b =>
    obtain ⟨before, a, after, rfl, hb, hnone⟩ := List.findSome?_eq_some_iff.1 hfound
    refine .some before.length ⟨a, by simp, hb⟩ fun j b' ⟨a', ha', hb'⟩ => ?_
    by_contra hlt
    rw [List.getElem?_append_left (Nat.lt_of_not_le hlt)] at ha'
    rw [hnone a' (List.mem_of_getElem? ha')] at hb'
    cases hb'

/-- If another search is made at each place of a list, the place comes first in the rank. -/
theorem findSome? [LE ρ] {P : α → ρ → β → Prop} (h : ∀ a, FindsLeast (P a) (f a)) (xs : List α) :
    FindsLeast (fun (rank : Nat ×ₗ ρ) b => ∃ a, xs[(ofLex rank).1]? = .some a ∧ P a (ofLex rank).2 b)
      (xs.findSome? f) := by
  have hfound {a : α} {rank : ρ} {b : β} (hb : P a rank b) : ∃ b', f a = .some b' :=
    Option.ne_none_iff_exists'.1 fun hnone => (h a).eq_none_iff.1 hnone rank b hb
  have hsearch := findSome?_place f xs
  generalize xs.findSome? f = found at hsearch
  cases hsearch with
  | none hnone =>
    refine .none fun rank b ⟨a, ha, hb⟩ => ?_
    obtain ⟨b', hb'⟩ := hfound hb
    exact hnone _ b' ⟨a, ha, hb'⟩
  | some i hb hleast =>
    obtain ⟨a, ha, hb⟩ := hb
    have hsome := h a
    rw [hb] at hsome
    cases hsome with
    | some rank hrank hleast' =>
      refine .some (toLex (i, rank)) ⟨a, ha, hrank⟩ fun rank' b' ⟨a', ha', hrank'⟩ => ?_
      obtain ⟨b'', hb''⟩ := hfound hrank'
      rw [Prod.Lex.le_iff]
      rcases Nat.lt_or_eq_of_le (hleast _ b'' ⟨a', ha', hb''⟩) with hlt | heq
      · exact .inl hlt
      · refine .inr ⟨heq, hleast' _ b' ?_⟩
        rw [← heq] at ha'
        obtain rfl : a = a' := Option.some.inj (ha.symm.trans ha')
        exact hrank'

end FindsLeast

namespace Label

/-- The forms of a language tag: all of it is the first, and what comes before its first hyphen is the second. Letters
count as lowercase. -/
inductive IsForm (tag : String) : Nat → String → Prop
  | full : IsForm tag 0 (Text.asciiLowercase (Text.trim tag))
  | primary {first rest : String} (h : Text.asciiLowercase (Text.trim tag) = first ++ "-" ++ rest)
    (hfirst : '-' ∉ first.toList) : IsForm tag 1 first

theorem isForm_iff {tag form : String} {i : Nat} : IsForm tag i form ↔ (languageForms tag)[i]? = some form := by
  constructor
  · rintro (_ | ⟨htag, hfirst⟩)
    · unfold languageForms
      dsimp only
      split <;> rfl
    · unfold languageForms
      dsimp only
      rw [(Text.cut?_eq_some_iff.2 ⟨htag, hfirst⟩ : Text.cut? '-' _ = some (form, _))]
      rfl
  · intro hform
    unfold languageForms at hform
    dsimp only at hform
    split at hform
    · rename_i first rest hcut
      obtain ⟨htag, hfirst⟩ := Text.cut?_eq_some_iff.1 hcut
      match i, hform with
      | 0, hform => cases hform; exact .full
      | 1, hform => cases hform; exact .primary htag hfirst
    · match i, hform with
      | 0, hform => cases hform; exact .full

/-- The candidate in place `i` is a label with a text. Its language is the form of the tag in place `form`, and its role
stands in place `role` among the roles. A label without a role is a standard one, and one without a language does not
fit. -/
def Fits (cs : List Relationship) (roles : List String) (tag : String) (form role i : Nat) (text : String) : Prop :=
  ∃ c r lang, cs[i]? = some c ∧ c.target = .resource r ∧ r.text = text ∧ r.lang = some lang ∧
    IsForm tag form (Text.asciiLowercase lang) ∧ roles[role]? = some (r.role.getD Vocabulary.labelRole)

/-- A text is that of the best label among candidates: a more specific form counts first, then an earlier role, then
an earlier place. -/
def IsBest (cs : List Relationship) (roles : List String) (tag text : String) : Prop :=
  ∃ form role i, Fits cs roles tag form role i text ∧ ∀ form' role' i' text', Fits cs roles tag form' role' i' text' →
    toLex (form, toLex (role, i)) ≤ toLex (form', toLex (role', i'))

/-- No candidate is a label in one of the roles and a form of the tag. -/
def NoneFits (cs : List Relationship) (roles : List String) (tag : String) : Prop :=
  ∀ form role i text, ¬ Fits cs roles tag form role i text

variable {cs : List Relationship} {roles : List String} {tag : String}

theorem bind_isFor_eq_some_iff {e : Endpoint} {role form text : String} :
    (e.resource?.bind fun r => if isFor role form r then some r.text else none) = some text ↔
      ∃ r lang, e = .resource r ∧ r.text = text ∧ r.lang = some lang ∧ Text.asciiLowercase lang = form ∧
        r.role.getD Vocabulary.labelRole = role := by
  cases e with
  | concept name => simp [Endpoint.resource?]
  | resource r =>
    simp only [Endpoint.resource?, Option.bind_some, Option.ite_none_right_eq_some, isFor, Bool.and_eq_true, beq_iff_eq,
      Option.map_eq_some_iff, Option.some.injEq, Endpoint.resource.injEq]
    constructor
    · rintro ⟨⟨hrole, lang, hlang, hform⟩, htext⟩
      exact ⟨r, lang, rfl, htext, hlang, hform, hrole⟩
    · rintro ⟨_, lang, rfl, htext, hlang, hform, hrole⟩
      exact ⟨⟨hrole, lang, hlang, hform⟩, htext⟩

/-- The search for the best label is one through the forms, for each through the roles, and for each of these through
the candidates. -/
theorem findsLeast_best? (cs : List Relationship) (roles : List String) (tag : String) :
    FindsLeast (fun (rank : Nat ×ₗ Nat ×ₗ Nat) text =>
      Fits cs roles tag (ofLex rank).1 (ofLex (ofLex rank).2).1 (ofLex (ofLex rank).2).2 text)
      (best? cs roles tag) := by
  have hcandidates (role form : String) := FindsLeast.findSome?_place
    (fun c : Relationship => c.target.resource?.bind fun r => if isFor role form r then some r.text else none) cs
  have hroles (form : String) := FindsLeast.findSome? (fun role => hcandidates role form) roles
  have hsearch := FindsLeast.findSome? hroles (languageForms tag)
  refine hsearch.congr fun rank text => ?_
  simp only [bind_isFor_eq_some_iff, ← isForm_iff]
  constructor
  · rintro ⟨_, hform, _, hrole, c, hc, r, lang, htarget, htext, hlang, rfl, rfl⟩
    exact ⟨c, r, lang, hc, htarget, htext, hlang, hform, hrole⟩
  · rintro ⟨c, r, lang, hc, htarget, htext, hlang, hform, hrole⟩
    exact ⟨_, hform, _, hrole, c, hc, r, lang, htarget, htext, hlang, rfl, rfl⟩

theorem best?_eq_some_iff {text : String} : best? cs roles tag = some text ↔ IsBest cs roles tag text := by
  refine (findsLeast_best? cs roles tag).eq_some_iff ?_ |>.trans ?_
  · rintro rank text text' ⟨c, r, lang, hc, htarget, rfl, -⟩ ⟨c', r', lang', hc', htarget', rfl, -⟩
    obtain rfl : c = c' := Option.some.inj (hc.symm.trans hc')
    rw [Endpoint.resource.inj (htarget.symm.trans htarget')]
  · constructor
    · rintro ⟨rank, hfits, hleast⟩
      exact ⟨_, _, _, hfits, fun form' role' i' text' h => hleast (toLex (form', toLex (role', i'))) text' h⟩
    · rintro ⟨form, role, i, hfits, hleast⟩
      exact ⟨toLex (form, toLex (role, i)), hfits, fun rank' text' h => hleast _ _ _ text' h⟩

theorem best?_eq_none_iff : best? cs roles tag = none ↔ NoneFits cs roles tag :=
  (findsLeast_best? cs roles tag).eq_none_iff.trans
    ⟨fun h form role i text => h (toLex (form, toLex (role, i))) text, fun h _ text => h _ _ _ text⟩

/-- The label relationships of a concept in the links of a role: concept labels, then element labels. -/
def labelling (n : Network) (concept : QName) (role : String) : List Relationship :=
  (n.relationships ⟨.label, role, Vocabulary.conceptLabel⟩ ++
    n.relationships ⟨.generic, role, Vocabulary.elementLabel⟩).filter (·.source == .concept concept)

/-- The label relationships to choose from: those of a role, or those of the standard role if there are none. -/
def choice (n : Network) (concept : QName) (role : String) : List Relationship :=
  if labelling n concept role = [] then labelling n concept Vocabulary.standardLinkRole else labelling n concept role

/-- Relationships by descending priority. Those of one priority are in the order that they had. -/
structure Ranked (cs rs : List Relationship) : Prop where
  descending : cs.Pairwise fun a b => b.arc.priority ≤ a.arc.priority
  stable : Alike (·.arc.priority) cs rs

/-- Relationships as their priorities compare, the higher one first. -/
def descending (a b : Relationship) : Ordering := compare b.arc.priority a.arc.priority

instance : Std.TransCmp descending :=
  inferInstanceAs (Std.TransCmp fun a b => compareOn (fun r : Relationship => r.arc.priority) b a)

theorem ranked_mergeSort (rs : List Relationship) :
    Ranked (rs.mergeSort fun a b => b.arc.priority ≤ a.arc.priority) rs := by
  have hle (a b : Relationship) : decide (b.arc.priority ≤ a.arc.priority) = (descending a b).isLE := by
    rw [Bool.eq_iff_iff, decide_eq_true_iff]
    exact Std.isLE_compare.symm
  have hsorted : (rs.mergeSort fun a b => (descending a b).isLE).Pairwise fun a b => (descending a b).isLE :=
    Order.pairwise_mergeSort rs
  simp only [hle]
  refine ⟨hsorted.imp Std.isLE_compare.1, fun priority => ?_⟩
  rw [Order.filter_mergeSort, List.mergeSort_of_pairwise]
  refine List.pairwise_filter.2 (List.pairwise_of_forall fun a b ha hb => ?_)
  have ha : a.arc.priority = priority := beq_iff_eq.1 ha
  have hb : b.arc.priority = priority := beq_iff_eq.1 hb
  rw [← hle, ha, hb]
  exact decide_eq_true (Int32.le_refl priority)

theorem ranked_candidates (resolve : Resolver) (links : List ExtendedLink) (concept : QName) (linkRole : String) :
    let n := (Network.ofLinks resolve links).value
    Ranked (candidates n concept linkRole) (choice n concept linkRole) := by
  intro n
  have hown (role : String) : inRole n concept role = labelling n concept role := by
    unfold inRole labelling
    rw [Network.childrenOf_ofLinks, Network.childrenOf_ofLinks, List.filter_append]
  have hchoice : choice n concept linkRole = if (inRole n concept linkRole).isEmpty then
      inRole n concept Vocabulary.standardLinkRole else inRole n concept linkRole := by
    unfold choice
    simp only [hown, List.isEmpty_iff]
  rw [hchoice]
  exact ranked_mergeSort _

end Label

namespace Session

/-- A session answers a question for a label with the best one. The candidates are the label relationships of the
concept in the role of links asked for, or in the standard one, by descending priority. If none of them fits, the answer
is the best standard label in the default language, and if there is none either, there is no answer. -/
theorem describe_best {s : Session} (h : s.Finalized) (k : LabelKey) :
    let cs := Label.candidates s.index.network k.concept k.linkRole
    Label.Ranked cs (Label.choice s.index.network k.concept k.linkRole) ∧
      (∀ text, (s.describe k).1 = some text ↔ Label.IsBest cs k.roles k.lang text ∨
        Label.NoneFits cs k.roles k.lang ∧ Label.IsBest cs [Vocabulary.labelRole] k.defaultLang text) ∧
      ((s.describe k).1 = none ↔
        Label.NoneFits cs k.roles k.lang ∧ Label.NoneFits cs [Vocabulary.labelRole] k.defaultLang) := by
  intro cs
  have hnetwork : s.index.network = (Network.ofLinks s.dts.resolve s.dts.links).value := by
    rw [h.settled.index_eq]
    rfl
  have hranked := Label.ranked_candidates s.dts.resolve s.dts.links k.concept k.linkRole
  rw [← hnetwork] at hranked
  have hanswer : (s.describe k).1 =
      (Label.best? cs k.roles k.lang).or (Label.best? cs [Vocabulary.labelRole] k.defaultLang) :=
    (h.recalls.describe k).1
  rw [hanswer]
  refine ⟨hranked, fun text => ?_, ?_⟩
  · rw [Option.or_eq_some_iff, Label.best?_eq_some_iff, Label.best?_eq_none_iff, Label.best?_eq_some_iff]
  · rw [Option.or_eq_none_iff, Label.best?_eq_none_iff, Label.best?_eq_none_iff]

end Session

namespace Sample

/-- A label in a language. -/
def label (role : Option String) (lang text : String) : Resource where
  label := "label"
  element := ⟨Vocabulary.link, "label"⟩
  role := role
  lang := some lang
  text := text

/-- An arc from a concept to its labels. -/
def labelArc (concept : String) : Arc :=
  { arc .domainMember concept "label" none with
    element := ⟨Vocabulary.link, "labelArc"⟩
    arcrole := Vocabulary.conceptLabel }

/-- A label link of the standard role, in which a concept has some labels. -/
def labelLink (concept : String) (labels : List Resource) : ExtendedLink :=
  .addArc {
    kind := .label
    element := ⟨Vocabulary.link, "labelLink"⟩
    role := Vocabulary.standardLinkRole
    document := "links.xml"
    locators := .ofList [(concept, [⟨"schema.xsd", some concept⟩])]
    resources := .ofList [("label", labels)] } (labelArc concept)

/-- The relationship of a concept to one of its labels. -/
def labelRelationship (concept : String) (label : Resource) : Relationship where
  source := .concept (name concept)
  target := .resource label
  arc := labelArc concept
  role := Vocabulary.standardLinkRole
  document := "links.xml"
  link := 0

end Sample

namespace Session

/-- A concept with two English labels. The British one has no role. -/
def labelled : Session :=
  Sample.session [Sample.item "c"] [Sample.labelLink "c" [Sample.label (some "terse") "en" "Rev.",
    Sample.label none "EN-gb" "Turnover"]]

/-- The question for a terse label in a language, or else for a standard one. -/
def terseKey (lang : String) : LabelKey where
  concept := Sample.name "c"
  lang := lang
  roles := ["terse", Vocabulary.labelRole]
  linkRole := "r"
  defaultLang := lang

/-- The candidates. They are of one priority, and a resource without a role comes before one with a role. -/
def labelledCandidates : List Relationship :=
  [Sample.labelRelationship "c" (Sample.label none "EN-gb" "Turnover"),
    Sample.labelRelationship "c" (Sample.label (some "terse") "en" "Rev.")]

set_option maxRecDepth 20000 in
theorem candidates_labelled (lang : String) :
    Label.candidates labelled.index.network (terseKey lang).concept (terseKey lang).linkRole = labelledCandidates := by
  change Label.candidates labelled.index.network (Sample.name "c") "r" = _
  unfold labelled
  cbv

/-- The language decides before the role. In another language there is no label. -/
theorem describe_labelled :
    labelled.Finalized ∧ (labelled.describe (terseKey "en-GB")).1 = some "Turnover" ∧
      (labelled.describe (terseKey "fr")).1 = none := by
  have hfinalized : labelled.Finalized := .finalize _
  have hbest : Label.best? labelledCandidates ["terse", Vocabulary.labelRole] "en-GB" = some "Turnover" := by
    have hforms : Label.languageForms "en-GB" = ["en-gb", "en"] := by decide +kernel
    rw [Label.best?, hforms]
    decide +kernel
  have hnone : Label.best? labelledCandidates ["terse", Vocabulary.labelRole] "fr" = none ∧
      Label.best? labelledCandidates [Vocabulary.labelRole] "fr" = none := by
    decide +kernel
  obtain ⟨-, hsome, -⟩ := describe_best hfinalized (terseKey "en-GB")
  obtain ⟨-, -, hmissing⟩ := describe_best hfinalized (terseKey "fr")
  rw [candidates_labelled] at hsome hmissing
  exact ⟨hfinalized, (hsome "Turnover").2 (.inl (Label.best?_eq_some_iff.1 hbest)),
    hmissing.2 ⟨Label.best?_eq_none_iff.1 hnone.1, Label.best?_eq_none_iff.1 hnone.2⟩⟩

end Session

end TaxonomySet
