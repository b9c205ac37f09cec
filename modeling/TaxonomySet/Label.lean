import TaxonomySet.Relationship.Network
import TaxonomySet.Text.Blank
import TaxonomySet.Text.Lowercase

namespace TaxonomySet

/-- What a label is asked for. -/
structure LabelKey where
  concept : QName
  lang : String
  /-- The roles of labels, the most preferred first. -/
  roles : List String
  linkRole : String
  defaultLang : String
deriving DecidableEq, Repr

namespace LabelKey

/-- The question for the standard label. -/
def standard (concept : QName) (lang defaultLang : String) : LabelKey where
  concept := concept
  lang := lang
  roles := [Vocabulary.labelRole]
  linkRole := Vocabulary.standardLinkRole
  defaultLang := defaultLang

end LabelKey

namespace Label

/-- The languages that a language tag stands for: the full one, then the primary one. -/
def languageForms (lang : String) : List String :=
  let full := Text.asciiLowercase (Text.trim lang)
  match Text.cut? '-' full with
  | some (primary, _) => [full, primary]
  | none => [full]

/-- The label relationships of a concept in the links of a role. -/
def inRole (n : Network) (concept : QName) (linkRole : String) : List Relationship :=
  n.childrenOf ⟨.label, linkRole, Vocabulary.conceptLabel⟩ concept ++
    n.childrenOf ⟨.generic, linkRole, Vocabulary.elementLabel⟩ concept

/-- The label relationships to choose from, those of higher priority first. The standard role stands
in for a role without any. -/
def candidates (n : Network) (concept : QName) (linkRole : String) : List Relationship :=
  let own := inRole n concept linkRole
  let found := if own.isEmpty then inRole n concept Vocabulary.standardLinkRole else own
  found.mergeSort fun a b => b.arc.priority ≤ a.arc.priority

/-- Whether a resource is a label of a role in a language. One without a role is a standard label;
one without a language is in none. -/
def isFor (role lang : String) (r : Resource) : Bool :=
  r.role.getD Vocabulary.labelRole == role && r.lang.map Text.asciiLowercase == some lang

/-- The text of the first candidate that is a label of a role in a language. -/
def textFor? (cs : List Relationship) (role lang : String) : Option String :=
  cs.findSome? fun c => c.target.resource?.bind fun r => if isFor role lang r then some r.text else none

/-- The text of the best label in one of the roles. The language counts first, then the role, then the order of the
candidates. -/
def best? (cs : List Relationship) (roles : List String) (lang : String) : Option String :=
  (languageForms lang).findSome? fun form => roles.findSome? fun role => textFor? cs role form

/-- The answer to a question for a label. If no label fits, the standard label in a default language is taken. -/
def describe (n : Network) (k : LabelKey) : Option String :=
  let cs := candidates n k.concept k.linkRole
  (best? cs k.roles k.lang).or (best? cs [Vocabulary.labelRole] k.defaultLang)

/-- The role of label that the presentation of a concept below another prefers. -/
def preferred? (n : Network) (parent child : QName) (role : String) : Option String :=
  ((n.childrenOf ⟨.presentation, role, Vocabulary.parentChild⟩ parent).find? fun r =>
    r.target.concept? == some child).bind (·.arc.preferredLabel)

end Label

end TaxonomySet
