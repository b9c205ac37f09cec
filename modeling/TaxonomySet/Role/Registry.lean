import TaxonomySet.Diagnostic
import TaxonomySet.Role.UsedOn
import TaxonomySet.Text.Blank

namespace TaxonomySet

/-- Which cycles of relationships an arcrole allows. -/
inductive Cycles where
  | none
  | undirected
  | any
deriving DecidableEq, Repr

namespace Cycles

/-- The rule that a word names. -/
def ofWord? (word : String) : Option Cycles :=
  match Text.trim word with
  | "none" => some .none
  | "undirected" => some .undirected
  | "any" => some .any
  | _ => Option.none

/-- The word for a rule. -/
def text : Cycles → String
  | none => "none"
  | undirected => "undirected"
  | any => "any"

/-- Whether a node may be met again along one path. -/
def allowsDirected (c : Cycles) : Bool := c == any

end Cycles

/-- The declaration of a role. -/
structure RoleType where
  uri : String
  id : Option String := none
  definition : Option String := none
  usedOn : UsedOn
  document : String
deriving DecidableEq

/-- The declaration of an arcrole. -/
structure ArcroleType where
  uri : String
  id : Option String := none
  definition : Option String := none
  usedOn : UsedOn
  cycles : Cycles
  document : String
deriving DecidableEq

/-- Why a declaration does not go with an earlier one of the same URI. -/
inductive RoleConflict where
  | role (uri existing document : String)
  | arcrole (uri existing document : String)
  | cycles (uri existing document : String) (expected found : Cycles)
deriving DecidableEq, Repr

namespace RoleConflict

/-- The code that a conflict is reported under. -/
def code : RoleConflict → String
  | role .. => "xbrl.5.1.3:roleTypeRedefinition"
  | arcrole .. | cycles .. => "xbrl.5.1.4:arcroleTypeRedefinition"

/-- The wording of a conflict. -/
def message : RoleConflict → String
  | role uri existing document =>
    "role " ++ uri ++ " redeclared in " ++ document ++ " with a used-on set incompatible with " ++
      existing
  | arcrole uri existing document =>
    "arcrole " ++ uri ++ " redeclared in " ++ document ++ " with a used-on set incompatible with " ++
      existing
  | cycles uri existing document expected found =>
    "arcrole " ++ uri ++ " redeclared in " ++ document ++ " with cyclesAllowed=" ++ found.text ++ ", " ++
      existing ++ " declared " ++ expected.text

/-- The URI declared twice. -/
def uri : RoleConflict → String
  | role uri .. | arcrole uri .. | cycles uri .. => uri

/-- The document of the later declaration. -/
def document : RoleConflict → String
  | role _ _ document | arcrole _ _ document | cycles _ _ document _ _ => document

/-- The conflict as a diagnostic. -/
def diagnostic (c : RoleConflict) : Diagnostic :=
  ((Diagnostic.error .conformance c.code c.message).withField "uri" c.uri).withField "document"
    c.document

end RoleConflict

/-- The arcroles that need no declaration, each with the arc it is used on and its rule on cycles. -/
def standardArcroles : List (String × QName × Cycles) := [
  (Vocabulary.parentChild, ⟨Vocabulary.link, "presentationArc"⟩, .undirected),
  (Vocabulary.summationItem, ⟨Vocabulary.link, "calculationArc"⟩, .any),
  (Vocabulary.generalSpecial, ⟨Vocabulary.link, "definitionArc"⟩, .undirected),
  (Vocabulary.essenceAlias, ⟨Vocabulary.link, "definitionArc"⟩, .undirected),
  (Vocabulary.similarTuples, ⟨Vocabulary.link, "definitionArc"⟩, .any),
  (Vocabulary.requiresElement, ⟨Vocabulary.link, "definitionArc"⟩, .any),
  (Vocabulary.conceptLabel, ⟨Vocabulary.link, "labelArc"⟩, .none),
  (Vocabulary.conceptReference, ⟨Vocabulary.link, "referenceArc"⟩, .none),
  (Vocabulary.factFootnote, ⟨Vocabulary.link, "footnoteArc"⟩, .none),
  (Vocabulary.elementLabel, ⟨Vocabulary.genericLink, "arc"⟩, .none),
  (Vocabulary.all, ⟨Vocabulary.link, "definitionArc"⟩, .undirected),
  (Vocabulary.notAll, ⟨Vocabulary.link, "definitionArc"⟩, .undirected),
  (Vocabulary.hypercubeDimension, ⟨Vocabulary.link, "definitionArc"⟩, .none),
  (Vocabulary.dimensionDomain, ⟨Vocabulary.link, "definitionArc"⟩, .none),
  (Vocabulary.domainMember, ⟨Vocabulary.link, "definitionArc"⟩, .undirected),
  (Vocabulary.dimensionDefault, ⟨Vocabulary.link, "definitionArc"⟩, .none)]

/-- The declarations of roles and arcroles by URI. A URI may be declared again as long as the sets of elements that it
is used on nest; their union is kept then. An arcrole must also keep its rule on cycles. -/
structure Registry where
  roles : SortedMap String RoleType := ∅
  arcroles : SortedMap String ArcroleType := ∅
deriving DecidableEq

namespace Registry

instance : Inhabited Registry := ⟨{}⟩

/-- Adds the declaration of a role. A later one adds its elements and, if there was none, its
definition. -/
def addRole (r : Registry) (role : RoleType) : Except RoleConflict Registry :=
  match r.roles.get? role.uri with
  | none => .ok { r with roles := r.roles.insert role.uri role }
  | some old =>
    if old.usedOn.nests role.usedOn then
      let merged := { old with
        usedOn := old.usedOn.union role.usedOn
        definition := old.definition.or role.definition }
      .ok { r with roles := r.roles.insert role.uri merged }
    else .error (.role role.uri old.document role.document)

/-- Adds the declaration of an arcrole. -/
def addArcrole (r : Registry) (arcrole : ArcroleType) : Except RoleConflict Registry :=
  match r.arcroles.get? arcrole.uri with
  | none => .ok { r with arcroles := r.arcroles.insert arcrole.uri arcrole }
  | some old =>
    if old.cycles ≠ arcrole.cycles then
      .error (.cycles arcrole.uri old.document arcrole.document old.cycles arcrole.cycles)
    else if old.usedOn.nests arcrole.usedOn then
      let merged := { old with
        usedOn := old.usedOn.union arcrole.usedOn
        definition := old.definition.or arcrole.definition }
      .ok { r with arcroles := r.arcroles.insert arcrole.uri merged }
    else .error (.arcrole arcrole.uri old.document arcrole.document)

/-- Adds the declarations that go with the earlier ones, and reports the others. -/
def addAll (r : Registry) (roles : List RoleType) (arcroles : List ArcroleType) :
    Reported Registry :=
  let withRoles := roles.foldl (fun (acc : Reported Registry) role =>
    match acc.value.addRole role with
    | .ok r => ⟨r, acc.diagnostics⟩
    | .error c => ⟨acc.value, acc.diagnostics ++ [c.diagnostic]⟩) ⟨r, []⟩
  arcroles.foldl (fun (acc : Reported Registry) arcrole =>
    match acc.value.addArcrole arcrole with
    | .ok r => ⟨r, acc.diagnostics⟩
    | .error c => ⟨acc.value, acc.diagnostics ++ [c.diagnostic]⟩) withRoles

/-- The roles declared for an element. -/
def rolesUsedOn (r : Registry) (element : QName) : List RoleType :=
  r.roles.values.filter (·.usedOn.contains element)

/-- Whether links of an element may have a role. Standard roles are free for all. -/
def allowsRole (r : Registry) (uri : String) (element : QName) : Bool :=
  Vocabulary.isStandardRole uri || (r.roles.get? uri).any (·.usedOn.contains element)

/-- Whether arcs of an element may have an arcrole. A declaration takes the place of what holds
without one. -/
def allowsArcrole (r : Registry) (uri : String) (element : QName) : Bool :=
  match r.arcroles.get? uri with
  | some arcrole => arcrole.usedOn.contains element
  | none => (standardArcroles.lookup uri).any (·.1 == element)

/-- The rule of an arcrole on cycles; one that is not known allows none. -/
def cyclesOf (r : Registry) (uri : String) : Cycles :=
  match r.arcroles.get? uri with
  | some arcrole => arcrole.cycles
  | none => ((standardArcroles.lookup uri).map (·.2)).getD .none

end Registry

end TaxonomySet
