import TaxonomySet.Decimal.Numeral
import TaxonomySet.Decimal.Shortest
import TaxonomySet.Diagnostic
import TaxonomySet.Link.Basic
import TaxonomySet.Markup.Node
import TaxonomySet.Role.Registry
import TaxonomySet.Text.Quoted

namespace TaxonomySet.ExtendedLink

open Markup

/-- Whether a flag attribute is set, blanks at its ends not counting. -/
def flagValue (value : String) : Bool := Text.trim value == "true" || Text.trim value == "1"

/-- The canonical form of a flag, none for the default. -/
def canonicalFlag? (value : String) (default : Bool) : Option String :=
  if flagValue value = default then none else some (if flagValue value then "true" else "false")

/-- The name of an attribute in Clark notation. -/
def attributeName (a : Attribute) : String :=
  match a.ns with
  | some ns => "\x7b" ++ ns ++ "\x7d" ++ a.localName
  | none => a.localName

/-- The canonical form of an attribute of an arc, given the order and the weight of the arc; none
if the attribute does not tell relationships apart or has its default value. The order of
calculation arcs is for display only. -/
def canonicalValue? (isCalculation : Bool) (order : Binary64) (weight : Option Binary64)
    (a : Attribute) : Option String :=
  if a.ns = some Vocabulary.xlink then none
  else if a.ns = none then
    match a.localName with
    | "use" | "priority" => none
    | "order" => if isCalculation || order == Binary64.one then none else some order.text
    | "weight" => weight.map Binary64.text
    | _ => some (Text.trim a.value)
  else if a.ns = some Vocabulary.dimensions then
    match a.localName with
    | "closed" => canonicalFlag? a.value false
    | "usable" => canonicalFlag? a.value true
    | _ => some (Text.trim a.value)
  else some (Text.trim a.value)

/-- The attributes of an arc that tell relationships apart. -/
def canonicalAttributes (isCalculation : Bool) (order : Binary64) (weight : Option Binary64)
    (as : List Attribute) : SortedMap String String :=
  .ofList <| as.filterMap fun a =>
    (canonicalValue? isCalculation order weight a).map fun value => (attributeName a, value)

/-- The priority of an arc; what is no integer of 32 bits is reported and counts as none. -/
def readPriority (location : String) (n : Node) : Reported Int32 :=
  match n.attr? "priority" with
  | none => .pure 0
  | some raw =>
    match Numeral.int32? (Text.trim raw) with
    | some p => .pure p
    | none => ⟨0, [(Diagnostic.warning .structural "xbrl.3.5.3.9:priority"
        ("invalid priority " ++ Text.quote raw ++ ", using 0")).withField "document" location]⟩

/-- A number in an attribute. -/
def numberAttr? (n : Node) (attr : String) : Option Binary64 :=
  (n.attr? attr).bind fun value => Numeral.number? (Text.trim value)

/-- The arc of an element, given its ends and its arcrole. -/
def arcOf (n : Node) (source target arcrole : String) (priority : Int32) : Arc :=
  let order := (numberAttr? n "order").getD Binary64.one
  let weight := numberAttr? n "weight"
  { element := n.name
    arcrole := arcrole
    source := source
    target := target
    priority := priority
    use := if (n.attr? "use").map Text.trim == some "prohibited" then .prohibited else .optional
    order := order
    weight := weight
    preferredLabel := n.attr? "preferredLabel"
    targetRole := n.attrIn? Vocabulary.dimensions "targetRole"
    closed := (n.attrIn? Vocabulary.dimensions "closed").map flagValue
    contextElement := (n.attrIn? Vocabulary.dimensions "contextElement").map Text.trim
    usable := (n.attrIn? Vocabulary.dimensions "usable").map flagValue
    attributes :=
      canonicalAttributes (n.name == ⟨Vocabulary.link, "calculationArc"⟩) order weight n.attributes }

/-- Reads an arc of a link whose locators and resources are known. It needs an arcrole that may be used on it, and
labels that stand for something anywhere in the link; otherwise it is reported and left out. -/
def readArc (registry : Registry) (location : String) (l : ExtendedLink) (n : Node) :
    Reported (Option Arc) :=
  match n.xlink? "from", n.xlink? "to", n.xlink? "arcrole" with
  | some source, some target, some arcrole =>
    if !registry.allowsArcrole arcrole n.name then
      .drop (((Diagnostic.error .conformance "xbrl.5.1.4:arcroleNotUsable"
        ("arcrole " ++ arcrole ++ " is not declared usable on " ++ n.name.clark)).withField
          "document" location).withField "arcrole" arcrole)
    else
      match [source, target].find? (!l.hasLabel ·) with
      | some label =>
        .drop (((Diagnostic.error .reference "xlink:arcLabelNotFound"
          ("arc endpoint label " ++ label ++ " is not defined in the link")).withField
            "document" location).withField "role" l.role)
      | none => (readPriority location n).map fun p => some (arcOf n source target arcrole p)
  | _, _, _ =>
    .drop ((Diagnostic.error .structural "xbrl.3.5.3.9:arcAttributes"
      (n.name.clark ++ " without xlink:from, xlink:to or xlink:arcrole")).withField
        "document" location)

/-- Reads a locator: its label and what it points to. -/
def readLocator (location : String) (n : Node) : Reported (Option (String × Href)) :=
  match n.xlink? "label", n.xlink? "href" with
  | some label, some href => .pure (some (label, Href.parse location href))
  | _, _ => .drop ((Diagnostic.error .structural "xbrl.3.5.3.7:locatorAttributes"
      "locator without xlink:label or xlink:href").withField "document" location)

/-- Reads a resource. -/
def readResource (location : String) (n : Node) : Reported (Option Resource) :=
  match n.xlink? "label" with
  | some label => .pure <| some {
      label := label
      element := n.name
      role := n.xlink? "role"
      lang := n.attrIn? Vocabulary.xml "lang"
      id := n.id?
      text := Text.trim n.text }
  | none => .drop ((Diagnostic.error .structural "xbrl.3.5.3.8:resourceLabel"
      "resource without xlink:label").withField "document" location)

/-- What a child of a link adds to the labels of the link. -/
def addEnds (location : String) (acc : Reported ExtendedLink) (n : Node) : Reported ExtendedLink :=
  match n.xlink? "type" with
  | some "locator" =>
    let r := readLocator location n
    ⟨match r.value with
      | some (label, href) =>
        { acc.value with locators := acc.value.locators.push label href }
      | none => acc.value, acc.diagnostics ++ r.diagnostics⟩
  | some "resource" =>
    let r := readResource location n
    ⟨match r.value with
      | some resource =>
        { acc.value with resources := acc.value.resources.push resource.label resource }
      | none => acc.value, acc.diagnostics ++ r.diagnostics⟩
  | _ => acc

/-- The report of an arc that repeats an earlier one at the same priority. -/
def duplicateArc (location : String) (l : ExtendedLink) (a : Arc) : Diagnostic :=
  ((Diagnostic.error .conformance "xbrl.3.5.3.9:duplicateArc"
    ("arcs " ++ a.source ++ " -> " ++ a.target ++ " (" ++ a.arcrole ++ ") duplicated at priority " ++
      toString a.priority.toInt)).withField "document" location).withField "role" l.role

/-- Whether a link has an arc between the same labels with the same arcrole and priority. -/
def hasArcLike (l : ExtendedLink) (a : Arc) : Bool :=
  (l.arcsBetween a.source a.target).any fun b => b.arcrole == a.arcrole && b.priority == a.priority

/-- Adds an arc to a link. One that repeats an earlier arc is kept and reported. -/
def addReadArc (location : String) (acc : Reported ExtendedLink) (r : Reported (Option Arc)) :
    Reported ExtendedLink :=
  match r.value with
  | none => ⟨acc.value, acc.diagnostics ++ r.diagnostics⟩
  | some a =>
    ⟨acc.value.addArc a, acc.diagnostics ++ r.diagnostics ++
      if acc.value.hasArcLike a then [duplicateArc location acc.value a] else []⟩

/-- The content of a link whose role is accepted. Labels may be declared behind the arcs that use
them, so the arcs are read last. -/
def readContent (registry : Registry) (location : String) (l : ExtendedLink) (children : List Node) :
    Reported ExtendedLink :=
  let ends := children.foldl (addEnds location) ⟨l, []⟩
  let arcs := (children.filter (·.xlink? "type" == some "arc")).map
    (readArc registry location ends.value)
  arcs.foldl (addReadArc location) ends

/-- Reads an extended link. The link needs a role that may be used on it; otherwise it is reported and left out. -/
def readLink (registry : Registry) (location : String) (n : Node) : Reported (Option ExtendedLink) :=
  match n.xlink? "role" with
  | none =>
    .drop ((Diagnostic.error .structural "xbrl.3.5.3:missingLinkRole"
      ("extended link " ++ n.name.clark ++ " has no xlink:role")).withField "document" location)
  | some role =>
    if registry.allowsRole role n.name then
      (readContent registry location
        { kind := .ofElement n.name, element := n.name, role := role, document := location }
        n.children).map some
    else
      .drop (((Diagnostic.error .conformance "xbrl.5.1.3:roleNotUsable"
        ("role " ++ role ++ " is not declared usable on " ++ n.name.clark)).withField
          "document" location).withField "role" role)

/-- The elements of a document that stand for extended links: the children of its linkbases. -/
def linkNodes (document : Node) : List Node :=
  (document.descendants.filter (·.isNamed Vocabulary.link "linkbase")).flatMap fun n =>
    n.children.filter (·.xlink? "type" == some "extended")

/-- Reads the extended links of a document, which is a linkbase or holds one. -/
def readAll (registry : Registry) (location : String) (document : Node) :
    Reported (List ExtendedLink) :=
  .collectSome ((linkNodes document).map (readLink registry location))

/-- Reads the extended links of a document that have a given role. -/
def readWithRole (registry : Registry) (location role : String) (document : Node) :
    Reported (List ExtendedLink) :=
  (readAll registry location document).map (·.filter (·.role == role))

end TaxonomySet.ExtendedLink
