import TaxonomySet.Fault
import TaxonomySet.Markup.Event
import TaxonomySet.Markup.Node
import TaxonomySet.Text.Utf8

namespace TaxonomySet.Markup

/-- The declarations among the attributes of a tag, by prefix. -/
def declarations (attributes : List (String × String)) : List (String × String) :=
  attributes.filterMap fun a =>
    if a.1 = "xmlns" then some ("", a.2) else (Text.afterStart? "xmlns:" a.1).map fun p => (p, a.2)

/-- Whether an attribute declares a namespace. -/
def isDeclaration (key : String) : Bool := key == "xmlns" || Text.startsWith "xmlns:" key

/-- An attribute with its prefix resolved; one without a prefix is in no namespace, and so is one
whose prefix has none. -/
def Attribute.ofWritten (scope : Scope) (written : String × String) : Attribute :=
  let name := splitName written.1
  ⟨name.1.bind scope.namespaceOf, name.2, written.2⟩

/-- The element that a tag opens, without content. Its own declarations are in scope for its name
and its attributes. -/
def Tag.open? (scope : Scope) (tag : Tag) : Except DocumentFault Node :=
  match tag.attributes with
  | none => .error .malformed
  | some attributes =>
    let scope := scope.enter (declarations attributes)
    let name := splitName tag.name
    let ns := scope.namespaceOf (name.1.getD "")
    if name.1.isSome && ns.isNone then .error (.unboundName tag.name)
    else
      let written := attributes.filter (!isDeclaration ·.1)
      .ok ⟨ns, name.2, written.map (Attribute.ofWritten scope), [], "", scope⟩

/-- The scope at the innermost open element. -/
def innerScope : List Node → Scope
  | [] => {}
  | n :: _ => n.scope

/-- Adds text to the innermost open element. -/
def addText (text : String) : List Node → List Node
  | [] => []
  | n :: outer => { n with text := n.text ++ text } :: outer

/-- Puts a finished element in its place: in the innermost open element, or as the root. -/
def attach (n : Node) : List Node → Option Node → List Node × Option Node
  | [], root => ([], some (root.getD n))
  | parent :: outer, root => ({ parent with children := parent.children ++ [n] } :: outer, root)

/-- Builds the tree of a sequence of events, given the open elements, the innermost first, and the root if it was
closed already. An element that is closed becomes the last child of the one around it, and the first one closed with
nothing around it is the root. Text and elements outside the root are read and dropped. -/
def build (opened : List Node) (root : Option Node) : List Event → Except DocumentFault Node
  | [] => if !opened.isEmpty then .error .unclosed else root.elim (.error .noRoot) .ok
  | .start tag :: events => do
    let n ← tag.open? (innerScope opened)
    build (n :: opened) root events
  | .empty tag :: events => do
    let n ← tag.open? (innerScope opened)
    let (opened, root) := attach n opened root
    build opened root events
  | .close :: events =>
    match opened with
    | [] => .error .unbalanced
    | n :: outer =>
      let (opened, root) := attach n outer root
      build opened root events
  | .text content :: events =>
    if opened.isEmpty then build opened root events
    else match content with
      | none => .error .malformed
      | some text => build (addText text opened) root events
  | .literal text :: events => build (addText text opened) root events
  | .aside :: events => build opened root events
  | .malformed :: _ => .error .malformed

/-- The bytes behind a byte order mark. -/
def withoutMark (bytes : ByteArray) : ByteArray :=
  if bytes.toList.take 3 == [0xEF, 0xBB, 0xBF] then bytes.extract 3 bytes.size else bytes

/-- The tree of a document. -/
def parse (bytes : ByteArray) : Except DocumentFault Node :=
  match Text.decode? (withoutMark bytes) with
  | none => .error .invalidText
  | some text => build [] none (scan [] text.toList)

end TaxonomySet.Markup
