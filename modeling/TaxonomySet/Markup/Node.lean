import TaxonomySet.Markup.Scope
import TaxonomySet.QName
import TaxonomySet.Text.Blank

namespace TaxonomySet.Markup

/-- An attribute with its prefix resolved. -/
structure Attribute where
  ns : Option String
  localName : String
  value : String
deriving DecidableEq, Repr

/-- An element: its name, its attributes, its child elements in order, its own text, and the
namespace declarations in scope. -/
structure Node where
  ns : Option String
  localName : String
  attributes : List Attribute
  children : List Node
  text : String
  scope : Scope
deriving Repr

/-- Cuts a written name at its first colon. -/
def splitName (name : String) : Option String × String :=
  match Text.cut? ':' name with
  | some (pre, localName) => (some pre, localName)
  | none => (none, name)

namespace Node

/-- Whether the element has the given name. -/
def isNamed (n : Node) (ns localName : String) : Bool :=
  n.localName == localName && n.ns == some ns

/-- The name of the element; no namespace counts as the empty one. -/
def name (n : Node) : QName := ⟨n.ns.getD "", n.localName⟩

/-- The first attribute in no namespace with the given local name. -/
def attr? (n : Node) (localName : String) : Option String :=
  (n.attributes.find? fun a => a.ns.isNone && a.localName == localName).map (·.value)

/-- The first attribute with the given name. -/
def attrIn? (n : Node) (ns localName : String) : Option String :=
  (n.attributes.find? fun a => a.ns == some ns && a.localName == localName).map (·.value)

/-- The first attribute of the link vocabulary with the given local name. -/
def xlink? (n : Node) (localName : String) : Option String :=
  n.attrIn? Vocabulary.xlink localName

/-- The id of the element. -/
def id? (n : Node) : Option String := n.attr? "id"

/-- The name that a text with an optional prefix means at this element. Without a prefix it is in
the default namespace, or in none. -/
def resolveName? (n : Node) (value : String) : Option QName :=
  match splitName (Text.trim value) with
  | (some pre, localName) => (n.scope.namespaceOf pre).map fun ns => ⟨ns, localName⟩
  | (none, localName) => some ⟨(n.scope.namespaceOf "").getD "", localName⟩

/-- The child elements with the given name. -/
def childrenNamed (n : Node) (ns localName : String) : List Node :=
  n.children.filter (·.isNamed ns localName)

mutual

/-- The element and all elements below it, in document order. -/
def preorder : Node → List Node
  | ⟨ns, localName, attributes, children, text, scope⟩ =>
    ⟨ns, localName, attributes, children, text, scope⟩ :: preorderAll children

/-- The elements of several trees, in document order. -/
def preorderAll : List Node → List Node
  | [] => []
  | n :: ns => n.preorder ++ preorderAll ns

end

theorem preorder_eq (n : Node) : n.preorder = n :: preorderAll n.children := by
  cases n
  rw [preorder]

theorem preorderAll_append (ms ns : List Node) :
    preorderAll (ms ++ ns) = preorderAll ms ++ preorderAll ns := by
  induction ms with
  | nil => simp [preorderAll]
  | cons m ms ih => simp [preorderAll, ih]

theorem preorderAll_eq_flatMap (ns : List Node) : preorderAll ns = ns.flatMap preorder := by
  induction ns with
  | nil => rfl
  | cons n ns ih => rw [preorderAll, ih, List.flatMap_cons]

/-- Visits the elements of a stack, each before its children and those before the rest. -/
def visit : List Node → List Node
  | [] => []
  | n :: stack => n :: visit (n.children ++ stack)
termination_by stack => (preorderAll stack).length
decreasing_by
  rw [preorderAll_append, preorderAll, preorder_eq]
  simp

/-- The element and all elements below it, in document order. It is listed with a stack of the elements still to be
visited. -/
def descendants (n : Node) : List Node := visit [n]

/-- At every point what is still to be listed are the trees on the stack, each by recursion. -/
theorem visit_eq_preorderAll (stack : List Node) : visit stack = preorderAll stack := by
  induction stack using visit.induct with
  | case1 => rw [visit, preorderAll]
  | case2 n stack ih => rw [visit, ih, preorderAll_append, preorderAll, preorder_eq, List.cons_append]

theorem descendants_eq_preorder (n : Node) : n.descendants = n.preorder := by
  rw [descendants, visit_eq_preorderAll, preorderAll, preorderAll, List.append_nil]

/-- The first element in document order with the given id. -/
def findById? (n : Node) (id : String) : Option Node := n.descendants.find? (·.id? == some id)

end Node

end TaxonomySet.Markup
