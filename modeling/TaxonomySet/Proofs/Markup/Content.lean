import TaxonomySet.Proofs.Markup.Namespaces

namespace TaxonomySet.Markup

/-- What stands in a document without anything in it. -/
inductive Piece where
  | empty (tag : Tag)
  | text (content : Option String)
  | literal (content : String)
  | aside

/-- The event that a piece is written as. -/
def Piece.event : Piece → Event
  | empty tag => .empty tag
  | text content => .text content
  | literal content => .literal content
  | aside => .aside

/-- The text of a piece. -/
def Piece.ownText : Piece → String
  | text content => content.getD ""
  | literal content => content
  | empty _ | aside => ""

/-- What stands in an element or at the top of a document, one thing after another. -/
inductive Content where
  | nil
  | element (tag : Tag) (inner rest : Content)
  | piece (p : Piece) (rest : Content)

namespace Content

/-- The events that a content is written as. -/
def events : Content → List Event
  | nil => []
  | element tag inner rest => .start tag :: (inner.events ++ .close :: rest.events)
  | piece p rest => p.event :: rest.events

/-- The text that stands in a content outside its elements. -/
def ownText : Content → String
  | nil => ""
  | element _ _ rest => rest.ownText
  | piece p rest => p.ownText ++ rest.ownText

end Content

/-- The element of a tag within elements, the innermost first and itself among them. -/
def Tag.node (tag : Tag) (around : List Tag) (children : List Node) (text : String) : Node where
  ns := namespaceIn around ((prefixOf? tag.name).getD "")
  localName := localPart tag.name
  attributes := (tag.written.filter (¬ Declares ·.1)).map fun a =>
    ⟨(prefixOf? a.1).bind (namespaceIn around), localPart a.1, a.2⟩
  children := children
  text := text
  scope := scopeIn around

/-- The elements that stand in a content, within elements that stand around it. -/
def Content.nodes (around : List Tag) : Content → List Node
  | nil => []
  | element tag inner rest => tag.node (tag :: around) (inner.nodes (tag :: around)) inner.ownText :: rest.nodes around
  | piece (.empty tag) rest => tag.node (tag :: around) [] "" :: rest.nodes around
  | piece _ rest => rest.nodes around

/-- The elements that are open after an event, the innermost first. -/
def Event.next (around : List Tag) : Event → List Tag
  | start tag => tag :: around
  | close => around.tail
  | empty _ | text _ | literal _ | aside | malformed => around

/-- The elements that are open after events. -/
def openAfter (around : List Tag) (events : List Event) : List Tag := events.foldl Event.next around

/-- Whether the name of a tag has no prefix, or one that stands for a namespace. -/
def Tag.Bound (tag : Tag) (around : List Tag) : Prop :=
  ∀ pre ∈ prefixOf? tag.name, namespaceIn (tag :: around) pre ≠ none

/-- Whether an event may follow within elements that are open: attributes are well-formed and prefixes bound, an
element is closed only if one is open, and references in its text mean something. -/
def Event.Fits (around : List Tag) : Event → Prop
  | start tag | empty tag => tag.attributes ≠ none ∧ tag.Bound around
  | close => around ≠ []
  | text content => content = none → around = []
  | literal _ | aside => True
  | malformed => False

/-- Whether an event is that of an element. -/
def Event.IsElement (e : Event) : Prop := ∃ tag, e = .start tag ∨ e = .empty tag

/-- Whether each event fits in its place. -/
def AllFit (around : List Tag) (events : List Event) : Prop :=
  ∀ before e after, events = before ++ e :: after → e.Fits (openAfter around before)

theorem allFit_nil (around : List Tag) : AllFit around [] := fun before e after h => by simp at h

theorem allFit_cons {around : List Tag} {e : Event} {events : List Event} :
    AllFit around (e :: events) ↔ e.Fits around ∧ AllFit (e.next around) events := by
  constructor
  · intro h
    exact ⟨h [] e events rfl, fun before f after hsplit => h (e :: before) f after (congrArg (e :: ·) hsplit)⟩
  · rintro ⟨he, hrest⟩ before f after hsplit
    cases before with
    | nil =>
      obtain ⟨rfl, -⟩ := List.cons.inj hsplit
      exact he
    | cons g before =>
      obtain ⟨rfl, hevents⟩ := List.cons.inj hsplit
      exact hrest before f after hevents

theorem allFit_append {around : List Tag} {events more : List Event} :
    AllFit around (events ++ more) ↔ AllFit around events ∧ AllFit (openAfter around events) more := by
  induction events generalizing around with
  | nil => exact (and_iff_right (allFit_nil around)).symm
  | cons e events ih => rw [List.cons_append, allFit_cons, ih, allFit_cons, and_assoc]; rfl

namespace Content

theorem next_event (p : Piece) (around : List Tag) : p.event.next around = around := by
  cases p <;> rfl

theorem openAfter_events (c : Content) (around : List Tag) : openAfter around c.events = around := by
  induction c generalizing around with
  | nil => rfl
  | element tag inner rest ihinner ihrest =>
    unfold openAfter at ihinner ihrest ⊢
    rw [events, List.foldl_cons, List.foldl_append, Event.next, ihinner, List.foldl_cons]
    exact ihrest around
  | piece p rest ih =>
    unfold openAfter at ih ⊢
    rw [events, List.foldl_cons, next_event, ih]

/-- Events that leave some elements open are those of a content, and of one more content after the end of each of
these elements. By induction on the events; `c` is what stands before the next end. -/
theorem exists_events_eq {around : List Tag} {events : List Event} (hfit : AllFit around events)
    (hclosed : openAfter around events = []) : ∃ (c : Content) (outer : List Content),
      outer.length = around.length ∧ events = c.events ++ outer.flatMap fun d => .close :: d.events := by
  induction events generalizing around with
  | nil =>
    obtain rfl : around = [] := hclosed
    exact ⟨nil, [], rfl, rfl⟩
  | cons e events ih =>
    obtain ⟨hfits, hrest⟩ := allFit_cons.1 hfit
    obtain ⟨c, outer, hlength, rfl⟩ := ih hrest hclosed
    cases e with
    | start tag =>
      cases outer with
      | nil => cases hlength
      | cons d outer =>
        exact ⟨element tag c d, outer, Nat.succ.inj hlength, by simp [Content.events, List.append_assoc]⟩
    | close =>
      cases around with
      | nil => exact absurd rfl hfits
      | cons tag around => exact ⟨nil, c :: outer, congrArg Nat.succ hlength, rfl⟩
    | empty tag => exact ⟨piece (.empty tag) c, outer, hlength, rfl⟩
    | text content => exact ⟨piece (.text content) c, outer, hlength, rfl⟩
    | literal content => exact ⟨piece (.literal content) c, outer, hlength, rfl⟩
    | aside => exact ⟨piece .aside c, outer, hlength, rfl⟩
    | malformed => exact hfits.elim

theorem event_injective {p q : Piece} (h : p.event = q.event) : p = q := by
  cases p <;> cases q <;> cases h <;> rfl

/-- The next end shows where a content ends. -/
theorem eq_of_events_append {c d : Content} {after after' : List Event}
    (h : c.events ++ .close :: after = d.events ++ .close :: after') : c = d ∧ after = after' := by
  induction c generalizing d after after' with
  | nil =>
    cases d with
    | nil => exact ⟨rfl, (List.cons.inj h).2⟩
    | element tag inner rest => cases (List.cons.inj h).1
    | piece p rest => cases p <;> cases (List.cons.inj h).1
  | element tag inner rest ihinner ihrest =>
    cases d with
    | nil => cases (List.cons.inj h).1
    | element tag' inner' rest' =>
      rw [events, events, List.cons_append, List.cons_append, List.append_assoc, List.append_assoc, List.cons_append,
        List.cons_append] at h
      obtain ⟨htag, hbehind⟩ := List.cons.inj h
      obtain ⟨rfl, hrest⟩ := ihinner hbehind
      obtain ⟨rfl, rfl⟩ := ihrest hrest
      cases htag
      exact ⟨rfl, rfl⟩
    | piece p rest => cases p <;> cases (List.cons.inj h).1
  | piece p rest ih =>
    cases d with
    | nil => cases p <;> cases (List.cons.inj h).1
    | element tag inner rest => cases p <;> cases (List.cons.inj h).1
    | piece q rest' =>
      obtain ⟨hevent, hrest⟩ := List.cons.inj h
      obtain ⟨rfl, rfl⟩ := ih hrest
      cases event_injective hevent
      exact ⟨rfl, rfl⟩

theorem events_injective {c d : Content} (h : c.events = d.events) : c = d := by
  have hclosed : c.events ++ [.close] = d.events ++ [.close] := congrArg (· ++ [Event.close]) h
  exact (eq_of_events_append hclosed).1

end Content

end TaxonomySet.Markup
