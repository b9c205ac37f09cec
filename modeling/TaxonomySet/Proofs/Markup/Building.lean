import TaxonomySet.Proofs.Markup.Content
import TaxonomySet.Proofs.Outcome

namespace TaxonomySet.Markup

theorem Tag.bound_iff {tag : Tag} {around : List Tag} : tag.Bound around ↔ ¬ ((prefixOf? tag.name).isSome &&
    (namespaceIn (tag :: around) ((prefixOf? tag.name).getD "")).isNone) = true := by
  unfold Tag.Bound
  cases prefixOf? tag.name <;> simp

/-- The element that a tag opens is that of the tag, without content. -/
theorem Tag.open?_eq_ok_iff {tag : Tag} {around : List Tag} {n : Node} : tag.open? (scopeIn around) = .ok n ↔
    (tag.attributes ≠ none ∧ tag.Bound around) ∧ n = tag.node (tag :: around) [] "" := by
  unfold Tag.open?
  cases hattributes : tag.attributes with
  | none => exact iff_of_false (fun h => by cases h) fun h => h.1.1 rfl
  | some attributes =>
    have hwritten : tag.written = attributes := by
      unfold Tag.written
      rw [hattributes]
      rfl
    have hscope : (scopeIn around).enter (declarations attributes) = scopeIn (tag :: around) := by
      rw [scopeIn_cons, hwritten]
    have hresolve : (scopeIn (tag :: around)).namespaceOf = namespaceIn (tag :: around) :=
      funext (namespaceOf_scopeIn (tag :: around))
    dsimp only
    rw [hscope, hresolve, ← prefixOf?_eq, ← localPart_eq]
    have hnode : (⟨namespaceIn (tag :: around) ((prefixOf? tag.name).getD ""), localPart tag.name,
        (attributes.filter (!isDeclaration ·.1)).map (Attribute.ofWritten (scopeIn (tag :: around))), [], "",
        scopeIn (tag :: around)⟩ : Node) = tag.node (tag :: around) [] "" := by
      unfold Tag.node Attribute.ofWritten
      simp only [hwritten, hresolve, isDeclaration_eq, ← prefixOf?_eq, ← localPart_eq, decide_not]
    rw [hnode]
    by_cases h : tag.Bound around
    · rw [if_neg (Tag.bound_iff.1 h), Except.ok.injEq, eq_comm]
      exact (and_iff_right ⟨Option.some_ne_none attributes, h⟩).symm
    · rw [if_pos (Decidable.of_not_not (mt Tag.bound_iff.2 h))]
      exact iff_of_false (fun hopen => by cases hopen) fun hopen => h hopen.1.2

section

variable {opened : List Node} {root : Option Node} {tag : Tag} {n : Node}

theorem build_start (h : tag.open? (innerScope opened) = .ok n) (events : List Event) :
    build opened root (.start tag :: events) = build (n :: opened) root events := by
  rw [build, h]
  rfl

theorem build_empty (h : tag.open? (innerScope opened) = .ok n) (events : List Event) :
    build opened root (.empty tag :: events) = build (attach n opened root).1 (attach n opened root).2 events := by
  rw [build, h]
  rfl

theorem build_text {content : Option String} (h : content = none → opened = []) (events : List Event) :
    build opened root (.text content :: events) = build (addText (content.getD "") opened) root events := by
  cases opened with
  | nil => cases content <;> rfl
  | cons n outer =>
    cases content with
    | none => cases h rfl
    | some text => rfl

end

/-- Whether open elements are those of tags, and have the declarations around them in scope. -/
def Stands : List Tag → List Node → Prop
  | [], [] => True
  | tag :: around, n :: opened => n.scope = scopeIn (tag :: around) ∧ Stands around opened
  | _, _ => False

variable {around : List Tag} {opened : List Node} {root : Option Node}

theorem Stands.innerScope (h : Stands around opened) : innerScope opened = scopeIn around := by
  cases around <;> cases opened
  · rfl
  · exact h.elim
  · exact h.elim
  · exact h.1

theorem Stands.addText (h : Stands around opened) (text : String) : Stands around (addText text opened) := by
  cases around <;> cases opened <;> exact h

theorem Stands.attach (h : Stands around opened) (n : Node) (root : Option Node) :
    Stands around (attach n opened root).1 := by
  cases around <;> cases opened <;> exact h

theorem Stands.nil_iff (h : Stands around opened) : opened = [] ↔ around = [] := by
  cases around <;> cases opened
  · exact iff_of_true rfl rfl
  · exact h.elim
  · exact h.elim
  · exact iff_of_false nofun nofun

/-- If a tree is built, each event fits in its place, and all elements are closed. -/
theorem allFit_of_build {events : List Event} {n : Node} (hstands : Stands around opened)
    (h : build opened root events = .ok n) : AllFit around events ∧ openAfter around events = [] := by
  induction events generalizing around opened root with
  | nil =>
    unfold build at h
    split at h
    · cases h
    · rename_i hopened
      refine ⟨allFit_nil around, hstands.nil_iff.1 ?_⟩
      simpa using hopened
  | cons e events ih =>
    rw [allFit_cons]
    cases e with
    | start tag =>
      obtain ⟨m, hm, hbuild⟩ := Outcome.bind_eq_ok.1 h
      rw [hstands.innerScope, Tag.open?_eq_ok_iff] at hm
      obtain ⟨hfits, rfl⟩ := hm
      have hopened : Stands (tag :: around) (tag.node (tag :: around) [] "" :: opened) := ⟨rfl, hstands⟩
      obtain ⟨hrest, hclosed⟩ := ih hopened hbuild
      exact ⟨⟨hfits, hrest⟩, hclosed⟩
    | empty tag =>
      obtain ⟨m, hm, hbuild⟩ := Outcome.bind_eq_ok.1 h
      rw [hstands.innerScope, Tag.open?_eq_ok_iff] at hm
      obtain ⟨hrest, hclosed⟩ := ih (hstands.attach m root) hbuild
      exact ⟨⟨hm.1, hrest⟩, hclosed⟩
    | close =>
      cases around with
      | nil =>
        cases opened with
        | nil => cases h
        | cons n outer => exact hstands.elim
      | cons tag around =>
        cases opened with
        | nil => cases h
        | cons m outer =>
          obtain ⟨hrest, hclosed⟩ := ih (hstands.2.attach m root) h
          exact ⟨⟨nofun, hrest⟩, hclosed⟩
    | text content =>
      unfold build at h
      split at h
      · rename_i hopened
        have hnil : around = [] := hstands.nil_iff.1 (List.isEmpty_iff.1 hopened)
        obtain ⟨hrest, hclosed⟩ := ih hstands h
        exact ⟨⟨fun _ => hnil, hrest⟩, hclosed⟩
      · cases content with
        | none => cases h
        | some text =>
          obtain ⟨hrest, hclosed⟩ := ih (hstands.addText text) h
          exact ⟨⟨nofun, hrest⟩, hclosed⟩
    | literal text =>
      obtain ⟨hrest, hclosed⟩ := ih (hstands.addText text) h
      exact ⟨⟨trivial, hrest⟩, hclosed⟩
    | aside =>
      obtain ⟨hrest, hclosed⟩ := ih hstands h
      exact ⟨⟨trivial, hrest⟩, hclosed⟩
    | malformed => cases h

/-- The open elements and the root after a content: the innermost element has taken it in, or its first element is the
root if there was none. -/
def Content.fill (c : Content) (around : List Tag) : List Node → Option Node → List Node × Option Node
  | [], root => ([], root.or (c.nodes around).head?)
  | n :: outer, root =>
    ({ n with children := n.children ++ c.nodes around, text := n.text ++ c.ownText } :: outer, root)

theorem Content.fill_nil (around : List Tag) (opened : List Node) (root : Option Node) :
    nil.fill around opened root = (opened, root) := by
  cases opened with
  | nil => exact congrArg _ (Option.or_none ..)
  | cons n outer =>
    cases n
    unfold fill
    dsimp only [nodes, ownText]
    rw [List.append_nil, String.append_empty]

theorem Content.fill_congr {c d : Content} (hnodes : c.nodes around = d.nodes around) (htext : c.ownText = d.ownText)
    (opened : List Node) (root : Option Node) : c.fill around opened root = d.fill around opened root := by
  unfold fill
  rw [hnodes, htext]

theorem Content.fill_attach {c d : Content} {n : Node}
    (hnodes : c.nodes around = n :: d.nodes around) (htext : c.ownText = d.ownText) (opened : List Node)
    (root : Option Node) : d.fill around (attach n opened root).1 (attach n opened root).2 =
      c.fill around opened root := by
  cases opened with
  | nil =>
    unfold attach fill
    dsimp only
    rw [hnodes, List.head?_cons]
    cases root <;> rfl
  | cons parent outer =>
    unfold attach fill
    dsimp only
    rw [hnodes, htext, List.append_assoc, List.singleton_append]

theorem Content.fill_addText {c d : Content} {t : String}
    (hnodes : c.nodes around = d.nodes around) (htext : c.ownText = t ++ d.ownText) (opened : List Node)
    (root : Option Node) : d.fill around (addText t opened) root = c.fill around opened root := by
  cases opened with
  | nil =>
    unfold addText fill
    dsimp only
    rw [hnodes]
  | cons parent outer =>
    unfold addText fill
    dsimp only
    rw [hnodes, htext, String.append_assoc]

theorem Content.fill_node (c : Content) (tag : Tag) (around : List Tag) (opened : List Node) (root : Option Node) :
    c.fill (tag :: around) (tag.node (tag :: around) [] "" :: opened) root =
      (tag.node (tag :: around) (c.nodes (tag :: around)) c.ownText :: opened, root) := by
  unfold fill Tag.node
  dsimp only
  rw [List.nil_append, String.empty_append]

/-- A content whose events fit is taken in as a whole. By induction on the content; what stands in an element is taken
in by the element before the element itself is by the one around it. -/
theorem build_events_append {c : Content} (hfit : AllFit around c.events) (hstands : Stands around opened)
    (events : List Event) : build opened root (c.events ++ events) =
      build (c.fill around opened root).1 (c.fill around opened root).2 events := by
  induction c generalizing around opened root events with
  | nil => rw [Content.fill_nil, Content.events, List.nil_append]
  | element tag inner rest ihinner ihrest =>
    rw [Content.events, allFit_cons, allFit_append, Event.next, inner.openAfter_events, allFit_cons] at hfit
    obtain ⟨htag, hinner, -, (hrest : AllFit around rest.events)⟩ := hfit
    have hopen : tag.open? (innerScope opened) = .ok (tag.node (tag :: around) [] "") := by
      rw [hstands.innerScope, Tag.open?_eq_ok_iff]
      exact ⟨htag, rfl⟩
    have hopened : Stands (tag :: around) (tag.node (tag :: around) [] "" :: opened) := ⟨rfl, hstands⟩
    rw [Content.events, List.cons_append, List.append_assoc, List.cons_append, build_start hopen,
      ihinner hinner hopened, inner.fill_node]
    -- the end of the element
    change build (attach _ opened root).1 (attach _ opened root).2 _ = _
    rw [ihrest hrest (hstands.attach _ root), Content.fill_attach (c := .element tag inner rest) rfl rfl]
  | piece p rest ih =>
    rw [Content.events, allFit_cons, Content.next_event] at hfit
    obtain ⟨hfits, hrest⟩ := hfit
    rw [Content.events, List.cons_append]
    cases p with
    | empty tag =>
      have hopen : tag.open? (innerScope opened) = .ok (tag.node (tag :: around) [] "") := by
        rw [hstands.innerScope, Tag.open?_eq_ok_iff]
        exact ⟨hfits, rfl⟩
      rw [Piece.event, build_empty hopen, ih hrest (hstands.attach _ root),
        Content.fill_attach (c := .piece (.empty tag) rest) rfl (String.empty_append ..)]
    | text content =>
      rw [Piece.event, build_text fun hnone => hstands.nil_iff.2 (hfits hnone), ih hrest (hstands.addText _),
        Content.fill_addText (c := .piece (.text content) rest) (d := rest) (t := content.getD "") rfl rfl]
    | literal text =>
      rw [Piece.event, build, ih hrest (hstands.addText text),
        Content.fill_addText (c := .piece (.literal text) rest) (d := rest) (t := text) rfl rfl]
    | aside =>
      rw [Piece.event, build, ih hrest hstands,
        Content.fill_congr (c := .piece .aside rest) (d := rest) rfl (String.empty_append ..)]

/-- Whether some event is that of an element with nothing around it. -/
def Rooted (events : List Event) : Prop :=
  ∃ before e after, events = before ++ e :: after ∧ e.IsElement ∧ openAfter [] before = []

theorem rooted_cons_iff {e : Event} (he : ¬ e.IsElement) (hnext : e.next [] = []) {events : List Event} :
    Rooted (e :: events) ↔ Rooted events := by
  constructor
  · rintro ⟨before, f, after, hsplit, hf, hnone⟩
    cases before with
    | nil =>
      obtain ⟨rfl, -⟩ := List.cons.inj hsplit
      exact absurd hf he
    | cons g before =>
      obtain ⟨rfl, hevents⟩ := List.cons.inj hsplit
      unfold openAfter at hnone
      rw [List.foldl_cons, hnext] at hnone
      exact ⟨before, f, after, hevents, hf, hnone⟩
  · rintro ⟨before, f, after, rfl, hf, hnone⟩
    refine ⟨e :: before, f, after, rfl, hf, ?_⟩
    unfold openAfter at hnone ⊢
    rw [List.foldl_cons, hnext, hnone]

/-- A content has elements exactly if some event begins one with nothing open. -/
theorem Content.nodes_ne_nil_iff {c : Content} : c.nodes [] ≠ [] ↔ Rooted c.events := by
  induction c with
  | nil =>
    refine iff_of_false (fun h => h rfl) ?_
    rintro ⟨before, e, after, h, -⟩
    exact absurd h.symm (by simp [events])
  | element tag inner rest =>
    exact iff_of_true (List.cons_ne_nil _ _) ⟨[], .start tag, _, rfl, ⟨tag, .inl rfl⟩, rfl⟩
  | piece p rest ih =>
    have hother (hp : ¬ p.event.IsElement) : rest.nodes [] ≠ [] ↔ Rooted (piece p rest).events :=
      ih.trans (rooted_cons_iff hp (next_event p [])).symm
    cases p with
    | empty tag => exact iff_of_true (List.cons_ne_nil _ _) ⟨[], .empty tag, _, rfl, ⟨tag, .inr rfl⟩, rfl⟩
    | text content => exact hother (by rintro ⟨tag, h | h⟩ <;> cases h)
    | literal content => exact hother (by rintro ⟨tag, h | h⟩ <;> cases h)
    | aside => exact hother (by rintro ⟨tag, h | h⟩ <;> cases h)

/-- Whether a tree can be built from events: each fits in its place, all elements are closed, and there is one at the
top. -/
structure Accepted (events : List Event) : Prop where
  fits : AllFit [] events
  closed : openAfter [] events = []
  rooted : Rooted events

/-- Events that fit and close all elements are those of one content. -/
theorem Content.exists_events_eq_of_closed {events : List Event} (hfit : AllFit [] events)
    (hclosed : openAfter [] events = []) : ∃ c : Content, c.events = events := by
  obtain ⟨c, outer, hlength, heq⟩ := exists_events_eq hfit hclosed
  rw [List.length_eq_zero_iff.1 hlength, List.flatMap_nil, List.append_nil] at heq
  exact ⟨c, heq.symm⟩

theorem build_eq_ok_iff {events : List Event} {root : Node} : build [] none events = .ok root ↔
    (AllFit [] events ∧ openAfter [] events = []) ∧
      ∃ c : Content, c.events = events ∧ (c.nodes []).head? = some root := by
  have hbuild (c : Content) (hfit : AllFit [] c.events) :
      build [] none c.events = (c.nodes []).head?.elim (.error .noRoot) .ok := by
    have hstands : Stands [] [] := trivial
    have happend := @build_events_append [] [] none c hfit hstands []
    rw [List.append_nil] at happend
    rw [happend]
    rfl
  constructor
  · intro h
    have hstands : Stands [] [] := trivial
    obtain ⟨hfit, hclosed⟩ := allFit_of_build hstands h
    obtain ⟨c, rfl⟩ := Content.exists_events_eq_of_closed hfit hclosed
    refine ⟨⟨hfit, hclosed⟩, c, rfl, ?_⟩
    rw [hbuild c hfit] at h
    cases hhead : (c.nodes []).head? <;> rw [hhead] at h <;> cases h
    rfl
  · rintro ⟨⟨hfit, -⟩, c, rfl, hhead⟩
    rw [hbuild c hfit, hhead]
    rfl

/-- A document is read into a tree exactly if it is text, and its events fit in their places, close all elements, and
begin one at the top; this is so for every sequence of events. The tree is the first element at the top of the one
content that is written as these events. -/
theorem parse_tree :
    (∀ bytes root, parse bytes = .ok root ↔ ∃ text, Text.decode? (withoutMark bytes) = some text ∧
      build [] none (scan [] text.toList) = .ok root) ∧
    ∀ events, ((∃ root, build [] none events = .ok root) ↔ Accepted events) ∧
      ∀ root, build [] none events = .ok root →
        ∃ c : Content, c.events = events ∧ (∀ d : Content, d.events = events → d = c) ∧
          (c.nodes []).head? = some root := by
  refine ⟨fun bytes root => ?_, fun events => ⟨⟨?_, ?_⟩, ?_⟩⟩
  · unfold parse
    cases Text.decode? (withoutMark bytes) with
    | none => exact iff_of_false nofun fun ⟨text, h, _⟩ => by cases h
    | some text => simp
  · rintro ⟨root, h⟩
    obtain ⟨⟨hfit, hclosed⟩, c, rfl, hhead⟩ := build_eq_ok_iff.1 h
    refine ⟨hfit, hclosed, Content.nodes_ne_nil_iff.1 fun hnil => ?_⟩
    rw [hnil] at hhead
    cases hhead
  · intro h
    obtain ⟨c, rfl⟩ := Content.exists_events_eq_of_closed h.fits h.closed
    obtain ⟨root, rest, hnodes⟩ := List.exists_cons_of_ne_nil (Content.nodes_ne_nil_iff.2 h.rooted)
    exact ⟨root, build_eq_ok_iff.2 ⟨⟨h.fits, h.closed⟩, c, rfl, by rw [hnodes]; rfl⟩⟩
  · intro root h
    obtain ⟨-, c, rfl, hhead⟩ := build_eq_ok_iff.1 h
    exact ⟨c, rfl, fun d hd => Content.events_injective hd, hhead⟩

end TaxonomySet.Markup
