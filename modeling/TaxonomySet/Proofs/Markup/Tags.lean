import TaxonomySet.Proofs.Markup.Building
import Mathlib.Data.List.Nodup

namespace TaxonomySet.Markup

/-- The events of a document; none if it is no text. -/
def events? (bytes : ByteArray) : Option (List Event) :=
  (Text.decode? (withoutMark bytes)).map fun text => scan [] text.toList

theorem parse_eq (bytes : ByteArray) : parse bytes = (events? bytes).elim (.error .invalidText) (build [] none) := by
  unfold parse events?
  cases Text.decode? (withoutMark bytes) <;> rfl

theorem parse_eq_ok_iff {bytes : ByteArray} {root : Node} :
    parse bytes = .ok root ↔ ∃ events, events? bytes = some events ∧ build [] none events = .ok root := by
  rw [parse_eq]
  cases events? bytes with
  | none => exact iff_of_false nofun fun ⟨events, h, _⟩ => by cases h
  | some events => simp

theorem toList_eq_toList_data (bytes : ByteArray) : bytes.toList = bytes.data.toList := by
  have hloop (i : Nat) (r : List UInt8) :
      ByteArray.toList.loop bytes i r = r.reverse ++ bytes.data.toList.drop i := by
    fun_induction ByteArray.toList.loop bytes i r with
    | case1 i r h ih =>
      have hlength : i < bytes.data.toList.length := h
      have hget : bytes.get! i = bytes.data.toList[i] := by
        change bytes.data[i]! = _
        rw [getElem!_pos bytes.data i h, Array.getElem_toList]
      rw [ih, List.reverse_cons, List.append_assoc, List.drop_eq_getElem_cons hlength, hget, List.singleton_append]
    | case2 i r h => rw [List.drop_of_length_le (Nat.le_of_not_lt h), List.append_nil]
  exact hloop 0 []

/-- A document that begins with a tag has no byte order mark. -/
theorem events?_toUTF8 {text : String} (htag : text.toList.head? = some '<') :
    events? text.toUTF8 = some (scan [] text.toList) := by
  obtain ⟨rest, hrest⟩ := List.head?_eq_some_iff.1 htag
  have hbytes : text.toUTF8.toList = 0x3C :: rest.flatMap String.utf8EncodeChar := by
    rw [toList_eq_toList_data, ← String.ofList_toList (s := text), hrest]
    change (String.ofList ('<' :: rest)).toByteArray.data.toList = _
    rw [String.toByteArray_ofList]
    exact List.toList_data_toByteArray
  have hdecode : Text.decode? text.toUTF8 = some text := dif_pos text.isValidUTF8
  have hbyte : ((0x3C : UInt8) == 0xEF) = false := rfl
  unfold events? withoutMark
  rw [hbytes, List.take_succ_cons, List.cons_beq_cons, hbyte, Bool.false_and, if_neg Bool.false_ne_true, hdecode,
    Option.map_some]

theorem parse_toUTF8 {text : String} (htag : text.toList.head? = some '<') :
    parse text.toUTF8 = build [] none (scan [] text.toList) := by
  rw [parse_eq, events?_toUTF8 htag]
  rfl

/-- A tree with a given property is that of a document if it can be built from the characters. -/
theorem exists_parse_toUTF8 (text : String) (test : Node → Prop) [DecidablePred test]
    (htag : text.toList.head? = some '<')
    (htest : ((build [] none (scan [] text.toList)).toOption.any fun root => decide (test root)) = true) :
    ∃ root, parse text.toUTF8 = .ok root ∧ test root := by
  rw [parse_toUTF8 htag]
  cases hbuild : build [] none (scan [] text.toList) with
  | error f =>
    rw [hbuild] at htest
    cases htest
  | ok root =>
    rw [hbuild] at htest
    exact ⟨root, rfl, of_decide_eq_true htest⟩

/-- The tag that an event begins an element with. -/
def Event.tag? : Event → Option Tag
  | start tag | empty tag => some tag
  | close | text _ | literal _ | aside | malformed => none

/-- The tags of events in their order, each before the tags of the elements around it, the innermost first. -/
def tagsOf (around : List Tag) : List Event → List (List Tag)
  | [] => []
  | e :: events => (e.tag?.map (· :: around)).toList ++ tagsOf (e.next around) events

/-- The tags of a document. -/
def documentTags (bytes : ByteArray) : List (List Tag) := ((events? bytes).map (tagsOf [])).getD []

theorem tagsOf_append (around : List Tag) (events more : List Event) :
    tagsOf around (events ++ more) = tagsOf around events ++ tagsOf (openAfter around events) more := by
  induction events generalizing around with
  | nil => rfl
  | cons e events ih =>
    rw [List.cons_append, tagsOf, ih, tagsOf, List.append_assoc]
    rfl

/-- Whether an element is that of the first of some tags, within the elements of the others. -/
def Node.IsOf (n : Node) (tags : List Tag) : Prop :=
  ∃ tag around children text, tags = tag :: around ∧ n = tag.node (tag :: around) children text

theorem Tag.isOf_node (tag : Tag) (around : List Tag) (children : List Node) (text : String) :
    (tag.node (tag :: around) children text).IsOf (tag :: around) := ⟨tag, around, children, text, rfl, rfl⟩

/-- The elements of a content are those of its tags, one for one. -/
theorem Content.forall₂_isOf (c : Content) (around : List Tag) :
    List.Forall₂ Node.IsOf (Node.preorderAll (c.nodes around)) (tagsOf around c.events) := by
  induction c generalizing around with
  | nil => exact .nil
  | element tag inner rest ihinner ihrest =>
    rw [events, nodes, tagsOf, tagsOf_append, Node.preorderAll, Node.preorder_eq, Event.next, openAfter_events]
    exact .cons (tag.isOf_node around _ _) (List.rel_append (ihinner (tag :: around)) (ihrest around))
  | piece p rest ih =>
    rw [events, tagsOf, next_event]
    cases p with
    | empty tag => exact .cons (tag.isOf_node around _ _) (ih around)
    | text content | literal content | aside => exact ih around

theorem exists_getElem?_of_forall₂ {α β : Type} {R : α → β → Prop} {xs : List α} {ys : List β}
    (h : List.Forall₂ R xs ys) {i : Nat} {x : α} (hx : xs[i]? = some x) : ∃ y, ys[i]? = some y ∧ R x y := by
  induction h generalizing i with
  | nil => cases hx
  | cons hhead _ ih =>
    cases i with
    | zero =>
      cases hx
      exact ⟨_, rfl, hhead⟩
    | succ i => exact ih hx

/-- An element of a document is that of the tag in the same place. -/
theorem exists_tag_of_parse {bytes : ByteArray} {root n : Node} (h : parse bytes = .ok root) {i : Nat}
    (hn : root.descendants[i]? = some n) : ∃ tag around children text,
      (documentTags bytes)[i]? = some (tag :: around) ∧ n = tag.node (tag :: around) children text := by
  obtain ⟨events, hevents, hbuild⟩ := parse_eq_ok_iff.1 h
  obtain ⟨-, c, rfl, hhead⟩ := build_eq_ok_iff.1 hbuild
  obtain ⟨others, hnodes⟩ := List.head?_eq_some_iff.1 hhead
  have hall := c.forall₂_isOf []
  rw [hnodes, Node.preorderAll] at hall
  have hplace : (root.preorder ++ Node.preorderAll others)[i]? = some n := by
    rw [Node.descendants_eq_preorder] at hn
    rw [List.getElem?_append_left (List.getElem?_eq_some_iff.1 hn).1, hn]
  obtain ⟨_, htags, tag, around, children, text, rfl, rfl⟩ := exists_getElem?_of_forall₂ hall hplace
  refine ⟨tag, around, children, text, ?_, rfl⟩
  unfold documentTags
  rw [hevents, Option.map_some, Option.getD_some, htags]

theorem tag?_bangEvent (content : List Char) : (bangEvent content).tag? = none := by
  unfold bangEvent
  repeat' split
  all_goals rfl

theorem tag?_instructionEvent (content : List Char) : (instructionEvent content).tag? = none := by
  unfold instructionEvent
  split <;> rfl

theorem exists_content_of_tagEvent {opened : List String} {content : List Char} {tag : Tag}
    (h : (tagEvent opened content).1.tag? = some tag) : ∃ inner, tag = Tag.ofContent inner := by
  unfold tagEvent at h
  split at h
  · split at h
    · cases h
    · split at h <;> cases h
  · split at h <;> exact ⟨_, (Option.some_inj.1 h).symm⟩

theorem exists_content_of_readMarkup {opened : List String} {cs : List Char} {tag : Tag}
    (h : (readMarkup opened cs).1.tag? = some tag) : ∃ content, tag = Tag.ofContent content := by
  have hpiece {found : Option (List Char × List Char)} {event : List Char → Event × List String}
      (h : (pieceEvent opened found event).1.tag? = some tag) : ∃ content, (event content).1.tag? = some tag := by
    cases found with
    | none => cases h
    | some p => exact ⟨p.1, h⟩
  have hbang {found : Option (List Char × List Char)}
      (h : (pieceEvent opened found fun c => (bangEvent c, opened)).1.tag? = some tag) :
      ∃ content, tag = Tag.ofContent content := by
    obtain ⟨content, h⟩ := hpiece h
    rw [tag?_bangEvent] at h
    cases h
  unfold readMarkup at h
  split at h
  · exact hbang h
  · exact hbang h
  · exact hbang h
  · exact hbang h
  · cases h
  · obtain ⟨content, h⟩ := hpiece h
    rw [tag?_instructionEvent] at h
    cases h
  · obtain ⟨content, h⟩ := hpiece h
    exact exists_content_of_tagEvent h

/-- The tags of a text are read from what stands between `<` and `>`. -/
theorem exists_content_of_mem_scan {opened : List String} {cs : List Char} {e : Event} (he : e ∈ scan opened cs)
    {tag : Tag} (htag : e.tag? = some tag) : ∃ content, tag = Tag.ofContent content := by
  fun_induction scan opened cs with
  | case1 => cases he
  | case2 =>
    rw [List.mem_singleton.1 he] at htag
    cases htag
  | case3 opened cs rest _ event opened' rest' _ hread ih =>
    rcases List.mem_cons.1 he with rfl | he
    · exact @exists_content_of_readMarkup opened rest _ (hread ▸ htag)
    · exact ih he
  | case4 opened cs c rest _ _ run ih =>
    rcases List.mem_cons.1 he with rfl | he
    · cases htag
    · exact ih he

/-- Whether no attribute is written twice in a tag. -/
def Tag.Distinct (tag : Tag) : Prop := (tag.written.map (·.1)).Nodup

theorem Tag.Distinct.value_eq {tag : Tag} (h : tag.Distinct) {key value value' : String}
    (hvalue : (key, value) ∈ tag.written) (hvalue' : (key, value') ∈ tag.written) : value = value' :=
  (Prod.mk.inj (List.inj_on_of_nodup_map h hvalue hvalue' rfl)).2

theorem Tag.distinct_ofContent (content : List Char) : (ofContent content).Distinct := by
  have hkeys {raw : List (List Char × List Char)} {attributes : List (String × String)}
      (h : (raw.mapM fun a => (unescape? a.2).map fun value => (String.ofList a.1, value)) = some attributes) :
      attributes.map (·.1) = raw.map fun a => String.ofList a.1 := by
    induction raw generalizing attributes with
    | nil =>
      cases h
      rfl
    | cons a raw ih =>
      rw [List.mapM_cons, Option.bind_eq_bind, Option.bind_eq_some_iff] at h
      obtain ⟨first, hfirst, h⟩ := h
      obtain ⟨rest, hrest, h⟩ := Option.bind_eq_some_iff.1 h
      obtain ⟨value, -, rfl⟩ := Option.map_eq_some_iff.1 hfirst
      cases h
      rw [List.map_cons, List.map_cons, ih hrest]
  unfold Distinct written ofContent attributes?
  dsimp only
  cases hattributes : (rawAttributes? _).bind _ with
  | none => exact .nil
  | some attributes =>
    obtain ⟨raw, -, hattributes⟩ := Option.bind_eq_some_iff.1 hattributes
    split at hattributes
    · rename_i hnodup
      rw [Option.getD_some, hkeys hattributes, ← Function.comp_def String.ofList, ← List.map_map]
      exact hnodup.map fun a b h => String.ofList_inj.1 h
    · cases hattributes

theorem mem_next {around : List Tag} {e : Event} {tag : Tag} (h : tag ∈ e.next around) :
    tag ∈ around ∨ e.tag? = some tag := by
  cases e with
  | start t =>
    rcases List.mem_cons.1 h with rfl | h
    · exact .inr rfl
    · exact .inl h
  | close => exact .inl (List.mem_of_mem_tail h)
  | empty _ | text _ | literal _ | aside | malformed => exact .inl h

theorem exists_event_of_mem_tagsOf {around tags : List Tag} {events : List Event} (htags : tags ∈ tagsOf around events)
    {tag : Tag} (htag : tag ∈ tags) : tag ∈ around ∨ ∃ e ∈ events, e.tag? = some tag := by
  induction events generalizing around with
  | nil => cases htags
  | cons e events ih =>
    have hhere (h : tag ∈ around ∨ e.tag? = some tag) : tag ∈ around ∨ ∃ e' ∈ e :: events, e'.tag? = some tag :=
      h.imp_right fun h => ⟨e, List.mem_cons_self, h⟩
    rcases List.mem_append.1 htags with htags | htags
    · obtain ⟨t, ht, rfl⟩ := Option.map_eq_some_iff.1 (Option.mem_toList.1 htags)
      rcases List.mem_cons.1 htag with rfl | htag
      · exact hhere (.inr ht)
      · exact .inl htag
    · rcases ih htags with h | ⟨e', he', h⟩
      · exact hhere (mem_next h)
      · exact .inr ⟨e', List.mem_cons_of_mem _ he', h⟩

/-- No attribute is written twice in a tag of a document. -/
theorem distinct_of_mem_documentTags {bytes : ByteArray} {tags : List Tag} (htags : tags ∈ documentTags bytes)
    {tag : Tag} (htag : tag ∈ tags) : tag.Distinct := by
  unfold documentTags events? at htags
  cases hdecode : Text.decode? (withoutMark bytes) with
  | none =>
    rw [hdecode] at htags
    cases htags
  | some text =>
    rw [hdecode] at htags
    obtain ⟨e, he, htag⟩ := (exists_event_of_mem_tagsOf htags htag).resolve_left List.not_mem_nil
    obtain ⟨content, rfl⟩ := exists_content_of_mem_scan he htag
    exact Tag.distinct_ofContent content

end TaxonomySet.Markup
