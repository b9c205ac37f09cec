import TaxonomySet.Proofs.Markup.Tags

namespace TaxonomySet.Markup

/-- Whether an attribute is taken for the one of a local name without a prefix: it is written so, or with a prefix
that stands for nothing. -/
def IsTakenFor (around : List Tag) (localName key : String) : Prop :=
  key = localName ∨
    ∃ pre, key = pre ++ ":" ++ localName ∧ ':' ∉ pre.toList ∧ pre ≠ "xmlns" ∧ namespaceIn around pre = none

theorem isTakenFor_iff_splitName {around : List Tag} {localName key : String} :
    IsTakenFor around localName key ↔ key = localName ∨
      ∃ pre ∈ (splitName key).1, (splitName key).2 = localName ∧ pre ≠ "xmlns" ∧ namespaceIn around pre = none := by
  refine or_congr_right ⟨?_, ?_⟩
  · rintro ⟨pre, hkey, hpre, hstands⟩
    rw [splitName_eq_some_iff.2 ⟨hkey, hpre⟩]
    exact ⟨pre, rfl, rfl, hstands⟩
  · rintro ⟨pre, hpre, hname, hstands⟩
    obtain ⟨hkey, hcolon⟩ := splitName_eq_some_iff.1 (Prod.ext hpre hname : splitName key = (some pre, localName))
    exact ⟨pre, hkey, hcolon, hstands⟩

instance (around : List Tag) (localName key : String) : Decidable (IsTakenFor around localName key) :=
  decidable_of_iff _ isTakenFor_iff_splitName.symm

theorem isTakenFor_iff {around : List Tag} {localName key : String} (hcolon : ':' ∉ localName.toList)
    (hxmlns : localName ≠ "xmlns") : IsTakenFor around localName key ↔
      ¬ Declares key ∧ (prefixOf? key).bind (namespaceIn around) = none ∧ localPart key = localName := by
  rw [declares_iff, prefixOf?_eq, localPart_eq]
  unfold IsTakenFor
  constructor
  · rintro (rfl | ⟨pre, rfl, hpre, hne, hnone⟩)
    · rw [splitName_eq_none_iff.2 ⟨rfl, hcolon⟩]
      refine ⟨?_, rfl, rfl⟩
      rintro (h | ⟨rest, rfl⟩)
      · exact hxmlns h
      · exact hcolon (by simp)
    · have hsplit := splitName_eq_some_iff.2 ⟨(rfl : pre ++ ":" ++ localName = _), hpre⟩
      rw [hsplit]
      refine ⟨?_, hnone, rfl⟩
      rintro (h | ⟨rest, h⟩)
      · rw [splitName_eq_none_iff.2 ⟨h, by rw [h]; decide⟩] at hsplit
        cases hsplit
      · -- the first colon shows where the prefix ends
        have hxmlns : pre ++ ":" ++ localName = "xmlns" ++ ":" ++ rest := h
        rw [splitName_eq_some_iff.2 ⟨hxmlns, by decide⟩] at hsplit
        cases hsplit
        exact hne rfl
  · rintro ⟨hdeclaration, hnone, hname⟩
    rcases hsplit : splitName key with ⟨_ | pre, rest⟩ <;> rw [hsplit] at hnone hname
    · exact .inl ((splitName_eq_none_iff.1 hsplit).1.trans hname)
    · obtain ⟨rfl, hpre⟩ := splitName_eq_some_iff.1 hsplit
      refine .inr ⟨pre, by rw [← hname], hpre, ?_, hnone⟩
      rintro rfl
      exact hdeclaration (.inr ⟨rest, rfl⟩)

variable {tag : Tag} {around : List Tag} {children : List Node} {text localName value : String}

/-- The first attribute that is taken for one without a prefix is found. -/
theorem Tag.attr?_node (tag : Tag) (around : List Tag) (children : List Node) (text : String) {localName : String}
    (hcolon : ':' ∉ localName.toList) (hxmlns : localName ≠ "xmlns") : (tag.node around children text).attr? localName =
      (tag.written.find? fun a => decide (IsTakenFor around localName a.1)).map (·.2) := by
  have htaken (a : String × String) : (¬ Declares a.1 ∧
      (prefixOf? a.1).bind (namespaceIn around) = none ∧ localPart a.1 = localName) ↔ _ :=
    (isTakenFor_iff hcolon hxmlns).symm
  unfold Node.attr? node
  dsimp only
  rw [List.find?_map, List.find?_filter, Option.map_map]
  simp only [Function.comp_def, decide_eq_true_eq, Bool.and_eq_true, Option.isNone_iff_eq_none, beq_iff_eq, htaken]

/-- An attribute without a prefix is found exactly if it is written, unless the first one that is taken for it has
another value. -/
theorem attr?_written_iff {bytes : ByteArray} {root n : Node} (h : parse bytes = .ok root) {i : Nat}
    (hn : root.descendants[i]? = some n) : ∃ tag around, (documentTags bytes)[i]? = some (tag :: around) ∧
      ∀ localName, ':' ∉ localName.toList → localName ≠ "xmlns" →
        ((∀ value, n.attr? localName = some value ↔ (localName, value) ∈ tag.written) ↔
          ∀ key value,
            tag.written.find? (fun a => decide (IsTakenFor (tag :: around) localName a.1)) = some (key, value) →
            (localName, value) ∈ tag.written) := by
  obtain ⟨tag, around, children, text, htags, rfl⟩ := exists_tag_of_parse h hn
  have hdistinct := distinct_of_mem_documentTags (List.mem_of_getElem? htags) List.mem_cons_self
  refine ⟨tag, around, htags, fun localName hcolon hxmlns => ?_⟩
  rw [tag.attr?_node (tag :: around) children text hcolon hxmlns]
  have hwritten {value : String} (hmem : (localName, value) ∈ tag.written) :
      tag.written.find? (fun a => decide (IsTakenFor (tag :: around) localName a.1)) ≠ none := fun hnone =>
    List.find?_eq_none.1 hnone _ hmem (decide_eq_true (.inl rfl))
  cases hfind : tag.written.find? fun a => decide (IsTakenFor (tag :: around) localName a.1) with
  | none => exact iff_of_true (fun value => iff_of_false nofun fun hmem => hwritten hmem hfind) nofun
  | some a =>
    constructor
    · intro hall key value hfind
      cases hfind
      exact (hall value).1 rfl
    · intro hfirst value
      have hmem := hfirst a.1 a.2 rfl
      refine ⟨fun hvalue => Option.some_inj.1 hvalue ▸ hmem, fun hvalue => ?_⟩
      exact congrArg some (hdistinct.value_eq hmem hvalue)

/-- A document with one element. Of three attributes with one local name, the first has a prefix that is not declared,
the second one that is, and the third has none. -/
def straying : String := "<a xmlns:q=\"u\" p:b=\"c\" q:b=\"e\" b=\"d\"/>"

theorem parse_straying : (∃ root n, parse straying.toUTF8 = .ok root ∧ root.descendants[0]? = some n ∧
    n.attr? "b" = some "c") ∧ documentTags straying.toUTF8 =
      [[⟨"a", some [("xmlns:q", "u"), ("p:b", "c"), ("q:b", "e"), ("b", "d")]⟩]] := by
  constructor
  · obtain ⟨root, hroot, n, hn, hfound⟩ := exists_parse_toUTF8 straying
      (fun root => ∃ n ∈ root.descendants[0]?, n.attr? "b" = some "c") (by decide +kernel) (by decide +kernel)
    exact ⟨root, n, hroot, hn, hfound⟩
  · unfold documentTags
    rw [events?_toUTF8 (by decide +kernel)]
    decide +kernel

/-- The attribute whose prefix stands for nothing is found, although one without a prefix is written. -/
theorem attr?_written_straying : ∃ root n, parse straying.toUTF8 = .ok root ∧ root.descendants[0]? = some n ∧
    n.attr? "b" = some "c" ∧ ∃ tag around, (documentTags straying.toUTF8)[0]? = some (tag :: around) ∧
      ∀ localName, ':' ∉ localName.toList → localName ≠ "xmlns" →
        ((∀ value, n.attr? localName = some value ↔ (localName, value) ∈ tag.written) ↔
          ∀ key value,
            tag.written.find? (fun a => decide (IsTakenFor (tag :: around) localName a.1)) = some (key, value) →
            (localName, value) ∈ tag.written) := by
  obtain ⟨⟨root, n, hroot, hn, hfound⟩, -⟩ := parse_straying
  exact ⟨root, n, hroot, hn, hfound, attr?_written_iff hroot hn⟩

/-- An attribute may be found under a name under which none is written, or another. -/
theorem not_forall_attr?_written : ¬ ∀ (bytes : ByteArray) (root n : Node) (i : Nat) (tag : Tag) (around : List Tag)
    (localName value : String), parse bytes = .ok root → root.descendants[i]? = some n →
    (documentTags bytes)[i]? = some (tag :: around) → ':' ∉ localName.toList → localName ≠ "xmlns" →
    (n.attr? localName = some value ↔ (localName, value) ∈ tag.written) := by
  intro h
  obtain ⟨⟨root, n, hroot, hn, hfound⟩, htags⟩ := parse_straying
  have hwritten := (h _ root n 0 _ _ "b" "c" hroot hn (by rw [htags]; rfl) (by decide) (by decide)).1 hfound
  exact absurd hwritten (by decide)

end TaxonomySet.Markup
