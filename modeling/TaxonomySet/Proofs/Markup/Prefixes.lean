import TaxonomySet.Proofs.Markup.Attributes

namespace TaxonomySet.Markup

open Text

section

variable {tag : Tag} {pre uri : String}

theorem Tag.mem_frame_iff (hpre : pre ≠ "") : (pre, uri) ∈ tag.frame ↔ ("xmlns:" ++ pre, uri) ∈ tag.written := by
  unfold frame
  rw [List.mem_map]
  constructor
  · rintro ⟨⟨key, value⟩, hmem, h⟩
    obtain ⟨hwritten, hdeclares⟩ := List.mem_filter.1 hmem
    obtain ⟨hkey, rfl⟩ := Prod.mk.inj h
    obtain rfl | ⟨hdefault, -⟩ := declares_and_drop_eq_iff.1 ⟨of_decide_eq_true hdeclares, hkey⟩
    · exact hwritten
    · exact absurd hdefault hpre
  · intro hmem
    obtain ⟨hdeclares, hkey⟩ := declares_and_drop_eq_iff.2 (.inl (rfl : "xmlns:" ++ pre = _))
    exact ⟨_, List.mem_filter.2 ⟨hmem, decide_eq_true hdeclares⟩, congrArg (·, uri) hkey⟩

/-- Since no attribute is written twice in a tag, it declares a prefix for one namespace only. -/
theorem Tag.declared?_eq_some_iff (hdistinct : tag.Distinct) (hpre : pre ≠ "") :
    tag.declared? pre = some uri ↔ ("xmlns:" ++ pre, uri) ∈ tag.written := by
  have hmem {uri : String} (h : tag.declared? pre = some uri) : ("xmlns:" ++ pre, uri) ∈ tag.written := by
    obtain ⟨⟨key, value⟩, hfind, rfl⟩ := Option.map_eq_some_iff.1 h
    have hkey := List.find?_some hfind
    obtain rfl | ⟨hdefault, -⟩ := of_decide_eq_true hkey
    · exact List.mem_reverse.1 (List.mem_of_find?_eq_some hfind)
    · exact absurd hdefault hpre
  refine ⟨hmem, fun h => ?_⟩
  cases hdeclared : tag.declared? pre with
  | none =>
    have hnot := List.find?_eq_none.1 (Option.map_eq_none_iff.1 hdeclared) _ (List.mem_reverse.2 h)
    exact absurd (decide_eq_true (.inl rfl)) hnot
  | some uri' => exact congrArg some (hdistinct.value_eq (hmem hdeclared) h)

/-- The first prefix that a tag declares for a namespace. -/
def Tag.prefixFor? (tag : Tag) (uri : String) : Option String :=
  (tag.frame.find? fun d => d.2 = uri ∧ d.1 ≠ "").map (·.1)

theorem prefixFor_scopeIn (around : List Tag) (uri : String) :
    (scopeIn around).prefixFor uri = around.findSome? (·.prefixFor? uri) := by
  have htest : (fun d : String × String => d.2 == uri && !d.1.isEmpty) = fun d => decide (d.2 = uri ∧ d.1 ≠ "") := by
    funext d
    rw [Bool.eq_iff_iff]
    simp
  unfold scopeIn Scope.prefixFor
  rw [htest]
  induction around with
  | nil => rfl
  | cons tag around ih =>
    rw [List.findSome?_cons, ← ih, List.map_cons, List.filter_cons]
    unfold Tag.prefixFor?
    cases tag.frame <;> rfl

theorem Tag.declared?_of_prefixFor? (hdistinct : tag.Distinct) (h : tag.prefixFor? uri = some pre) :
    pre ≠ "" ∧ tag.declared? pre = some uri := by
  obtain ⟨d, hd, rfl⟩ := Option.map_eq_some_iff.1 h
  have hfound := List.find?_some hd
  obtain ⟨rfl, hpre⟩ := of_decide_eq_true hfound
  exact ⟨hpre, (Tag.declared?_eq_some_iff hdistinct hpre).2 ((Tag.mem_frame_iff hpre).1 (List.mem_of_find?_eq_some hd))⟩

theorem Tag.prefixFor?_ne_none (hdistinct : tag.Distinct) (hpre : pre ≠ "")
    (h : tag.declared? pre = some uri) : tag.prefixFor? uri ≠ none := by
  have hmem := (Tag.mem_frame_iff hpre).2 ((Tag.declared?_eq_some_iff hdistinct hpre).1 h)
  intro hnone
  have hall := List.find?_eq_none.1 (Option.map_eq_none_iff.1 hnone) _ hmem
  exact hall (decide_eq_true ⟨rfl, hpre⟩)

end

section

variable {around : List Tag} {pre uri : String}

theorem namespaceIn_eq_some_iff {declared : String} (h : around.findSome? (·.declared? pre) = some declared) :
    namespaceIn around pre = some uri ↔ declared = uri ∧ uri ≠ "" := by
  unfold namespaceIn
  rw [h, Option.some_or, Option.filter_eq_some_iff, Option.some_inj]
  simp

/-- Where no nearer element declares a prefix for the namespace, it stands for it only if none declares it at all. -/
theorem namespaceIn_append_iff {inner outer : List Tag} {tag : Tag} (huri : uri ≠ "")
    (htag : tag.declared? pre = some uri) (hinner : ∀ t ∈ inner, t.declared? pre ≠ some uri) :
    namespaceIn (inner ++ tag :: outer) pre = some uri ↔ ∀ t ∈ inner, t.declared? pre = none := by
  cases hfind : inner.findSome? (·.declared? pre) with
  | none =>
    have hfirst : (inner ++ tag :: outer).findSome? (·.declared? pre) = some uri := by
      rw [List.findSome?_append, hfind, Option.none_or, List.findSome?_cons, htag]
    rw [namespaceIn_eq_some_iff hfirst]
    exact iff_of_true ⟨rfl, huri⟩ (List.findSome?_eq_none_iff.1 hfind)
  | some declared =>
    have hfirst : (inner ++ tag :: outer).findSome? (·.declared? pre) = some declared := by
      rw [List.findSome?_append, hfind, Option.some_or]
    obtain ⟨t, ht, hdeclared⟩ := List.exists_of_findSome?_eq_some hfind
    rw [namespaceIn_eq_some_iff hfirst]
    refine iff_of_false (fun h => hinner t ht (h.1 ▸ hdeclared)) fun h => ?_
    rw [h t ht] at hdeclared
    cases hdeclared

end

/-- A prefix without the blanks at its start. -/
def trimPrefix (pre : String) : String := String.ofList (pre.toList.dropWhile isBlank)

theorem trim_append_colon (pre localName : String) (hlast : ∀ c ∈ localName.toList.getLast?, isBlank c = false) :
    trim (pre ++ ":" ++ localName) = trimPrefix pre ++ ":" ++ localName := by
  have hblank : ∀ c ∈ pre.toList.takeWhile isBlank, isBlank c = true := fun c hc =>
    List.all_eq_true.1 List.all_takeWhile c hc
  have hhead : ∀ c ∈ (pre.toList.dropWhile isBlank ++ ':' :: localName.toList).head?, isBlank c = false := by
    cases hdrop : pre.toList.dropWhile isBlank with
    | nil =>
      rintro c ⟨⟩
      decide
    | cons d rest =>
      rintro c ⟨⟩
      simpa [hdrop] using List.head_dropWhile_not isBlank (l := pre.toList) (by simp [hdrop])
  have hend : ∀ c ∈ (pre.toList.dropWhile isBlank ++ ':' :: localName.toList).getLast?, isBlank c = false := by
    rw [List.getLast?_append, List.getLast?_cons, Option.some_or]
    rintro c ⟨⟩
    cases hlocal : localName.toList.getLast? with
    | none => decide
    | some d => exact hlast d hlocal
  have htrim := @trimChars_isBlank _ _ [] hblank (by simp) hhead hend (by simp)
  rw [← List.append_assoc, List.takeWhile_append_dropWhile, List.append_nil] at htrim
  unfold trim trimPrefix
  rw [← String.toList_inj]
  simpa using htrim

theorem colon_mem_trimPrefix (pre : String) : ':' ∈ (trimPrefix pre).toList ↔ ':' ∈ pre.toList := by
  have hblank : ':' ∉ pre.toList.takeWhile isBlank := fun h => by
    have hcolon := List.all_eq_true.1 (List.all_takeWhile (p := isBlank)) _ h
    exact absurd hcolon (by decide)
  unfold trimPrefix
  rw [String.toList_ofList, ← List.takeWhile_append_dropWhile (p := isBlank) (l := pre.toList), List.mem_append,
    or_iff_right hblank, List.takeWhile_append_dropWhile]

variable {n : Node} {pre localName uri : String}

/-- A name with a prefix is resolved by what stands before its first colon. -/
theorem Node.resolveName?_eq_some_iff (hlast : ∀ c ∈ localName.toList.getLast?, isBlank c = false) :
    n.resolveName? (pre ++ ":" ++ localName) = some ⟨uri, localName⟩ ↔
      ':' ∉ pre.toList ∧ n.scope.namespaceOf (trimPrefix pre) = some uri := by
  unfold resolveName?
  rw [trim_append_colon pre localName hlast, ← colon_mem_trimPrefix]
  rcases hsplit : splitName (trimPrefix pre ++ ":" ++ localName) with ⟨_ | first, rest⟩
  · exact absurd (by simp) (splitName_eq_none_iff.1 hsplit).2
  · obtain ⟨hname, hfirst⟩ := splitName_eq_some_iff.1 hsplit
    by_cases hcolon : ':' ∈ (trimPrefix pre).toList
    · refine iff_of_false (fun h => ?_) fun h => h.1 hcolon
      -- the local name would begin at the first colon and at a later one
      obtain ⟨ns, -, hns⟩ := Option.map_eq_some_iff.1 h
      cases hns
      rw [String.append_assoc, String.append_assoc, String.append_left_inj] at hname
      exact hfirst (hname ▸ hcolon)
    · rw [splitName_eq_some_iff.2 ⟨rfl, hcolon⟩] at hsplit
      cases hsplit
      simp [hcolon]

/-- When the prefix that is found for a namespace leads back to it. It is declared for the namespace by the nearest
element that declares any for it. A name that is written with it is one in the namespace exactly if the prefix has no
colon and, without blanks at its start, stands for the namespace; and it stands for the namespace exactly if no element
nearer than the one that declares it declares it again. A prefix is found if any declared one stands for the
namespace. -/
theorem resolveName?_prefixFor_iff {bytes : ByteArray} {root n : Node} (h : parse bytes = .ok root) {i : Nat}
    (hn : root.descendants[i]? = some n) : ∃ tag around, (documentTags bytes)[i]? = some (tag :: around) ∧
      ∀ uri, uri ≠ "" →
        (∀ pre, n.scope.prefixFor uri = some pre → ∃ inner declaring outer,
          tag :: around = inner ++ declaring :: outer ∧ declaring.declared? pre = some uri ∧
          (∀ t ∈ inner, ∀ other, other ≠ "" → t.declared? other ≠ some uri) ∧
          (namespaceIn (tag :: around) pre = some uri ↔ ∀ t ∈ inner, t.declared? pre = none) ∧
          ∀ localName, (∀ c ∈ localName.toList.getLast?, isBlank c = false) →
            (n.resolveName? (pre ++ ":" ++ localName) = some ⟨uri, localName⟩ ↔
              ':' ∉ pre.toList ∧ namespaceIn (tag :: around) (trimPrefix pre) = some uri)) ∧
        ∀ pre, pre ≠ "" → (∃ t ∈ tag :: around, t.declared? pre ≠ none) → n.scope.namespaceOf pre = some uri →
          n.scope.prefixFor uri ≠ none := by
  obtain ⟨tag, around, children, text, htags, rfl⟩ := exists_tag_of_parse h hn
  have hdistinct {t : Tag} (ht : t ∈ tag :: around) : t.Distinct :=
    distinct_of_mem_documentTags (List.mem_of_getElem? htags) ht
  have hscope : (tag.node (tag :: around) children text).scope = scopeIn (tag :: around) := rfl
  refine ⟨tag, around, htags, fun uri huri => ⟨fun pre hpre => ?_, fun pre hpre hdeclared hstands => ?_⟩⟩
  · rw [hscope, prefixFor_scopeIn] at hpre
    obtain ⟨inner, declaring, outer, heq, hfound, hinner⟩ := List.findSome?_eq_some_iff.1 hpre
    have hmem {t : Tag} (ht : t ∈ inner) : t ∈ tag :: around := heq ▸ List.mem_append_left _ ht
    obtain ⟨hne, hdeclares⟩ := Tag.declared?_of_prefixFor? (hdistinct (heq ▸ by simp)) hfound
    have hnearer : ∀ t ∈ inner, ∀ other, other ≠ "" → t.declared? other ≠ some uri := fun t ht other hother hagain =>
      Tag.prefixFor?_ne_none (hdistinct (hmem ht)) hother hagain (hinner t ht)
    refine ⟨inner, declaring, outer, heq, hdeclares, hnearer, ?_, fun localName hlast => ?_⟩
    · rw [heq]
      exact namespaceIn_append_iff huri hdeclares fun t ht => hnearer t ht pre hne
    · rw [Node.resolveName?_eq_some_iff hlast, hscope, namespaceOf_scopeIn]
  · rw [hscope, namespaceOf_scopeIn] at hstands
    rw [hscope, prefixFor_scopeIn]
    cases hfind : (tag :: around).findSome? (·.declared? pre) with
    | none =>
      obtain ⟨t, ht, hsome⟩ := hdeclared
      exact absurd (List.findSome?_eq_none_iff.1 hfind t ht) hsome
    | some declared =>
      obtain ⟨rfl, -⟩ := (namespaceIn_eq_some_iff hfind).1 hstands
      obtain ⟨t, ht, htdeclared⟩ := List.exists_of_findSome?_eq_some hfind
      exact fun hnone => Tag.prefixFor?_ne_none (hdistinct ht) hpre htdeclared (List.findSome?_eq_none_iff.1 hnone t ht)

/-- A document in which an inner element declares a prefix of the outer one again. -/
def redeclaring : String := "<a xmlns:p=\"u\"><b xmlns:p=\"v\"/></a>"

theorem parse_redeclaring : ∃ root n, parse redeclaring.toUTF8 = .ok root ∧ root.descendants[1]? = some n ∧
    n.scope.prefixFor "u" = some "p" ∧ n.resolveName? ("p" ++ ":" ++ "x") = some ⟨"v", "x"⟩ := by
  obtain ⟨root, hroot, n, hn, hfound⟩ := exists_parse_toUTF8 redeclaring
    (fun root => ∃ n ∈ root.descendants[1]?, n.scope.prefixFor "u" = some "p" ∧
      n.resolveName? ("p" ++ ":" ++ "x") = some ⟨"v", "x"⟩) (by decide +kernel) (by decide +kernel)
  exact ⟨root, n, hroot, hn, hfound⟩

/-- The outer declaration is found, but the prefix stands for what the inner one says. -/
theorem resolveName?_prefixFor_redeclaring : ∃ root n, parse redeclaring.toUTF8 = .ok root ∧
    root.descendants[1]? = some n ∧ n.scope.prefixFor "u" = some "p" ∧
    n.resolveName? ("p" ++ ":" ++ "x") = some ⟨"v", "x"⟩ ∧
    ∃ tag around, (documentTags redeclaring.toUTF8)[1]? = some (tag :: around) ∧
      ∀ uri, uri ≠ "" →
        (∀ pre, n.scope.prefixFor uri = some pre → ∃ inner declaring outer,
          tag :: around = inner ++ declaring :: outer ∧ declaring.declared? pre = some uri ∧
          (∀ t ∈ inner, ∀ other, other ≠ "" → t.declared? other ≠ some uri) ∧
          (namespaceIn (tag :: around) pre = some uri ↔ ∀ t ∈ inner, t.declared? pre = none) ∧
          ∀ localName, (∀ c ∈ localName.toList.getLast?, isBlank c = false) →
            (n.resolveName? (pre ++ ":" ++ localName) = some ⟨uri, localName⟩ ↔
              ':' ∉ pre.toList ∧ namespaceIn (tag :: around) (trimPrefix pre) = some uri)) ∧
        ∀ pre, pre ≠ "" → (∃ t ∈ tag :: around, t.declared? pre ≠ none) → n.scope.namespaceOf pre = some uri →
          n.scope.prefixFor uri ≠ none := by
  obtain ⟨root, n, hroot, hn, hfor, hname⟩ := parse_redeclaring
  exact ⟨root, n, hroot, hn, hfor, hname, resolveName?_prefixFor_iff hroot hn⟩

/-- A name with the prefix that is found for a namespace need not be one in the namespace. -/
theorem not_forall_resolveName?_prefixFor : ¬ ∀ (bytes : ByteArray) (root n : Node) (uri pre localName : String),
    parse bytes = .ok root → n ∈ root.descendants → uri ≠ "" → n.scope.prefixFor uri = some pre →
    (∀ c ∈ localName.toList, c ≠ ':' ∧ isBlank c = false) →
    n.resolveName? (pre ++ ":" ++ localName) = some ⟨uri, localName⟩ := by
  intro h
  obtain ⟨root, n, hroot, hn, hfor, hname⟩ := parse_redeclaring
  have hback := h _ root n "u" "p" "x" hroot (List.mem_of_getElem? hn) (by decide) hfor (by simp [isBlank])
  rw [hname] at hback
  exact absurd hback (by decide)

end TaxonomySet.Markup
