import TaxonomySet.Markup.Tree
import TaxonomySet.Proofs.Text

namespace TaxonomySet.Markup

/-- What stands before the first colon of a name, if it has one. -/
def prefixOf? (name : String) : Option String :=
  if ':' ∈ name.toList then some (String.ofList (name.toList.takeWhile (· != ':'))) else none

/-- What stands behind the first colon of a name; the whole name if it has none. -/
def localPart (name : String) : String :=
  if ':' ∈ name.toList then String.ofList (name.toList.dropWhile (· != ':')).tail else name

theorem splitName_eq_some_iff {name pre localName : String} :
    splitName name = (some pre, localName) ↔ name = pre ++ ":" ++ localName ∧ ':' ∉ pre.toList := by
  unfold splitName
  cases hcut : Text.cut? ':' name with
  | none =>
    refine iff_of_false nofun fun ⟨hname, _⟩ => Text.cut?_eq_none_iff.1 hcut ?_
    rw [hname]
    simp
  | some p =>
    have hparts : Text.cut? ':' name = some (pre, localName) ↔ _ := Text.cut?_eq_some_iff
    rw [hcut] at hparts
    rw [← show String.singleton ':' = ":" from rfl, ← hparts]
    simp [Prod.ext_iff]

theorem splitName_eq_none_iff {name localName : String} :
    splitName name = (none, localName) ↔ name = localName ∧ ':' ∉ name.toList := by
  unfold splitName
  rw [← Text.cut?_eq_none_iff]
  cases Text.cut? ':' name <;> simp

/-- Where the first character of a kind is, a text is what stands before it, the character, and what stands behind
it. -/
theorem takeWhile_append_cons_tail_dropWhile {c : Char} {cs : List Char} (h : c ∈ cs) :
    cs.takeWhile (· != c) ++ c :: (cs.dropWhile (· != c)).tail = cs := by
  induction cs with
  | nil => cases h
  | cons d cs ih =>
    by_cases hd : d = c
    · simp [hd]
    · have hrest := ih ((List.mem_cons.1 h).resolve_left (Ne.symm hd))
      simpa [hd] using hrest

theorem splitName_eq (name : String) : splitName name = (prefixOf? name, localPart name) := by
  unfold prefixOf? localPart
  by_cases h : ':' ∈ name.toList
  · rw [if_pos h, if_pos h, splitName_eq_some_iff, ← String.toList_inj]
    have hcut := takeWhile_append_cons_tail_dropWhile h
    have hbefore : ':' ∉ name.toList.takeWhile (· != ':') := fun hmem => by
      simpa using List.all_eq_true.1 List.all_takeWhile _ hmem
    simpa using ⟨hcut.symm, hbefore⟩
  · rw [if_neg h, if_neg h]
    exact splitName_eq_none_iff.2 ⟨rfl, h⟩

theorem prefixOf?_eq (name : String) : prefixOf? name = (splitName name).1 := by
  rw [splitName_eq]

theorem localPart_eq (name : String) : localPart name = (splitName name).2 := by
  rw [splitName_eq]

/-- Whether an attribute of a given key declares a namespace, the default one or that of a prefix. -/
def Declares (key : String) : Prop := key = "xmlns" ∨ "xmlns:".toList <+: key.toList

instance (key : String) : Decidable (Declares key) := inferInstanceAs (Decidable (_ ∨ _))

theorem declares_iff {key : String} : Declares key ↔ key = "xmlns" ∨ ∃ pre, key = "xmlns:" ++ pre := by
  unfold Declares
  rw [← List.isPrefixOf_iff_prefix, ← Text.startsWith_iff]
  rfl

theorem isDeclaration_eq (key : String) : isDeclaration key = decide (Declares key) := by
  unfold isDeclaration
  rw [Bool.eq_iff_iff, Bool.or_eq_true, beq_iff_eq, Text.startsWith_iff, decide_eq_true_iff, declares_iff]

/-- The attributes of a tag as they are written; none if they are malformed. -/
def Tag.written (tag : Tag) : List (String × String) := tag.attributes.getD []

/-- What a tag declares for a prefix; of two declarations the later counts. That of the default namespace is one for
the empty prefix. -/
def Tag.declared? (tag : Tag) (pre : String) : Option String :=
  (tag.written.reverse.find? fun a => a.1 = "xmlns:" ++ pre ∨ pre = "" ∧ a.1 = "xmlns").map (·.2)

/-- The namespace of a prefix within elements, the innermost first: what the nearest one that declares it says, unless
that is empty. One prefix is declared from the beginning. -/
def namespaceIn (around : List Tag) (pre : String) : Option String :=
  ((around.findSome? (·.declared? pre)).or (if pre = "xml" then some Vocabulary.xml else none)).filter (!·.isEmpty)

/-- What a tag declares, in the order written: what stands behind `xmlns:`, and the namespace. -/
def Tag.frame (tag : Tag) : List (String × String) :=
  (tag.written.filter (Declares ·.1)).map fun a => (String.ofList (a.1.toList.drop 6), a.2)

/-- The declarations within elements, the innermost first, of each that declares any. -/
def scopeIn (around : List Tag) : Scope := ⟨(around.map Tag.frame).filter (!·.isEmpty)⟩

theorem ofList_drop_append (pre : String) : String.ofList (("xmlns:" ++ pre).toList.drop 6) = pre := by
  rw [String.toList_append, List.drop_left' (by decide), String.ofList_toList]

/-- An attribute is a declaration for the prefix behind `xmlns:`. -/
theorem declarations_cons (a : String × String) (attributes : List (String × String)) :
    declarations (a :: attributes) =
      (if Declares a.1 then [(String.ofList (a.1.toList.drop 6), a.2)] else []) ++ declarations attributes := by
  obtain ⟨key, uri⟩ := a
  unfold declarations
  rw [List.filterMap_cons]
  dsimp only
  by_cases hdefault : key = "xmlns"
  · subst hdefault
    rw [if_pos rfl, if_pos (declares_iff.2 (.inl rfl))]
    rfl
  · rw [if_neg hdefault]
    cases hafter : Text.afterStart? "xmlns:" key with
    | none =>
      have hnot : ¬ Declares key := fun h => by
        obtain ⟨pre, rfl⟩ := (declares_iff.1 h).resolve_left hdefault
        rw [Text.afterStart?_eq_some_iff.2 rfl] at hafter
        cases hafter
      rw [if_neg hnot]
      rfl
    | some pre =>
      obtain rfl := Text.afterStart?_eq_some_iff.1 hafter
      rw [if_pos (declares_iff.2 (.inr ⟨pre, rfl⟩)), ofList_drop_append]
      rfl

theorem declarations_written (tag : Tag) : declarations tag.written = tag.frame := by
  unfold Tag.frame
  induction tag.written with
  | nil => rfl
  | cons a attributes ih =>
    rw [declarations_cons, ih, List.filter_cons]
    by_cases h : Declares a.1
    · rw [if_pos h, if_pos (decide_eq_true h)]
      rfl
    · rw [if_neg h, if_neg (by simpa using h)]
      rfl

theorem scopeIn_cons (tag : Tag) (around : List Tag) :
    scopeIn (tag :: around) = (scopeIn around).enter (declarations tag.written) := by
  unfold scopeIn Scope.enter
  rw [declarations_written, List.map_cons, List.filter_cons]
  cases tag.frame <;> rfl

/-- An attribute that declares a namespace does so for one prefix. -/
theorem declares_and_drop_eq_iff {key pre : String} :
    Declares key ∧ String.ofList (key.toList.drop 6) = pre ↔ key = "xmlns:" ++ pre ∨ pre = "" ∧ key = "xmlns" := by
  rw [declares_iff]
  constructor
  · rintro ⟨rfl | ⟨pre', rfl⟩, h⟩
    · exact .inr ⟨h.symm, rfl⟩
    · rw [ofList_drop_append] at h
      exact .inl (h ▸ rfl)
  · rintro (rfl | ⟨rfl, rfl⟩)
    · exact ⟨.inr ⟨pre, rfl⟩, ofList_drop_append pre⟩
    · exact ⟨.inl rfl, rfl⟩

theorem lookup_eq_find? {α : Type} (entries : List (String × α)) (key : String) :
    entries.lookup key = (entries.find? (·.1 = key)).map (·.2) := by
  induction entries with
  | nil => rfl
  | cons e entries ih =>
    rw [List.lookup_cons, ih, List.find?_cons]
    by_cases h : e.1 = key
    · simp [h]
    · have hne : (key == e.1) = false := beq_eq_false_iff_ne.2 (Ne.symm h)
      simp [h, hne]

theorem Tag.lookup_frame (tag : Tag) (pre : String) : tag.frame.reverse.lookup pre = tag.declared? pre := by
  unfold frame declared?
  rw [lookup_eq_find?, ← List.map_reverse, ← List.filter_reverse, List.find?_map, List.find?_filter, Option.map_map]
  simp only [Function.comp_def, ← declares_and_drop_eq_iff, Bool.decide_and, decide_eq_true_eq]

theorem declared?_scopeIn (around : List Tag) (pre : String) :
    (scopeIn around).declared? pre = around.findSome? (·.declared? pre) := by
  unfold scopeIn Scope.declared?
  induction around with
  | nil => rfl
  | cons tag around ih =>
    rw [List.findSome?_cons, ← ih, ← tag.lookup_frame, List.map_cons, List.filter_cons]
    cases tag.frame <;> rfl

theorem namespaceOf_scopeIn (around : List Tag) (pre : String) :
    (scopeIn around).namespaceOf pre = namespaceIn around pre := by
  unfold Scope.namespaceOf namespaceIn
  rw [declared?_scopeIn]
  cases around.findSome? (·.declared? pre) with
  | some uri =>
    rw [Option.some_or, Option.filter_some]
    dsimp only
    cases uri.isEmpty <;> rfl
  | none =>
    rw [Option.none_or]
    dsimp only
    split <;> rfl

end TaxonomySet.Markup
