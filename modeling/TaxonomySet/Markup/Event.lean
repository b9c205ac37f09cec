import TaxonomySet.Markup.Tag

namespace TaxonomySet.Markup

open Text

/-- One piece of markup. The text of a run is `none` if a reference in it means nothing. -/
inductive Event where
  | start (tag : Tag)
  | empty (tag : Tag)
  | close
  | text (content : Option String)
  | literal (content : String)
  | aside
  | malformed
deriving DecidableEq, Repr

/-- Reads up to the end of a piece of markup. `step` tells how each character changes the state,
or, by `none`, that the piece ends with it. -/
def readUntil? {σ : Type} (step : σ → Char → Option σ) : σ → List Char →
    Option (List Char × List Char)
  | _, [] => none
  | s, c :: cs =>
    match step s c with
    | none => some ([], cs)
    | some s' => (readUntil? step s' cs).map fun r => (c :: r.1, r.2)

theorem length_of_readUntil? {σ : Type} {step : σ → Char → Option σ} {s : σ} {cs a b : List Char}
    (h : readUntil? step s cs = some (a, b)) : b.length < cs.length := by
  induction cs generalizing s a with
  | nil => simp [readUntil?] at h
  | cons c cs ih =>
    unfold readUntil? at h
    split at h
    · simp_all
    · obtain ⟨r, hr, heq⟩ := Option.map_eq_some_iff.1 h
      cases heq
      have := ih hr
      simp
      omega

/-- A tag ends at the first `>` outside quotes; the state is the open quote. -/
def tagStep (quote : Option Char) (c : Char) : Option (Option Char) :=
  match quote with
  | none => if c == '>' then none else if c == '\x22' || c == '\x27' then some (some c) else some none
  | some q => if c == q then some none else some (some q)

/-- A processing instruction ends at the first `?>`; the state is the last character. -/
def instructionStep (last : Option Char) (c : Char) : Option (Option Char) :=
  if c == '>' && last == some '?' then none else some (some c)

/-- A comment ends at the first `-->` behind its four first characters; the state is what was
read, the last character first. -/
def commentStep (seen : List Char) (c : Char) : Option (List Char) :=
  match c, seen with
  | '>', '-' :: '-' :: _ :: _ :: _ :: _ => none
  | c, seen => some (c :: seen)

/-- A literal section ends at the first `]]>`; the state is the last two characters. -/
def literalStep (last : Option Char × Option Char) (c : Char) : Option (Option Char × Option Char) :=
  if c == '>' && last.1 == some ']' && last.2 == some ']' then none else some (some c, last.1)

/-- A document type declaration ends at the `>` that matches its `<`; the state counts the open
brackets within it. -/
def doctypeStep (depth : Nat) (c : Char) : Option Nat :=
  if c == '<' then some (depth + 1)
  else if c == '>' then match depth with
    | 0 => none
    | d + 1 => some d
  else some depth

/-- Whether a text begins with another, whatever the case of its letters. -/
def beginsWith (start : String) (cs : List Char) : Bool :=
  (start.toList.map Char.toLower).isPrefixOf (cs.map Char.toLower)

/-- The event of a piece that starts with `<!`, given what stands between `<` and `>`. Only a document
type declaration may be written in small letters. -/
def bangEvent (content : List Char) : Event :=
  if "!--".toList.isPrefixOf content then .aside
  else if "![CDATA[".toList.isPrefixOf content then
    .literal (String.ofList ((content.drop 8).take (content.length - 10)))
  else if beginsWith "!DOCTYPE" content then
    if (content.drop 8).all isMarkupBlank then .malformed else .aside
  else .malformed

/-- The event of a piece that starts with `<?`. -/
def instructionEvent (content : List Char) : Event := if content.length < 2 then .malformed else .aside

/-- The name in an end tag, without the blanks behind it. -/
def endName (content : List Char) : String :=
  String.ofList (if content.all isMarkupBlank then content else trimEnd isMarkupBlank content)

/-- The event of a tag, given what stands between `<` and `>`, and the names open after it. An end
tag must name the innermost open element. -/
def tagEvent (opened : List String) (content : List Char) : Event × List String :=
  match content with
  | '/' :: content =>
    match opened with
    | [] => (.malformed, [])
    | n :: outer => if endName content = n then (.close, outer) else (.malformed, outer)
  | _ =>
    match dropEnd? ['/'] content with
    | some content => (.empty (Tag.ofContent content), opened)
    | none => (.start (Tag.ofContent content), (Tag.ofContent content).name :: opened)

/-- The event of a piece whose content and rest were found, with the names open after it and the
rest of the text; without an end the piece is malformed. -/
def pieceEvent (opened : List String) (found : Option (List Char × List Char))
    (event : List Char → Event × List String) : Event × List String × List Char :=
  match found with
  | some (content, rest) => ((event content).1, (event content).2, rest)
  | none => (.malformed, opened, [])

/-- Reads one piece of markup behind its `<`, given the names of the open elements, the innermost
first. Returns the event, the names then open, and the rest of the text. -/
def readMarkup (opened : List String) (cs : List Char) : Event × List String × List Char :=
  match cs with
  | '!' :: '[' :: _ =>
    pieceEvent opened (readUntil? literalStep (none, none) cs) fun c => (bangEvent c, opened)
  | '!' :: '-' :: _ => pieceEvent opened (readUntil? commentStep [] cs) fun c => (bangEvent c, opened)
  | '!' :: 'D' :: _ | '!' :: 'd' :: _ =>
    pieceEvent opened (readUntil? doctypeStep 0 cs) fun c => (bangEvent c, opened)
  | '!' :: _ => (.malformed, opened, [])
  | '?' :: _ =>
    pieceEvent opened (readUntil? instructionStep none cs) fun c => (instructionEvent c, opened)
  | _ => pieceEvent opened (readUntil? tagStep none cs) (tagEvent opened)

theorem length_pieceEvent {σ : Type} {step : σ → Char → Option σ} {s : σ} (opened : List String)
    (cs : List Char) (event : List Char → Event × List String) :
    (pieceEvent opened (readUntil? step s cs) event).2.2.length ≤ cs.length := by
  cases h : readUntil? step s cs with
  | none => exact Nat.zero_le _
  | some r => exact Nat.le_of_lt (length_of_readUntil? (a := r.1) (b := r.2) h)

theorem length_readMarkup (opened : List String) (cs : List Char) :
    (readMarkup opened cs).2.2.length ≤ cs.length := by
  unfold readMarkup
  split
  · exact length_pieceEvent opened _ _
  · exact length_pieceEvent opened _ _
  · exact length_pieceEvent opened _ _
  · exact length_pieceEvent opened _ _
  · exact Nat.zero_le _
  · exact length_pieceEvent opened _ _
  · exact length_pieceEvent opened _ _

/-- The events of a text, given the names of the open elements. Blanks at both ends of a run of text do not belong to
it, and a run of blanks alone is none. Where the text is no markup, the last event is `malformed`. -/
def scan (opened : List String) (cs : List Char) : List Event :=
  match _h : cs.dropWhile isMarkupBlank with
  | [] => []
  | '<' :: rest =>
    match _hm : readMarkup opened rest with
    | (.malformed, _, _) => [.malformed]
    | (event, opened', rest') => event :: scan opened' rest'
  | c :: rest =>
    let run := (c :: rest).takeWhile (· != '<')
    .text (unescape? (trimEnd isMarkupBlank run)) :: scan opened (rest.dropWhile (· != '<'))
termination_by cs.length
decreasing_by
  · have h₁ := length_dropWhile_le isMarkupBlank cs
    have h₂ := length_readMarkup opened rest
    rw [_h] at h₁
    rw [_hm] at h₂
    simp at h₁ h₂
    omega
  · have h₁ := length_dropWhile_le isMarkupBlank cs
    have h₂ := length_dropWhile_le (· != '<') rest
    rw [_h] at h₁
    simp at h₁
    omega

end TaxonomySet.Markup
