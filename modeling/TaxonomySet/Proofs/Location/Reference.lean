import TaxonomySet.Proofs.Location

namespace TaxonomySet.Location

open Text

/-- Whether a reference is relative to the directory of the document that holds it. -/
structure IsRelative (reference : String) : Prop where
  ne_empty : reference ≠ ""
  not_addressed : ¬ separator <:+: reference.toList
  not_absolute : isAbsolute reference.toList = false

/-- Whether a path is a directory: it ends with a slash, unless it is empty. -/
def IsDirectory (path : List Char) : Prop := path = [] ∨ ∃ up, path = up ++ ['/']

/-- Whether a segment is an ordinary name. -/
def IsName (segment : List Char) : Prop := '/' ∉ segment ∧ segment ≠ [] ∧ segment ≠ ['.'] ∧ segment ≠ ['.', '.']

instance : DecidablePred IsName := fun segment =>
  inferInstanceAs (Decidable ('/' ∉ segment ∧ segment ≠ [] ∧ segment ≠ ['.'] ∧ segment ≠ ['.', '.']))

variable {directory name rest : List Char}

theorem throughLast_append (hdirectory : IsDirectory directory) (hname : '/' ∉ name) :
    throughLast '/' (directory ++ name) = directory := by
  have hpos : ∀ c ∈ name.reverse, (c != '/') = true := fun c hc =>
    bne_iff_ne.2 fun h => hname (h ▸ List.mem_reverse.1 hc)
  unfold throughLast
  rw [List.reverse_append, List.dropWhile_append_of_pos hpos]
  rcases hdirectory with rfl | ⟨up, rfl⟩
  · rfl
  · rw [List.reverse_concat, List.dropWhile_cons_of_neg (by simp), List.reverse_cons, List.reverse_reverse]

/-- A path is a directory and a name in it. -/
theorem exists_append_throughLast (path : List Char) :
    IsDirectory (throughLast '/' path) ∧ ∃ name, path = throughLast '/' path ++ name ∧ '/' ∉ name := by
  refine ⟨?_, (path.reverse.takeWhile (· != '/')).reverse, ?_, fun hmem => ?_⟩
  · unfold throughLast IsDirectory
    cases hdrop : path.reverse.dropWhile (· != '/') with
    | nil => exact .inl rfl
    | cons c up =>
      have hc := List.head_dropWhile_not (· != '/') (l := path.reverse) (by simp [hdrop])
      obtain rfl : c = '/' := by simpa [hdrop] using hc
      exact .inr ⟨up.reverse, List.reverse_cons⟩
  · unfold throughLast
    rw [← List.reverse_append, List.takeWhile_append_dropWhile, List.reverse_reverse]
  · simpa using List.all_eq_true.1 (List.all_takeWhile (p := (· != '/'))) _ (List.mem_reverse.1 hmem)

theorem isAbsolute_append (hrest : isAbsolute rest = false) :
    isAbsolute (directory ++ rest) = isAbsolute directory := by
  cases directory with
  | nil => exact hrest
  | cons c directory => rfl

theorem isAbsolute_eq_false_of_not_mem (h : '/' ∉ name) : isAbsolute name = false := by
  cases name with
  | nil => rfl
  | cons c name => exact beq_false_of_ne fun heq => h (Option.some.inj heq ▸ List.mem_cons_self)

theorem isAbsolute_throughLast (path : List Char) : isAbsolute (throughLast '/' path) = isAbsolute path := by
  obtain ⟨-, name, hpath, hname⟩ := exists_append_throughLast path
  rw [← isAbsolute_append (isAbsolute_eq_false_of_not_mem hname), ← hpath]

/-- The directory of a location is that of its path. -/
theorem throughLast_append_of_isAbsolute {path : List Char} (server : List Char) (hpath : isAbsolute path = true) :
    throughLast '/' (server ++ path) = server ++ throughLast '/' path := by
  obtain ⟨hdirectory, name, heq, hname⟩ := exists_append_throughLast path
  rw [heq, ← List.append_assoc, throughLast_append _ hname, throughLast_append hdirectory hname]
  rcases hdirectory with hnil | ⟨up, hup⟩
  · rw [← isAbsolute_throughLast, hnil] at hpath
    cases hpath
  · exact .inr ⟨server ++ up, by rw [hup, List.append_assoc]⟩

theorem foldl_enter_append (hdirectory : IsDirectory directory) (absolute : Bool) (rest : List Char) :
    (pieces '/' (directory ++ rest)).foldl (enter absolute) [] =
      (pieces '/' rest).foldl (enter absolute) ((pieces '/' directory).foldl (enter absolute) []) := by
  have hblank (entered : List (List Char)) : enter absolute entered [] = entered := if_pos (.inl rfl)
  rcases hdirectory with rfl | ⟨up, rfl⟩
  · rw [List.nil_append, pieces, List.foldl_cons, List.foldl_nil, hblank]
  · rw [List.append_assoc, List.singleton_append, pieces_append, pieces_append, List.foldl_append, List.foldl_append,
      pieces, List.foldl_cons, List.foldl_nil, hblank]

/-- The segments of a reference are entered after those of the directory. -/
theorem segments_append (hdirectory : IsDirectory directory) (hrest : isAbsolute rest = false) :
    segments (directory ++ rest) =
      ((pieces '/' rest).foldl (enter (isAbsolute directory)) (segments directory).reverse).reverse := by
  rw [segments, segments, isAbsolute_append hrest, foldl_enter_append hdirectory, List.reverse_reverse]

theorem enter_of_isName {segment : List Char} (h : IsName segment) (absolute : Bool) (entered : List (List Char)) :
    enter absolute entered segment = segment :: entered := by
  obtain ⟨-, hne, hdot, hup⟩ := h
  unfold enter
  rw [if_neg (not_or.2 ⟨hne, hdot⟩), if_neg hup]

theorem segments_append_name (hdirectory : IsDirectory directory) (hname : IsName name) :
    segments (directory ++ name) = segments directory ++ [name] := by
  rw [segments_append hdirectory (isAbsolute_eq_false_of_not_mem hname.1), pieces_eq_singleton hname.1,
    List.foldl_cons, List.foldl_nil, enter_of_isName hname, List.reverse_cons, List.reverse_reverse]

/-- Of a directory only its segments count, and whether it begins at the root. -/
theorem normalPath_append_congr {directory' : List Char} (hdirectory : IsDirectory directory)
    (hdirectory' : IsDirectory directory') (hroot : isAbsolute directory' = isAbsolute directory)
    (hsegments : segments directory' = segments directory) (hrest : isAbsolute rest = false) :
    normalPath (directory' ++ rest) = normalPath (directory ++ rest) := by
  unfold normalPath
  rw [isAbsolute_append hrest, isAbsolute_append hrest, segments_append hdirectory hrest,
    segments_append hdirectory' hrest, hroot, hsegments]

theorem exists_joinSegments_concat (ss : List (List Char)) (s : List Char) :
    ∃ directory, IsDirectory directory ∧ joinSegments (ss ++ [s]) = directory ++ s := by
  induction ss with
  | nil => exact ⟨[], .inl rfl, rfl⟩
  | cons t ss ih =>
    obtain ⟨directory, hdirectory, hjoin⟩ := ih
    have hcons : joinSegments (t :: ss ++ [s]) = t ++ '/' :: joinSegments (ss ++ [s]) := by
      cases ss <;> rfl
    refine ⟨t ++ '/' :: directory, .inr ?_, by rw [hcons, hjoin, List.append_assoc, List.cons_append]⟩
    rcases hdirectory with rfl | ⟨up, rfl⟩
    · exact ⟨t, rfl⟩
    · exact ⟨t ++ '/' :: up, by rw [List.append_assoc, List.cons_append]⟩

/-- The normal form of a path to a name is one to that name, in a directory with the same segments. -/
theorem exists_normalPath_append_name (hdirectory : IsDirectory directory) (hname : IsName name) :
    ∃ directory', IsDirectory directory' ∧ normalPath (directory ++ name) = directory' ++ name ∧
      isAbsolute directory' = isAbsolute directory ∧ segments directory' = segments directory := by
  have hslash := isAbsolute_eq_false_of_not_mem hname.1
  obtain ⟨up, hup, hjoin⟩ := exists_joinSegments_concat (segments directory) name
  obtain ⟨directory', hdirectory', hnormal⟩ : ∃ directory', IsDirectory directory' ∧
      normalPath (directory ++ name) = directory' ++ name := by
    unfold normalPath
    rw [segments_append_name hdirectory hname, hjoin]
    split
    · refine ⟨'/' :: up, .inr ?_, rfl⟩
      rcases hup with rfl | ⟨above, rfl⟩
      · exact ⟨[], rfl⟩
      · exact ⟨'/' :: above, rfl⟩
    · exact ⟨up, hup, rfl⟩
  refine ⟨directory', hdirectory', hnormal, ?_, ?_⟩
  · rw [← isAbsolute_append hslash, ← hnormal, isAbsolute_normalPath, isAbsolute_append hslash]
  · refine (List.append_left_inj [name]).1 ?_
    rw [← segments_append_name hdirectory' hname, ← hnormal, segments_normalPath, segments_append_name hdirectory hname]

/-- A path within a directory may be put into normal form before a reference is resolved against it. -/
theorem normalPath_throughLast_normalPath (hdirectory : IsDirectory directory) (hname : IsName name)
    (hrest : isAbsolute rest = false) :
    normalPath (throughLast '/' (normalPath (directory ++ name)) ++ rest) = normalPath (directory ++ rest) := by
  obtain ⟨directory', hdirectory', hnormal, hroot, hsegments⟩ := exists_normalPath_append_name hdirectory hname
  rw [hnormal, throughLast_append hdirectory' hname.1]
  exact normalPath_append_congr hdirectory hdirectory' hroot hsegments hrest

theorem cutScheme?_eq_none_of_plain {cs : List Char} (h : ¬ separator <:+: cs) : cutScheme? cs = none := by
  cases hcut : cutScheme? cs with
  | none => rfl
  | some p =>
    obtain ⟨front, rest⟩ := p
    obtain ⟨scheme, rfl, hcs, -⟩ := exists_scheme_of_cutScheme? hcut
    exact absurd ⟨scheme, rest, hcs.symm⟩ h

theorem cutScheme?_append_separator {scheme : List Char} (h : ¬ separator <:+: scheme) (rest : List Char) :
    cutScheme? (scheme ++ separator ++ rest) = some (scheme ++ separator, rest) := by
  induction scheme with
  | nil => rfl
  | cons c scheme ih =>
    rw [List.infix_cons_iff, not_or] at h
    rw [List.cons_append, List.cons_append, cutScheme?_cons, ih h.2]
    · rfl
    · rintro tail rfl heq
      -- a separator that began here would reach into the one behind the scheme
      match scheme, h.1 with
      | [], _ => cases heq
      | [a], _ => cases heq
      | a :: b :: scheme, hstart =>
        cases heq
        exact hstart ⟨scheme, rfl⟩

/-- The parts of a location are what it is split into. -/
theorem Parts.splitAuthority_eq {cs server path : List Char} (h : Parts cs server path) :
    splitAuthority cs = (server, path) := by
  unfold splitAuthority
  cases h with
  | plain hplain => rw [cutScheme?_eq_none_of_plain hplain]
  | @addressed scheme host _ hscheme hhost hpath =>
    have hpos : ∀ c ∈ host, (c != '/') = true := fun c hc => bne_iff_ne.2 fun h => hhost (h ▸ hc)
    have hstop : path.takeWhile (· != '/') = [] ∧ path.dropWhile (· != '/') = path := by
      cases path with
      | nil => exact ⟨rfl, rfl⟩
      | cons c path =>
        obtain rfl : c = '/' := by simpa [isAbsolute] using hpath
        exact ⟨rfl, rfl⟩
    rw [List.append_assoc (scheme ++ separator) host path, cutScheme?_append_separator hscheme]
    dsimp only
    rw [List.takeWhile_append_of_pos hpos, List.dropWhile_append_of_pos hpos, hstop.1, hstop.2, List.append_nil]

theorem Parts.eq_append {cs server path : List Char} (h : Parts cs server path) : cs = server ++ path := by
  cases h with
  | plain => rfl
  | addressed => rfl

theorem Parts.toList_normalize {s : String} {server path : List Char} (h : Parts s.toList server path) :
    (normalize s).toList = server ++ normalPath path := by
  rw [normalize, String.toList_ofList, normalChars, h.splitAuthority_eq]

theorem not_infix_append (hdirectory : ¬ separator <:+: directory) (hrest : ¬ separator <:+: rest)
    (hroot : isAbsolute rest = false) : ¬ separator <:+: directory ++ rest := by
  rw [List.infix_append_iff]
  rintro (h | h | ⟨front, back, heq, hfront, hback⟩)
  · exact hdirectory h
  · exact hrest h
  · cases front with
    | nil => exact hrest (heq ▸ hback.isInfix)
    | cons c front =>
      obtain ⟨-, htail⟩ := List.cons.inj heq
      cases back with
      | nil =>
        rw [List.append_nil] at heq
        exact hdirectory (heq ▸ hfront.isInfix)
      | cons d back =>
        have hd : d ∈ ['/', '/'] := htail ▸ List.mem_append_right front List.mem_cons_self
        obtain rfl : d = '/' := by simpa using hd
        obtain ⟨more, rfl⟩ := hback
        cases hroot

/-- The parts of a location against which references can be resolved. With an authority it has a path too. -/
structure Placed (location : String) (server path : List Char) : Prop where
  parts : Parts location.toList server path
  rooted : server = [] ∨ isAbsolute path = true

variable {base reference : String} {server path : List Char}

theorem Placed.toList_eq (h : Placed base server path) : base.toList = server ++ path := h.parts.eq_append

/-- A relative reference stands in the place of what follows the directory. -/
theorem Placed.parts_append (h : Placed base server path) (hreference : IsRelative reference) :
    Parts (throughLast '/' base.toList ++ reference.toList) server (throughLast '/' path ++ reference.toList) := by
  obtain ⟨hparts, hrooted⟩ := h
  generalize base.toList = cs at hparts
  cases hparts with
  | plain hplain =>
    obtain ⟨-, name, heq, -⟩ := exists_append_throughLast path
    have hdirectory : ¬ separator <:+: throughLast '/' path := fun hwithin =>
      hplain (heq ▸ hwithin.trans (List.prefix_append _ _).isInfix)
    exact .plain (not_infix_append hdirectory hreference.not_addressed hreference.not_absolute)
  | @addressed scheme host _ hscheme hhost _ =>
    have habsolute : isAbsolute path = true := hrooted.resolve_left (by simp [separator])
    rw [throughLast_append_of_isAbsolute _ habsolute, List.append_assoc]
    refine .addressed hscheme hhost (.inr ?_)
    rw [isAbsolute_append hreference.not_absolute, isAbsolute_throughLast, habsolute]

theorem resolve_of_isRelative (h : IsRelative reference) :
    resolve base reference = normalize (String.ofList (throughLast '/' base.toList ++ reference.toList)) := by
  have hempty : ¬ reference.isEmpty = true := mt String.isEmpty_iff.1 h.ne_empty
  unfold resolve
  rw [if_neg hempty, cutScheme?_eq_none_of_plain h.not_addressed, h.not_absolute]
  rfl

/-- A relative reference keeps the scheme and the authority, and the directory of the path. -/
theorem Placed.resolve (h : Placed base server path) (hreference : IsRelative reference) :
    Placed (resolve base reference) server (normalPath (throughLast '/' path ++ reference.toList)) := by
  have hparts := h.parts_append hreference
  rw [← String.toList_ofList (l := throughLast '/' base.toList ++ reference.toList)] at hparts
  constructor
  · rw [resolve_of_isRelative hreference, hparts.toList_normalize]
    exact hparts.normal
  · rw [isAbsolute_normalPath, isAbsolute_append hreference.not_absolute, isAbsolute_throughLast]
    exact h.rooted

/-- Whether a location has a directory: it has no scheme, or a slash behind its authority. -/
def HasDirectory (location : String) : Prop :=
  ¬ separator <:+: location.toList ∨ ∃ server path, Parts location.toList server path ∧ isAbsolute path = true

theorem HasDirectory.exists_placed (h : HasDirectory base) : ∃ server path, Placed base server path := by
  rcases h with h | ⟨server, path, hparts, hpath⟩
  · exact ⟨[], base.toList, .plain h, .inl rfl⟩
  · exact ⟨server, path, hparts, .inr hpath⟩

theorem IsDirectory.append {directory' : List Char} (h : IsDirectory directory) (h' : IsDirectory directory') :
    IsDirectory (directory ++ directory') := by
  rcases h' with rfl | ⟨up, rfl⟩
  · rw [List.append_nil]
    exact h
  · exact .inr ⟨directory ++ up, (List.append_assoc ..).symm⟩

/-- Whether a relative reference leads to an ordinary name in a directory. -/
structure IsHop (directory name : String) : Prop where
  isDirectory : IsDirectory directory.toList
  isName : IsName name.toList
  isRelative : IsRelative (directory ++ name)

theorem IsHop.append {directory name : String} (h : IsHop directory name) (hreference : IsRelative reference) :
    IsRelative (directory ++ reference) := by
  obtain ⟨-, haddressed, hroot⟩ := h.isRelative
  rw [String.toList_append] at haddressed hroot
  rw [isAbsolute_append (isAbsolute_eq_false_of_not_mem h.isName.1)] at hroot
  refine ⟨fun hempty => hreference.ne_empty (String.append_eq_empty_iff.1 hempty).2, ?_, ?_⟩
  · rw [String.toList_append]
    refine not_infix_append (fun hwithin => haddressed ?_) hreference.not_addressed hreference.not_absolute
    exact hwithin.trans (List.prefix_append _ _).isInfix
  · rw [String.toList_append, isAbsolute_append hreference.not_absolute, hroot]

/-- One hop. Both sides enter the same segments behind those of the directory of the base. -/
theorem Placed.resolve_hop (h : Placed base server path) {directory name : String} (hhop : IsHop directory name)
    (hreference : IsRelative reference) :
    Location.resolve (Location.resolve base (directory ++ name)) reference =
      Location.resolve base (directory ++ reference) := by
  have htwice := (h.resolve hhop.isRelative).resolve hreference
  have honce := h.resolve (hhop.append hreference)
  have hdirectory := (exists_append_throughLast path).1.append hhop.isDirectory
  rw [← String.toList_inj, htwice.toList_eq, honce.toList_eq, String.toList_append, String.toList_append,
    ← List.append_assoc, ← List.append_assoc,
    normalPath_throughLast_normalPath hdirectory hhop.isName hreference.not_absolute]

/-- Any number of hops. -/
theorem Placed.resolve_hops (h : Placed base server path) {hops : List (String × String)}
    (hhops : ∀ hop ∈ hops, IsHop hop.1 hop.2) (hreference : IsRelative reference) :
    Location.resolve (hops.foldl (fun location hop => Location.resolve location (hop.1 ++ hop.2)) base) reference =
      Location.resolve base (hops.foldr (fun hop reference => hop.1 ++ reference) reference) ∧
    IsRelative (hops.foldr (fun hop reference => hop.1 ++ reference) reference) := by
  induction hops generalizing base path with
  | nil => exact ⟨rfl, hreference⟩
  | cons hop hops ih =>
    obtain ⟨hhop, hrest⟩ := List.forall_mem_cons.1 hhops
    obtain ⟨hresolve, hrelative⟩ := ih (h.resolve hhop.isRelative) hrest
    exact ⟨hresolve.trans (h.resolve_hop hhop hrelative), hhop.append hrelative⟩

/-- A reference within a document that was itself referred to leads where it would lead behind the directory of the
first reference; so it does after any number of references. -/
theorem resolve_resolve {base reference : String} (hbase : HasDirectory base) (hreference : IsRelative reference) :
    (∀ directory name, IsHop directory name →
      resolve (resolve base (directory ++ name)) reference = resolve base (directory ++ reference)) ∧
    ∀ hops : List (String × String), (∀ hop ∈ hops, IsHop hop.1 hop.2) →
      resolve (hops.foldl (fun location hop => resolve location (hop.1 ++ hop.2)) base) reference =
        resolve base (hops.foldr (fun hop reference => hop.1 ++ reference) reference) := by
  obtain ⟨server, path, hplaced⟩ := hbase.exists_placed
  exact ⟨fun directory name hhop => hplaced.resolve_hop hhop hreference,
    fun hops hhops => (hplaced.resolve_hops hhops hreference).1⟩

/-- From a place on a server into a directory above and back down, and from there above the root. -/
theorem resolve_resolve_climbing :
    HasDirectory "http://ex.com/t/a.xsd" ∧ IsHop "../b/./" "x.xsd" ∧ IsRelative "../../c.xsd" ∧
      resolve (resolve "http://ex.com/t/a.xsd" ("../b/./" ++ "x.xsd")) "../../c.xsd" =
        resolve "http://ex.com/t/a.xsd" ("../b/./" ++ "../../c.xsd") := by
  have hbase : HasDirectory "http://ex.com/t/a.xsd" :=
    .inr ⟨_, _, parts_splitAuthority _, by decide +kernel⟩
  have hhop : IsHop "../b/./" "x.xsd" :=
    ⟨.inr ⟨"../b/.".toList, by decide +kernel⟩, by decide +kernel,
      ⟨by decide +kernel, by decide +kernel, by decide +kernel⟩⟩
  have hreference : IsRelative "../../c.xsd" := ⟨by decide +kernel, by decide +kernel, by decide +kernel⟩
  exact ⟨hbase, hhop, hreference, (resolve_resolve hbase hreference).1 _ _ hhop⟩

/-- Whether a location is on a server: the server is all of it, or a path from the root follows. -/
def IsOn (scheme authority location : String) : Prop :=
  ∃ path, location = scheme ++ "://" ++ authority ++ path ∧ (path = "" ∨ isAbsolute path.toList = true)

section

variable {scheme authority path : String}

theorem parts_server (hscheme : '/' ∉ scheme.toList) (hauthority : '/' ∉ authority.toList)
    (hpath : path = "" ∨ isAbsolute path.toList = true) :
    Parts (scheme ++ "://" ++ authority ++ path).toList (scheme ++ "://" ++ authority).toList path.toList := by
  have hwithin : ¬ separator <:+: scheme.toList := fun h => hscheme (h.subset (by decide))
  rw [String.toList_append, String.toList_append, String.toList_append]
  refine .addressed hwithin hauthority (hpath.imp_left fun h => ?_)
  rw [h]
  rfl

theorem isOn_of_toList {location : String} {path : List Char}
    (h : location.toList = (scheme ++ "://" ++ authority).toList ++ path) (hpath : path = [] ∨ isAbsolute path = true) :
    IsOn scheme authority location := by
  refine ⟨String.ofList path, ?_, ?_⟩
  · rw [← String.toList_inj, String.toList_append, String.toList_ofList, h]
  · rw [String.toList_ofList]
    exact hpath.imp_left fun h => by rw [h]

end

/-- A reference that is relative leads from a location with a path to one on the same server, and so does the empty
one from every location. A reference from the root stands alone: it leads to a path from the root, which is on no
server, whatever the location. -/
theorem resolve_isOn {scheme authority path reference : String} (hscheme : '/' ∉ scheme.toList)
    (hauthority : '/' ∉ authority.toList) (hpath : path = "" ∨ isAbsolute path.toList = true)
    (hreference : ¬ separator <:+: reference.toList) :
    (isAbsolute reference.toList = false → path ≠ "" ∨ reference = "" →
      IsOn scheme authority (resolve (scheme ++ "://" ++ authority ++ path) reference)) ∧
    (isAbsolute reference.toList = true → resolve (scheme ++ "://" ++ authority ++ path) reference = normalize reference ∧
      isAbsolute (normalize reference).toList = true ∧ ¬ separator <:+: (normalize reference).toList) := by
  have hparts := parts_server hscheme hauthority hpath
  constructor
  · intro hroot hsome
    by_cases hempty : reference = ""
    · subst hempty
      refine isOn_of_toList hparts.toList_normalize ?_
      rw [isAbsolute_normalPath]
      exact hpath.imp_left fun h => by rw [h]; rfl
    · have hplaced : Placed _ _ _ := ⟨hparts, .inr (hpath.resolve_left (hsome.resolve_right hempty))⟩
      have hresolve := hplaced.resolve ⟨hempty, hreference, hroot⟩
      exact isOn_of_toList hresolve.toList_eq (.inr (hresolve.rooted.resolve_left (by simp)))
  · intro hroot
    have hplain := Parts.plain hreference
    refine ⟨?_, ?_, ?_⟩
    · have hempty : ¬ reference.isEmpty = true := fun h => by
        rw [String.isEmpty_iff.1 h] at hroot
        cases hroot
      unfold resolve
      rw [if_neg hempty, hroot, Bool.or_true, if_pos rfl]
    · rw [hplain.toList_normalize, List.nil_append, isAbsolute_normalPath, hroot]
    · rw [hplain.toList_normalize]
      exact not_infix_of_cutScheme? (cutScheme?_eq_none (singleSlashes_normalPath _))

/-- A reference may climb above the root, and stays on the server. -/
theorem resolve_isOn_climbing :
    '/' ∉ "http".toList ∧ '/' ∉ "ex.com".toList ∧ isAbsolute "/t/a.xsd".toList = true ∧
      ¬ separator <:+: "../../../b.xsd".toList ∧ isAbsolute "../../../b.xsd".toList = false ∧
      IsOn "http" "ex.com" (resolve ("http" ++ "://" ++ "ex.com" ++ "/t/a.xsd") "../../../b.xsd") := by
  have hscheme : '/' ∉ "http".toList := by decide
  have hauthority : '/' ∉ "ex.com".toList := by decide
  have hpath : isAbsolute "/t/a.xsd".toList = true := by decide
  have hreference : ¬ separator <:+: "../../../b.xsd".toList := by decide +kernel
  have hroot : isAbsolute "../../../b.xsd".toList = false := by decide
  exact ⟨hscheme, hauthority, hpath, hreference, hroot,
    (resolve_isOn hscheme hauthority (.inr hpath) hreference).1 hroot (.inl (by decide))⟩

/-- A reference from the root does not lead to the server of the location, nor does a relative one if the location has
no path. -/
theorem not_isOn_resolve :
    ¬ IsOn "http" "ex.com" (resolve "http://ex.com/t/a.xsd" "/b.xsd") ∧
      ¬ IsOn "http" "ex.com" (resolve "http://ex.com" "a.xsd") := by
  have hstart {location : String} (h : IsOn "http" "ex.com" location) :
      ("http" ++ "://" ++ "ex.com").toList <+: location.toList := by
    obtain ⟨path, rfl, -⟩ := h
    exact ⟨path.toList, String.toList_append.symm⟩
  exact ⟨fun h => absurd (hstart h) (by decide +kernel), fun h => absurd (hstart h) (by decide +kernel)⟩

end TaxonomySet.Location
