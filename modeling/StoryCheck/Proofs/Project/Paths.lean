import Mathlib.Data.List.Basic
import StoryCheck.Project.Path

/-!
# Paths and their parts

A path that is meant from a directory has the parts of the directory and then its own. So a path
below a directory, as a walk writes it, is told apart from others by the names behind the directory.

* **`parts_join_ofNames`** — the parts of such a path.
* **`isLE_trans`**, **`isLE_total`**, **`parts_eq_of_isLE`** — paths are ordered by their parts.
-/

namespace StoryCheck

namespace Path

/-! ## Segments

A path is cut at its slashes. The cutting is done by a recursion of its own, which is the splitting
of lists at a separator; the lemmas about lists serve from there on. -/

/-- Cutting a text at the first slash, with what is behind it cut further, is splitting it at
slashes. -/
theorem cut_eq (text : List Char) : (cut text).1 :: (cut text).2 = text.splitOn '/' := by
  -- The recursion of the cutting is on the characters, and so is that of the splitting.
  induction text with
  | nil => rfl
  | cons c cs ih =>
    rw [List.splitOn_cons_eq_if_modifyHead, ← ih, cut]
    by_cases hc : c = '/' <;> simp [hc]

/-- The segments of a path, read off the splitting. -/
theorem segments_eq (path : Path) : path.segments = (path.text.toList.splitOn '/').map String.ofList :=
  congrArg (List.map String.ofList) (cut_eq path.text.toList)

/-- A slash in front of a text puts an empty segment in front of its segments. -/
theorem splitOn_slash (text : List Char) : ('/' :: text).splitOn '/' = [] :: text.splitOn '/' := by
  rw [List.splitOn_cons_eq_if_modifyHead, if_pos (by decide)]

/-- A character that is no slash goes to the front of the first segment. -/
theorem splitOn_cons {c : Char} {text first : List Char} {rest : List (List Char)} (hc : c ≠ '/')
    (h : text.splitOn '/' = first :: rest) : (c :: text).splitOn '/' = (c :: first) :: rest := by
  rw [List.splitOn_cons_eq_if_modifyHead, if_neg (by simpa using hc), h, List.modifyHead_cons]

/-- No segment has a slash in it. -/
theorem not_mem_of_mem_splitOn {text segment : List Char} (hmem : segment ∈ text.splitOn '/') :
    '/' ∉ segment := by
  induction text generalizing segment with
  | nil =>
    obtain rfl := List.mem_singleton.1 hmem
    exact List.not_mem_nil
  | cons c cs ih =>
    obtain ⟨first, rest, hcs⟩ := List.exists_cons_of_ne_nil (List.splitOn_ne_nil '/' cs)
    rw [hcs] at ih
    by_cases hc : c = '/'
    · rw [hc, splitOn_slash, hcs] at hmem
      rcases List.mem_cons.1 hmem with rfl | hmem
      · exact List.not_mem_nil
      · exact ih hmem
    · rw [splitOn_cons hc hcs] at hmem
      rcases List.mem_cons.1 hmem with rfl | hmem
      · rw [List.mem_cons, not_or]
        exact ⟨Ne.symm hc, ih List.mem_cons_self⟩
      · exact ih (List.mem_cons_of_mem _ hmem)

/-- A text that does not end with a slash has a last segment that is not empty. -/
theorem getLast?_splitOn_concat {c : Char} (hc : c ≠ '/') (front : List Char) :
    ((front ++ [c]).splitOn '/').getLast? ≠ some [] := by
  induction front with
  | nil =>
    rw [List.nil_append, splitOn_cons hc (List.splitOn_nil '/')]
    simp
  | cons d front ih =>
    obtain ⟨first, rest, hfront⟩ := List.exists_cons_of_ne_nil (List.splitOn_ne_nil '/' (front ++ [c]))
    rw [hfront] at ih
    rw [List.cons_append]
    by_cases hd : d = '/'
    · rw [hd, splitOn_slash, hfront, List.getLast?_cons_of_ne_nil (List.cons_ne_nil _ _)]
      exact ih
    · rw [splitOn_cons hd hfront]
      cases rest with
      | nil => simp
      | cons second rest =>
        rw [List.getLast?_cons_of_ne_nil (List.cons_ne_nil _ _)] at ih ⊢
        exact ih

/-! ## Names

What may stand in a path as the name of a file or a directory. Empty segments and single dots are
passed over when a path is taken apart, and two dots are not a name but a step upwards. -/

/-- A name that a file or directory may have. -/
def IsName (name : String) : Prop := name ∉ ["", ".", ".."] ∧ '/' ∉ name.toList

instance : DecidablePred IsName := fun name =>
  inferInstanceAs (Decidable (name ∉ ["", ".", ".."] ∧ '/' ∉ name.toList))

/-- A name stands for itself among the parts of a path. -/
theorem ofSegment?_of_isName {name : String} (h : IsName name) :
    Part.ofSegment? name = some (.name name) := by
  have hne := h.1
  simp only [List.mem_cons, List.not_mem_nil, or_false, not_or] at hne
  rw [Part.ofSegment?, if_neg (by simp [hne]), if_neg hne.2.2]

/-- The path that leads along some names. -/
def ofNames (names : List String) : Path := ⟨"/".intercalate names⟩

/-- The path that is written with one name. -/
theorem ofNames_singleton (name : String) : ofNames [name] = ⟨name⟩ := by
  rw [ofNames, String.intercalate_singleton]

variable {names : List String} {directory path : Path} {name : String}

/-- Segments without slashes, written one after the other with slashes between, are the segments of
what was written. -/
theorem segments_intercalate {segments : List String} (hne : segments ≠ [])
    (h : ∀ segment ∈ segments, '/' ∉ segment.toList) :
    (⟨"/".intercalate segments⟩ : Path).segments = segments := by
  -- Writing and cutting are inverse on lists that are not empty.
  have hplain : ∀ part ∈ segments.map String.toList, '/' ∉ part := by
    intro part hmem
    obtain ⟨segment, hsegment, rfl⟩ := List.mem_map.1 hmem
    exact h segment hsegment
  rw [segments_eq, String.toList_intercalate]
  show (List.splitOn '/' (['/'].intercalate (segments.map String.toList))).map String.ofList = segments
  rw [List.splitOn_intercalate '/' hplain (by simpa using hne), List.map_map]
  exact List.map_id'' (fun segment => String.ofList_toList) segments

/-- The same about the segments of a path. -/
theorem not_mem_of_mem_segments (path : Path) {segment : String} (hmem : segment ∈ path.segments) :
    '/' ∉ segment.toList := by
  rw [segments_eq] at hmem
  obtain ⟨part, hpart, rfl⟩ := List.mem_map.1 hmem
  rw [String.toList_ofList]
  exact not_mem_of_mem_splitOn hpart

/-- The segments of a path written with names are the names. -/
theorem segments_ofNames (hne : names ≠ []) (h : ∀ name ∈ names, IsName name) :
    (ofNames names).segments = names :=
  segments_intercalate hne fun name hmem => (h name hmem).2

/-- In front of a slash at the start of a path stands an empty segment. -/
theorem isAbsolute_iff : path.isAbsolute = true ↔
    ∃ second rest, path.segments = "" :: second :: rest := by
  rw [segments_eq, isAbsolute]
  cases path.text.toList with
  | nil => exact iff_of_false nofun fun ⟨_, _, h⟩ => nomatch h
  | cons c cs =>
    obtain ⟨first, more, hcs⟩ := List.exists_cons_of_ne_nil (List.splitOn_ne_nil '/' cs)
    by_cases hc : c = '/'
    · rw [hc, splitOn_slash, hcs]
      exact iff_of_true rfl ⟨_, _, rfl⟩
    · rw [splitOn_cons hc hcs]
      refine iff_of_false (by simpa using hc) fun ⟨_, _, h⟩ => ?_
      exact absurd (congrArg String.toList (List.cons.inj h).1) (by simp)

/-- A path that is written with names does not start at the root. -/
theorem isAbsolute_ofNames (h : ∀ name ∈ names, IsName name) : (ofNames names).isAbsolute = false := by
  by_contra habsolute
  rw [Bool.not_eq_false] at habsolute
  by_cases hne : names = []
  · subst hne
    exact absurd habsolute (by decide)
  · -- The first name would be what stands in front of the slash.
    obtain ⟨second, rest, hsegments⟩ := isAbsolute_iff.1 habsolute
    rw [segments_ofNames hne h] at hsegments
    exact (h "" (hsegments ▸ List.mem_cons_self)).1 List.mem_cons_self

/-! ## Below a directory

A path that is relative to a directory is joined to it. How the directory is written has a say in
whether a slash is put between, but none in the parts of what comes out. -/

/-- A relative path that is meant from a directory has the segments of the directory in front, except
for an empty one at their end. -/
theorem segments_join (directory : Path) (hpath : path.isAbsolute = false) :
    (directory.text = "" ∧ directory.join path = path)
      ∨ directory.text ≠ "" ∧ ∃ body, body ≠ []
          ∧ (directory.segments = body ∧ body.getLast? ≠ some "" ∨ directory.segments = body ++ [""])
          ∧ (directory.join path).segments = body ++ path.segments
          ∧ (directory.join path).isAbsolute = directory.isAbsolute := by
  unfold join
  rw [hpath, if_neg (by decide)]
  split
  next hlast =>
    -- The directory is written without any character.
    left
    have hempty : directory.text = "" := by simpa using hlast
    exact ⟨hempty, by rw [hempty, String.empty_append]⟩
  next hlast =>
    -- It ends with a slash, which takes the place of the one between.
    right
    obtain ⟨init, hinit⟩ := List.getLast?_eq_some_iff.1 hlast
    refine ⟨?_, (init.splitOn '/').map String.ofList, by simp, .inr ?_, ?_, ?_⟩
    · intro hempty
      simp [hempty] at hinit
    · rw [segments_eq, hinit, List.splitOn_append_cons_self, List.map_append]
      rfl
    · rw [segments_eq, String.toList_append, hinit, List.append_assoc, List.singleton_append,
        List.splitOn_append_cons_self, List.map_append, segments_eq]
    · rw [isAbsolute, isAbsolute, String.toList_append, hinit]
      cases init <;> rfl
  next c hne hlast =>
    -- A slash is put between.
    right
    obtain ⟨init, hinit⟩ := List.getLast?_eq_some_iff.1 hlast
    refine ⟨?_, directory.segments, by simp [segments_eq], .inl ⟨rfl, ?_⟩, ?_, ?_⟩
    · intro hempty
      simp [hempty] at hinit
    · have hslash : c ≠ '/' := fun heq => hne (heq ▸ rfl)
      rw [segments_eq, hinit, List.getLast?_map, Ne, Option.map_eq_some_iff]
      rintro ⟨cell, hcell, hempty⟩
      have hnil : cell = [] := by simpa using hempty
      exact getLast?_splitOn_concat hslash init (hnil ▸ hcell)
    · rw [segments_eq, String.toList_append, String.toList_append, List.append_assoc]
      show (List.splitOn '/' (directory.text.toList ++ '/' :: path.text.toList)).map String.ofList = _
      rw [List.splitOn_append_cons_self, List.map_append, segments_eq, segments_eq]
    · rw [isAbsolute, isAbsolute, String.toList_append, String.toList_append, hinit]
      cases init <;> rfl

/-- A path below a directory has the parts of the directory and then its names. -/
theorem parts_join_ofNames (hne : names ≠ []) (h : ∀ name ∈ names, IsName name) :
    (directory.join (ofNames names)).parts = directory.parts ++ names.map .name := by
  have hnames : (ofNames names).segments.filterMap Part.ofSegment? = names.map .name := by
    rw [segments_ofNames hne h, ← List.filterMap_eq_map]
    exact List.filterMap_congr fun name hmem => ofSegment?_of_isName (h name hmem)
  -- A join with an empty path has no separator between the two.
  rcases segments_join directory (isAbsolute_ofNames h) with
    ⟨hempty, hjoin⟩ | ⟨-, body, hbody, hdirectory, hsegments, habsolute⟩
  · have hnone : directory.parts = [] := by
      obtain ⟨text⟩ := directory
      obtain rfl : text = "" := hempty
      decide
    have hhead : (ofNames names).segments.head? ≠ some "." := by
      rw [segments_ofNames hne h]
      intro hhead
      exact (h "." (List.mem_of_mem_head? hhead)).1 (by decide)
    rw [hjoin, hnone, List.nil_append, ← hnames, parts, isAbsolute_ofNames h]
    simp [hhead]
  · have hhead : (body ++ (ofNames names).segments).head? = directory.segments.head? := by
      rcases hdirectory with ⟨heq, -⟩ | heq
      · rw [heq, List.head?_append_of_ne_nil _ hbody]
      · rw [heq, List.head?_append_of_ne_nil _ hbody, List.head?_append_of_ne_nil _ hbody]
    have hbefore : body.filterMap Part.ofSegment? = directory.segments.filterMap Part.ofSegment? := by
      rcases hdirectory with ⟨heq, -⟩ | heq
      · rw [heq]
      · rw [heq, List.filterMap_append]
        exact (List.append_nil _).symm
    simp only [parts, hsegments, habsolute, hhead]
    rw [List.filterMap_append, hbefore, hnames, List.append_assoc]

/-- The file name of such a path is the last of its names. -/
theorem fileName?_join_ofNames (directory : Path) (names : List String)
    (h : ∀ other ∈ names ++ [name], IsName other) :
    (directory.join (ofNames (names ++ [name]))).fileName? = some name := by
  rw [fileName?, parts_join_ofNames (by simp) h, List.map_append, ← List.append_assoc,
    List.map_singleton, List.getLast?_concat]

/-- A path that is reached from a directory by names is below that directory. -/
theorem isBelow_join_ofNames (hne : names ≠ []) (h : ∀ name ∈ names, IsName name) :
    (directory.join (ofNames names)).isBelow directory = true := by
  rw [isBelow, parts_join_ofNames hne h]
  exact List.isPrefixOf_iff_prefix.2 (List.prefix_append _ _)

/-! ## The order of paths

Paths are compared part by part. Parts that are names are compared as texts, and a part of another
sort has a rank of its own, so two paths that are neither before the other have the same parts. They
can still be written differently. -/

/-- The order of paths is that of the lists of their parts. -/
theorem order_eq (a b : Path) : a.order b = List.compareLex Part.order a.parts b.parts := by
  unfold order
  generalize a.parts = as
  generalize b.parts = bs
  induction as generalizing bs with
  | nil => cases bs <;> rfl
  | cons a as ih =>
    cases bs with
    | nil => rfl
    | cons b bs => rw [orderParts, List.compareLex_cons_cons, ih]

instance : Std.LawfulEqCmp Part.order := by
  refine { compare_self := ?_, eq_of_compare := ?_ }
  · intro a
    cases a <;> simp [Part.order, Part.rank]
  · intro a b h
    cases a <;> cases b <;> simp_all [Part.order, Part.rank]

/-- What is compared of parts of the same kind. -/
def Part.label : Part → String
  | .name name => name
  | _ => ""

/-- Parts are ordered by rank and then by label. -/
theorem Part.order_eq : Part.order = compareLex (compareOn Part.rank) (compareOn Part.label) := by
  funext a b
  -- Ranks decide between parts of different kinds, and are the same for two names.
  cases a <;> cases b <;> rfl

instance : Std.TransCmp Part.order := by
  rw [Part.order_eq]
  infer_instance

/-- Not being behind is transitive. -/
theorem isLE_trans (a b c : Path) (hab : (a.order b).isLE = true) (hbc : (b.order c).isLE = true) :
    (a.order c).isLE = true := by
  rw [order_eq] at *
  exact Std.TransCmp.isLE_trans hab hbc

/-- Of two paths one is not behind the other. Sorting needs both. -/
theorem isLE_total (a b : Path) : ((a.order b).isLE || (b.order a).isLE) = true := by
  have hswap : List.compareLex Part.order b.parts a.parts
      = (List.compareLex Part.order a.parts b.parts).swap := Std.OrientedCmp.eq_swap
  rw [order_eq, order_eq, hswap]
  cases List.compareLex Part.order a.parts b.parts <;> rfl

/-- Paths that the order does not tell apart have the same parts. -/
theorem parts_eq_of_isLE {a b : Path} (hab : (a.order b).isLE = true) (hba : (b.order a).isLE = true) :
    a.parts = b.parts := by
  rw [order_eq] at hab hba
  exact Std.LawfulEqCmp.eq_of_compare (Std.OrientedCmp.isLE_antisymm hab hba)

end Path

end StoryCheck
