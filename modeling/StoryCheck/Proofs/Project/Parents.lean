import Mathlib.Data.List.DropRight
import Mathlib.Data.String.Basic
import StoryCheck.Proofs.Project.Disks

/-!
# Parents of paths

The directory that a path lies in is written without the segments at its end that do not count. From
there the last name of the path leads to where the path leads, and the path that is put together so
has the same parent.

* **`EndsWith`** — how a path is written that ends with a name.
* **`parent?_again`** — a parent is the parent of what is put together from it.
* **`locate_again`** — what is put together leads to the same place.
-/

namespace StoryCheck

namespace Path

/-- Segments that do not count. -/
def isIdle (segment : String) : Bool := decide (segment = "" ∨ segment = ".")

/-- Idle segments are cut off behind. -/
theorem trimSegments_eq (segments : List String) : trimSegments segments = segments.rdropWhile isIdle := rfl

variable {path : Path} {start body : List String} {name : String}

/-- A path is written with a start that counts, a body and a name. -/
structure EndsWith (path : Path) (start body : List String) (name : String) : Prop where
  isName : IsName name
  segments : path.segments = start ++ body ++ [name]
  start : start = [""] ∨ start = ["."] ∨ start = [] ∧ ∀ segment ∈ body.head?, isIdle segment = false

/-- A path with a name at its end is written in this way. -/
theorem exists_endsWith (before : List String) (hname : IsName name)
    (hsegments : path.segments = before ++ [name]) : ∃ start body, path.EndsWith start body name := by
  -- What is in front is empty if the path starts at the root, or else a part of what is written.
  cases before with
  | nil => exact ⟨[], [], hname, hsegments, .inr (.inr ⟨rfl, nofun⟩)⟩
  | cons first rest =>
    by_cases hempty : first = ""
    · exact ⟨[""], rest, hname, by rw [hsegments, hempty]; rfl, .inl rfl⟩
    by_cases hdot : first = "."
    · exact ⟨["."], rest, hname, by rw [hsegments, hdot]; rfl, .inr (.inl rfl)⟩
    · refine ⟨[], first :: rest, hname, hsegments, .inr (.inr ⟨rfl, ?_⟩)⟩
      rintro segment ⟨⟩
      simp [isIdle, hempty, hdot]

/-- A path that ends with a name is written so. -/
theorem exists_endsWith_join (directory : Path) (hname : IsName name) :
    ∃ start body, (directory.join (ofNames [name])).EndsWith start body name := by
  have hnames : ∀ other ∈ [name], IsName other := fun other hmem => List.mem_singleton.1 hmem ▸ hname
  have hsingle := segments_ofNames (List.cons_ne_nil _ _) hnames
  rcases segments_join directory (isAbsolute_ofNames hnames) with
    ⟨-, hjoin⟩ | ⟨-, before, -, -, hsegments, -⟩
  · exact exists_endsWith [] hname (by rw [hjoin, hsingle, List.nil_append])
  · exact exists_endsWith before hname (by rw [hsegments, hsingle])

/-- How the parent of a path is written. -/
def parentText (start above : List String) : String :=
  if start = [""] ∧ above = [] then "/" else "/".intercalate (start ++ above)

/-- A name does not count as idle. -/
theorem isIdle_of_isName (hname : IsName name) : isIdle name = false := by
  have h := hname.1
  simp only [List.mem_cons, List.not_mem_nil, or_false, not_or] at h
  simp [isIdle, h.1, h.2.1]

/-- The start is told apart from the rest of the path. -/
theorem split_of_endsWith (h : path.EndsWith start body name) :
    (if path.isAbsolute then ([""], path.segments.drop 1)
      else if path.segments.head? = some "." then (["."], path.segments.drop 1)
      else ([], path.segments) : List String × List String) = (start, body ++ [name]) := by
  obtain ⟨hname, hsegments, hstart⟩ := h
  obtain ⟨first, rest, hcons⟩ : ∃ first rest, body ++ [name] = first :: rest :=
    List.exists_cons_of_ne_nil (by simp)
  -- Whether the path is absolute, starts with a dot or with neither decides what goes in front.
  rcases hstart with rfl | rfl | ⟨rfl, hhead⟩
  · have habsolute : path.isAbsolute = true := by
      rw [isAbsolute_iff, hsegments, List.append_assoc, hcons]
      exact ⟨first, rest, rfl⟩
    rw [if_pos habsolute, hsegments]
    rfl
  · have hrelative : ¬ path.isAbsolute = true := by
      rw [isAbsolute_iff, hsegments]
      rintro ⟨second, more, heq⟩
      exact absurd (List.cons.inj heq).1 (by decide)
    have hdot : (["."] ++ body ++ [name]).head? = some "." := rfl
    rw [if_neg hrelative, hsegments, if_pos hdot]
    rfl
  · -- The first segment counts, so that it is taken for neither of the two.
    have hfirst : isIdle first = false := by
      cases body with
      | nil =>
        obtain rfl : name = first := (List.cons.inj hcons).1
        exact isIdle_of_isName hname
      | cons other others =>
        obtain rfl : other = first := (List.cons.inj hcons).1
        exact hhead other rfl
    have hcounts : ¬ (first = "" ∨ first = ".") := of_decide_eq_false hfirst
    rw [not_or] at hcounts
    have hrelative : ¬ path.isAbsolute = true := by
      rw [isAbsolute_iff, hsegments, List.nil_append, hcons]
      rintro ⟨second, more, heq⟩
      exact hcounts.1 (List.cons.inj heq).1
    have hdot : (first :: rest).head? ≠ some "." := fun heq => hcounts.2 (Option.some.inj heq)
    rw [if_neg hrelative, hsegments, List.nil_append, hcons, if_neg hdot]

/-- The parent of such a path is what stands in front, with idle segments cut off. -/
theorem parent?_of_endsWith (h : path.EndsWith start body name) :
    path.parent? = some ⟨parentText start (trimSegments body)⟩ := by
  have hidle := isIdle_of_isName h.isName
  have hsplit := split_of_endsWith h
  -- The name counts, so only what stands in front of it is trimmed.
  have htrim : trimSegments (body ++ [name]) = body ++ [name] :=
    List.rdropWhile_concat_neg isIdle body name (by simp [hidle])
  obtain ⟨first, rest, hcons⟩ : ∃ first rest, body ++ [name] = first :: rest :=
    List.exists_cons_of_ne_nil (by simp)
  have hlast : (first :: rest).dropLast = body := by rw [← hcons, List.dropLast_concat]
  rw [hcons] at htrim hsplit
  unfold parent? parentText
  simp only [hsplit, htrim, hlast]
  split <;> rfl

/-! ## Putting together again

A parent is written from segments, and from it and a name a path is put together. The root is
written in a way of its own, so that it is a case apart everywhere. -/

/-- What is put together from the parent and the name. -/
def again (start body : List String) (name : String) : Path :=
  (⟨parentText start (trimSegments body)⟩ : Path).join (ofNames [name])

/-- What is in front does not end with an empty segment, unless it is the root. -/
theorem getLast?_ne_empty (h : path.EndsWith start body name)
    (hroot : ¬ (start = [""] ∧ trimSegments body = [])) :
    (start ++ trimSegments body).getLast? ≠ some "" := by
  by_cases htrim : trimSegments body = []
  · rw [htrim, List.append_nil]
    rcases h.start with hstart | hstart | ⟨hstart, -⟩
    · exact absurd ⟨hstart, htrim⟩ hroot
    · rw [hstart]
      decide
    · rw [hstart]
      decide
  · intro hlast
    have hidle : ¬ isIdle ((trimSegments body).getLast htrim) = true :=
      List.rdropWhile_last_not isIdle body htrim
    rw [List.getLast?_append_of_ne_nil _ htrim, List.getLast?_eq_some_getLast htrim] at hlast
    rw [Option.some.inj hlast] at hidle
    exact hidle rfl

/-- The segments of a parent. -/
theorem segments_parent (h : path.EndsWith start body name)
    (hroot : ¬ (start = [""] ∧ trimSegments body = [])) (hne : start ++ trimSegments body ≠ []) :
    (⟨parentText start (trimSegments body)⟩ : Path).segments = start ++ trimSegments body := by
  rw [parentText, if_neg hroot]
  refine segments_intercalate hne fun segment hmem => not_mem_of_mem_segments path ?_
  rw [h.segments]
  refine List.mem_append_left _ ?_
  rcases List.mem_append.1 hmem with hmem | hmem
  · exact List.mem_append_left _ hmem
  · exact List.mem_append_right _ ((List.rdropWhile_prefix isIdle body).subset hmem)

/-- The segments of what is put together. -/
theorem segments_again (h : path.EndsWith start body name) :
    (again start body name).segments = start ++ trimSegments body ++ [name] := by
  have hsingle : (ofNames [name]).segments = [name] :=
    segments_ofNames (List.cons_ne_nil _ _) fun other hmem => List.mem_singleton.1 hmem ▸ h.isName
  have hrelative : (ofNames [name]).isAbsolute = false :=
    isAbsolute_ofNames fun other hmem => List.mem_singleton.1 hmem ▸ h.isName
  unfold again
  -- The root is written by its separator alone, and so in a way of its own.
  rcases segments_join ⟨parentText start (trimSegments body)⟩ hrelative with
    ⟨hempty, hjoin⟩ | ⟨hnonempty, before, hbefore, hdirectory, hsegments, -⟩
  · -- Only the parent of a lone name is written without any character.
    have hroot : ¬ (start = [""] ∧ trimSegments body = []) := by
      intro hroot
      rw [parentText, if_pos hroot] at hempty
      exact absurd hempty (by decide)
    have hnil : start ++ trimSegments body = [] := by
      by_contra hne
      have hsegments := segments_parent h hroot hne
      have hlast := getLast?_ne_empty h hroot
      rw [show (⟨parentText start (trimSegments body)⟩ : Path) = ⟨""⟩ from congrArg Path.mk hempty]
        at hsegments
      rw [← hsegments] at hlast
      exact hlast rfl
    rw [hjoin, hsingle, hnil, List.nil_append]
  · rw [hsegments, hsingle]
    congr 1
    by_cases hroot : start = [""] ∧ trimSegments body = []
    · have htext : (⟨parentText start (trimSegments body)⟩ : Path) = ⟨"/"⟩ :=
        congrArg Path.mk (if_pos hroot)
      rw [htext, show (⟨"/"⟩ : Path).segments = [""] ++ [""] from by decide] at hdirectory
      rw [hroot.1, hroot.2]
      rcases hdirectory with ⟨rfl, hlast⟩ | heq
      · exact absurd rfl hlast
      · exact (List.append_cancel_right heq).symm
    · have hne : start ++ trimSegments body ≠ [] := by
        intro hnil
        rw [parentText, if_neg hroot, hnil] at hnonempty
        exact hnonempty rfl
      rw [segments_parent h hroot hne] at hdirectory
      rcases hdirectory with ⟨heq, -⟩ | heq
      · exact heq.symm
      · have hlast := getLast?_ne_empty h hroot
        rw [heq, List.getLast?_concat] at hlast
        exact absurd rfl hlast

/-- It ends with the same name. -/
theorem endsWith_again (h : path.EndsWith start body name) :
    (again start body name).EndsWith start (trimSegments body) name := by
  refine ⟨h.isName, segments_again h, h.start.imp_right (Or.imp_right fun ⟨hstart, hhead⟩ => ⟨hstart, ?_⟩)⟩
  -- Trimming takes away from the end, so the first segment is the same.
  intro segment hsegment
  obtain ⟨rest, hrest⟩ := List.rdropWhile_prefix isIdle body
  refine hhead segment ?_
  rw [← hrest, List.head?_append, ← trimSegments_eq, hsegment]
  rfl

/-- **A parent is the parent of what is put together from it.** -/
theorem parent?_again (h : path.EndsWith start body name) :
    (again start body name).parent? = path.parent? := by
  rw [parent?_of_endsWith (endsWith_again h), parent?_of_endsWith h, trimSegments_eq, trimSegments_eq,
    List.rdropWhile_idempotent]

/-! ## Leading to the same place

A path leads to a place by its segments, and those that do not count lead nowhere. A shorter text is
not too long for a path either. -/

/-- A path is written with its segments and slashes between. -/
theorem toList_text (path : Path) :
    path.text.toList = ['/'].intercalate (path.segments.map String.toList) := by
  have hparts : path.segments.map String.toList = path.text.toList.splitOn '/' := by
    rw [segments_eq, List.map_map]
    exact List.map_id'' (fun part => String.toList_ofList) _
  rw [hparts, List.intercalate_splitOn]

/-- Less segments make a shorter text. -/
theorem sublist_intercalate {parts more : List (List Char)} (h : parts.Sublist more) :
    (['/'].intercalate parts).Sublist (['/'].intercalate more) := by
  -- A part is dropped together with a separator next to it, in front if it was the last one.
  induction h with
  | slnil => exact List.Sublist.refl _
  | @cons parts more first hrest ih =>
    cases more with
    | nil =>
      obtain rfl := List.sublist_nil.1 hrest
      exact List.nil_sublist _
    | cons second rest =>
      rw [List.intercalate_cons_cons]
      exact ih.trans (List.sublist_append_right _ _)
  | @cons_cons parts more first hrest ih =>
    cases parts with
    | nil =>
      cases more with
      | nil => exact List.Sublist.refl _
      | cons second rest =>
        rw [List.intercalate_cons_cons]
        simp [List.intercalate]
    | cons other others =>
      obtain ⟨second, rest, rfl⟩ : ∃ second rest, more = second :: rest := by
        cases more with
        | nil => cases hrest
        | cons second rest => exact ⟨second, rest, rfl⟩
      rw [List.intercalate_cons_cons, List.intercalate_cons_cons]
      exact (List.Sublist.refl _).append ih

end Path

namespace Disk

open StoryCheck.Path

variable {disk : Disk} {path : Path} {start body : List String} {name : String} {place origin : Place}

/-- Segments that do not count lead nowhere. -/
theorem Leads.drop_idle {front idle rest : List String} (hidle : ∀ segment ∈ idle, isIdle segment = true)
    (h : disk.Leads origin (front ++ (idle ++ rest)) place) : disk.Leads origin (front ++ rest) place := by
  induction front generalizing origin with
  | nil =>
    induction idle with
    | nil => exact h
    | cons segment idle ih =>
      have hnone : Part.ofSegment? segment = none :=
        if_pos (of_decide_eq_true (hidle segment List.mem_cons_self))
      refine ih (fun other hmem => hidle other (List.mem_cons_of_mem _ hmem)) ?_
      cases h with
      | skip _ _ hrest => exact hrest
      | up => cases hnone
      | down _ hname =>
        rw [hnone] at hname
        cases hname
  | cons segment front ih =>
    cases h with
    | skip hdirectory hskip hrest => exact .skip hdirectory hskip (ih hrest)
    | up hdirectory hrest => exact .up hdirectory (ih hrest)
    | down hdirectory hname hsize hplace hrest => exact .down hdirectory hname hsize hplace (ih hrest)

/-- **What is put together leads to the same place.** -/
theorem locate_again (h : path.EndsWith start body name) (hlocate : disk.locate path = .ok place) :
    disk.locate (again start body name) = .ok place := by
  have hbody : trimSegments body ++ body.rtakeWhile isIdle = body :=
    List.rdropWhile_append_rtakeWhile
  obtain ⟨⟨hnul, -, hsize⟩, hleads⟩ := locate_eq_ok_iff.1 hlocate
  have hsublist : (again start body name).text.toList.Sublist path.text.toList := by
    rw [toList_text, toList_text, segments_again h, h.segments]
    refine sublist_intercalate (List.Sublist.map _ ?_)
    exact ((List.Sublist.refl start).append (List.rdropWhile_prefix isIdle body).sublist).append
      (List.Sublist.refl _)
  -- Less is written than before, from characters that were there, and the segments left out lead
  -- nowhere.
  refine locate_eq_ok_iff.2 ⟨⟨fun hmem => hnul (hsublist.subset hmem), ?_, ?_⟩, ?_⟩
  · intro hempty
    have hsegments := segments_again h
    rw [segments_eq, hempty] at hsegments
    have hlast := congrArg List.getLast? hsegments
    rw [List.getLast?_concat] at hlast
    exact h.isName.1 (Option.some.inj hlast ▸ List.mem_cons_self)
  · rw [← String.ofList_toList (s := (again start body name).text), String.utf8ByteSize_ofList]
    rw [← String.ofList_toList (s := path.text), String.utf8ByteSize_ofList] at hsize
    exact (String.utf8Len_le_of_sublist hsublist).trans hsize
  · have hidle : ∀ segment ∈ body.rtakeWhile isIdle, isIdle segment = true :=
      fun _ => List.mem_rtakeWhile_imp
    rw [h.segments, ← hbody, ← List.append_assoc start, List.append_assoc] at hleads
    rw [segments_again h]
    exact hleads.drop_idle hidle

end Disk

end StoryCheck
