import EventHttp.Site.FileSystem

/-! Paths as texts.  A name pushed behind a path is its last segment, and what is meant below a
root is the root with the names of the path behind it, one after another; a path with a segment
`..` means nothing there. -/

namespace EventHttp

namespace FileTree

structure IsName (s : String) : Prop where
  ne_blank : s ≠ ""
  ne_here : s ≠ "."
  ne_up : s ≠ ".."
  slash_not_mem : '/' ∉ s.toList

variable {path name : String}

theorem slash_not_mem_of_mem_segments {segment : String} (h : segment ∈ segments path) :
    '/' ∉ segment.toList := by
  obtain ⟨part, hpart, rfl⟩ := List.mem_map.mp h
  rw [String.toList_ofList]
  exact sep_not_mem_of_mem_splitAll hpart

theorem isName_of_mem_names (hup : ".." ∉ segments path) (h : name ∈ names path) :
    IsName name := by
  obtain ⟨hmem, hname⟩ := List.mem_filter.mp h
  have hname := of_decide_eq_true hname
  exact ⟨hname.1, hname.2, fun he => hup (he ▸ hmem), slash_not_mem_of_mem_segments hmem⟩

theorem segments_append_slash (path other : String) :
    segments (path ++ "/" ++ other) = segments path ++ segments other := by
  have hlist : (path ++ "/" ++ other).toList = path.toList ++ '/' :: other.toList := by
    rw [String.toList_append, String.toList_append, List.append_assoc]
    rfl
  rw [segments, hlist, splitAll_eq_splitOn, List.splitOn_append_cons_self, List.map_append,
    ← splitAll_eq_splitOn, ← splitAll_eq_splitOn]
  rfl

theorem segments_of_slash_not_mem (h : '/' ∉ name.toList) : segments name = [name] := by
  rw [segments, splitAll_eq_splitOn, List.splitOn_eq_singleton h, List.map_singleton,
    String.ofList_toList]

theorem names_append_slash (path other : String) :
    names (path ++ "/" ++ other) = names path ++ names other := by
  rw [names, segments_append_slash, List.filter_append]
  rfl

theorem names_of_isName (h : IsName name) : names name = [name] := by
  have hkeep : decide (name ≠ "" ∧ name ≠ ".") = true :=
    decide_eq_true ⟨h.ne_blank, h.ne_here⟩
  rw [names, segments_of_slash_not_mem h.slash_not_mem, List.filter_cons, if_pos hkeep,
    List.filter_nil]

theorem segments_blank : segments "" = [""] := rfl

end FileTree

namespace FilePath
open FileTree

variable {path root name : String}

theorem not_isAbsolute_of_slash_not_mem (h : '/' ∉ name.toList) : isAbsolute name = false := by
  rw [isAbsolute, beq_eq_false_iff_ne]
  exact fun hhead => h (List.mem_of_head? hhead)

theorem isAbsolute_append (h : path ≠ "") (other : String) :
    isAbsolute (path ++ other) = isAbsolute path := by
  rw [isAbsolute, isAbsolute, String.toList_append]
  cases hpath : path.toList with
  | nil => exact absurd (String.toList_eq_nil_iff.mp hpath) h
  | cons c s => rfl

theorem push_cases (path : String) (h : IsName name) :
    path = "" ∧ push path name = name ∨
      (∃ init, path = init ++ "/" ++ "" ∧ push path name = init ++ "/" ++ name) ∨
      path ≠ "" ∧ push path name = path ++ "/" ++ name := by
  rw [push, if_neg (by rw [not_isAbsolute_of_slash_not_mem h.slash_not_mem]; decide)]
  by_cases hblank : path = ""
  · subst hblank
    exact Or.inl ⟨rfl, by rw [if_pos (Or.inl rfl), String.empty_append]⟩
  · by_cases hlast : path.toList.getLast? = some '/'
    · obtain ⟨init, hinit⟩ := List.getLast?_eq_some_iff.mp hlast
      have hpath : path = String.ofList init ++ "/" := by
        rw [← String.toList_inj, String.toList_append, String.toList_ofList, hinit]
        rfl
      exact Or.inr (Or.inl ⟨String.ofList init, by rw [hpath, String.append_empty],
        by rw [if_pos (Or.inr hlast), hpath]⟩)
    · exact Or.inr (Or.inr ⟨hblank, if_neg (not_or.mpr ⟨hblank, hlast⟩)⟩)

theorem isAbsolute_push (path : String) (h : IsName name) :
    isAbsolute (push path name) = isAbsolute path := by
  rcases push_cases path h with ⟨rfl, he⟩ | ⟨init, hpath, he⟩ | ⟨hne, he⟩
  · rw [he, not_isAbsolute_of_slash_not_mem h.slash_not_mem]
    rfl
  · have hne : init ++ "/" ≠ "" := by
      rw [ne_eq, ← String.toList_inj, String.toList_append]
      simp
    rw [he, hpath, isAbsolute_append hne, isAbsolute_append hne]
  · rw [he, String.append_assoc, isAbsolute_append hne]

theorem names_push (path : String) (h : IsName name) :
    names (push path name) = names path ++ [name] := by
  rcases push_cases path h with ⟨rfl, he⟩ | ⟨init, hpath, he⟩ | ⟨-, he⟩
  · rw [he, names_of_isName h]
    rfl
  · rw [he, hpath, names_append_slash, names_append_slash, names_of_isName h, List.append_assoc]
    rfl
  · rw [he, names_append_slash, names_of_isName h]

theorem names_foldl_push {ns : List String} (h : ∀ name ∈ ns, IsName name) (root : String) :
    names (ns.foldl push root) = names root ++ ns := by
  induction ns generalizing root with
  | nil => exact (List.append_nil _).symm
  | cons name ns ih =>
    obtain ⟨hname, hns⟩ := List.forall_mem_cons.mp h
    rw [List.foldl_cons, ih hns, names_push root hname, List.append_assoc]
    rfl

theorem not_isAbsolute_withoutLeadingSlashes (path : String) :
    isAbsolute (withoutLeadingSlashes path) = false := by
  rw [isAbsolute, withoutLeadingSlashes, String.toList_ofList, beq_eq_false_iff_ne]
  intro hhead
  have hnot := List.head?_dropWhile_not (· = '/') path.toList
  rw [hhead] at hnot
  exact absurd rfl (of_decide_eq_false hnot)

theorem filterMap_segments_withoutLeadingSlashes (path : String) :
    (segments (withoutLeadingSlashes path)).filterMap PathPart.ofSegment? =
      (segments path).filterMap PathPart.ofSegment? := by
  rw [withoutLeadingSlashes, segments, String.toList_ofList, segments]
  induction path.toList with
  | nil => rfl
  | cons c s ih =>
    by_cases hc : c = '/'
    · rw [List.dropWhile_cons, if_pos (by simpa using hc), ih, splitAll_cons, if_pos hc]
      rfl
    · rw [List.dropWhile_cons, if_neg (by simpa using hc)]

theorem foldlM_extend?_segments (segments : List String) (root : String) :
    (segments.filterMap PathPart.ofSegment?).foldlM extend? root =
      if ".." ∈ segments then none
      else some ((segments.filter fun s => s ≠ "" ∧ s ≠ ".").foldl push root) := by
  induction segments generalizing root with
  | nil => rfl
  | cons segment segments ih =>
    by_cases hskip : segment = "" ∨ segment = "."
    · have hpart : PathPart.ofSegment? segment = none := if_pos hskip
      have hup : ".." ≠ segment := by rcases hskip with rfl | rfl <;> decide
      have hdrop : ¬ (segment ≠ "" ∧ segment ≠ ".") := fun h => hskip.elim h.1 h.2
      rw [List.filterMap_cons_none hpart, ih, List.filter_cons_of_neg (by simpa using hdrop)]
      simp only [List.mem_cons, hup, false_or]
    · by_cases hup : segment = ".."
      · subst hup
        have hpart : PathPart.ofSegment? ".." = some .up := rfl
        rw [List.filterMap_cons_some hpart, if_pos List.mem_cons_self]
        rfl
      · have hpart : PathPart.ofSegment? segment = some (.name segment) := by
          rw [PathPart.ofSegment?, if_neg hskip, if_neg hup]
        have hkeep : decide (segment ≠ "" ∧ segment ≠ ".") = true :=
          decide_eq_true (not_or.mp hskip)
        rw [List.filterMap_cons_some hpart, List.filter_cons, if_pos hkeep, List.foldl_cons]
        exact (ih (push root segment)).trans (by simp only [List.mem_cons, Ne.symm hup, false_or])

theorem below?_eq (root path : String) :
    below? root path =
      if ".." ∈ segments path then none else some ((names path).foldl push root) := by
  have hhere (ps : List PathPart) :
      ([PathPart.here] ++ ps).foldlM extend? root = ps.foldlM extend? root := rfl
  have hparts : (parts (withoutLeadingSlashes path)).foldlM extend? root =
      ((segments path).filterMap PathPart.ofSegment?).foldlM extend? root := by
    rw [parts, not_isAbsolute_withoutLeadingSlashes, if_neg Bool.false_ne_true,
      filterMap_segments_withoutLeadingSlashes]
    split
    · exact hhere _
    · rw [List.nil_append]
  rw [below?, hparts, foldlM_extend?_segments, names]

end FilePath
end EventHttp
