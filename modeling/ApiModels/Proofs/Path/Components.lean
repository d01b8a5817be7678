import Mathlib.Data.List.TakeWhile
import ApiModels.Proofs.FileTree.Below

/-!
# Names and components of joined paths

A name that is joined to a path is its last name (`Path.name?_join`) and its last component
(`Path.components_join`). The extension of a name is what follows its last dot, if something stands
before that dot (`Path.extensionOf?_eq_some_iff`).
-/

namespace ApiModels

theorem Node.isName_iff {name : String} : isName name = true ↔
    name ≠ "" ∧ name ≠ "." ∧ name ≠ ".." ∧ '/' ∉ name.toList := by
  simp [isName, FileTree.isStep, and_assoc]

namespace Path

variable {path name ext stem part : String} {names names' : List String} {isRelative : Bool}

/-- A name is added behind the parts of a path, in the place of an empty part at their end. -/
theorem exists_first_parts_join (hpath : path ≠ "") (hname : '/' ∉ name.toList) :
    ∃ first middle, parts (join path name) = first :: (middle ++ [name]) ∧
      (parts path = first :: middle ∨ parts path = first :: (middle ++ [""])) := by
  obtain ⟨front, hjoin, hpath' | hpath'⟩ := exists_parts_join hpath hname
  · cases front with
    | nil => exact absurd (List.map_eq_nil_iff.1 hpath') Text.splitChars_ne_nil
    | cons first middle => exact ⟨first, middle, hjoin, .inl hpath'⟩
  · cases front with
    | nil =>
      refine absurd ?_ hpath
      obtain ⟨cs, hcs, hempty⟩ := List.map_eq_singleton_iff.1 hpath'
      rw [String.ofList_eq_empty_iff.1 hempty] at hcs
      exact String.toList_eq_nil_iff.1 (Text.eq_nil_of_splitChars hcs)
    | cons first middle => exact ⟨first, middle, hjoin, .inr hpath'⟩

/-! ## The last name -/

theorem dropIdle_cons (hempty : part ≠ "") (hdot : part ≠ ".") (rest : List String) :
    dropIdle isRelative (part :: rest) = part :: rest := by
  cases rest <;> simp [dropIdle, hempty, hdot]

theorem name?_join (hpath : path ≠ "") (hname : Node.isName name = true) :
    name? (join path name) = some name := by
  obtain ⟨hempty, hdot, hdots, hslash⟩ := Node.isName_iff.1 hname
  obtain ⟨first, middle, hparts, -⟩ := exists_first_parts_join hpath hslash
  have hlast : ∃ rest, lastParts (join path name) = name :: rest := by
    rw [lastParts, hparts]
    split
    · rw [List.tail_cons, List.reverse_append]
      exact ⟨_, dropIdle_cons hempty hdot _⟩
    · rw [List.reverse_cons, List.reverse_append]
      exact ⟨_, dropIdle_cons hempty hdot _⟩
  obtain ⟨rest, hrest⟩ := hlast
  simp [name?, hrest, hdot, hdots]

theorem joinAll_append_singleton (names : List String) (name : String) :
    joinAll path (names ++ [name]) = join (joinAll path names) name := by
  rw [joinAll, List.foldl_append]
  rfl

theorem joinAll_ne_empty (hpath : path ≠ "") (names : List String) : joinAll path names ≠ "" := by
  induction names generalizing path with
  | nil => exact hpath
  | cons name names ih => exact ih (join_ne_empty hpath)

/-! ## Extensions -/

theorem extensionOf?_append (hext : '.' ∉ ext.toList) :
    extensionOf? (stem ++ "." ++ ext) = if stem = "" then none else some ext := by
  have hreverse : (stem ++ "." ++ ext).toList.reverse =
      ext.toList.reverse ++ '.' :: stem.toList.reverse := by simp
  have hnone : ∀ c ∈ ext.toList.reverse, (decide (c ≠ '.')) = true := by
    intro c hc
    exact decide_eq_true fun hdot => hext (hdot ▸ List.mem_reverse.1 hc)
  rw [extensionOf?]
  simp only [hreverse, List.takeWhile_append_of_pos hnone, List.dropWhile_append_of_pos hnone]
  by_cases hstem : stem = ""
  · simp [hstem]
  · obtain ⟨c, cs, hcs⟩ := List.exists_cons_of_ne_nil
      (List.reverse_ne_nil_iff.2 (mt String.toList_eq_nil_iff.1 hstem))
    simp [hcs, hstem]

theorem extensionOf?_of_not_mem (h : '.' ∉ name.toList) : extensionOf? name = none := by
  have hnone : name.toList.reverse.dropWhile (· ≠ '.') = [] := by
    rw [List.dropWhile_eq_nil_iff]
    intro c hc
    exact decide_eq_true fun hdot => h (hdot ▸ List.mem_reverse.1 hc)
  rw [extensionOf?]
  simp only [hnone]

theorem exists_last_dot (h : '.' ∈ name.toList) :
    ∃ stem ext : String, '.' ∉ ext.toList ∧ name = stem ++ "." ++ ext := by
  obtain ⟨ext, stem, hname, hext⟩ := List.eq_append_cons_of_mem (List.mem_reverse.2 h)
  refine ⟨.ofList stem.reverse, .ofList ext.reverse, ?_, String.toList_injective ?_⟩
  · simpa using hext
  · rw [← List.reverse_reverse name.toList, hname]
    simp

/-- The extension is what follows the last dot, if something stands before that dot. -/
theorem extensionOf?_eq_some_iff : extensionOf? name = some ext ↔
    '.' ∉ ext.toList ∧ ∃ stem, stem ≠ "" ∧ name = stem ++ "." ++ ext := by
  constructor
  · intro h
    by_cases hdot : '.' ∈ name.toList
    · obtain ⟨stem, ext', hext, rfl⟩ := exists_last_dot hdot
      rw [extensionOf?_append hext] at h
      split at h
      · cases h
      · rename_i hstem
        cases h
        exact ⟨hext, stem, hstem, rfl⟩
    · rw [extensionOf?_of_not_mem hdot] at h
      cases h
  · rintro ⟨hext, stem, hstem, rfl⟩
    rw [extensionOf?_append hext, if_neg hstem]

/-! ## Components -/

/-- The components of a path: its first part, which is empty for an absolute path, and those after
it that mean something. -/
def components (path : String) : List String :=
  match parts path with
  | [] => []
  | first :: rest => first :: rest.filter fun part => part != "" && part != "."

theorem components_join (hpath : path ≠ "") (hname : Node.isName name = true) :
    components (join path name) = components path ++ [name] := by
  obtain ⟨hempty, hdot, -, hslash⟩ := Node.isName_iff.1 hname
  have hkept : [name].filter (fun part => part != "" && part != ".") = [name] := by
    simp [hempty, hdot]
  have hdropped : [""].filter (fun part => part != "" && part != ".") = [] := rfl
  obtain ⟨first, middle, hjoin, hparts | hparts⟩ := exists_first_parts_join hpath hslash
  · simp only [components, hjoin, hparts, List.filter_append, hkept, List.cons_append]
  · simp only [components, hjoin, hparts, List.filter_append, hkept, hdropped, List.append_nil,
      List.cons_append]

theorem components_joinAll (hpath : path ≠ "") (hnames : ∀ name ∈ names, Node.isName name = true) :
    components (joinAll path names) = components path ++ names := by
  induction names generalizing path with
  | nil => rw [joinAll_nil, List.append_nil]
  | cons name names ih =>
    rw [List.forall_mem_cons] at hnames
    rw [joinAll_cons, ih (join_ne_empty hpath) hnames.2, components_join hpath hnames.1,
      List.append_assoc, List.singleton_append]

/-- Different names lead to different paths. -/
theorem joinAll_inj (hpath : path ≠ "") (hnames : ∀ name ∈ names, Node.isName name = true)
    (hnames' : ∀ name ∈ names', Node.isName name = true) :
    joinAll path names = joinAll path names' ↔ names = names' := by
  refine ⟨fun h => ?_, fun h => congrArg (joinAll path) h⟩
  have hcomponents := congrArg components h
  rw [components_joinAll hpath hnames, components_joinAll hpath hnames'] at hcomponents
  exact List.append_cancel_left hcomponents

end Path

end ApiModels
