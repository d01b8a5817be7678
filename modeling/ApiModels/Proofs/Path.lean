import ApiModels.Path
import ApiModels.Proofs.Text.Splitting

/-!
# The paths of entries

`Path.join` adds a name to a path. The parts of the new path are those of the old one, without an
empty part at its end, and the name.
-/

namespace ApiModels

namespace Path

variable {path name : String}

theorem parts_append (h : '/' ∉ name.toList) :
    parts (path ++ "/" ++ name) = parts path ++ [name] := by
  have hchars : (path ++ "/" ++ name).toList = path.toList ++ '/' :: name.toList := by simp
  rw [parts, hchars, Text.splitChars_append_cons, Text.splitChars_of_not_mem h, List.map_append,
    List.map_singleton, String.ofList_toList, parts]

theorem exists_parts_join (hpath : path ≠ "") (hname : '/' ∉ name.toList) :
    ∃ front, parts (join path name) = front ++ [name] ∧
      (parts path = front ∨ parts path = front ++ [""]) := by
  rw [join]
  split
  · rename_i hend
    have hlast : path.toList.getLast? = some '/' := by simpa [hpath] using hend
    obtain ⟨cs, hcs⟩ := List.getLast?_eq_some_iff.1 hlast
    obtain rfl : path = String.ofList cs ++ "/" := String.toList_injective (by simp [hcs])
    refine ⟨parts (String.ofList cs), parts_append hname, .inr ?_⟩
    have hparts : parts (String.ofList cs ++ "/" ++ "") = parts (String.ofList cs) ++ [""] :=
      parts_append List.not_mem_nil
    rwa [String.append_empty] at hparts
  · exact ⟨parts path, parts_append hname, .inl rfl⟩

theorem join_ne_empty (hpath : path ≠ "") : join path name ≠ "" := by
  intro h
  rw [join] at h
  split at h <;> simp [hpath] at h

theorem isAbsolute_join (hpath : path ≠ "") : isAbsolute (join path name) = isAbsolute path := by
  have hchars : path.toList ≠ [] := by simpa using hpath
  obtain ⟨c, cs, hcs⟩ := List.exists_cons_of_ne_nil hchars
  rw [join, isAbsolute, isAbsolute]
  split <;> simp [hcs]

/-- The path of what a list of names leads to from a directory. -/
def joinAll (path : String) (names : List String) : String := names.foldl join path

@[simp] theorem joinAll_nil : joinAll path [] = path := rfl

@[simp] theorem joinAll_cons (names : List String) :
    joinAll path (name :: names) = joinAll (join path name) names := rfl

end Path

end ApiModels
