import Mathlib.Data.List.Basic
import ApiModels.FileTree

/-!
# What stands where in a file tree

The view of a tree by positions: at each there is a directory, a file with its content, or nothing.
Paths are followed by this view alone, and `Node.entryAt?_put` says what a change does to it: it is
as before, except at the changed position.
-/

namespace ApiModels

/-- What stands at a position. -/
inductive Entry where
  | directory
  | file (content : Content)
deriving DecidableEq, Repr

namespace Node

variable {node new : Node} {name other : String} {entries : List (String × Node)}
  {front position rest : List String} {content : Content}

/-- What a node is, whatever a directory holds. -/
def entry : Node → Entry
  | .directory _ => .directory
  | .file content => .file content

/-- What stands at a position. -/
def entryAt? (node : Node) (position : List String) : Option Entry := (node.at? position).map entry

theorem entry_eq_directory_iff :
    node.entry = .directory ↔ ∃ entries, node = .directory entries := by
  cases node with
  | directory entries => exact ⟨fun _ => ⟨entries, rfl⟩, fun _ => rfl⟩
  | file content =>
    constructor
    · intro h
      cases h
    · rintro ⟨entries, h⟩
      cases h

theorem entryAt?_eq_directory_iff : node.entryAt? position = some .directory ↔
    ∃ entries, node.at? position = some (.directory entries) := by
  rw [entryAt?, Option.map_eq_some_iff]
  constructor
  · rintro ⟨n, hn, hentry⟩
    obtain ⟨entries, rfl⟩ := entry_eq_directory_iff.1 hentry
    exact ⟨entries, hn⟩
  · rintro ⟨entries, h⟩
    exact ⟨_, h, rfl⟩

theorem entryAt?_eq_file_iff :
    node.entryAt? position = some (.file content) ↔ node.at? position = some (.file content) := by
  rw [entryAt?, Option.map_eq_some_iff]
  constructor
  · rintro ⟨n, hn, hentry⟩
    cases n with
    | directory entries => cases hentry
    | file other => cases hentry; exact hn
  · intro h
    exact ⟨_, h, rfl⟩

/-! ## Positions -/

theorem at?_append : node.at? (front ++ rest) = (node.at? front).bind (·.at? rest) := by
  induction front generalizing node with
  | nil => rfl
  | cons name front ih =>
    rw [List.cons_append, at?, at?]
    cases node.child? name with
    | none => rfl
    | some child => exact ih

/-- What has anything below it is a directory. -/
theorem entryAt?_of_append (h : (node.entryAt? (front ++ name :: rest)).isSome = true) :
    node.entryAt? front = some .directory := by
  rw [entryAt?, Option.isSome_map, at?_append] at h
  rw [entryAt?]
  cases hfront : node.at? front with
  | none => rw [hfront] at h; cases h
  | some n =>
    rw [hfront] at h
    cases n with
    | directory entries => rfl
    | file content => cases h

/-! ## Changes -/

@[simp] theorem lookup?_setEntry_self : lookup? (setEntry name node entries) name = some node := by
  induction entries with
  | nil => simp [setEntry, lookup?]
  | cons e entries ih =>
    obtain ⟨n, old⟩ := e
    rw [setEntry]
    by_cases h : n = name
    · simp [h, lookup?]
    · simp only [beq_iff_eq, h, if_false]
      rw [← ih]
      simp [lookup?, h]

theorem lookup?_setEntry_of_ne (h : other ≠ name) :
    lookup? (setEntry name node entries) other = lookup? entries other := by
  induction entries with
  | nil => simp [setEntry, lookup?, h.symm]
  | cons e entries ih =>
    obtain ⟨n, old⟩ := e
    rw [setEntry]
    by_cases hn : n = name
    · simp [hn, lookup?, h.symm]
    · simp only [beq_iff_eq, hn, if_false]
      by_cases ho : n = other
      · simp [lookup?, ho]
      · have hcons (es : List (String × Node)) :
            lookup? ((n, old) :: es) other = lookup? es other := by
          simp [lookup?, ho]
        rw [hcons, hcons, ih]

/-- A position that a node can be put at: that of the root, or one in a directory that is there. -/
def HasPlace (node : Node) (position : List String) : Prop :=
  position = [] ∨ node.entryAt? position.dropLast = some .directory

theorem HasPlace.of_cons (h : node.HasPlace (name :: rest)) : ∃ entries,
    node = .directory entries ∧
      (rest = [] ∨ ∃ child, lookup? entries name = some child ∧ child.HasPlace rest) := by
  obtain h | h := h
  · cases h
  cases node with
  | file content => cases rest <;> cases h
  | directory entries =>
    refine ⟨entries, rfl, ?_⟩
    cases rest with
    | nil => exact .inl rfl
    | cons next rest =>
      rw [List.dropLast_cons_of_ne_nil (by simp), entryAt?, at?, child?] at h
      cases hchild : lookup? entries name with
      | none => rw [hchild] at h; cases h
      | some child => rw [hchild] at h; exact .inr ⟨child, rfl, .inr h⟩

theorem at?_put (h : node.HasPlace front) :
    (put new front node).at? (front ++ rest) = new.at? rest := by
  induction front generalizing node with
  | nil => rfl
  | cons name front ih =>
    obtain ⟨entries, rfl, hplace⟩ := h.of_cons
    rw [put, List.cons_append, at?, child?, lookup?_setEntry_self, Option.bind_some]
    obtain rfl | ⟨child, hchild, hplace⟩ := hplace
    · rfl
    · rw [hchild]
      exact ih hplace

theorem entryAt?_put_elsewhere (h : node.HasPlace front) (hbelow : ¬front <+: position) :
    (put new front node).entryAt? position = node.entryAt? position := by
  induction front generalizing node position with
  | nil => exact (hbelow List.nil_prefix).elim
  | cons name front ih =>
    obtain ⟨entries, rfl, hplace⟩ := h.of_cons
    cases position with
    | nil => rfl
    | cons other position =>
      rw [put, entryAt?, at?, child?, entryAt?, at?, child?]
      by_cases hname : other = name
      · obtain rfl := hname
        obtain rfl | ⟨child, hchild, hplace⟩ := hplace
        · simp at hbelow
        · rw [lookup?_setEntry_self, hchild]
          exact ih hplace (by simpa using hbelow)
      · rw [lookup?_setEntry_of_ne hname]

/-- Where no directory stands, putting a node that has nothing below it changes this one place. -/
theorem entryAt?_put (h : node.HasPlace front) (hnode : node.entryAt? front ≠ some .directory)
    (hnew : ∀ name rest, new.at? (name :: rest) = none) : (put new front node).entryAt? position =
      if position = front then some new.entry else node.entryAt? position := by
  split
  · rename_i heq
    have hat : (put new front node).at? (front ++ []) = new.at? [] := at?_put h
    rw [List.append_nil] at hat
    rw [heq, entryAt?, hat]
    rfl
  · rename_i hne
    by_cases hbelow : front <+: position
    · obtain ⟨rest, rfl⟩ := hbelow
      cases rest with
      | nil => simp at hne
      | cons name rest =>
        have hnone : node.entryAt? (front ++ name :: rest) = none := by
          by_contra hsome
          exact hnode (entryAt?_of_append (Option.isSome_iff_ne_none.2 hsome))
        rw [hnone, entryAt?, at?_put h, hnew]
        rfl
    · exact entryAt?_put_elsewhere h hbelow

end Node

end ApiModels
