import ApiModels.Proofs.FileTree.Entries

/-!
# Where paths lead

A path is followed part by part, and each step looks only at what stands at a position
(`FileTree.enter_eq`). So a path that leads somewhere leads there still when directories are added,
or when files are removed that are not on the way (`FileTree.locate_mono`).
-/

namespace ApiModels

theorem bind_eq_ok_iff {ε α β : Type} {x : Except ε α} {f : α → Except ε β} {b : β} :
    x >>= f = .ok b ↔ ∃ a, x = .ok a ∧ f a = .ok b := by
  cases x <;> simp [bind, Except.bind]

theorem eq_ok_of_toOption {ε α : Type} {x : Except ε α} {a : α} (h : x.toOption = some a) :
    x = .ok a := by
  cases x with
  | error e => cases h
  | ok b => cases h; rfl

namespace FileTree

variable {t t' : FileTree} {front position : List String} {part name path : String}
  {parts : List String}

/-- What stands at a position. -/
def entryAt? (t : FileTree) (position : List String) : Option Entry := t.root.entryAt? position

/-- A step from a directory by a part of a path. -/
inductive Step (t : FileTree) (front : List String) : String → List String → Prop where
  | stay {word} : word = "" ∨ word = "." → Step t front word front
  | up : Step t front ".." front.dropLast
  | down {word} : isStep word = false → checkName word = .ok () →
    (t.entryAt? (front ++ [word])).isSome = true → Step t front word (front ++ [word])

theorem enter_eq (t : FileTree) (front : List String) (part : String) :
    t.enter front part = match t.entryAt? front with
    | none => .error .missing
    | some (.file _) => .error .notDirectory
    | some .directory =>
      if part = "" ∨ part = "." then .ok front
      else if part = ".." then .ok front.dropLast
      else match checkName part with
        | .error fault => .error fault
        | .ok () =>
          if (t.entryAt? (front ++ [part])).isSome then .ok (front ++ [part])
          else .error .missing := by
  rw [enter, entryAt?, entryAt?, Node.entryAt?, Node.entryAt?, Node.at?_append]
  cases t.root.at? front with
  | none => rfl
  | some n =>
    cases n with
    | file content => rfl
    | directory entries =>
      have hnext : ((Node.directory entries).at? [part]).map Node.entry =
          (Node.lookup? entries part).map Node.entry := by
        rw [Node.at?, Node.child?]
        cases Node.lookup? entries part <;> rfl
      simp only [Option.map_some, Node.entry, Option.bind_some, hnext, Option.isSome_map,
        Bool.or_eq_true, beq_iff_eq]
      cases checkName part with
      | error fault => rfl
      | ok _ => cases Node.lookup? entries part <;> rfl

theorem enter_eq_ok_iff : t.enter front part = .ok position ↔
    t.entryAt? front = some .directory ∧ t.Step front part position := by
  rw [enter_eq]
  constructor
  · intro h
    split at h
    · cases h
    · cases h
    · rename_i hfront
      refine ⟨hfront, ?_⟩
      split at h
      · rename_i hidle
        cases h
        exact .stay hidle
      split at h
      · rename_i hup
        cases h
        exact hup ▸ .up
      rename_i hidle hup
      split at h
      · cases h
      rename_i hname
      split at h
      · rename_i hthere
        cases h
        exact .down (by simpa [isStep, hup] using hidle) hname hthere
      · cases h
  · rintro ⟨hfront, hstep⟩
    rw [hfront]
    cases hstep with
    | stay hidle => simp [hidle]
    | up => simp
    | down hpart hname hthere =>
      have hidle : ¬(part = "" ∨ part = ".") := by
        rintro (rfl | rfl) <;> cases hpart
      have hup : part ≠ ".." := by
        rintro rfl
        cases hpart
      simp [hidle, hup, hname, hthere]

/-- The place of a path: a directory that all but the last of its parts lead to, and that part. -/
theorem place_eq_ok_iff : t.place path = .ok (front, name) ↔
    checkPath path = .ok () ∧ t.follow path (Path.parts path).dropLast = .ok front ∧
      t.entryAt? front = some .directory ∧ checkName name = .ok () ∧
      name = (Path.parts path).getLastD "" := by
  simp only [place, bind_eq_ok_iff, entryAt?, Node.entryAt?]
  constructor
  · rintro ⟨_, hpath, position, hfollow, h⟩
    split at h
    · rename_i entries hat
      obtain ⟨_, hname, h⟩ := bind_eq_ok_iff.1 h
      cases h
      exact ⟨hpath, hfollow, by rw [hat]; rfl, hname, rfl⟩
    · cases h
    · cases h
  · rintro ⟨hpath, hfollow, hfront, hname, rfl⟩
    refine ⟨(), hpath, front, hfollow, ?_⟩
    obtain ⟨entries, hat⟩ := Node.entryAt?_eq_directory_iff.1 hfront
    rw [hat]
    exact bind_eq_ok_iff.2 ⟨(), hname, rfl⟩

theorem readText_eq (t : FileTree) (path : String) : t.readText path =
    t.locate path >>= fun position => match t.entryAt? position with
      | none => .error .missing
      | some .directory => .error .isDirectory
      | some (.file .bytes) => .error .notText
      | some (.file (.text text)) => .ok text := by
  rw [readText, node]
  cases t.locate path with
  | error fault => rfl
  | ok position =>
    simp only [bind, Except.bind, entryAt?, Node.entryAt?]
    cases t.root.at? position with
    | none => rfl
    | some n =>
      cases n with
      | directory entries => rfl
      | file content => cases content <;> rfl

/-! ## Paths in two trees -/

section
variable (dirs : ∀ position, t.entryAt? position = some .directory →
  t'.entryAt? position = some .directory)
include dirs

theorem enter_mono (h : t.enter front part = .ok position)
    (hposition : (t'.entryAt? position).isSome = true) : t'.enter front part = .ok position := by
  obtain ⟨hfront, hstep⟩ := enter_eq_ok_iff.1 h
  refine enter_eq_ok_iff.2 ⟨dirs front hfront, ?_⟩
  cases hstep with
  | stay hidle => exact .stay hidle
  | up => exact .up
  | down hpart hname _ => exact .down hpart hname hposition

theorem foldlM_enter_mono (h : parts.foldlM t.enter front = .ok position)
    (hposition : (t'.entryAt? position).isSome = true) :
    parts.foldlM t'.enter front = .ok position := by
  induction parts generalizing front with
  | nil => exact h
  | cons part parts ih =>
    rw [List.foldlM_cons, bind_eq_ok_iff] at h ⊢
    obtain ⟨next, hpart, hparts⟩ := h
    refine ⟨next, enter_mono dirs hpart ?_, ih hparts⟩
    cases parts with
    | nil =>
      cases hparts
      exact hposition
    | cons part' parts =>
      -- the next step starts from a directory
      rw [List.foldlM_cons, bind_eq_ok_iff] at hparts
      obtain ⟨_, hpart', -⟩ := hparts
      exact Option.isSome_of_eq_some (dirs next (enter_eq_ok_iff.1 hpart').1)

theorem follow_mono (here : t'.here = t.here) (h : t.follow path parts = .ok position)
    (hposition : (t'.entryAt? position).isSome = true) : t'.follow path parts = .ok position := by
  rw [follow, here]
  exact foldlM_enter_mono dirs h hposition

theorem locate_mono (here : t'.here = t.here) (h : t.locate path = .ok position)
    (hposition : (t'.entryAt? position).isSome = true) : t'.locate path = .ok position := by
  rw [locate, bind_eq_ok_iff] at h ⊢
  obtain ⟨_, hpath, hfollow⟩ := h
  exact ⟨(), hpath, follow_mono dirs here hfollow hposition⟩

/-- A path leads to its place, if something is put there. -/
theorem locate_of_place (here : t'.here = t.here) (h : t.place path = .ok (front, name))
    (hname : isStep name = false) (hplace : (t'.entryAt? (front ++ [name])).isSome = true) :
    t'.locate path = .ok (front ++ [name]) := by
  obtain ⟨hpath, hfollow, hfront, hcheck, hlast⟩ := place_eq_ok_iff.1 h
  have hfront' := dirs front hfront
  have hfollow' := follow_mono dirs here hfollow (Option.isSome_of_eq_some hfront')
  have hparts : Path.parts path = (Path.parts path).dropLast ++ [name] := by
    rcases List.eq_nil_or_concat (Path.parts path) with hnil | ⟨init, last, hconcat⟩
    · rw [hlast, hnil] at hname
      cases hname
    · rw [hlast, hconcat, List.concat_eq_append]
      simp
  rw [locate, hpath, hparts, follow]
  simp only [bind, Except.bind, List.foldlM_append]
  rw [follow] at hfollow'
  rw [hfollow']
  have hstep := enter_eq_ok_iff.2 ⟨hfront', .down hname hcheck hplace⟩
  simp only [List.foldlM_cons, hstep, List.foldlM_nil]
  rfl

end

end FileTree

end ApiModels
