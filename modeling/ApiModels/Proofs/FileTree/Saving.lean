import Mathlib.Logic.Relation
import ApiModels.CommandLine.Run
import ApiModels.Proofs.FileTree.Changes

/-!
# Saving a file

A file is saved by making the directories that its path needs and writing it. If that fails, all
files are as they were. If it succeeds, the file holds the text, every other file is as it was, and
what was added besides are directories that paths above the file lead to (`FileTree.Saved`).
-/

namespace ApiModels

/-! ## Paths above a path -/

namespace Path

/-- Whether `outer` comes from `path` by taking away last names, one at least. -/
def Above (outer path : String) : Prop :=
  Relation.TransGen (fun inner outer => parent? inner = some outer) path outer

theorem reflTransGen_of_mem_outward {outer path : String} (h : outer ∈ outward path) :
    Relation.ReflTransGen (fun inner outer => parent? inner = some outer) path outer := by
  rw [outward] at h
  generalize (parts path).length = fuel at h
  induction fuel generalizing path with
  | zero =>
    cases List.mem_singleton.1 h
    exact .refl
  | succ fuel ih =>
    rw [outward.go] at h
    rcases List.mem_cons.1 h with rfl | h
    · exact .refl
    cases hparent : parent? path with
    | none => rw [hparent] at h; cases h
    | some next =>
      rw [hparent] at h
      exact .head hparent (ih h)

theorem above_of_mem_outward {outer next path : String} (hparent : parent? path = some next)
    (h : outer ∈ outward next) : Above outer path :=
  .head' hparent (reflTransGen_of_mem_outward h)

end Path

namespace FileTree

variable {t t' t'' : FileTree} {path text : String} {position : List String} {fault : FileFault}
  {failure : Failure}

/-- `t'` is `t` with the text saved at the path: the path leads to a position where no directory
was, and the text is there; everything else is kept, and what is new besides are directories that
paths above lead to. -/
structure Saved (t t' : FileTree) (path text : String) (position : List String) : Prop where
  here : t'.here = t.here
  located : t'.locate path = .ok position
  content : t'.readText path = .ok text
  place : t.entryAt? position ≠ some .directory
  files : ∀ p, p ≠ position → ∀ content,
    t'.entryAt? p = some (.file content) ↔ t.entryAt? p = some (.file content)
  kept : ∀ p entry, p ≠ position → t.entryAt? p = some entry → t'.entryAt? p = some entry
  made : ∀ p entry, p ≠ position → t.entryAt? p = none → t'.entryAt? p = some entry →
    entry = .directory ∧ ∃ outer, Path.Above outer path ∧ t'.locate outer = .ok p

/-! ## Writing -/

theorem perform_writeText (path text : String) (t : FileTree) :
    t.perform (writeText path text) = match t.place path with
    | .error fault => (.error fault, t)
    | .ok (front, name) =>
      if isStep name || (t.root.at? (front ++ [name])).any Node.isDirectory then
        (.error .isDirectory, t)
      else (.ok (), { t with root := .put (.file (.text text)) (front ++ [name]) t.root }) := by
  rw [writeText, perform_bind, perform_get]
  simp only [perform_bind, perform_mk_pure]
  cases t.place path with
  | error fault => rfl
  | ok place =>
    simp only
    split
    · rfl
    · rfl

theorem eq_of_perform_writeText (h : t.perform (writeText path text) = (.error fault, t')) :
    t' = t := by
  rw [perform_writeText] at h
  split at h
  · cases h
    rfl
  split at h
  · cases h
    rfl
  · cases h

/-- A write that succeeds changes one place, to which the path leads. -/
theorem exists_of_perform_writeText (h : t.perform (writeText path text) = (.ok (), t')) :
    ∃ position, t'.here = t.here ∧ t.entryAt? position ≠ some .directory ∧
      (∀ p, t'.entryAt? p = if p = position then some (.file (.text text)) else t.entryAt? p) ∧
      t'.locate path = .ok position := by
  rw [perform_writeText] at h
  split at h
  · cases h
  rename_i front name hplace
  split at h
  · cases h
  rename_i hfree
  cases h
  simp only [Bool.or_eq_true, not_or, Bool.not_eq_true] at hfree
  obtain ⟨hname, hfree⟩ := hfree
  have hdirectory : t.entryAt? (front ++ [name]) ≠ some .directory := by
    intro hentry
    obtain ⟨entries, hat⟩ := Node.entryAt?_eq_directory_iff.1 hentry
    rw [hat] at hfree
    cases hfree
  have hput := entryAt?_put_place hplace hdirectory (.file (.text text)) fun _ _ => rfl
  refine ⟨_, rfl, hdirectory, hput, ?_⟩
  refine locate_of_place (t := t) (fun p hp => ?_) rfl hplace hname ?_
  · rw [hput, if_neg]
    · exact hp
    · rintro rfl
      exact hdirectory hp
  · rw [hput, if_pos rfl]
    rfl

/-- Directories first, then the file. -/
theorem saved_of_grows {outer : List String} (h : t.Grows t' outer)
    (houter : ∀ path' ∈ outer, Path.Above path' path)
    (hwrite : t'.perform (writeText path text) = (.ok (), t'')) :
    ∃ position, t.Saved t'' path text position := by
  obtain ⟨position, here, hplace, hput, hlocate⟩ := exists_of_perform_writeText hwrite
  have hother {p : List String} (hp : p ≠ position) : t''.entryAt? p = t'.entryAt? p := by
    rw [hput, if_neg hp]
  refine ⟨position, here.trans h.here, hlocate, ?_, fun hentry => hplace (h.kept _ _ hentry),
    fun p hp content => ?_, fun p entry hp hentry => ?_, fun p entry hp hnone hsome => ?_⟩
  · rw [readText_eq, hlocate]
    simp only [bind, Except.bind]
    rw [hput, if_pos rfl]
  · rw [hother hp]
    exact h.sameFiles p content
  · rw [hother hp]
    exact h.kept p entry hentry
  · rw [hother hp] at hsome
    obtain ⟨rfl, path', hpath', hlocate'⟩ := h.made p entry hnone hsome
    refine ⟨rfl, path', houter path' hpath', ?_⟩
    refine locate_mono (fun q hq => ?_) here hlocate' ?_
    · rw [hother]
      · exact hq
      · rintro rfl
        exact hplace hq
    · rw [hother hp, hsome]
      rfl

/-! ## Saving -/

theorem perform_within (activity : Activity) (change : Change Unit) (t : FileTree) :
    t.perform (change.within activity) = match t.perform change with
      | (.ok (), t') => (.ok (), t')
      | (.error fault, t') => (.error (.fault activity fault), t') := by
  unfold perform Change.within ExceptT.run StateT.run
  simp only [ExceptT.mk, bind, StateT.bind]
  cases change t with
  | mk result t' => cases result <;> rfl

/-- What a write in a grown tree leads to. -/
private theorem write_cases (path text : String) (t : FileTree) :
    (∃ failure, t.perform ((writeText path text).within (.writeFile path)) = (.error failure, t)) ∨
    ∃ t', t.perform (writeText path text) = (.ok (), t') ∧
      t.perform ((writeText path text).within (.writeFile path)) = (.ok (), t') := by
  rw [perform_within]
  cases hwrite : t.perform (writeText path text) with
  | mk result t' =>
    cases result with
    | ok _ => exact .inr ⟨t', rfl, rfl⟩
    | error fault =>
      cases eq_of_perform_writeText hwrite
      exact .inl ⟨_, rfl⟩

/-- All that saving does: it makes directories above the file, and fails then or writes the file. -/
theorem save_cases (path text : String) (t : FileTree) : ∃ outer t',
    (∀ path' ∈ outer, Path.Above path' path) ∧ t.Grows t' outer ∧
      ((∃ failure, t.perform (save path text) = (.error failure, t')) ∨
        ∃ t'', t'.perform (writeText path text) = (.ok (), t'') ∧
          t.perform (save path text) = (.ok (), t'')) := by
  rw [save]
  cases hparent : Path.parent? path with
  | none => exact ⟨[], t, List.forall_mem_nil _, .refl t [], write_cases path text t⟩
  | some next =>
    have hgrows := onlyMakes_makeDirectories (Path.outward next) t
    have habove (path' : String) (h : path' ∈ Path.outward next) : Path.Above path' path :=
      Path.above_of_mem_outward hparent h
    simp only
    rw [perform_bind, perform_within]
    cases hmake : t.perform (makeDirectories (Path.outward next)) with
    | mk result t' =>
      rw [hmake] at hgrows
      refine ⟨_, t', habove, hgrows, ?_⟩
      cases result with
      | error fault => exact .inl ⟨_, rfl⟩
      | ok _ => exact write_cases path text t'

theorem sameFiles_of_save (h : t.perform (save path text) = (.error failure, t')) :
    t'.here = t.here ∧ t.SameFiles t' := by
  obtain ⟨outer, grown, -, hgrows, ⟨_, hsave⟩ | ⟨_, -, hsave⟩⟩ := save_cases path text t
  · rw [hsave] at h
    cases h
    exact ⟨hgrows.here, hgrows.sameFiles⟩
  · rw [hsave] at h
    cases h

theorem saved_of_save (h : t.perform (save path text) = (.ok (), t')) :
    ∃ position, t.Saved t' path text position := by
  obtain ⟨outer, grown, houter, hgrows, ⟨_, hsave⟩ | ⟨_, hwrite, hsave⟩⟩ := save_cases path text t
  · rw [hsave] at h
    cases h
  · rw [hsave] at h
    cases h
    exact saved_of_grows hgrows houter hwrite

end FileTree

end ApiModels
