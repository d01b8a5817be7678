import ApiModels.Proofs.FileTree.Paths

/-!
# What changes of a file tree leave alone

Making directories adds directories where nothing was and touches nothing else, whether it comes to
its end or not (`FileTree.onlyMakes_makeDirectories`). Writing a file changes the one position that
its path leads to, or nothing.
-/

namespace ApiModels.FileTree

/-! ## Performing actions -/

section
variable {ε α β : Type} {t : FileTree} {x : ExceptT ε (StateM FileTree) α}

/-- What comes of an action on a tree, and the tree that it leaves. -/
def perform (t : FileTree) (x : ExceptT ε (StateM FileTree) α) : Except ε α × FileTree :=
  x.run.run t

@[simp] theorem perform_get :
    t.perform (get : ExceptT ε (StateM FileTree) FileTree) = (.ok t, t) := rfl

@[simp] theorem perform_mk_pure (a : Except ε α) :
    t.perform (ExceptT.mk (pure a) : ExceptT ε (StateM FileTree) α) = (a, t) := rfl

theorem perform_bind (f : α → ExceptT ε (StateM FileTree) β) :
    t.perform (x >>= f) = match t.perform x with
      | (.ok a, t') => t'.perform (f a)
      | (.error e, t') => (.error e, t') := by
  unfold perform ExceptT.run StateT.run
  simp only [bind, ExceptT.bind, ExceptT.mk, StateT.bind, ExceptT.bindCont]
  cases x t with
  | mk result t' => cases result <;> rfl

theorem perform_tryCatch (f : ε → ExceptT ε (StateM FileTree) α) :
    t.perform (tryCatch x f) = match t.perform x with
      | (.ok a, t') => (.ok a, t')
      | (.error e, t') => t'.perform (f e) := by
  unfold perform ExceptT.run StateT.run
  simp only [tryCatch, tryCatchThe, MonadExceptOf.tryCatch, ExceptT.tryCatch, ExceptT.mk, bind,
    StateT.bind]
  cases x t with
  | mk result t' => cases result <;> rfl

end

variable {t t' t'' : FileTree} {paths outer : List String} {path : String}
  {position front : List String} {name : String} {entry : Entry} {α β : Type} {change : Change α}

/-- No file is added, removed or changed. -/
def SameFiles (t t' : FileTree) : Prop := ∀ position content,
  t'.entryAt? position = some (.file content) ↔ t.entryAt? position = some (.file content)

/-! ## Making directories -/

/-- `t'` has what `t` has, and besides directories where nothing was in `t`; one of the paths leads
to each of them. -/
structure Grows (t t' : FileTree) (paths : List String) : Prop where
  here : t'.here = t.here
  kept : ∀ position entry, t.entryAt? position = some entry → t'.entryAt? position = some entry
  made : ∀ position entry, t.entryAt? position = none → t'.entryAt? position = some entry →
    entry = .directory ∧ ∃ path ∈ paths, t'.locate path = .ok position

namespace Grows

theorem refl (t : FileTree) (paths : List String) : t.Grows t paths where
  here := rfl
  kept _ _ h := h
  made _ _ hnone hsome := by rw [hnone] at hsome; cases hsome

theorem mono (h : t.Grows t' paths) (hpaths : paths ⊆ outer) : t.Grows t' outer where
  here := h.here
  kept := h.kept
  made position entry hnone hsome := by
    obtain ⟨hentry, path, hpath, hlocate⟩ := h.made position entry hnone hsome
    exact ⟨hentry, path, hpaths hpath, hlocate⟩

theorem trans (h : t.Grows t' paths) (h' : t'.Grows t'' paths) : t.Grows t'' paths where
  here := h'.here.trans h.here
  kept position entry hentry := h'.kept position entry (h.kept position entry hentry)
  made position entry hnone hsome := by
    cases hbetween : t'.entryAt? position with
    | none => exact h'.made position entry hbetween hsome
    | some between =>
      have hsome' := h'.kept position between hbetween
      rw [hsome] at hsome'
      cases hsome'
      obtain ⟨hentry, path, hpath, hlocate⟩ := h.made position entry hnone hbetween
      refine ⟨hentry, path, hpath, ?_⟩
      exact locate_mono (fun p => h'.kept p .directory) h'.here hlocate
        (Option.isSome_of_eq_some hsome)

theorem sameFiles (h : t.Grows t' paths) : t.SameFiles t' := by
  intro position content
  constructor
  · intro hfile
    cases hbefore : t.entryAt? position with
    | none => cases (h.made position _ hbefore hfile).1
    | some entry => rw [← h.kept position entry hbefore, hfile]
  · exact h.kept position _

end Grows

/-! ## One directory, one file -/

/-- A put at the place of a path is seen at that place only. -/
theorem entryAt?_put_place (h : t.place path = .ok (front, name))
    (hplace : t.entryAt? (front ++ [name]) ≠ some .directory) (new : Node)
    (hnew : ∀ name rest, new.at? (name :: rest) = none) (position : List String) :
    entryAt? { t with root := .put new (front ++ [name]) t.root } position =
      if position = front ++ [name] then some new.entry else t.entryAt? position := by
  refine Node.entryAt?_put (.inr ?_) hplace hnew
  rw [List.dropLast_concat]
  exact (place_eq_ok_iff.1 h).2.2.1

theorem perform_makeDirectory (path : String) (t : FileTree) : t.perform (makeDirectory path) =
    match t.place path with
    | .error fault => (.error fault, t)
    | .ok (front, name) =>
      if isStep name || (t.root.at? (front ++ [name])).isSome then (.error .exists, t)
      else (.ok (), { t with root := .put (.directory []) (front ++ [name]) t.root }) := by
  rw [makeDirectory, perform_bind, perform_get]
  simp only [perform_bind, perform_mk_pure]
  cases t.place path with
  | error fault => rfl
  | ok place =>
    simp only
    split
    · rfl
    · rfl

/-- Whatever comes of the change, it only makes directories that the paths lead to. -/
def OnlyMakes (change : Change α) (paths : List String) : Prop :=
  ∀ t : FileTree, t.Grows (t.perform change).2 paths

namespace OnlyMakes

theorem of_unchanged (h : ∀ t : FileTree, (t.perform change).2 = t) : OnlyMakes change paths := by
  intro t
  rw [h]
  exact .refl t paths

theorem mono (h : OnlyMakes change paths) (hpaths : paths ⊆ outer) : OnlyMakes change outer :=
  fun t => (h t).mono hpaths

theorem bind {f : α → Change β} (h : OnlyMakes change paths) (hf : ∀ a, OnlyMakes (f a) paths) :
    OnlyMakes (change >>= f) paths := by
  intro t
  have hgrows := h t
  rw [perform_bind]
  split
  · rename_i a t' hrun
    rw [hrun] at hgrows
    exact hgrows.trans (hf a t')
  · rename_i fault t' hrun
    rwa [hrun] at hgrows

theorem tryCatch {f : FileFault → Change α} (h : OnlyMakes change paths)
    (hf : ∀ fault, OnlyMakes (f fault) paths) : OnlyMakes (tryCatch change f) paths := by
  intro t
  have hgrows := h t
  rw [perform_tryCatch]
  split
  · rename_i a t' hrun
    rwa [hrun] at hgrows
  · rename_i fault t' hrun
    rw [hrun] at hgrows
    exact hgrows.trans (hf fault t')

end OnlyMakes

theorem onlyMakes_makeDirectory (path : String) : OnlyMakes (makeDirectory path) [path] := by
  intro t
  rw [perform_makeDirectory]
  split
  · exact .refl t _
  rename_i front name hplace
  split
  · exact .refl t _
  rename_i hfree
  simp only [Bool.or_eq_true, not_or, Bool.not_eq_true, Option.isSome_eq_false_iff,
    Option.isNone_iff_eq_none] at hfree
  obtain ⟨hname, hfree⟩ := hfree
  have hnone : t.entryAt? (front ++ [name]) = none := by
    rw [entryAt?, Node.entryAt?, hfree]
    rfl
  have hdirectory : t.entryAt? (front ++ [name]) ≠ some .directory := by
    rw [hnone]
    exact (Option.some_ne_none _).symm
  have hput := entryAt?_put_place hplace hdirectory (.directory []) fun _ _ => rfl
  have hkept (position : List String) (entry : Entry) (h : t.entryAt? position = some entry) :
      entryAt? { t with root := .put (.directory []) (front ++ [name]) t.root } position =
        some entry := by
    rw [hput, if_neg]
    · exact h
    · rintro rfl
      rw [hnone] at h
      cases h
  refine ⟨rfl, hkept, ?_⟩
  intro position entry hbefore hafter
  rw [hput] at hafter
  split at hafter
  · rename_i hposition
    cases hafter
    refine ⟨rfl, path, List.mem_singleton_self path, ?_⟩
    rw [hposition]
    refine locate_of_place (fun p => hkept p .directory) rfl hplace hname ?_
    rw [hput, if_pos rfl]
    rfl
  · rw [hbefore] at hafter
    cases hafter

/-- Making directories makes no others, even if it fails on the way. -/
theorem onlyMakes_makeDirectories (paths : List String) :
    OnlyMakes (makeDirectories paths) paths := by
  induction paths with
  | nil => exact .of_unchanged fun t => rfl
  | cons path outer ih =>
    have hmake := (onlyMakes_makeDirectory path).mono (List.cons_subset_cons path outer.nil_subset)
    have hthere (fault : FileFault) : OnlyMakes (do
        if !(← get).hasDirectory path then throw fault) (path :: outer) := by
      refine .of_unchanged fun t => ?_
      rw [perform_bind, perform_get]
      simp only
      split <;> rfl
    rw [makeDirectories]
    split
    · exact .of_unchanged fun t => rfl
    refine hmake.tryCatch fun fault => ?_
    split
    · exact (ih.mono (List.subset_cons_self path outer)).bind fun _ => hmake.tryCatch hthere
    · exact hthere _

end ApiModels.FileTree
