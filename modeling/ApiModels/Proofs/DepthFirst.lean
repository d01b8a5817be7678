import Mathlib.Logic.Relation

/-!
# Depth-first preorder

`DepthFirst next seen starts order` is the order in which a depth-first search of the graph of
`next` meets new vertices. An order that begins with nothing seen holds every vertex that can be
reached from the starts (`DepthFirst.mem_iff_reachable`), and none twice (`DepthFirst.nodup`).
-/

namespace ApiModels

/-- Going depth first from each of `starts` in turn, and never into a vertex of `seen`, meets the
vertices of `order` in this order. -/
inductive DepthFirst {α : Type} (next : α → List α) : List α → List α → List α → Prop where
  | nil {seen} : DepthFirst next seen [] []
  /-- A vertex that has been seen is passed over. -/
  | seen {seen a as order} : a ∈ seen → DepthFirst next seen as order →
    DepthFirst next seen (a :: as) order
  /-- A new vertex comes first, then what is below it, then what comes after it. -/
  | new {seen a as below after} : a ∉ seen → DepthFirst next (a :: seen) (next a) below →
    DepthFirst next (a :: (below ++ seen)) as after →
    DepthFirst next seen (a :: as) (a :: (below ++ after))

namespace DepthFirst

variable {α : Type} {next : α → List α} {seen starts order : List α} {a b : α}

/-- What is seen or met at the end of the search from a new vertex `b`. -/
private theorem mem_of_parts {below after : List α} (h : a ∈ b :: (below ++ seen) ∨ a ∈ after) :
    a ∈ seen ∨ a ∈ b :: (below ++ after) := by
  simp only [List.mem_append, List.mem_cons] at h ⊢
  rcases h with (rfl | h | h) | h
  · exact .inr (.inl rfl)
  · exact .inr (.inr (.inl h))
  · exact .inl h
  · exact .inr (.inr (.inr h))

theorem mem_of_start (h : DepthFirst next seen starts order) (ha : a ∈ starts) :
    a ∈ seen ∨ a ∈ order := by
  induction h with
  | nil => cases ha
  | seen hmem _ ih =>
    rcases List.mem_cons.1 ha with rfl | ha
    · exact .inl hmem
    · exact ih ha
  | new _ _ _ _ ih =>
    rcases List.mem_cons.1 ha with rfl | ha
    · exact .inr List.mem_cons_self
    · exact mem_of_parts (ih ha)

/-- A met vertex has all its successors met. -/
theorem mem_of_next (h : DepthFirst next seen starts order) (ha : a ∈ order) (hb : b ∈ next a) :
    b ∈ seen ∨ b ∈ order := by
  induction h with
  | nil => cases ha
  | seen _ _ ih => exact ih ha
  | @new seen c cs below after _ hbelow _ ih ih' =>
    have hlow (h : b ∈ c :: seen ∨ b ∈ below) : b ∈ c :: (below ++ seen) := by
      simp only [List.mem_append, List.mem_cons] at h ⊢
      rcases h with (h | h) | h
      · exact .inl h
      · exact .inr (.inr h)
      · exact .inr (.inl h)
    rcases List.mem_cons.1 ha with rfl | ha
    · exact mem_of_parts (.inl (hlow (hbelow.mem_of_start hb)))
    rcases List.mem_append.1 ha with ha | ha
    · exact mem_of_parts (.inl (hlow (ih ha)))
    · exact mem_of_parts (ih' ha)

theorem not_mem_seen (h : DepthFirst next seen starts order) (ha : a ∈ order) : a ∉ seen := by
  induction h with
  | nil => cases ha
  | seen _ _ ih => exact ih ha
  | new hnew _ _ ih ih' =>
    simp only [List.mem_append, List.mem_cons, not_or] at ha ih ih'
    rcases ha with rfl | ha | ha
    · exact hnew
    · exact (ih ha).2
    · exact (ih' ha).2.2

theorem nodup (h : DepthFirst next seen starts order) : order.Nodup := by
  induction h with
  | nil => exact .nil
  | seen _ _ ih => exact ih
  | @new seen c cs below after _ hbelow hafter ih ih' =>
    refine List.nodup_cons.2 ⟨fun hmem => ?_, List.nodup_append.2 ⟨ih, ih', ?_⟩⟩
    · rcases List.mem_append.1 hmem with hmem | hmem
      · exact hbelow.not_mem_seen hmem List.mem_cons_self
      · exact hafter.not_mem_seen hmem (by simp)
    · rintro x hx y hy rfl
      exact hafter.not_mem_seen hy (by simp [hx])

/-- A met vertex is reached from one of the starts. -/
theorem exists_reachable (h : DepthFirst next seen starts order) (ha : a ∈ order) :
    ∃ s ∈ starts, Relation.ReflTransGen (fun x y => y ∈ next x) s a := by
  induction h with
  | nil => cases ha
  | seen _ _ ih =>
    obtain ⟨s, hs, hr⟩ := ih ha
    exact ⟨s, List.mem_cons_of_mem _ hs, hr⟩
  | @new seen c cs below after _ _ _ ih ih' =>
    rcases List.mem_cons.1 ha with rfl | ha
    · exact ⟨a, List.mem_cons_self, .refl⟩
    rcases List.mem_append.1 ha with ha | ha
    · obtain ⟨s, hs, hr⟩ := ih ha
      exact ⟨c, List.mem_cons_self, .head hs hr⟩
    · obtain ⟨s, hs, hr⟩ := ih' ha
      exact ⟨s, List.mem_cons_of_mem _ hs, hr⟩

/-- A search that begins with nothing seen meets exactly the vertices that can be reached. -/
theorem mem_iff_reachable (h : DepthFirst next [] starts order) :
    a ∈ order ↔ ∃ s ∈ starts, Relation.ReflTransGen (fun x y => y ∈ next x) s a := by
  refine ⟨h.exists_reachable, ?_⟩
  rintro ⟨s, hs, hr⟩
  induction hr with
  | refl => exact (h.mem_of_start hs).resolve_left List.not_mem_nil
  | tail _ hb ih => exact (h.mem_of_next ih hb).resolve_left List.not_mem_nil

end DepthFirst

end ApiModels
