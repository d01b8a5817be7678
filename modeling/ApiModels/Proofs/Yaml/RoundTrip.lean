import ApiModels.Proofs.Data.Presentation
import ApiModels.Proofs.Yaml.Reading
import ApiModels.Yaml.Format

/-!
# Reading rendered maps back

The text of a map is read as the node that the map is written as, without aliases (`read?_render`).
The nodes of trees present them (`Document.format_presents`): a text is written as a plain scalar
only if it has no other meaning, so no part of a tree is taken for an absent one
(`Node.optional?_ofText`).
-/

namespace ApiModels.Yaml

open ApiModels.Data

variable {α β : Type} {entries : List (String × Tree)}

/-! ## Documents -/

namespace Read

variable {r : Reading} {ts : List Token} {fuel : Nat} {root : Node} {mark : Token}

/-- Behind the node of a document without marks of its own nothing comes. -/
theorem run_document (hmark : mark = .flowMapping ∨ mark = .blockMapping)
    (hroot : ∀ r : Reading, (node (fuel + 1) .item).run (r.before (mark :: ts)) =
      some (root, r.before [])) :
    (document (fuel + 1)).run { tokens := mark :: ts } =
      some (root, { tokens := [], handles := standardHandles }) := by
  have hnode := hroot { tokens := [], handles := standardHandles }
  rcases hmark with rfl | rfl
  · exact bind_eq_of_run hnode rfl
  · exact bind_eq_of_run hnode rfl

end Read

/-- The text of a map is read as the node of the map. -/
theorem read?_render (entries : List (String × Tree)) :
    read? (render (.map entries)) = some { root := Node.ofTree (.map entries) } := by
  have hroot : ∀ r : Reading,
      (Read.node (3 * (treeTokens .inline (.map entries)).length + 6) .item).run
          (r.before (treeTokens .inline (.map entries))) =
        some (Node.ofTree (.map entries), r.before []) := by
    intro r
    have hfits : Place.Fits .item [] .inline := Read.Context.noConfusion
    have hreads : (Read.node (3 * (treeTokens .inline (.map entries)).length + 6) .item).run
        (r.before (treeTokens .inline (.map entries) ++ [])) = _ :=
      Read.reads (.map entries) r hfits (by omega)
    rwa [List.append_nil] at hreads
  obtain ⟨mark, ts, htokens, hmark⟩ : ∃ mark ts, treeTokens .inline (.map entries) = mark :: ts ∧
      (mark = .flowMapping ∨ mark = .blockMapping) := by
    cases entries
    · exact ⟨_, _, rfl, .inl rfl⟩
    · exact ⟨_, _, rfl, .inr rfl⟩
  rw [htokens] at hroot
  rw [read?, tokens?_render, htokens, Option.bind_eq_bind, Option.bind_some,
    Read.run_document hmark hroot]
  rfl

/-! ## Nodes as data -/

theorem Node.ofEntries_eq_map (entries : List (String × Tree)) : ofEntries entries =
    (entries.map fun e => (e.1, ofTree e.2)).map fun e => (.ofText e.1, e.2) := by
  induction entries with
  | nil => rfl
  | cons e entries ih => rw [ofEntries, ih, List.map_cons, List.map_cons]

/-- A text is not written as a scalar that can be taken for an absent value. -/
theorem Node.optional?_ofText (text : String) :
    (Node.ofText text).optional? = some (some (.ofText text)) := by
  rw [ofText]
  cases h : Style.ofText text <;> try rfl
  have hholds := Style.holds_ofText text
  rw [h] at hholds
  cases hholds with
  | plain hne hmeaning =>
    have hempty : text.isEmpty = false := by
      refine Bool.eq_false_iff.2 fun hempty => hne ?_
      rw [String.isEmpty_iff.1 hempty, String.toList_empty]
    have hnull : isNullWord text = false := by
      simp only [hasMeaning, Bool.or_eq_false_iff] at hmeaning
      exact hmeaning.1.1.1.1.2
    simp [optional?, hempty, hnull]

theorem Document.entries?_ofTree (d : Document) (entries : List (String × Tree)) :
    d.entries? (Node.ofTree (.map entries)) =
      pure (entries.map fun e => (e.1, Node.ofTree e.2)) := by
  have hkey : ∀ e : String × Node, (do
      return (← (← d.settle (.ofText e.1)).text?, e.2) : Decode (String × Node)) = pure e :=
    fun _ => rfl
  rw [Node.ofTree, Node.ofEntries_eq_map]
  exact mapM_map_eq_pure fun e _ => hkey e

/-- The nodes of trees stand for them in every document. -/
theorem Document.format_presents (d : Document) : d.format.Presents Node.ofTree where
  text? text := by
    rw [Node.ofTree]
    rfl
  items? texts := by
    rw [Node.ofTree]
    simp only [Node.ofTree]
    rfl
  entries? := d.entries?_ofTree
  record? entries := by
    change Record.named <$> d.entries? (Node.ofTree (.map entries)) = _
    rw [d.entries?_ofTree, map_pure]
  optional? t := by
    cases t with
    | text value =>
      have hsettle : d.settle (.ofText value) = pure (.ofText value) := rfl
      rw [Node.ofTree]
      change (do (← d.settle (.ofText value)).optional? : Decode (Option Node)) = _
      rw [hsettle, pure_bind, Node.optional?_ofText]
      rfl
    | texts values => rw [Node.ofTree]; rfl
    | map entries => rw [Node.ofTree]; rfl

end ApiModels.Yaml
