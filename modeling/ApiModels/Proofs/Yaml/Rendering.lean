import ApiModels.Proofs.Yaml.Trees

/-!
# The tokens of a rendered map

A map is rendered without special characters (`clean_nodeText`), so its text is read, and what is
found in it are the tokens of the map (`tokens?_render`).
-/

namespace ApiModels.Yaml

open ApiModels.Data

variable {n : Nat} {place : Place} {cs : List Char} {text name : String}
  {entries : List (String × Tree)}

/-! ## Clean texts -/

theorem Clean.drop (h : Clean cs) : Clean (cs.drop n) := fun c hc => h c (List.mem_of_mem_drop hc)

theorem clean_gap : Clean place.gap := by
  cases place
  · exact Clean.nil
  · exact Clean.cons.2 ⟨rfl, Clean.nil⟩

theorem clean_written : Clean (endLine (scalarText n (.ofText text) text)) := by
  rw [endLine_eq, Clean.append]
  exact ⟨clean_scalarText (Style.holds_ofText text), clean_lineEnd⟩

theorem clean_keyWords : Clean (keyWords n name) := by
  have hcolon : isSpecial ':' = false := rfl
  have hmark : isSpecial '?' = false := rfl
  have hspace : isSpecial ' ' = false := rfl
  have hwritten := clean_scalarText (n := n + 2) (Style.holds_ofText name)
  rw [keyWords]
  split
  · simp [hwritten, hcolon]
  · simp [clean_written, clean_spaces, hcolon, hmark, hspace]

theorem clean_itemsText (values : List String) : Clean (itemsText n (values.map .ofText)) := by
  induction values with
  | nil => exact Clean.nil
  | cons value values ih =>
    rw [itemsText_cons]
    exact Clean.append.2 ⟨clean_spaces, Clean.cons.2 ⟨rfl, Clean.cons.2 ⟨rfl,
      Clean.append.2 ⟨clean_written, ih⟩⟩⟩⟩

mutual
/-- The text of a tree holds no special characters. -/
theorem clean_nodeText (place : Place) (n : Nat) :
    ∀ t, Clean (nodeText place n (Node.ofTree t))
  | .text value => by
    rw [Node.ofTree, Node.ofText, nodeText]
    exact Clean.append.2 ⟨clean_gap, clean_written⟩
  | .texts [] => by
    simp only [Node.ofTree, nodeText, List.map_nil, List.isEmpty_nil, if_true]
    exact Clean.append.2 ⟨clean_gap, by simp [Clean.cons, isSpecial]⟩
  | .texts (value :: values) =>
    match place with
    | .inline => (clean_itemsText (value :: values)).drop
    | .afterKey => Clean.cons.2 ⟨rfl, clean_itemsText (value :: values)⟩
  | .map [] => by
    simp only [Node.ofTree, Node.ofEntries, nodeText, List.isEmpty_nil, if_true]
    exact Clean.append.2 ⟨clean_gap, by simp [Clean.cons, isSpecial]⟩
  | .map (entry :: entries) =>
    match place with
    | .inline => (clean_entriesText n (entry :: entries)).drop
    | .afterKey => Clean.cons.2 ⟨rfl, clean_entriesText (n + 2) (entry :: entries)⟩

theorem clean_entriesText (n : Nat) :
    ∀ entries, Clean (entriesText n (Node.ofEntries entries))
  | [] => Clean.nil
  | (name, value) :: entries => by
    rw [entriesText_cons]
    exact Clean.append.2 ⟨clean_spaces, Clean.append.2 ⟨clean_keyWords,
      Clean.append.2 ⟨clean_nodeText _ _ value, clean_entriesText n entries⟩⟩⟩
end

/-! ## Tokens -/

namespace Scan

/-- A scan that has come to the end of the text ends with its tokens. -/
theorem run?_of_leadsToLine {s : Scan} {tokens : List Token} (h : LeadsToLine s tokens [] []) :
    run? (s.rest.length + 1) s = some tokens.reverse := by
  obtain ⟨q, -, rounds, hlength, hrun⟩ := h
  have hfuel : s.rest.length + 1 = s.rest.length - rounds + 1 + rounds := by omega
  rw [hfuel, hrun, run?_succ]
  rfl

end Scan

/-- The text of a map is read as its tokens. -/
theorem tokens?_render (entries : List (String × Tree)) :
    tokens? (render (.map entries)) = some (treeTokens .inline (.map entries)) := by
  have hclean := clean_nodeText .inline 0 (.map entries)
  have hreadable : (nodeText .inline 0 (Node.ofTree (.map entries))).all isReadable = true :=
    List.all_eq_true.2 fun c hc => isReadable_of_not_isSpecial (hclean c hc)
  have hleads : Scan.LeadsToLine
      (.before .inline [] [] ⟨0, 0, 0⟩ (nodeText .inline 0 (Node.ofTree (.map entries))))
      (treeTokens .inline (.map entries)).reverse [] [] := by
    -- No collection is open around the outermost map, so only its parts pass by the induction.
    cases entries with
    | nil => exact Scan.leads_noEntries (n := 0) (fun m hm => nomatch hm) .nothing
    | cons entry entries =>
      have htext : nodeText .inline 0 (Node.ofTree (.map (entry :: entries))) =
          (entriesText 0 (Node.ofEntries (entry :: entries))).drop 0 ++ [] :=
        (List.append_nil _).symm
      rw [htext, ← List.append_nil (treeTokens _ _).reverse]
      exact Scan.leads_mapping (Scan.passes entry.2) (Scan.passesEntries entries) rfl
        (Nat.le_refl 0) .nothing
  have hrun := Scan.run?_of_leadsToLine hleads
  rw [List.reverse_reverse] at hrun
  rw [render, tokens?, String.toList_ofList, if_pos hreadable]
  exact hrun

end ApiModels.Yaml
