import ApiModels.Proofs.Yaml.Rendering
import ApiModels.Yaml.Document

/-!
# Reading the tokens of a tree

The tokens of a tree are read as the node that the tree is written as (`Read.reads`). The items of a
list below their key end where no further item comes, so such a list is read as an entry only.
-/

namespace ApiModels.Yaml

open ApiModels.Data

/-- The reading that goes on with other tokens. -/
def Reading.before (r : Reading) (tokens : List Token) : Reading := { r with tokens := tokens }

/-- Whether a node that is written at a place is read in a context and before the tokens `rest`. -/
def Place.Fits (context : Read.Context) (rest : List Token) : Place → Prop
  | .inline => context ≠ .flow
  | .afterKey => context = .entry ∧ rest.head? ≠ some .item

namespace Read

variable {α β : Type} {r r' r'' : Reading} {t : Token} {ts rest : List Token} {fuel : Nat}
  {context : Context} {style : Style} {text name : String} {items : List Node}
  {entries : List (Node × Node)} {key value : Node} {place : Place}

/-! ## Steps -/

theorem bind_eq_of_run {x : Option (α × Reading)} {f : α × Reading → Option β} {a : α} {b : β}
    (hx : x = some (a, r)) (hf : f (a, r) = some b) : x.bind f = some b := by
  rw [hx, Option.bind_some, hf]

theorem run_dropIf_of_ne (h : rest.head? ≠ some t) :
    (dropIf t).run (r.before rest) = some (false, r.before rest) := by
  have hne : (rest.head? == some t) = false := beq_eq_false_iff_ne.2 h
  change (if (rest.head? == some t) = true then (do drop; return true : Read Bool)
    else return false).run (r.before rest) = _
  rw [hne]
  rfl

theorem run_nodeBefore {ends : List Token} {x : Read Node} (h : t ∉ ends) :
    (nodeBefore ends x).run (r.before (t :: ts)) = x.run (r.before (t :: ts)) := by
  have hnot : ends.contains t = false := by simpa using h
  change (if ends.contains t = true then return empty else x).run (r.before (t :: ts)) = _
  rw [hnot]
  rfl

/-! ## Nodes -/

theorem run_node_scalar : (node (fuel + 2) context).run (r.before (.scalar style text :: rest)) =
    some (.scalar style none text, r.before rest) := rfl

theorem run_node_noItems :
    (node (fuel + 3) context).run (r.before (.flowSequence :: .flowSequenceEnd :: rest)) =
      some (.sequence none [], r.before rest) := rfl

theorem run_node_noEntries :
    (node (fuel + 3) context).run (r.before (.flowMapping :: .flowMappingEnd :: rest)) =
      some (.mapping none [], r.before rest) := rfl

theorem run_node_blockSequence (hcontext : context ≠ .flow)
    (hitems : (blockItems fuel).run (r.before ts) = some (items, r')) :
    (node (fuel + 1) context).run (r.before (.blockSequence :: ts)) =
      some (.sequence none items, r') := by
  cases context with
  | flow => exact absurd rfl hcontext
  | item => exact bind_eq_of_run hitems rfl
  | entry => exact bind_eq_of_run hitems rfl

theorem run_node_bareItems
    (hitems : (bareItems fuel).run (r.before (.item :: ts)) = some (items, r')) :
    (node (fuel + 1) .entry).run (r.before (.item :: ts)) = some (.sequence none items, r') :=
  bind_eq_of_run hitems rfl

theorem run_node_blockMapping (hcontext : context ≠ .flow)
    (hentries : (blockEntries fuel).run (r.before ts) = some (entries, r')) :
    (node (fuel + 1) context).run (r.before (.blockMapping :: ts)) =
      some (.mapping none entries, r') := by
  cases context with
  | flow => exact absurd rfl hcontext
  | item => exact bind_eq_of_run hentries rfl
  | entry => exact bind_eq_of_run hentries rfl

/-! ## Items -/

theorem run_blockItems_cons
    (hitems : (blockItems (fuel + 2)).run (r.before ts) = some (items, r')) :
    (blockItems (fuel + 3)).run (r.before (.item :: .scalar style text :: ts)) =
      some (.scalar style none text :: items, r') := bind_eq_of_run hitems rfl

theorem run_bareItems_cons (hitems : (bareItems (fuel + 2)).run (r.before ts) = some (items, r')) :
    (bareItems (fuel + 3)).run (r.before (.item :: .scalar style text :: ts)) =
      some (.scalar style none text :: items, r') := bind_eq_of_run hitems rfl

theorem length_itemTokens_cons (value : String) (values : List String) :
    (itemTokens (value :: values)).length = (itemTokens values).length + 2 := rfl

/-- The items of a list are read up to the end of their sequence. -/
theorem run_blockItems (values : List String) (hfuel : (itemTokens values).length < fuel) :
    (blockItems fuel).run (r.before (itemTokens values ++ .blockEnd :: rest)) =
      some (values.map .ofText, r.before rest) := by
  induction values generalizing fuel with
  | nil =>
    obtain ⟨fuel, rfl⟩ := Nat.exists_eq_add_of_le' hfuel
    rfl
  | cons value values ih =>
    rw [length_itemTokens_cons] at hfuel
    obtain ⟨fuel, rfl⟩ := Nat.exists_eq_add_of_le' (show 3 ≤ fuel by omega)
    exact run_blockItems_cons (ih (by omega))

/-- The items of a list below its key are read up to a token that is no item. -/
theorem run_bareItems (values : List String) (hrest : rest.head? ≠ some .item)
    (hfuel : (itemTokens values).length < fuel) :
    (bareItems fuel).run (r.before (itemTokens values ++ rest)) =
      some (values.map .ofText, r.before rest) := by
  induction values generalizing fuel with
  | nil =>
    obtain ⟨fuel, rfl⟩ := Nat.exists_eq_add_of_le' hfuel
    exact bind_eq_of_run (run_dropIf_of_ne hrest) rfl
  | cons value values ih =>
    rw [length_itemTokens_cons] at hfuel
    obtain ⟨fuel, rfl⟩ := Nat.exists_eq_add_of_le' (show 3 ≤ fuel by omega)
    exact run_bareItems_cons (ih (by omega))

/-! ## Trees -/

/-- The tokens of a tree are read as its node. -/
def Reads (t : Tree) : Prop :=
  ∀ ⦃place context rest fuel⦄ (r : Reading), place.Fits context rest →
    (treeTokens place t).length + 1 < fuel →
      (node fuel context).run (r.before (treeTokens place t ++ rest)) =
        some (Node.ofTree t, r.before rest)

/-- The tokens of the entries of a mapping are read as its entries. -/
def ReadsEntries (entries : List (String × Tree)) : Prop :=
  ∀ ⦃rest fuel⦄ (r : Reading), (entryTokens entries).length < fuel →
    (blockEntries fuel).run (r.before (entryTokens entries ++ .blockEnd :: rest)) =
      some (Node.ofEntries entries, r.before rest)

theorem reads_text (value : String) : Reads (.text value) := by
  intro place context rest fuel r _ hfuel
  obtain ⟨fuel, rfl⟩ := Nat.exists_eq_add_of_le' hfuel
  exact run_node_scalar

theorem reads_noTexts : Reads (.texts []) := by
  intro place context rest fuel r _ hfuel
  obtain ⟨fuel, rfl⟩ := Nat.exists_eq_add_of_le' hfuel
  exact run_node_noItems

theorem reads_noEntries : Reads (.map []) := by
  intro place context rest fuel r _ hfuel
  obtain ⟨fuel, rfl⟩ := Nat.exists_eq_add_of_le' hfuel
  exact run_node_noEntries

theorem reads_texts (value : String) (values : List String) : Reads (.texts (value :: values)) := by
  intro place context rest fuel r hfits hfuel
  obtain ⟨fuel, rfl⟩ := Nat.exists_eq_add_of_le' (Nat.zero_lt_of_lt hfuel)
  cases place with
  | inline =>
    have hlength : (treeTokens .inline (.texts (value :: values))).length =
        (itemTokens (value :: values)).length + 2 := by simp [treeTokens]
    have htokens : treeTokens .inline (.texts (value :: values)) ++ rest =
        .blockSequence :: (itemTokens (value :: values) ++ .blockEnd :: rest) := by
      simp [treeTokens]
    rw [htokens]
    exact run_node_blockSequence hfits (run_blockItems (value :: values) (by omega))
  | afterKey =>
    obtain ⟨rfl, hrest⟩ := hfits
    have hlength : (treeTokens .afterKey (.texts (value :: values))).length =
        (itemTokens (value :: values)).length := rfl
    exact run_node_bareItems (run_bareItems (value :: values) hrest (by omega))

/-! ## Entries -/

/-- The tokens of a tree begin with none of the marks of an entry. -/
theorem exists_treeTokens_eq_cons (place : Place) (t : Tree) :
    ∃ mark ts, treeTokens place t = mark :: ts ∧ mark ∉ [.key, .value, .blockEnd] := by
  cases t with
  | text value => exact ⟨_, _, rfl, by simp [textToken]⟩
  | texts values =>
    cases values with
    | nil => exact ⟨_, _, rfl, by decide⟩
    | cons value values => cases place <;> exact ⟨_, _, rfl, by decide⟩
  | map entries => cases entries <;> exact ⟨_, _, rfl, by decide⟩

theorem run_blockEntries_cons (style : Style) (text : String) (ht : t ∉ [.key, .value, .blockEnd])
    (hvalue : (node (fuel + 2) .entry).run (r.before (t :: ts)) = some (value, r'))
    (hentries : (blockEntries (fuel + 2)).run r' = some (entries, r'')) :
    (blockEntries (fuel + 3)).run
        (r.before (.key :: .scalar style text :: .value :: t :: ts)) =
      some ((.scalar style none text, value) :: entries, r'') := by
  have hbefore : (nodeBefore [.key, .value, .blockEnd] (node (fuel + 2) .entry)).run
      (r.before (t :: ts)) = some (value, r') := (run_nodeBefore ht).trans hvalue
  exact bind_eq_of_run hbefore (bind_eq_of_run hentries rfl)

theorem fits_valuePlace (name : String) (hrest : rest.head? ≠ some .item) :
    (valuePlace name).Fits .entry rest := by
  rw [valuePlace]
  split
  · exact ⟨rfl, hrest⟩
  · exact Context.noConfusion

theorem readsEntries_nil : ReadsEntries [] := by
  intro rest fuel r hfuel
  obtain ⟨fuel, rfl⟩ := Nat.exists_eq_add_of_le' hfuel
  rfl

theorem readsEntries_cons {value : Tree} {entries : List (String × Tree)} (hvalue : Reads value)
    (hentries : ReadsEntries entries) : ReadsEntries ((name, value) :: entries) := by
  intro rest fuel r hfuel
  have hlength : (entryTokens ((name, value) :: entries)).length =
      (treeTokens (valuePlace name) value).length + (entryTokens entries).length + 3 := by
    simp [entryTokens]
  obtain ⟨fuel, rfl⟩ := Nat.exists_eq_add_of_le' (show 3 ≤ fuel by omega)
  -- A list as the value of the key has no end of its own: what follows must not be an item.
  have hnext : (entryTokens entries ++ .blockEnd :: rest).head? ≠ some .item := by
    cases entries <;> simp [entryTokens]
  have hnode : (node (fuel + 2) .entry).run (r.before (treeTokens (valuePlace name) value ++
      (entryTokens entries ++ .blockEnd :: rest))) = _ :=
    hvalue r (fits_valuePlace name hnext) (by omega)
  obtain ⟨mark, ts, htokens, hmark⟩ := exists_treeTokens_eq_cons (valuePlace name) value
  rw [htokens] at hnode
  have hentry := run_blockEntries_cons (.ofText name) name hmark hnode (hentries r (by omega))
  have hsplit : entryTokens ((name, value) :: entries) ++ .blockEnd :: rest =
      .key :: .scalar (.ofText name) name :: .value :: mark ::
        (ts ++ (entryTokens entries ++ .blockEnd :: rest)) := by
    simp [entryTokens, htokens, textToken]
  rw [hsplit]
  exact hentry

theorem reads_map {value : Tree} {entries : List (String × Tree)}
    (hentries : ReadsEntries ((name, value) :: entries)) :
    Reads (.map ((name, value) :: entries)) := by
  intro place context rest fuel r hfits hfuel
  obtain ⟨fuel, rfl⟩ := Nat.exists_eq_add_of_le' (Nat.zero_lt_of_lt hfuel)
  have hcontext : context ≠ .flow := by
    cases place with
    | inline => exact hfits
    | afterKey => exact hfits.1 ▸ Context.noConfusion
  have hlength : (treeTokens place (.map ((name, value) :: entries))).length =
      (entryTokens ((name, value) :: entries)).length + 2 := by simp [treeTokens]
  have htokens : treeTokens place (.map ((name, value) :: entries)) ++ rest =
      .blockMapping :: (entryTokens ((name, value) :: entries) ++ .blockEnd :: rest) := by
    simp [treeTokens]
  rw [htokens]
  exact run_node_blockMapping hcontext (hentries r (by omega))

mutual
/-- The tokens of every tree are read as its node. -/
theorem reads : ∀ t, Reads t
  | .text value => reads_text value
  | .texts [] => reads_noTexts
  | .texts (value :: values) => reads_texts value values
  | .map [] => reads_noEntries
  | .map ((_, value) :: entries) =>
    reads_map (readsEntries_cons (reads value) (readsEntries entries))

theorem readsEntries : ∀ entries, ReadsEntries entries
  | [] => readsEntries_nil
  | (_, value) :: entries => readsEntries_cons (reads value) (readsEntries entries)
end

end Read

end ApiModels.Yaml
