import ApiModels.Proofs.Yaml.Collections

/-!
# The tokens of a written tree

The tokens of a tree (`treeTokens`) are those that a scan finds in the text of the tree. This is
shown by induction on the tree for a node within a collection (`Scan.passes`), where only the
indentation of the line behind the node says that it has ended (`Follows`).
-/

namespace ApiModels.Yaml

open ApiModels.Data

/-- Where the value of a key is written. -/
def valuePlace (name : String) : Place := if isSimpleKey name then .afterKey else .inline

/-- The indentation that a node is written with in a collection at the column `m`. -/
def Place.indent (m : Nat) : Place → Nat
  | .inline => m + 2
  | .afterKey => m

/-- Whether a node of a collection at the column `m` can be written at a position. -/
def Place.At (m : Nat) (p : Position) : Place → Prop
  | .inline => p.column = m + 2
  | .afterKey => m < p.column

mutual
/-- The tokens of a tree. -/
def treeTokens (place : Place) : Tree → List Token
  | .text value => [textToken value]
  | .texts values =>
    if values.isEmpty then [.flowSequence, .flowSequenceEnd]
    else match place with
      | .inline => .blockSequence :: (itemTokens values ++ [.blockEnd])
      | .afterKey => itemTokens values
  | .map entries =>
    if entries.isEmpty then [.flowMapping, .flowMappingEnd]
    else .blockMapping :: (entryTokens entries ++ [.blockEnd])

/-- The tokens of the entries of a map. -/
def entryTokens : List (String × Tree) → List Token
  | [] => []
  | (name, value) :: rest =>
    .key :: textToken name :: .value :: (treeTokens (valuePlace name) value ++ entryTokens rest)
end

/-- What stands before the value of a key. -/
def keyWords (n : Nat) (name : String) : List Char :=
  let written := scalarText (n + 2) (.ofText name) name
  if isSimpleKey name then written ++ [':']
  else '?' :: ' ' :: (endLine written ++ (spaces n ++ [':', ' ']))

variable {n m : Nat} {rest : List Char} {place : Place} {p q : Position} {columns : List Nat}
  {tokens : List Token} {name : String}

theorem keyText_ofText : keyText n (.ofText name) =
    (keyWords n name, valuePlace name, (valuePlace name).indent n) := by
  simp only [keyText, Node.ofText, keyWords, valuePlace]
  split <;> simp [Place.indent]

theorem entriesText_cons (name : String) (value : Tree) (entries : List (String × Tree)) :
    entriesText n (Node.ofEntries ((name, value) :: entries)) =
      spaces n ++ (keyWords n name ++
        (nodeText (valuePlace name) ((valuePlace name).indent n) (Node.ofTree value) ++
          entriesText n (Node.ofEntries entries))) := by
  simp [Node.ofEntries, entriesText, keyText_ofText]

theorem exists_keyWords_eq_cons (n : Nat) (name : String) :
    ∃ c cs, keyWords n name = c :: cs ∧ Solid c ∧ c ≠ '#' := by
  rw [keyWords]
  split
  · obtain ⟨c, cs, hwritten, hc⟩ := exists_scalarText_eq_cons (n := n + 2) (Style.holds_ofText name)
    exact ⟨c, cs ++ [':'], by rw [hwritten, List.cons_append], hc⟩
  · exact ⟨'?', _, rfl, ⟨rfl, by decide, rfl⟩, by decide⟩

/-- The entries of a map are no part of a node before them with more indentation. -/
theorem follows_entriesText (entries : List (String × Tree)) (hrest : Follows (n + 1) rest) :
    Follows (n + 1) (entriesText n (Node.ofEntries entries) ++ rest) := by
  cases entries with
  | nil => exact hrest
  | cons entry entries =>
    obtain ⟨c, cs, hwords, hc, hcomment⟩ := exists_keyWords_eq_cons n entry.1
    rw [entriesText_cons, hwords, List.append_assoc, List.cons_append, List.cons_append]
    exact .line (Nat.lt_succ_self n) hc hcomment

/-- The value of a simple key is set off from the key. -/
theorem begins_afterKey (t : Tree) : Begins (fun c => isSpecial c = false ∧ isWhite c = true)
    (nodeText .afterKey n (Node.ofTree t) ++ rest) := by
  cases t with
  | text value => exact .of_cons ⟨rfl, rfl⟩
  | texts values => cases values <;> exact .of_cons ⟨rfl, rfl⟩
  | map entries => cases entries <;> exact .of_cons ⟨rfl, rfl⟩

namespace Scan

/-- A key and its colon are read, the mark of its mapping before it if the mapping begins there. -/
theorem leads_key (tokens : List Token) (hn : p.column = n) (hcolumns : leastColumn columns ≤ n + 1)
    (hrest : valuePlace name = .afterKey →
      Begins (fun c => isSpecial c = false ∧ isWhite c = true) rest) :
    ∃ q : Position, (valuePlace name).At n q ∧
      Leads (before .inline tokens columns p (keyWords n name ++ rest))
        (before (valuePlace name)
          (.value :: textToken name :: .key :: (opening columns n .blockMapping ++ tokens))
          (opened columns n) q rest) := by
  have hholds := Style.holds_ofText name
  simp only [valuePlace, keyWords] at hrest ⊢
  split
  case isTrue hsimple =>
    have hline : OneLine name.toList := by
      simp only [isSimpleKey, Bool.and_eq_true, Bool.not_eq_true'] at hsimple
      exact fun c hc => Bool.eq_false_iff.2 (List.any_eq_false.1 hsimple.2 c hc)
    have hsize : Position.bytes name.toList ≤ 128 := by
      simp only [isSimpleKey, Bool.and_eq_true, decide_eq_true_eq] at hsimple
      exact Position.utf8ByteSize_eq_bytes name ▸ hsimple.1
    obtain ⟨q, hq, hleads⟩ := leads_simpleKey (n := n + 2) tokens hholds (Nat.succ_pos _) hline
      hsize (hn ▸ hcolumns) (hrest (if_pos hsimple))
    rw [hn] at hq hleads
    rw [List.append_assoc]
    exact ⟨q, hq, hleads⟩
  case isFalse =>
    obtain ⟨q, hq, hleads⟩ := leads_complexKey tokens rest hholds hn hcolumns
    refine ⟨q, hq, ?_⟩
    simpa [textToken] using hleads

/-- A scan reads the text of a tree within every collection, up to a line with less indentation. -/
def Passes (t : Tree) : Prop :=
  ∀ ⦃place m p tokens columns rest⦄, place.At m p → Follows (m + 1) rest →
    LeadsToLine
      (before place tokens (m :: columns) p
        (nodeText place (place.indent m) (Node.ofTree t) ++ rest))
      ((treeTokens place t).reverse ++ tokens) (m :: columns) rest

/-- A scan reads the lines of the entries of a mapping. -/
def PassesEntries (entries : List (String × Tree)) : Prop :=
  ∀ ⦃n q tokens columns rest⦄, q.column = 0 → Follows (n + 1) rest →
    LeadsToLine
      (before .inline tokens (n :: columns) q (entriesText n (Node.ofEntries entries) ++ rest))
      ((entryTokens entries).reverse ++ tokens) (n :: columns) rest

/-- A node on the line of its key is set off by a space. -/
theorem leads_gap {cs : List Char} (hp : place.At m p) : ∃ q : Position, m < q.column ∧
    Leads (before place tokens columns p (place.gap ++ cs)) (before place tokens columns q cs) := by
  cases place with
  | inline =>
    have hm : p.column = m + 2 := hp
    exact ⟨p, by omega, .refl _⟩
  | afterKey =>
    refine ⟨p.next ' ', ?_, leads_spaces .afterKey 1⟩
    rw [(Position.next_of_not_break rfl).2]
    exact Nat.lt_succ_of_lt hp

theorem passes_text (value : String) : Passes (.text value) := by
  intro place m p tokens columns rest hp hrest
  have hdeeper : place.deeper (place.indent m) = m + 2 := by cases place <;> rfl
  rw [Node.ofTree, Node.ofText, nodeText, hdeeper, List.append_assoc]
  obtain ⟨q, hq, hgap⟩ := leads_gap hp
  exact .of_leads hgap (leads_scalar (Style.holds_ofText value) hq hrest)

theorem passes_noTexts : Passes (.texts []) := by
  intro place m p tokens columns rest hp hrest
  obtain ⟨q, hq, hgap⟩ := leads_gap hp
  have htext : nodeText place (place.indent m) (Node.ofTree (.texts [])) ++ rest =
      place.gap ++ '[' :: ']' :: '\n' :: rest := by
    simp [Node.ofTree, nodeText]
  rw [htext]
  exact .of_leads hgap (leads_noItems (deeper_cons hq) hrest)

theorem passes_noEntries : Passes (.map []) := by
  intro place m p tokens columns rest hp hrest
  obtain ⟨q, hq, hgap⟩ := leads_gap hp
  have htext : nodeText place (place.indent m) (Node.ofTree (.map [])) ++ rest =
      place.gap ++ '\x7b' :: '\x7d' :: '\n' :: rest := by
    simp [Node.ofTree, Node.ofEntries, nodeText]
  rw [htext]
  exact .of_leads hgap (leads_noEntries (deeper_cons hq) hrest)

/-- A collection ends before a line with less indentation. -/
theorem LeadsToLine.close {s : Scan} (h : LeadsToLine s tokens (m :: columns) rest)
    (hrest : Follows m rest) : LeadsToLine s (.blockEnd :: tokens) columns rest := by
  obtain ⟨q, hq, hleads⟩ := h
  exact ⟨q, hq, hleads.trans (.of_agrees (agrees_close hrest hq) (Nat.le_refl _))⟩

theorem passes_texts (value : String) (values : List String) :
    Passes (.texts (value :: values)) := by
  intro place m p tokens columns rest hp hrest
  cases place with
  | afterKey =>
    have htext : nodeText .afterKey m (Node.ofTree (.texts (value :: values))) ++ rest =
        '\n' :: (itemsText m ((value :: values).map .ofText) ++ rest) := rfl
    rw [Place.indent, htext]
    exact .of_leads leads_feed (leads_items _ (Position.next_of_break rfl).2 hrest)
  | inline =>
    -- The first item stands on the line of the mark before the list, so it opens the sequence; the
    -- lines behind it are items of a sequence that is open.
    have hdeeper : leastColumn (m :: columns) ≤ m + 2 := Nat.le_succ _
    have htext : nodeText .inline (m + 2) (Node.ofTree (.texts (value :: values))) ++ rest =
        (itemsText (m + 2) ((value :: values).map .ofText)).drop (m + 2) ++ rest := rfl
    have hrest' : Follows (m + 2 + 1) rest := hrest.mono (by omega)
    have hline := leads_itemLine tokens value hp (Nat.le_succ_of_le hdeeper)
      (follows_itemsText values hrest')
    rw [opening_of_le hdeeper, opened_of_le hdeeper] at hline
    have hitems := (hline.trans fun q hq => leads_items values hq hrest').close
      (hrest.mono (Nat.le_succ _))
    rw [Place.indent, htext, itemsText_cons, drop_spaces]
    simpa [treeTokens, itemTokens] using hitems

/-! ## Entries -/

/-- An entry is read, the mark of its mapping before it if the mapping begins there. -/
theorem leads_entry (tokens : List Token) (name : String) {value : Tree} (hvalue : Passes value)
    (hn : p.column = n)
    (hcolumns : leastColumn columns ≤ n + 1) (hrest : Follows (n + 1) rest) :
    LeadsToLine
      (before .inline tokens columns p (keyWords n name ++
        (nodeText (valuePlace name) ((valuePlace name).indent n) (Node.ofTree value) ++ rest)))
      ((treeTokens (valuePlace name) value).reverse ++
        (.value :: textToken name :: .key :: (opening columns n .blockMapping ++ tokens)))
      (opened columns n) rest := by
  obtain ⟨outer, hopened⟩ := exists_opened hcolumns
  have hbegins : valuePlace name = .afterKey →
      Begins (fun c => isSpecial c = false ∧ isWhite c = true)
        (nodeText (valuePlace name) ((valuePlace name).indent n) (Node.ofTree value) ++ rest) :=
    fun hplace => hplace ▸ begins_afterKey value
  obtain ⟨q, hq, hkey⟩ := leads_key tokens hn hcolumns hbegins
  refine .of_leads hkey ?_
  rw [hopened]
  exact hvalue hq hrest

theorem passesEntries_nil : PassesEntries [] := fun _ _ _ _ _ hq _ => .here hq

theorem passesEntries_cons {value : Tree} {entries : List (String × Tree)} (hvalue : Passes value)
    (hentries : PassesEntries entries) : PassesEntries ((name, value) :: entries) := by
  intro n q tokens columns rest hq hrest
  obtain ⟨q', hq', hindentation⟩ := exists_leads_indentation n hq
  have hline := leads_entry tokens name hvalue hq' (leastColumn_cons_le columns)
    (follows_entriesText entries hrest)
  rw [opening_self, opened_self] at hline
  rw [entriesText_cons, List.append_assoc, List.append_assoc, List.append_assoc]
  refine .of_leads (hindentation _ _ _) (hline.trans fun q hq => ?_)
  simpa [entryTokens] using hentries hq hrest

/-- A mapping is read, from its first entry to the line that ends it. -/
theorem leads_mapping {value : Tree} {entries : List (String × Tree)} (hvalue : Passes value)
    (hentries : PassesEntries entries) (hn : p.column = n) (hcolumns : leastColumn columns ≤ n)
    (hrest : Follows n rest) :
    LeadsToLine
      (before .inline tokens columns p
        ((entriesText n (Node.ofEntries ((name, value) :: entries))).drop n ++ rest))
      ((treeTokens .inline (.map ((name, value) :: entries))).reverse ++ tokens) columns rest := by
  have hrest' : Follows (n + 1) rest := hrest.mono (Nat.le_succ n)
  have hline := leads_entry tokens name hvalue hn (Nat.le_succ_of_le hcolumns)
    (follows_entriesText entries hrest')
  rw [opening_of_le hcolumns, opened_of_le hcolumns] at hline
  have hmapping := (hline.trans fun q hq => hentries hq hrest').close hrest
  rw [entriesText_cons, drop_spaces, List.append_assoc, List.append_assoc]
  simpa [treeTokens, entryTokens] using hmapping

theorem passes_map {value : Tree} {entries : List (String × Tree)} (hvalue : Passes value)
    (hentries : PassesEntries entries) : Passes (.map ((name, value) :: entries)) := by
  intro place m p tokens columns rest hp hrest
  have hdeeper : leastColumn (m :: columns) ≤ m + 2 := Nat.le_succ _
  have hrest' : Follows (m + 2) rest := hrest.mono (Nat.le_succ _)
  cases place with
  | inline =>
    have htext : nodeText .inline (m + 2) (Node.ofTree (.map ((name, value) :: entries))) ++ rest =
        (entriesText (m + 2) (Node.ofEntries ((name, value) :: entries))).drop (m + 2) ++ rest :=
      rfl
    rw [Place.indent, htext]
    exact leads_mapping hvalue hentries hp hdeeper hrest'
  | afterKey =>
    have htext : nodeText .afterKey m (Node.ofTree (.map ((name, value) :: entries))) ++ rest =
        '\n' :: (entriesText (m + 2) (Node.ofEntries ((name, value) :: entries)) ++ rest) := rfl
    have hspaces : entriesText (m + 2) (Node.ofEntries ((name, value) :: entries)) =
        spaces (m + 2) ++
          (entriesText (m + 2) (Node.ofEntries ((name, value) :: entries))).drop (m + 2) := by
      rw [entriesText_cons, drop_spaces]
    have hfeed : (p.next '\n').column = 0 := (Position.next_of_break rfl).2
    obtain ⟨q, hq, hindentation⟩ := exists_leads_indentation (m + 2) hfeed
    rw [Place.indent, htext, hspaces, List.append_assoc]
    exact .of_leads (leads_feed.trans (hindentation _ _ _))
      (leads_mapping hvalue hentries hq hdeeper hrest')

mutual
/-- A scan reads every tree within a collection. -/
theorem passes : ∀ t, Passes t
  | .text value => passes_text value
  | .texts [] => passes_noTexts
  | .texts (value :: values) => passes_texts value values
  | .map [] => passes_noEntries
  | .map ((_, value) :: entries) => passes_map (passes value) (passesEntries entries)

theorem passesEntries : ∀ entries, PassesEntries entries
  | [] => passesEntries_nil
  | (_, value) :: entries => passesEntries_cons (passes value) (passesEntries entries)
end

end Scan

end ApiModels.Yaml
