import ApiModels.Data.Format
import ApiModels.Data.Tree
import ApiModels.Proofs.KeyedList

/-!
# Formats that present trees

A format presents trees by values if each value can be taken for what its tree is, and never for an
absent one. What is decoded from such values does not depend on the format, and no reference is
followed: lists, maps and records are those of the tree.
-/

namespace ApiModels.Data

/-- The format takes the value `value t` for what the tree `t` is. -/
structure Format.Presents {V : Type} (format : Format V) (value : Tree → V) : Prop where
  text? : ∀ text, format.text? (value (.text text)) = pure text
  items? : ∀ texts, format.items? (value (.texts texts)) = pure (texts.map fun s => value (.text s))
  entries? : ∀ entries, format.entries? (value (.map entries)) =
    pure (entries.map fun e => (e.1, value e.2))
  record? : ∀ entries, format.record? (value (.map entries)) =
    pure (.named (entries.map fun e => (e.1, value e.2)))
  optional? : ∀ t, format.optional? (value t) = pure (some (value t))

variable {V α β : Type} {format : Format V} {value : Tree → V} {decode : V → Decode α}
  {tree : α → Tree} {fields : Fields V} {index : Nat} {names : List String} {t : Tree}
  {entries : List (String × Tree)} {found : List (Option V)} {v : V}

theorem mapM_map_eq_pure {as : List α} {encode : α → β} {decode : β → Decode α}
    (h : ∀ a ∈ as, decode (encode a) = pure a) : (as.map encode).mapM decode = pure as := by
  induction as with
  | nil => rfl
  | cons a as ih =>
    rw [List.map_cons, List.mapM_cons, h a List.mem_cons_self,
      ih fun b hb => h b (List.mem_cons_of_mem a hb)]
    rfl

theorem Fields.required_of_some (h : fields.get? index = some v) :
    fields.required index decode = decode v := by
  rw [required, h]
  rfl

namespace Format.Presents

variable (h : format.Presents value)
include h

theorem texts? (texts : List String) : format.texts? (value (.texts texts)) = pure texts := by
  rw [Format.texts?, listOf, h.items?, pure_bind]
  exact mapM_map_eq_pure fun text _ => h.text? text

/-- A map is decoded from the trees of its values. -/
theorem mapOf {m : OrderedMap α} (hdecode : ∀ p ∈ m.toList, decode (value (tree p.2)) = pure p.2) :
    format.mapOf decode (value (.map (m.toList.map fun p => (p.1, tree p.2)))) = pure m := by
  rw [Format.mapOf, h.entries?, pure_bind, List.map_map, mapM_map_eq_pure, pure_bind]
  · exact congrArg pure (KeyedList.ofListLast_toList m)
  · intro p hp
    change (do return (p.1, ← decode (value (tree p.2)))) = pure p
    rw [hdecode p hp]
    rfl

/-- A field that the tree leaves out where it is absent. -/
theorem optional {a : Option α} (hget : fields.get? index = a.map fun a => value (tree a))
    (hname : fields.byPosition = false) (hdecode : ∀ a, decode (value (tree a)) = pure a) :
    fields.optional index (format.optionalOf decode) = pure a := by
  cases a with
  | none =>
    rw [Fields.optional, hget, hname]
    rfl
  | some a =>
    rw [Fields.optional, hget]
    change format.optionalOf decode (value (tree a)) = _
    rw [optionalOf, h.optional?, pure_bind]
    change (do return some (← decode (value (tree a)))) = _
    rw [hdecode]
    rfl

/-- The fields of a record are looked up among the entries of its tree. -/
theorem fields? (hfound : names.mapM (Record.single? (entries.map fun e => (e.1, value e.2))) =
    some found) : format.fields? names (value (.map entries)) = pure ⟨found, false⟩ := by
  rw [Format.fields?, h.record?, pure_bind, Record.fields?, hfound]
  rfl

end Format.Presents

end ApiModels.Data
