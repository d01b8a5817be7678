import ApiModels.KeyedList

/-!
# Questions to a data format

Decoders are written once for all data formats: they ask a `Format` what a value can be taken for.
Where the format refuses the value in that role, decoding fails. In some formats a value can refer to
another place; how many references a decoder may follow is limited.
-/

namespace ApiModels.Data

/-- The fields of a record: by name, or by position in the order of the record's definition. -/
inductive Record (V : Type) where
  | named (entries : List (String × V))
  | positional (values : List V)

/-- A step of decoding, `none` where it fails. The state is the number of references that may still
be followed. -/
abbrev Decode := StateT Nat Option

namespace Decode

/-- Follows a reference. -/
def follow : Decode Unit := fun allowance =>
  match allowance with
  | 0 => none
  | rest + 1 => some ((), rest)

/-- What a decoder finds that may follow so many references. -/
def within? {α : Type} (allowance : Nat) (decoder : Decode α) : Option α := decoder.run' allowance

end Decode

/-- What the values of a data format can be taken for. -/
structure Format (V : Type) where
  /-- A text. -/
  text? : V → Decode String
  /-- A truth value. -/
  truth? : V → Decode Bool
  /-- A list. -/
  items? : V → Decode (List V)
  /-- A map from texts, repeated keys included. -/
  entries? : V → Decode (List (String × V))
  /-- A record. -/
  record? : V → Decode (Record V)
  /-- A value that may be absent. -/
  optional? : V → Decode (Option V)
  /-- One of several words. -/
  choice? : V → Decode String

/-- The values found for the fields of a record, in the order of its definition. -/
structure Fields (V : Type) where
  values : List (Option V)
  byPosition : Bool

/-- The value of a field by name; `none` if it comes up twice. -/
def Record.single? {V : Type} (entries : List (String × V)) (name : String) : Option (Option V) :=
  match entries.filter (·.1 == name) with
  | [] => some none
  | [entry] => some (some entry.2)
  | _ => none

/-- The values of the fields called `names`. Unknown names are passed over; a name that comes up
twice, or more values than names, is refused. -/
def Record.fields? {V : Type} (names : List String) : Record V → Option (Fields V)
  | .named entries => do return ⟨← names.mapM (single? entries), false⟩
  | .positional values =>
    if values.length ≤ names.length then some ⟨values.map some, true⟩ else none

namespace Fields

variable {V α : Type}

/-- The value of the field at `index`. -/
def get? (fields : Fields V) (index : Nat) : Option V := (fields.values[index]?).join

/-- A field that must be there. -/
def required (fields : Fields V) (index : Nat) (decode : V → Decode α) : Decode α := do
  decode (← fields.get? index)

/-- A field with a default. -/
def withDefault (fields : Fields V) (index : Nat) (default : α) (decode : V → Decode α) :
    Decode α :=
  match fields.get? index with
  | none => pure default
  | some v => decode v

/-- A field that may be absent; only a record by name may leave it out altogether. -/
def optional (fields : Fields V) (index : Nat) (decode : V → Decode (Option α)) :
    Decode (Option α) :=
  match fields.get? index with
  | none => if fields.byPosition then failure else pure none
  | some v => decode v

end Fields

namespace Format

variable {V α : Type} (format : Format V)

/-- The fields of a record. -/
def fields? (names : List String) (v : V) : Decode (Fields V) := do
  (← format.record? v).fields? names

/-- A list with decoded items. -/
def listOf (decode : V → Decode α) (v : V) : Decode (List α) := do
  (← format.items? v).mapM decode

/-- A list of texts. -/
def texts? (v : V) : Decode (List String) := format.listOf format.text? v

/-- A map with decoded values; the last value of a key counts. -/
def mapOf (decode : V → Decode α) (v : V) : Decode (OrderedMap α) := do
  let entries ← (← format.entries? v).mapM fun (name, value) => do return (name, ← decode value)
  return .ofListLast entries

/-- A value that may be absent. -/
def optionalOf (decode : V → Decode α) (v : V) : Decode (Option α) := do
  match ← format.optional? v with
  | none => return none
  | some v => return some (← decode v)

end Format

end ApiModels.Data
