import ApiModels.Input
import ApiModels.Proofs.Data.Presentation
import ApiModels.Proofs.Json.RoundTrip
import ApiModels.Proofs.Yaml.RoundTrip

/-!
# Options in files

Options are loaded from every text that holds their tree, and where keys have been taken out of the
tree, the fields of these keys have their defaults and all others are as they were
(`Options.loadOptions_without`). A list of conventions is written only if it is not empty, and it
is the one list that is empty by default.
-/

namespace ApiModels

open ApiModels.Data

namespace Data

/-- The map without the entries whose keys are removed. -/
def Tree.without (removed : String → Bool) : Tree → Tree
  | .map entries => .map (entries.filter fun e => !removed e.1)
  | t => t

/-- The text holds the tree, in whatever layout. -/
def Encoding.Holds (encoding : Encoding) (text : String) (t : Tree) : Prop :=
  match encoding with
  | .json => Json.read? text = some (Json.Value.ofTree t)
  | .yaml => ∃ document, Yaml.read? text = some document ∧ document.root = Yaml.Node.ofTree t

theorem Encoding.holds_render (encoding : Encoding) (entries : List (String × Tree)) :
    encoding.Holds (encoding.render (.map entries)) (.map entries) := by
  cases encoding with
  | json => exact Json.read?_render _
  | yaml => exact ⟨_, Yaml.read?_render entries, rfl⟩

variable {V α : Type} {removed : String → Bool} {name : String} {names : List String}
  {entries : List (String × V)} {found : List (Option V)} {fields : Fields V} {index : Nat}
  {value : Option V} {a default : α} {decode : V → Decode α} {isRemoved : Bool}

theorem Record.single?_filter (h : single? entries name = some value) :
    single? (entries.filter fun e => !removed e.1) name =
      some (if removed name then none else value) := by
  cases hremoved : removed name with
  | true =>
    have hnone : (entries.filter fun e => !removed e.1).filter (·.1 == name) = [] := by
      refine List.filter_eq_nil_iff.2 fun e he hname => ?_
      rw [List.mem_filter, beq_iff_eq.1 hname, hremoved] at he
      exact Bool.noConfusion he.2
    rw [single?, hnone]
    rfl
  | false =>
    have hkept : (entries.filter fun e => !removed e.1).filter (·.1 == name) =
        entries.filter (·.1 == name) := by
      rw [List.filter_filter]
      refine List.filter_congr fun e _ => ?_
      cases hname : e.1 == name with
      | true => rw [beq_iff_eq.1 hname, hremoved]; rfl
      | false => rfl
    rw [single?, hkept]
    exact h

/-- A field whose key is removed is not found, and every other one is found as before. -/
theorem Record.mapM_single?_filter (h : names.mapM (single? entries) = some found) :
    names.mapM (single? (entries.filter fun e => !removed e.1)) =
      some (names.zipWith (fun name value => if removed name then none else value) found) := by
  induction names generalizing found with
  | nil =>
    cases h
    rfl
  | cons name names ih =>
    simp only [List.mapM_cons, Option.bind_eq_bind, Option.bind_eq_some_iff, Option.pure_def,
      Option.some.injEq] at h
    obtain ⟨value, hvalue, rest, hrest, rfl⟩ := h
    rw [List.mapM_cons, single?_filter hvalue, ih hrest]
    rfl

/-- A field that is decoded unless its key is removed. -/
theorem Fields.withDefault_of_removed {v : V}
    (hget : fields.get? index = if isRemoved then none else some v) (hdecode : decode v = pure a) :
    fields.withDefault index default decode = pure (if isRemoved then default else a) := by
  rw [withDefault, hget]
  cases isRemoved with
  | true => rfl
  | false => exact hdecode

end Data

namespace Convention

theorem ofLabel?_label (x : Convention) : ofLabel? x.label = some x := by
  cases x <;> decide +kernel

end Convention

namespace Options

/-- The options with the defaults in the fields whose keys are removed. -/
def reset (removed : String → Bool) (o : Options) : Options where
  closedTypes :=
    if removed "types_to_treat_as_opaque" then ({} : Options).closedTypes else o.closedTypes
  closedPackages :=
    if removed "packages_to_treat_as_opaque" then ({} : Options).closedPackages
    else o.closedPackages
  reserved := if removed "reserved_prefixes" then ({} : Options).reserved else o.reserved
  base := if removed "base_object" then ({} : Options).base else o.base
  conventions := if removed "conventions" then ({} : Options).conventions else o.conventions

variable {V : Type} {format : Format V} {value : Tree → V} {removed : String → Bool} {o : Options}

theorem conventions?_tree (h : format.Presents value)
    (hchoice : ∀ word, format.choice? (value (.text word)) = pure word)
    (conventions : List Convention) :
    format.listOf (convention? format) (value (.texts (conventions.map (·.label)))) =
      pure conventions := by
  have hconvention (x : Convention) : convention? format (value (.text x.label)) = pure x := by
    rw [convention?, hchoice, pure_bind, Convention.ofLabel?_label]
    rfl
  rw [Format.listOf, h.items?, pure_bind, List.map_map]
  exact mapM_map_eq_pure fun x _ => hconvention x

/-- The fields of what is left of the tree. An empty list of conventions is never among them. -/
theorem exists_fields?_without (h : format.Presents value) (o : Options) (removed : String → Bool) :
    ∃ fields, format.fields?
        ["types_to_treat_as_opaque", "packages_to_treat_as_opaque", "reserved_prefixes",
          "base_object", "conventions"] (value (o.tree.without removed)) = pure fields ∧
      fields.get? 0 = (if removed "types_to_treat_as_opaque" then none
        else some (value (.texts o.closedTypes))) ∧
      fields.get? 1 = (if removed "packages_to_treat_as_opaque" then none
        else some (value (.texts o.closedPackages))) ∧
      fields.get? 2 = (if removed "reserved_prefixes" then none
        else some (value (.texts o.reserved))) ∧
      fields.get? 3 = (if removed "base_object" then none else some (value (.text o.base))) ∧
      fields.get? 4 = (if removed "conventions" then none else if o.conventions.isEmpty then none
        else some (value (.texts (o.conventions.map (·.label))))) := by
  have hentries (entries : List (String × Tree)) :
      (entries.filter fun e => !removed e.1).map (fun e => (e.1, value e.2)) =
        (entries.map fun e => (e.1, value e.2)).filter fun e => !removed e.1 := by
    rw [List.filter_map]
    rfl
  have hfound : ["types_to_treat_as_opaque", "packages_to_treat_as_opaque", "reserved_prefixes",
      "base_object", "conventions"].mapM (Record.single? <| List.map (fun e => (e.1, value e.2))
        ([("types_to_treat_as_opaque", .texts o.closedTypes),
          ("packages_to_treat_as_opaque", .texts o.closedPackages),
          ("reserved_prefixes", .texts o.reserved), ("base_object", .text o.base)] ++
          if o.conventions.isEmpty then []
          else [("conventions", .texts (o.conventions.map (·.label)))])) =
      some [some (value (.texts o.closedTypes)), some (value (.texts o.closedPackages)),
        some (value (.texts o.reserved)), some (value (.text o.base)),
        if o.conventions.isEmpty then none
        else some (value (.texts (o.conventions.map (·.label))))] := by
    cases o.conventions.isEmpty <;> simp [Record.single?]
  have hkept := @Record.mapM_single?_filter _ removed _ _ _ hfound
  rw [← hentries] at hkept
  exact ⟨_, h.fields? hkept, rfl, rfl, rfl, rfl, rfl⟩

theorem conventions_of_get? {fields : Fields V} {index : Nat} {isRemoved : Bool}
    (h : format.Presents value) (hchoice : ∀ word, format.choice? (value (.text word)) = pure word)
    (hget : fields.get? index = if isRemoved then none else if o.conventions.isEmpty then none
      else some (value (.texts (o.conventions.map (·.label))))) :
    fields.withDefault index [] (format.listOf (convention? format)) =
      pure (if isRemoved then [] else o.conventions) := by
  cases hempty : o.conventions.isEmpty with
  | true =>
    -- nothing is written, and what is missing is read as what was not written
    rw [hempty, if_pos rfl, ite_self] at hget
    rw [Fields.withDefault, hget, List.isEmpty_iff.1 hempty, ite_self]
  | false =>
    rw [hempty] at hget
    exact Fields.withDefault_of_removed hget (conventions?_tree h hchoice _)

/-- Options are decoded from every presentation of what is left of their tree. -/
theorem decode?_without (h : format.Presents value)
    (hchoice : ∀ word, format.choice? (value (.text word)) = pure word) (o : Options)
    (removed : String → Bool) :
    decode? format (value (o.tree.without removed)) = pure (o.reset removed) := by
  obtain ⟨fields, hfields, htypes, hpackages, hreserved, hbase, hconventions⟩ :=
    exists_fields?_without h o removed
  rw [decode?, hfields, pure_bind]
  simp only [Fields.withDefault_of_removed htypes (h.texts? _),
    Fields.withDefault_of_removed hpackages (h.texts? _),
    Fields.withDefault_of_removed hreserved (h.texts? _),
    Fields.withDefault_of_removed hbase (h.text? _), conventions_of_get? h hchoice hconventions,
    pure_bind]
  rfl

variable {encoding : Encoding} {text : String}

/-- Options are read from every text that holds what is left of their tree. -/
theorem read?_of_holds (hholds : encoding.Holds text (o.tree.without removed)) :
    encoding.read? decode? text = some (o.reset removed) := by
  cases encoding with
  | json =>
    have hread : Json.read? text = some (Json.Value.ofTree (o.tree.without removed)) := hholds
    have hchoice (word : String) :
        Json.format.choice? (Json.Value.ofTree (.text word)) = pure word := by
      rw [Json.Value.ofTree]
      rfl
    rw [Encoding.read?, hread]
    change Json.decode? decode? (Json.Value.ofTree (o.tree.without removed)) = _
    rw [Json.decode?, decode?_without Json.format_presents hchoice]
    rfl
  | yaml =>
    obtain ⟨document, hread, hroot⟩ := hholds
    have hchoice (word : String) :
        document.format.choice? (Yaml.Node.ofTree (.text word)) = pure word := by
      rw [Yaml.Node.ofTree]
      rfl
    rw [Encoding.read?, hread]
    change Yaml.Document.decode? decode? document = _
    rw [Yaml.Document.decode?, hroot, decode?_without document.format_presents hchoice]
    rfl

theorem holds_without (encoding : Encoding) (o : Options) (removed : String → Bool) :
    encoding.Holds (encoding.render (o.tree.without removed)) (o.tree.without removed) :=
  encoding.holds_render _

theorem without_nothing (o : Options) : o.tree.without (fun _ => false) = o.tree := by
  rw [tree, Tree.without]
  exact congrArg Data.Tree.map (List.filter_eq_self.2 fun _ _ => rfl)

theorem loadOptions_of_holds {t : FileTree} {path : String} (hread : t.readText path = .ok text)
    (hholds : (Encoding.ofPath path).Holds text (o.tree.without removed)) :
    t.loadOptions path = .ok (o.reset removed) := by
  have htext : t.text path = .ok text := by
    rw [FileTree.text, hread]
    rfl
  simp only [FileTree.loadOptions, htext, bind, Except.bind, read?_of_holds hholds]

/-- Options are read from the text that they are written as. Where keys are removed from what is
written, the fields of these keys have their defaults and all others have the values of the
options; and so it is with every other text that holds the same tree, and with a file in the
encoding that its name asks for. -/
theorem loadOptions_without (o : Options) (encoding : Encoding) :
    encoding.read? decode? (encoding.render o.tree) = some o ∧
    ∀ removed : String → Bool,
      encoding.read? decode? (encoding.render (o.tree.without removed)) = some (o.reset removed) ∧
      (∀ text, encoding.Holds text (o.tree.without removed) →
        encoding.read? decode? text = some (o.reset removed)) ∧
      ∀ (t : FileTree) (path : String), Encoding.ofPath path = encoding →
        t.readText path = .ok (encoding.render (o.tree.without removed)) →
          t.loadOptions path = .ok (o.reset removed) := by
  have hread (removed : String → Bool) := read?_of_holds (holds_without encoding o removed)
  refine ⟨?_, fun removed => ⟨hread removed, fun text hholds => read?_of_holds hholds, ?_⟩⟩
  · have hall := hread fun _ => false
    rw [without_nothing] at hall
    exact hall
  · rintro t path rfl htext
    exact loadOptions_of_holds htext (holds_without _ o removed)

/-- Options with empty lists, a text that needs quotes, and a convention that comes up twice. -/
def closedNothing : Options where
  closedTypes := []
  closedPackages := []
  reserved := []
  base := "a: #b"
  conventions := [.serde, .jaxb, .serde]

/-- A file of these options without two of their keys. -/
def optionFiles : FileTree where
  root := .directory [("options.yaml", .file (.text (Encoding.yaml.render
    (closedNothing.tree.without fun key => key == "reserved_prefixes" || key == "conventions"))))]

theorem optionFiles_loadOptions :
    Encoding.json.read? decode? (Encoding.json.render closedNothing.tree) = some closedNothing ∧
    optionFiles.loadOptions "options.yaml" =
      .ok { closedTypes := [], closedPackages := [], base := "a: #b" } := by
  obtain ⟨hjson, -⟩ := loadOptions_without closedNothing .json
  obtain ⟨-, hyaml⟩ := loadOptions_without closedNothing .yaml
  obtain ⟨-, -, hload⟩ := hyaml fun key => key == "reserved_prefixes" || key == "conventions"
  exact ⟨hjson, hload optionFiles "options.yaml" (by decide +kernel) rfl⟩

end Options

end ApiModels
