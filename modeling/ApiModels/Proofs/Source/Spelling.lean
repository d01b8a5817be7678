import Mathlib.Logic.Relation
import ApiModels.Proofs.Correspondence
import ApiModels.Proofs.QualifiedName
import ApiModels.Proofs.Source.Resolution

/-!
# Spellings of a type

The same type can be written in many ways: behind references and in parentheses, by the whole path to
it or by its name alone, as `Self`, with names marked as raw, with lifetimes and constants among its
arguments. `Scope.Respells` is one such change at any depth of a written type. No change, and so no
chain of changes, makes a difference to the reference that the type stands for
(`Scope.typeRef_eq_of_respelled`) or to what the sources declare (`resolve_eq_of_respelled`). A path
to a declared type stands for its declaration, however it is spelled.
-/

namespace ApiModels.Source

/-! ## Changes in spelling -/

/-- One change in how a type is spelled. -/
inductive Scope.Respells (scope : Scope) : Ty → Ty → Prop
  /-- Of a path to a declared type only the last name counts. -/
  | declared {root root' : PathRoot} {front front' : List Segment} {last : Segment}
      (hroot : root ≠ .qualified) (hroot' : root' ≠ .qualified)
      (h : last.name.text ∈ scope.declared) :
      Respells scope (.path root (front ++ [last])) (.path root' (front' ++ [last]))
  /-- The type that is being declared may be called by its name. -/
  | self {name name' : Identifier} {arguments : List Argument} (hname : name.text = "Self")
      (hname' : name'.text = scope.self) :
      Respells scope (.path .relative [⟨name, arguments⟩]) (.path .relative [⟨name', arguments⟩])
  | reference (lifetime : Option String) (isMutable : Bool) (t : Ty) :
      Respells scope (.reference lifetime isMutable t) t
  | parenthesized (t : Ty) : Respells scope (.parenthesized t) t
  /-- A name of a path may be marked as raw. -/
  | raw {root : PathRoot} {front back : List Segment} {name name' : Identifier}
      {arguments : List Argument} (h : name.text = name'.text) :
      Respells scope (.path root (front ++ ⟨name, arguments⟩ :: back))
        (.path root (front ++ ⟨name', arguments⟩ :: back))
  | lifetime {root : PathRoot} {front back : List Segment} {name : Identifier}
      {before after : List Argument} (lifetime : String) :
      Respells scope (.path root (front ++ ⟨name, before ++ .lifetime lifetime :: after⟩ :: back))
        (.path root (front ++ ⟨name, before ++ after⟩ :: back))
  | constant {root : PathRoot} {front back : List Segment} {name : Identifier}
      {before after : List Argument} :
      Respells scope (.path root (front ++ ⟨name, before ++ .constant :: after⟩ :: back))
        (.path root (front ++ ⟨name, before ++ after⟩ :: back))
  | inArgument {root : PathRoot} {front back : List Segment} {name : Identifier}
      {before after : List Argument} {t t' : Ty} (h : Respells scope t t') :
      Respells scope (.path root (front ++ ⟨name, before ++ .type t :: after⟩ :: back))
        (.path root (front ++ ⟨name, before ++ .type t' :: after⟩ :: back))
  | inReference {lifetime : Option String} {isMutable : Bool} {t t' : Ty}
      (h : Respells scope t t') :
      Respells scope (.reference lifetime isMutable t) (.reference lifetime isMutable t')
  | inParentheses {t t' : Ty} (h : Respells scope t t') :
      Respells scope (.parenthesized t) (.parenthesized t')
  | inSlice {t t' : Ty} (h : Respells scope t t') : Respells scope (.slice t) (.slice t')
  | inArray {t t' : Ty} (h : Respells scope t t') : Respells scope (.array t) (.array t')
  | inTuple {before after : List Ty} {t t' : Ty} (h : Respells scope t t') :
      Respells scope (.tuple (before ++ t :: after)) (.tuple (before ++ t' :: after))

/-- Two spellings of one type: changes, in both directions, lead from one to the other. -/
def Scope.Respelled (scope : Scope) : Ty → Ty → Prop := Relation.EqvGen scope.Respells

/-! ## Paths -/

variable {scope : Scope} {root : PathRoot} {front back segments segments' : List Segment}
  {last : Segment} {name name' : Identifier} {arguments arguments' before after : List Argument}
  {t t' : Ty}

theorem Scope.typeRef_path (hroot : root ≠ .qualified) (hne : segments ≠ []) :
    scope.typeRef (.path root segments) =
      ⟨scope.pathName segments, scope.lastArguments segments⟩ := by
  obtain ⟨s, rest, rfl⟩ := List.exists_cons_of_ne_nil hne
  rw [typeRef]
  exact hroot

/-- The names of a path and the types among its last arguments are all that is read of it. -/
theorem Scope.typeRef_path_congr
    (hnames : segments.map (·.name.text) = segments'.map (·.name.text))
    (hargs : scope.lastArguments segments = scope.lastArguments segments') :
    scope.typeRef (.path root segments) = scope.typeRef (.path root segments') := by
  by_cases hroot : root = .qualified
  · subst hroot
    rw [typeRef, typeRef]
  cases segments with
  | nil =>
    obtain rfl : segments' = [] := List.map_eq_nil_iff.1 hnames.symm
    rfl
  | cons s rest =>
    have hne : segments' ≠ [] := by
      rintro rfl
      cases hnames
    have hpath : scope.pathName (s :: rest) = scope.pathName segments' := by
      have hlast := congrArg List.getLast? hnames
      have htexts := congrArg (String.intercalate "::") hnames
      simp only [List.getLast?_map] at hlast
      simp only [pathName, pathText, List.map_map, Function.comp_def, hlast, htexts]
    rw [typeRef_path hroot (List.cons_ne_nil s rest), typeRef_path hroot hne, hpath, hargs]

@[simp] theorem Scope.lastArguments_append_cons (s : Segment) :
    scope.lastArguments (front ++ s :: back) = scope.lastArguments (s :: back) := by
  induction front with
  | nil => rfl
  | cons first front ih =>
    rw [← ih]
    cases front <;> simp only [List.cons_append, List.nil_append, lastArguments]

theorem Scope.lastArguments_congr
    (h : scope.typeArguments arguments = scope.typeArguments arguments') :
    scope.lastArguments (front ++ ⟨name, arguments⟩ :: back) =
      scope.lastArguments (front ++ ⟨name', arguments'⟩ :: back) := by
  rw [lastArguments_append_cons, lastArguments_append_cons]
  cases back with
  | nil => rw [lastArguments, lastArguments, h]
  | cons s back => rw [lastArguments, lastArguments]

theorem Scope.typeArguments_append :
    scope.typeArguments (before ++ after) =
      scope.typeArguments before ++ scope.typeArguments after := by
  induction before with
  | nil => rfl
  | cons a before ih => cases a <;> simp [typeArguments, ih]

/-- Arguments may be exchanged for others that hold the same types. -/
theorem Scope.typeRef_path_arguments
    (h : scope.typeArguments arguments = scope.typeArguments arguments') :
    scope.typeRef (.path root (front ++ ⟨name, arguments⟩ :: back)) =
      scope.typeRef (.path root (front ++ ⟨name, arguments'⟩ :: back)) := by
  apply typeRef_path_congr
  · simp [Segment.name]
  · exact lastArguments_congr h

/-- The name that a path to the type itself or to a declared type has. -/
theorem Scope.pathName_append (h : last.name.text ∈ scope.declared ∨ last.name.text = "Self") :
    scope.pathName (front ++ [last]) =
      if last.name.text = "Self" then scope.self else last.name.text := by
  simp only [pathName, List.getLast?_concat, Option.map_some, Option.getD_some, beq_iff_eq]
  split
  · rfl
  · next hself =>
    rw [if_pos]
    simpa using h.resolve_right hself

theorem Scope.pathName_self (h : name.text = scope.self) :
    scope.pathName [⟨name, arguments⟩] = scope.self := by
  simp [pathName, pathText, Segment.name, h]

/-! ## References -/

/-- A change in spelling makes no difference to the reference that a type stands for. -/
theorem Scope.Respells.typeRef_eq (h : scope.Respells t t') : scope.typeRef t = scope.typeRef t' := by
  induction h with
  | declared hroot hroot' h =>
    rw [typeRef_path hroot (by simp), typeRef_path hroot' (by simp), pathName_append (.inl h),
      pathName_append (.inl h), lastArguments_append_cons, lastArguments_append_cons]
  | @self name _ arguments hname hname' =>
    have hlast : (Segment.mk name arguments).name.text = "Self" := hname
    have hpath : scope.pathName ([] ++ [⟨name, arguments⟩]) = scope.self := by
      rw [pathName_append (.inr hlast), if_pos hlast]
    rw [List.nil_append] at hpath
    rw [typeRef_path (by simp) (by simp), typeRef_path (by simp) (by simp), hpath,
      pathName_self hname', lastArguments, lastArguments]
  | reference lifetime isMutable t => rw [typeRef]
  | parenthesized t => rw [typeRef]
  | raw h =>
    apply typeRef_path_congr
    · simp [Segment.name, h]
    · exact lastArguments_congr rfl
  | lifetime | constant =>
    apply typeRef_path_arguments
    rw [typeArguments_append, typeArguments, typeArguments_append]
  | inArgument _ ih =>
    apply typeRef_path_arguments
    rw [typeArguments_append, typeArguments_append, typeArguments, typeArguments, ih]
  | inReference _ ih => rw [typeRef, typeRef, ih]
  | inParentheses _ ih => rw [typeRef, typeRef, ih]
  | inSlice _ ih => rw [typeRef, typeRef, ih]
  | inArray _ ih => rw [typeRef, typeRef, ih]
  | @inTuple before =>
    -- a tuple with elements is the same reference whatever they are
    cases before <;> simp only [List.nil_append, List.cons_append, typeRef]

theorem Scope.typeRef_eq_of_respelled (h : scope.Respelled t t') :
    scope.typeRef t = scope.typeRef t' := by
  induction h with
  | rel t t' h => exact h.typeRef_eq
  | refl t => rfl
  | symm t t' _ ih => exact ih.symm
  | trans t t' t'' _ _ ih ih' => exact ih.trans ih'

/-! ## Items -/

/-- A field whose type is spelled another way. -/
inductive NamedField.Respelled (scope : Scope) : NamedField → NamedField → Prop
  | mk {f : NamedField} {t : Ty} (h : scope.Respelled f.type t) :
      Respelled scope f { f with type := t }

/-- A function in which the type of what it returns is spelled another way. -/
inductive Function.Respelled (scope : Scope) : Function → Function → Prop
  | same {f : Function} : Respelled scope f f
  | returns {f : Function} {t t' : Ty} (hreturns : f.signature.returns = some t)
      (h : scope.Respelled t t') :
      Respelled scope f { f with signature := { f.signature with returns := some t' } }

/-- An item in which the types of fields and of what functions return are spelled another way, each
in the scope of the type that it belongs to. -/
inductive Item.Respelled (declared : List String) : Item → Item → Prop
  | same {item : Item} : Respelled declared item item
  | fields {s : Structure} {fields : List NamedField}
      (h : List.Forall₂ (NamedField.Respelled ⟨declared, s.name.text⟩) s.fields fields) :
      Respelled declared (.structure s) (.structure { s with fields })
  | functions {i : Implementation} {functions : List Function}
      (h : ∀ name, i.Inherent name →
        List.Forall₂ (Function.Respelled ⟨declared, name⟩) i.functions functions) :
      Respelled declared (.implementation i) (.implementation { i with functions })

variable {f f' : NamedField} {m m' : Function} {item item' : Item} {items items' : List Item}
  {files files' : List (List Item)} {declared : List String}

theorem NamedField.Respelled.field_eq (h : NamedField.Respelled scope f f') :
    scope.field f' = scope.field f := by
  cases h with
  | mk h => rw [Scope.field, Scope.field, Scope.typeRef_eq_of_respelled h]

theorem Function.Respelled.method?_eq (h : Function.Respelled scope m m') :
    scope.method? m' = scope.method? m := by
  cases h with
  | same => rfl
  | returns hreturns h =>
    rw [Scope.method?, Scope.method?, hreturns, Option.map_some, Option.map_some,
      Scope.typeRef_eq_of_respelled h]

theorem Item.Respelled.declared?_eq (h : Item.Respelled declared item item') :
    item'.declared? = item.declared? := by
  cases h <;> rfl

theorem Item.Respelled.declaration?_eq (h : Item.Respelled declared item item') :
    item'.declaration? declared = item.declaration? declared := by
  cases h with
  | same => rfl
  | functions => rfl
  | @fields s fields h =>
    have hfields : fields.map (Scope.field ⟨declared, s.name.text⟩) =
        s.fields.map (Scope.field ⟨declared, s.name.text⟩) :=
      map_eq_of_forall₂ (fun _ _ => NamedField.Respelled.field_eq) h
    simp only [declaration?, Scope.ofStructure, hfields]

theorem Item.Respelled.methods_eq {name : String} (h : Item.Respelled declared item item') :
    Scope.methods ⟨declared, name⟩ item' = Scope.methods ⟨declared, name⟩ item := by
  cases h with
  | same => rfl
  | fields => rfl
  | @functions i functions h =>
    rw [Scope.methods_functions functions, Scope.methods]
    split
    · next hi =>
      exact filterMap_eq_of_forall₂ (fun _ _ => Function.Respelled.method?_eq) (h name hi)
    · rfl

/-- How types are spelled makes no difference to what source files declare. -/
theorem resolve_eq_of_respelled (h : List.Forall₂ (List.Forall₂
    (Item.Respelled (files.flatten.filterMap Item.declared?))) files files') :
    resolve files' = resolve files := by
  have hitems := List.rel_flatten h
  have hdeclared : files'.flatten.filterMap Item.declared? =
      files.flatten.filterMap Item.declared? :=
    filterMap_eq_of_forall₂ (fun _ _ => Item.Respelled.declared?_eq) hitems
  have hdeclarations : files'.flatten.filterMap
      (Item.declaration? (files.flatten.filterMap Item.declared?)) =
        files.flatten.filterMap (Item.declaration? (files.flatten.filterMap Item.declared?)) :=
    filterMap_eq_of_forall₂ (fun _ _ => Item.Respelled.declaration?_eq) hitems
  have hmethods (name : String) : files'.flatten.map
      (Scope.methods ⟨files.flatten.filterMap Item.declared?, name⟩) =
        files.flatten.map (Scope.methods ⟨files.flatten.filterMap Item.declared?, name⟩) :=
    map_eq_of_forall₂ (fun _ _ => Item.Respelled.methods_eq) hitems
  simp only [resolve_eq_ofList, hdeclared, hdeclarations, List.flatMap_def, hmethods]

/-! ## Declarations -/

/-- A path to the type itself or to a declared type stands for a declaration. -/
theorem declaration?_typeRef_path (hroot : root ≠ .qualified)
    (hself : scope.self ∈ KeyedList.keys (resolve files))
    (hdeclared : scope.declared = files.flatten.filterMap Item.declared?)
    (hlast : last.name.text ∈ scope.declared ∨ last.name.text = "Self") :
    ∃ d, (resolve files).declaration? (scope.typeRef (.path root (front ++ [last]))) = some d ∧
      d.name = if last.name.text = "Self" then scope.self else last.name.text := by
  have hname : (if last.name.text = "Self" then scope.self else last.name.text) ∈
      KeyedList.keys (resolve files) := by
    split
    · exact hself
    · next h =>
      rw [keys_resolve, List.mem_eraseDups, ← hdeclared]
      exact hlast.resolve_right h
  obtain ⟨d, hd, hdname⟩ := List.mem_map.1 hname
  refine ⟨d, ?_, hdname⟩
  rw [Catalog.declaration?_eq_some_iff, Scope.typeRef_path hroot (by simp),
    Scope.pathName_append hlast]
  exact ⟨hd, hdname⟩

/-- How a type is spelled makes no difference to its reference, whatever types are declared, nor to
what source files declare. In a declared type, every path to a declared type or to the type itself
stands for its declaration. -/
theorem typeRef_respelled (files : List (List Item)) :
    (∀ (scope : Scope) (t t' : Ty), scope.Respelled t t' → scope.typeRef t = scope.typeRef t') ∧
    (∀ files', List.Forall₂ (List.Forall₂
      (Item.Respelled (files.flatten.filterMap Item.declared?))) files files' →
        resolve files' = resolve files) ∧
    ∀ self ∈ KeyedList.keys (resolve files), ∀ root front last, root ≠ .qualified →
      last.name.text ∈ files.flatten.filterMap Item.declared? ∨ last.name.text = "Self" →
        ∃ d, (resolve files).declaration?
          (Scope.typeRef ⟨files.flatten.filterMap Item.declared?, self⟩
            (.path root (front ++ [last]))) = some d ∧
          d.name = if last.name.text = "Self" then self else last.name.text := by
  refine ⟨fun scope t t' => Scope.typeRef_eq_of_respelled, fun files' => resolve_eq_of_respelled,
    fun self hself root front last hroot hlast => ?_⟩
  exact declaration?_typeRef_path hroot hself rfl hlast

/-- A path that ends in `Line`, with an argument behind the others. -/
private def linesOf (front : List Segment) (others : List Argument) (t : Ty) : Ty :=
  .path .relative (front ++ [⟨⟨"Line", false⟩, others ++ [.type t]⟩])

/-- A type that is called by a name alone. -/
private def named (name : String) : Ty := .path .relative [⟨⟨name, false⟩, []⟩]

/-- `&'a mut shop::Line<'a, (Self)>` -/
def borrowedLines : Ty :=
  .reference (some "a") true
    (linesOf [⟨⟨"shop", false⟩, []⟩] [.lifetime "a"] (.parenthesized (named "Self")))

/-- `Line<Cart>` -/
def ownLines : Ty := linesOf [] [] (named "Cart")

theorem respelled_lines : Scope.Respelled ⟨["Cart", "Line"], "Cart"⟩ borrowedLines ownLines := by
  have hlifetime : Scope.Respells ⟨["Cart", "Line"], "Cart"⟩
      (linesOf [⟨⟨"shop", false⟩, []⟩] [.lifetime "a"] (.parenthesized (named "Self")))
      (linesOf [⟨⟨"shop", false⟩, []⟩] [] (.parenthesized (named "Self"))) :=
    @Scope.Respells.lifetime _ _ _ [] _ [] _ "a"
  have hpath : Scope.Respells ⟨["Cart", "Line"], "Cart"⟩
      (linesOf [⟨⟨"shop", false⟩, []⟩] [] (.parenthesized (named "Self")))
      (linesOf [] [] (.parenthesized (named "Self"))) :=
    .declared nofun nofun (by decide)
  have hinner : Scope.Respells ⟨["Cart", "Line"], "Cart"⟩
      (linesOf [] [] (.parenthesized (named "Self"))) (linesOf [] [] (named "Self")) :=
    @Scope.Respells.inArgument _ _ [] [] _ [] [] _ _ (.parenthesized _)
  have hself : Scope.Respells ⟨["Cart", "Line"], "Cart"⟩
      (linesOf [] [] (named "Self")) ownLines :=
    @Scope.Respells.inArgument _ _ [] [] _ [] [] _ _ (.self rfl rfl)
  refine .trans _ _ _ (.rel _ _ (.reference ..)) ?_
  refine .trans _ _ _ (.rel _ _ hlifetime) ?_
  refine .trans _ _ _ (.rel _ _ hpath) ?_
  exact .trans _ _ _ (.rel _ _ hinner) (.rel _ _ hself)

/-- A cart with a field of this type, and lines. -/
def lineFiles (lines : Ty) : List (List Item) :=
  [[.structure ⟨[], ⟨"Cart", false⟩, [⟨[], ⟨"lines", false⟩, lines⟩]⟩],
    [.enumeration ⟨[], ⟨"Line", false⟩, []⟩]]

theorem lineFiles_typeRef_respelled :
    Scope.Respelled ⟨["Cart", "Line"], "Cart"⟩ borrowedLines ownLines ∧
    Scope.typeRef ⟨["Cart", "Line"], "Cart"⟩ borrowedLines = ⟨"Line", [⟨"Cart", []⟩]⟩ ∧
    resolve (lineFiles ownLines) = resolve (lineFiles borrowedLines) ∧
    (∃ d, (resolve (lineFiles ownLines)).declaration? ⟨"Line", [⟨"Cart", []⟩]⟩ = some d ∧
      d.name = "Line") ∧
    ∃ d, (resolve (lineFiles ownLines)).declaration? ⟨"Cart", []⟩ = some d ∧ d.name = "Cart" := by
  obtain ⟨htypes, hfiles, -⟩ := typeRef_respelled (lineFiles borrowedLines)
  obtain ⟨-, -, hpaths⟩ := typeRef_respelled (lineFiles ownLines)
  have hcart : "Cart" ∈ KeyedList.keys (resolve (lineFiles ownLines)) := by decide +kernel
  refine ⟨respelled_lines, ?_, ?_, ?_, ?_⟩
  · rw [htypes _ _ _ respelled_lines]
    rfl
  · apply hfiles
    exact .cons (.cons (.fields (.cons (.mk respelled_lines) .nil)) .nil)
      (.cons (.cons .same .nil) .nil)
  · exact hpaths "Cart" hcart .relative [] ⟨⟨"Line", false⟩, [.type (named "Cart")]⟩ nofun
      (.inl (by decide +kernel))
  · exact hpaths "Cart" hcart .relative [] ⟨⟨"Self", false⟩, []⟩ nofun (.inr rfl)

end ApiModels.Source
