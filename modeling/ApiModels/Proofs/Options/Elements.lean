import Mathlib.Data.List.Forall2
import ApiModels.CommandLine.Run
import ApiModels.Proofs.Options
import ApiModels.Proofs.Text.Splitting
import ApiModels.Proofs.Text.Trimming

/-!
# The elements of lists with commas

Lists that are joined by commas have the elements of all of them in order, whatever stands in them
(`splitElements_intercalate`). So a list closes the same types however it is cut at its commas, be it
given at once or piece by piece, and a list of elements is got back from any way to write it.
-/

namespace ApiModels

open ApiModels.Text

variable {part element list : String} {elements parts lists : List String} {o : Options}

/-- What stands between the commas of a list, apart from white space. -/
structure IsElement (element : String) : Prop where
  ne_empty : element ≠ ""
  trimmed : IsTrimmed element.toList
  noComma : ',' ∉ element.toList

instance : Decidable (IsElement element) :=
  decidable_of_iff (element ≠ "" ∧ IsTrimmed element.toList ∧ ',' ∉ element.toList)
    ⟨fun ⟨ne_empty, trimmed, noComma⟩ => ⟨ne_empty, trimmed, noComma⟩,
      fun h => ⟨h.ne_empty, h.trimmed, h.noComma⟩⟩

/-- Whether `part` is `element` with white space around it. -/
def Pads (part element : String) : Prop :=
  ∃ before after, AllBlank before ∧ AllBlank after ∧
    part.toList = before ++ element.toList ++ after

/-! ## Joined lists -/

theorem splitElements_append_comma (a b : String) :
    splitElements (a ++ "," ++ b) = splitElements a ++ splitElements b := by
  have hchars : (a ++ "," ++ b).toList = a.toList ++ ',' :: b.toList := by simp
  rw [splitElements, hchars, splitChars_append_cons, List.map_append, List.filterMap_append]
  rfl

theorem splitElements_intercalate (lists : List String) :
    splitElements (",".intercalate lists) = lists.flatMap splitElements := by
  induction lists with
  | nil => rfl
  | cons list lists ih =>
    cases lists with
    | nil => simp
    | cons next lists =>
      rw [String.intercalate_cons_cons, splitElements_append_comma, ih]
      exact List.flatMap_cons.symm

/-! ## Elements -/

theorem isElement_of_mem (h : element ∈ splitElements list) : IsElement element := by
  obtain ⟨hne, part, hpart, htrim⟩ := mem_splitElements.1 h
  refine ⟨hne, htrim ▸ isTrimmed_trimChars part, ?_⟩
  intro hcomma
  rw [← htrim] at hcomma
  exact not_mem_of_mem_splitChars hpart ((isInfix_trimChars part).subset hcomma)

theorem IsElement.splitElements_eq (h : IsElement element) (hpads : Pads part element) :
    splitElements part = [element] := by
  obtain ⟨before, after, hbefore, hafter, hpart⟩ := hpads
  have hnoComma : ',' ∉ part.toList := by
    rw [hpart]
    intro hmem
    rcases List.mem_append.1 hmem with hmem | hmem
    · rcases List.mem_append.1 hmem with hmem | hmem
      · cases hbefore _ hmem
      · exact h.noComma hmem
    · cases hafter _ hmem
  have htrim : trimChars part.toList = element.toList := by
    rw [hpart, trimChars_append hbefore hafter]
    exact trimChars_eq_self_iff.2 h.trimmed
  rw [splitElements, splitChars_of_not_mem hnoComma]
  simp [htrim, h.ne_empty]

theorem splitElements_of_pads (h : List.Forall₂ Pads parts elements)
    (helements : ∀ element ∈ elements, IsElement element) :
    splitElements (",".intercalate parts) = elements := by
  rw [splitElements_intercalate]
  induction h with
  | nil => rfl
  | cons hpads _ ih =>
    obtain ⟨helement, hrest⟩ := List.forall_mem_cons.1 helements
    rw [List.flatMap_cons, helement.splitElements_eq hpads, ih hrest, List.singleton_append]

/-! ## Closing piece by piece -/

namespace Options

theorem closeAll_types (o : Options) (lists : List String) :
    o.closeAll (lists.map .types) = o.addClosedTypes (",".intercalate lists) := by
  rw [closeAll_eq, addClosedTypes, splitElements_intercalate, List.flatMap_map, List.flatMap_map]
  simp [Closing.typeNames, Closing.packageNames]

theorem closeAll_packages (o : Options) (lists : List String) :
    o.closeAll (lists.map .packages) = o.addClosedPackages (",".intercalate lists) := by
  rw [closeAll_eq, addClosedPackages, splitElements_intercalate, List.flatMap_map, List.flatMap_map]
  simp [Closing.typeNames, Closing.packageNames]

end Options

namespace CommandLine.Arguments

variable {a : Arguments} {t : FileTree}

/-- The options that a run starts from. -/
def fileOptions (config : Option String) (t : FileTree) : Except Failure Options :=
  match config with
  | none => .ok {}
  | some path => (t.loadOptions path).mapError (.during (.loadOptions path))

/-- Options with what the command line adds to them. -/
def extendOptions (a : Arguments) (o : Options) : Options :=
  let o := (a.closedTypes.map o.addClosedTypes).getD o
  let o := (a.closedPackages.map o.addClosedPackages).getD o
  if a.conventions.isEmpty then o else { o with conventions := a.conventions }

theorem options_eq_map (a : Arguments) (t : FileTree) :
    a.options t = (fileOptions a.config t).map a.extendOptions := by
  rw [options]
  cases a.config with
  | none => rfl
  | some path =>
    dsimp only [fileOptions]
    cases t.loadOptions path with
    | error _ => rfl
    | ok _ => rfl

/-- A flag for types adds its list to the options that the run has without it. -/
theorem options_closedTypes (a : Arguments) (t : FileTree) (list : String) :
    options { a with closedTypes := some list } t =
      (options { a with closedTypes := none } t).map (·.addClosedTypes list) := by
  rw [options_eq_map, options_eq_map]
  cases fileOptions a.config t with
  | error _ => rfl
  | ok o =>
    refine congrArg Except.ok ?_
    simp only [extendOptions]
    cases a.closedPackages <;> split <;> rfl

/-- A flag for packages adds its list to the options that the run has without it. -/
theorem options_closedPackages (a : Arguments) (t : FileTree) (list : String) :
    options { a with closedPackages := some list } t =
      (options { a with closedPackages := none } t).map (·.addClosedPackages list) := by
  rw [options_eq_map, options_eq_map]
  cases fileOptions a.config t with
  | error _ => rfl
  | ok o =>
    refine congrArg Except.ok ?_
    simp only [extendOptions]
    split <;> rfl

end CommandLine.Arguments

open CommandLine (Arguments)

/-- Splitting takes joined lists to joined elements; what it finds are elements, and every list of
elements is found again in any way to write it. So options and the policy that they give are the
same whether lists are added one by one, joined in one text, or joined behind one flag. -/
theorem splitElements_joined :
    (∀ a b, splitElements (a ++ "," ++ b) = splitElements a ++ splitElements b) ∧
    (∀ list, ∀ element ∈ splitElements list, IsElement element) ∧
    (∀ elements parts, (∀ element ∈ elements, IsElement element) →
      List.Forall₂ Pads parts elements → splitElements (",".intercalate parts) = elements) ∧
    (∀ (o : Options) (lists : List String),
      o.closeAll (lists.map .types) = o.addClosedTypes (",".intercalate lists) ∧
      o.closeAll (lists.map .packages) = o.addClosedPackages (",".intercalate lists) ∧
      (o.closeAll (lists.map .types)).policy =
        { o.policy with types := o.policy.types ++ splitElements (",".intercalate lists) } ∧
      (o.closeAll (lists.map .packages)).policy =
        { o.policy with packages := o.policy.packages ++ splitElements (",".intercalate lists) }) ∧
    ∀ (a : Arguments) (t : FileTree) (lists : List String),
      Arguments.options { a with closedTypes := some (",".intercalate lists) } t =
        (Arguments.options { a with closedTypes := none } t).map (·.closeAll (lists.map .types)) ∧
      Arguments.options { a with closedPackages := some (",".intercalate lists) } t =
        (Arguments.options { a with closedPackages := none } t).map
          (·.closeAll (lists.map .packages)) := by
  refine ⟨splitElements_append_comma, fun _ _ => isElement_of_mem,
    fun _ _ helements hpads => splitElements_of_pads hpads helements, fun o lists => ?_,
    fun a t lists => ?_⟩
  · rw [Options.closeAll_types, Options.closeAll_packages]
    exact ⟨rfl, rfl, rfl, rfl⟩
  · rw [Arguments.options_closedTypes, Arguments.options_closedPackages]
    simp only [Options.closeAll_types, Options.closeAll_packages, and_self]

theorem opaqueList_splitElements_joined :
    (∀ element ∈ ["a.Money", "b\u00a0C"], IsElement element) ∧
    List.Forall₂ Pads [" a.Money\u3000", "\tb\u00a0C\n"] ["a.Money", "b\u00a0C"] ∧
    splitElements " a.Money\u3000,\tb\u00a0C\n" = ["a.Money", "b\u00a0C"] ∧
    "b" ∈ splitElements ", b ,," ∧ IsElement "b" ∧
    Options.closeAll {} [.types " a.Money ,", .types ",b"] =
      Options.addClosedTypes {} " a.Money ,,,b" := by
  have helements : ∀ element ∈ ["a.Money", "b\u00a0C"], IsElement element := by decide +kernel
  have hpads : List.Forall₂ Pads [" a.Money\u3000", "\tb\u00a0C\n"] ["a.Money", "b\u00a0C"] :=
    .cons ⟨[' '], ['\u3000'], by decide, by decide, rfl⟩
      (.cons ⟨['\t'], ['\n'], by decide, by decide, rfl⟩ .nil)
  have hmem : "b" ∈ splitElements ", b ,," := by decide +kernel
  obtain ⟨-, hfound, hwritten, hclose, -⟩ := splitElements_joined
  exact ⟨helements, hpads, hwritten _ _ helements hpads, hmem, hfound _ _ hmem,
    (hclose {} [" a.Money ,", ",b"]).1⟩

end ApiModels
