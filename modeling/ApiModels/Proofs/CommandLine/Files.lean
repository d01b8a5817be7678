import ApiModels.Proofs.CommandLine.Document
import ApiModels.Proofs.FileTree.Saving

/-!
# The files of a run

Up to its document a run only reads. A run that fails, there or when it writes, prints nothing and
leaves every file as it was; directories that it has made on the way stay. A run that succeeds has
written the text of its document and nothing else.
-/

namespace ApiModels.CommandLine

open FileTree

namespace Arguments

variable {a : Arguments} {t t' : FileTree} {d : Document} {failure : Failure} {output : String}

/-- Writes the document that a run has come to. -/
def write (a : Arguments) (d : Document) : FileAction String :=
  match a.output with
  | some path => do
    FileTree.save path (a.format.render d.tree)
    return ""
  | none => return a.format.render d.tree ++ "\n"

/-- What is printed and which file is saved when the document is written. -/
def Wrote (a : Arguments) (t t' : FileTree) (d : Document) (output : String) : Prop :=
  match a.output with
  | some path => output = "" ∧ ∃ position, t.Saved t' path (a.format.render d.tree) position
  | none => output = a.format.render d.tree ++ "\n" ∧ t' = t

theorem perform_run (a : Arguments) (t : FileTree) : t.perform a.run =
    match a.document t with
    | .error failure => (.error failure, t)
    | .ok d => t.perform (a.write d) := by
  rw [run, perform_bind, perform_get]
  simp only [perform_bind, perform_mk_pure]
  cases a.document t with
  | error failure => rfl
  | ok d => rfl

theorem sameFiles_of_write (h : t.perform (a.write d) = (.error failure, t')) :
    t'.here = t.here ∧ t.SameFiles t' := by
  rw [write] at h
  split at h
  · rw [perform_bind] at h
    split at h
    · cases h
    · rename_i hsave
      cases h
      exact sameFiles_of_save hsave
  · cases h

theorem wrote_of_write (h : t.perform (a.write d) = (.ok output, t')) : a.Wrote t t' d output := by
  rw [write] at h
  rw [Wrote]
  split at h
  · rw [perform_bind] at h
    split at h
    · rename_i hsave
      cases h
      exact ⟨rfl, saved_of_save hsave⟩
    · cases h
  · cases h
    exact ⟨rfl, rfl⟩

end Arguments

open Arguments

variable {a : Arguments} {t t' : FileTree} {failure : Failure} {output : String}

/-- A run fails before it has changed anything, or it comes to a document and writes it. -/
theorem start_cases (a : Arguments) (t : FileTree) :
    (∃ failure, t.perform (start a) = (.error failure, t)) ∨
      ∃ d, a.document t = .ok d ∧ t.perform (start a) = t.perform (a.write d) := by
  rw [start, perform_bind, perform_get]
  simp only [perform_bind, perform_mk_pure]
  cases a.check t with
  | error failure => exact .inl ⟨failure, rfl⟩
  | ok _ =>
    simp only [perform_run]
    cases a.document t with
    | error failure => exact .inl ⟨failure, rfl⟩
    | ok d => exact .inr ⟨d, rfl, rfl⟩

theorem sameFiles_of_start (h : t.perform (start a) = (.error failure, t')) :
    t'.here = t.here ∧ t.SameFiles t' := by
  obtain ⟨_, hstart⟩ | ⟨d, -, hstart⟩ := start_cases a t
  · rw [hstart] at h
    cases h
    exact ⟨rfl, fun _ _ => .rfl⟩
  · rw [hstart] at h
    exact sameFiles_of_write h

theorem wrote_of_start (h : t.perform (start a) = (.ok output, t')) :
    ∃ d, a.document t = .ok d ∧ a.Wrote t t' d output := by
  obtain ⟨_, hstart⟩ | ⟨d, hdocument, hstart⟩ := start_cases a t
  · rw [hstart] at h
    cases h
  · rw [hstart] at h
    exact ⟨d, hdocument, wrote_of_write h⟩

/-- A command line that ends badly was refused, or it was read and its run failed. -/
theorem output_of_status {words : List String} (h : (execute words t).status ≠ 0) :
    (execute words t).output = "" ∧ t.SameFiles (execute words t).files := by
  revert h
  rw [execute]
  cases Arguments.read words with
  | error stop =>
    cases stop with
    | help | version => exact fun h => absurd rfl h
    | _ => exact fun _ => ⟨rfl, fun _ _ => .rfl⟩
  | ok a =>
    have hstart : StateT.run (ExceptT.run (start a)) t = t.perform (start a) := rfl
    simp only [hstart]
    cases hrun : t.perform (start a) with
    | mk result t' =>
      cases result with
      | error failure => exact fun _ => ⟨rfl, (sameFiles_of_start hrun).2⟩
      | ok output => exact fun h => absurd rfl h

/-- A run that fails leaves no output; a run that succeeds writes its document and no more. -/
theorem files_of_run (t : FileTree) :
    (∀ a failure t', t.perform (start a) = (.error failure, t') →
      t'.here = t.here ∧ t.SameFiles t') ∧
    (∀ a output t', t.perform (start a) = (.ok output, t') →
      ∃ d, a.document t = .ok d ∧ a.Wrote t t' d output) ∧
    ∀ words, (execute words t).status ≠ 0 →
      (execute words t).output = "" ∧ t.SameFiles (execute words t).files :=
  ⟨fun _ _ _ => sameFiles_of_start, fun _ _ _ => wrote_of_start, fun _ => output_of_status⟩

/-- A run whose path to write to leads out of a new directory and then below a file. -/
def blockedRun : Arguments := { input := "shop.rs", output := some "made/../shop.rs/doc.yaml" }

/-- A run that writes into a new directory. -/
def savingRun : Arguments := { input := "shop.rs", output := some "docs/shop.yaml" }

theorem shop_files :
    (∃ failure t', shopFile.perform (start blockedRun) = (.error failure, t') ∧
      t'.entryAt? ["made"] = some .directory ∧ shopFile.SameFiles t') ∧
    (∃ (t' : FileTree) (d : Document), shopFile.perform (start savingRun) = (.ok "", t') ∧
      t'.readText "docs/shop.yaml" = .ok (Data.Encoding.yaml.render d.tree)) ∧
    (execute ["shop.rs", "-o", "made/../shop.rs/doc.yaml"] shopFile).output = "" := by
  have hfiles := files_of_run shopFile
  refine ⟨?_, ?_, (hfiles.2.2 _ (by decide +kernel)).1⟩
  · have hfails : (shopFile.perform (start blockedRun)).1.toOption = none := by decide +kernel
    have hmakes : (shopFile.perform (start blockedRun)).2.entryAt? ["made"] = some .directory := by
      decide +kernel
    cases hrun : shopFile.perform (start blockedRun) with
    | mk result t' =>
      rw [hrun] at hfails hmakes
      cases result with
      | ok output => cases hfails
      | error failure => exact ⟨failure, t', rfl, hmakes, (hfiles.1 _ failure t' hrun).2⟩
  · have hprints : (shopFile.perform (start savingRun)).1.toOption = some "" := by decide +kernel
    cases hrun : shopFile.perform (start savingRun) with
    | mk result t' =>
      rw [hrun] at hprints
      cases result with
      | error failure => cases hprints
      | ok output =>
        cases hprints
        obtain ⟨d, -, -, position, hsaved⟩ := hfiles.2.1 _ "" t' hrun
        exact ⟨t', d, rfl, hsaved.content⟩

end ApiModels.CommandLine
