import ApiModels.CommandLine.Run
import ApiModels.Proofs.FileTree.Paths
import ApiModels.Proofs.Walk.Closing
import ApiModels.Proofs.Walk.Coverage

/-!
# The document of a run

A run that names no root documents every type of its inputs that can be documented. Its document is
that of the default roots, under the options and the conventions that the run has come to.
-/

namespace ApiModels

namespace CommandLine.Arguments

variable {a : Arguments} {t : FileTree} {c : Catalog} {o : Options} {roots : List TypeRef}

theorem document_eq_ok (hinput : t.loadInput a.input = .ok c) (hoptions : a.options t = .ok o)
    (hroots : a.rootsIn c = .ok roots) :
    a.document t = .ok (.ofModels a.apiVersion a.basePath
      ((o.walk c (o.chain (Convention.detect c))).mergedModels roots)) := by
  rw [document, hinput, hoptions]
  simp only [bind, Except.bind, hroots]
  rfl

theorem rootsIn_of_noRoots (h : a.roots = []) (c : Catalog) :
    a.rootsIn c = .ok (Walk.defaultRoots c) := by
  rw [rootsIn, h]
  rfl

/-- The default roots cover the types that can be documented, under whatever options and detected
conventions; and they are the roots of a run that names none. -/
theorem document_covers (c : Catalog) (o : Options) :
    (∀ detected apiVersion basePath, (Document.ofModels apiVersion basePath
      ((o.walk c (o.chain detected)).mergedModels (Walk.defaultRoots c))).Covers
        (o.walk c (o.chain detected))) ∧
    ∀ (a : Arguments) (t : FileTree), a.roots = [] → t.loadInput a.input = .ok c →
      a.options t = .ok o →
      ∃ d, a.document t = .ok d ∧ d.Covers (o.walk c (o.chain (Convention.detect c))) := by
  have hcovers (detected apiVersion basePath) :=
    Document.covers_default (o.walk c (o.chain detected)) apiVersion basePath
  refine ⟨hcovers, ?_⟩
  intro a t hroots hinput hoptions
  have hdocument := document_eq_ok hinput hoptions (rootsIn_of_noRoots hroots c)
  exact ⟨_, hdocument, hcovers _ _ _⟩

/-- A structure that is renamed to the type of its field. -/
def shopItem : Declaration where
  name := "Old"
  fields := [{ name := "next", type := { name := "Item" } }]
  annotations := [{ name := "serde", values := .ofList [("rename", "Item")] }]

/-- A source file with that structure and the one that has its name. -/
def shopFile : FileTree where
  root := .directory [("shop.rs", .file (.text
    "struct Item{n:u8} #[serde(rename=\"Item\")] struct Old{next:Item}"))]

/-- What the file declares. -/
def shopCatalog : Catalog :=
  .ofList [{ name := "Item", fields := [{ name := "n", type := { name := "u8" } }] }, shopItem]

theorem shop_document_covers : ∃ d, document { input := "shop.rs" } shopFile = .ok d ∧
    (∃ schema, d.models.get? "Item" = some schema ∧ schema.id = "Item") ∧
    (d.models.toList.map (·.2.id)).Nodup ∧ KeyedList.size d.models ≤ 2 := by
  have hinput : shopFile.loadInput "shop.rs" = .ok shopCatalog :=
    eq_ok_of_toOption (by decide +kernel)
  obtain ⟨d, hd, hcovers⟩ :=
    (document_covers shopCatalog {}).2 { input := "shop.rs" } shopFile rfl hinput rfl
  refine ⟨d, hd, ?_, hcovers.nodup, hcovers.size_le⟩
  refine hcovers.documented shopItem (by decide +kernel) rfl (by decide +kernel) "Item"
    (by decide +kernel) (.inl ⟨shopItem, by decide +kernel, _, List.mem_cons_self, rfl, ?_, ?_⟩)
  · exact ⟨"next", by decide +kernel⟩
  · exact ⟨"Item", by decide +kernel⟩

end CommandLine.Arguments

end ApiModels
