import ApiModels.Data.Encoding
import ApiModels.Proofs.Document
import ApiModels.Proofs.Json.RoundTrip
import ApiModels.Proofs.Yaml.RoundTrip

/-!
# Documents in both encodings

The text that is written for a document is read as that document.
-/

namespace ApiModels.Data.Encoding

/-- Every document is read from its JSON text. -/
theorem json_read?_render (d : Document) :
    json.read? Document.decode? (json.render d.tree) = some d := by
  have hread : Json.read? (json.render d.tree) = some (Json.Value.ofTree d.tree) :=
    Json.read?_render d.tree
  rw [read?, hread]
  change Json.decode? Document.decode? (Json.Value.ofTree d.tree) = some d
  rw [Json.decode?, Document.decode?_tree Json.format_presents]
  rfl

/-- Every document is read from its YAML text. -/
theorem yaml_read?_render (d : Document) :
    yaml.read? Document.decode? (yaml.render d.tree) = some d := by
  have hread : Yaml.read? (yaml.render d.tree) = some { root := Yaml.Node.ofTree d.tree } :=
    Yaml.read?_render _
  rw [read?, hread]
  change Yaml.Document.decode? Document.decode? { root := Yaml.Node.ofTree d.tree } = some d
  rw [Yaml.Document.decode?, Document.decode?_tree (Yaml.Document.format_presents _)]
  rfl

end ApiModels.Data.Encoding
