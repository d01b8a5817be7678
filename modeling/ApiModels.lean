import ApiModels.CommandLine.Run
import ApiModels.Main
import ApiModels.Proofs.Naming.Priority
import ApiModels.Proofs.Naming.Nesting
import ApiModels.Proofs.Naming.Merging
import ApiModels.Proofs.Catalog
import ApiModels.Proofs.Walk.Locality
import ApiModels.Proofs.Walk.Closing
import ApiModels.Proofs.Walk.Origin
import ApiModels.Proofs.Walk.References
import ApiModels.Proofs.Walk.Roots
import ApiModels.Proofs.Walk.Classification
import ApiModels.Proofs.Walk.Superclasses
import ApiModels.Proofs.Walk.Appending
import ApiModels.Proofs.CommandLine.Files
import ApiModels.Proofs.Input
import ApiModels.Proofs.Scan.Coverage
import ApiModels.Proofs.FileTree.Listing
import ApiModels.Proofs.Source.Resolution
import ApiModels.Proofs.Source.Nesting
import ApiModels.Proofs.Source.CommentLines
import ApiModels.Proofs.Source.WrittenTypes
import ApiModels.Proofs.Source.Spelling
import ApiModels.Proofs.Source.Regrouping
import ApiModels.Proofs.Source.Accessors
import ApiModels.Proofs.Source.ReturnDocumentation
import ApiModels.Proofs.Data.Presentation
import ApiModels.Proofs.Data.Encoding
import ApiModels.Proofs.Options.RoundTrip
import ApiModels.Proofs.Options.Elements
import ApiModels.Proofs.TypeRef.Slicing
import ApiModels.Proofs.Json.RoundTrip
import ApiModels.Proofs.Document
import ApiModels.Proofs.Yaml.Position
import ApiModels.Proofs.Yaml.Words
import ApiModels.Proofs.Yaml.Block
import ApiModels.Proofs.Yaml.Plain
import ApiModels.Proofs.Yaml.Quoted
