import AccessPolicy.Json.Printer
import AccessPolicy.Policy.Document
import AccessPolicy.Registry.Directory
import AccessPolicy.Registry.Procedure
import AccessPolicy.Audit
import AccessPolicy.Main
import AccessPolicy.CommandLine.Host
import AccessPolicy.Environment.File
import AccessPolicy.Table
import AccessPolicy.Toml.Document
import AccessPolicy.Proofs.Registry.Routes
import AccessPolicy.Proofs.Registry.Run
import AccessPolicy.Proofs.Resolution.Order
import AccessPolicy.Proofs.Resolution.Precedence
import AccessPolicy.Proofs.Resolution.Rights
import AccessPolicy.Proofs.Markup.Head
import AccessPolicy.Proofs.Policy.Outcome
import AccessPolicy.Proofs.Policy.Enclosed
import AccessPolicy.Proofs.Policy.Course
import AccessPolicy.Proofs.Policy.Sound
import AccessPolicy.Proofs.Policy.Line
import AccessPolicy.Proofs.Policy.Rendering
import AccessPolicy.Proofs.Text.Occurrences
import AccessPolicy.Proofs.Policy.Closings
import AccessPolicy.Proofs.Policy.RoundTrip
import AccessPolicy.Proofs.Policy.Clean
import AccessPolicy.Proofs.Registry.Directory
import AccessPolicy.Proofs.Registry.Procedure
import AccessPolicy.Proofs.Pattern.Glob
import AccessPolicy.Proofs.Pattern.Meaning
import AccessPolicy.Proofs.Pattern.Accepts
import AccessPolicy.Proofs.Policy.Grammar
import AccessPolicy.Proofs.Policy.Items
import AccessPolicy.Proofs.Policy.Recognition
import AccessPolicy.Proofs.Policy.Derivation
import AccessPolicy.Proofs.Resolution.Permutation
import AccessPolicy.Proofs.Json.Canonical
import AccessPolicy.Proofs.Text.ByteOrder
import AccessPolicy.Proofs.Pattern.Grammar
import AccessPolicy.Proofs.Pattern.Recognition
import AccessPolicy.Proofs.Markup.Literal
import AccessPolicy.Proofs.Markup.Tiling
import AccessPolicy.Proofs.Markup.Locality
import AccessPolicy.Proofs.Policy.Truncation
import AccessPolicy.Proofs.Policy.Sections
import AccessPolicy.Proofs.Pattern.Names
import AccessPolicy.Proofs.Registry.Revocation
import AccessPolicy.Proofs.Pattern.Wildcard
import AccessPolicy.Proofs.Pattern.Distribution
import AccessPolicy.Proofs.FileTree.Walk
import AccessPolicy.Proofs.Loading
import AccessPolicy.Proofs.Audit
import AccessPolicy.Proofs.CommandLine.Check
import AccessPolicy.Proofs.Number.Integer
import AccessPolicy.Proofs.Pattern.Integer
import AccessPolicy.Proofs.Policy.Insertion
import AccessPolicy.Proofs.Resolution.Denial
import AccessPolicy.Proofs.FileTree.Isolation
import AccessPolicy.Registry.Inquiry
import AccessPolicy.Proofs.Registry.Inquiry
import AccessPolicy.Proofs.Policy.Registration
import AccessPolicy.Proofs.Json.Record
import AccessPolicy.Proofs.Request
import AccessPolicy.Policy.Slicing
import AccessPolicy.Proofs.Policy.Slicing
import AccessPolicy.Proofs.Markup.Discipline
import AccessPolicy.Proofs.Policy.Endings
