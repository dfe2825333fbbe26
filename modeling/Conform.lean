import Conform.Canonical
import Conform.Mismatch.Json
import Conform.Proofs.Canonical.Defects
import Conform.Proofs.Canonical.Doors
import Conform.Proofs.Canonical.Shape
import Conform.Proofs.Canonical.Truthful
import Conform.Proofs.Fields.Firsts
import Conform.Proofs.Fields.Slots
import Conform.Proofs.Json.RoundTrip
import Conform.Proofs.Settings.Flat
import Conform.Settings.Environment
import Conform.Settings.File
import Conform.Settings.Lookup
import Conform.Settings.Operation
import Conform.Spec.Stock
import Conform.Yaml.Reading
import Conform.Proofs.Settings.History
import Conform.Proofs.Canonical.Relocation
import Conform.Proofs.Canonical.Verbatim
import Conform.Proofs.Canonical.Termination
import Conform.Proofs.Settings.Documents
import Conform.Proofs.Settings.Loading
import Conform.Proofs.Canonical.Pipelines
import Conform.Proofs.Canonical.Subvalues
import Conform.Proofs.Text.Bytes
import Conform.Proofs.Fields.Residual
import Conform.Proofs.Fields.Lenient
import Conform.Proofs.Canonical.Transparency
import Conform.Proofs.Document.Native
import Conform.Proofs.Fields.Construction
import Conform.Proofs.Settings.Counting
import Conform.Proofs.Settings.VariableNames
import Conform.Proofs.Canonical.Headings
import Conform.Proofs.Json.Integers
import Conform.Proofs.Term.Literal
import Conform.Proofs.Term.Proplists
import Conform.Proofs.Canonical.Choices
import Conform.Proofs.Yaml.Keys
