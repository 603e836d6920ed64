import Metamodel.Arena
import Metamodel.Blank
import Metamodel.CommandLine.Arguments
import Metamodel.CommandLine.Outcome
import Metamodel.Datum
import Metamodel.Decimal
import Metamodel.Definition
import Metamodel.Definition.Json
import Metamodel.Definition.Reader
import Metamodel.Diagnosis
import Metamodel.Draft
import Metamodel.Event
import Metamodel.Fault
import Metamodel.File
import Metamodel.GuidIndex
import Metamodel.Inventory
import Metamodel.Inventory.Document
import Metamodel.Inventory.File
import Metamodel.Inventory.Json
import Metamodel.Inventory.Layout
import Metamodel.Inventory.Reader
import Metamodel.Inventory.Registration
import Metamodel.Inventory.Validation
import Metamodel.Json
import Metamodel.Json.Datum
import Metamodel.Json.Number
import Metamodel.Json.Reader
import Metamodel.Json.Writer
import Metamodel.Main
import Metamodel.Model
import Metamodel.NameMap
import Metamodel.NameSet
import Metamodel.Proofs.Additions
import Metamodel.Proofs.Ancestry
import Metamodel.Proofs.Arena
import Metamodel.Proofs.Attributes
import Metamodel.Proofs.Chains
import Metamodel.Proofs.Classifications
import Metamodel.Proofs.Consistency
import Metamodel.Proofs.Defects
import Metamodel.Proofs.Extension
import Metamodel.Proofs.Findings
import Metamodel.Proofs.Guids
import Metamodel.Proofs.Hierarchies
import Metamodel.Proofs.Histories
import Metamodel.Proofs.Lineage
import Metamodel.Proofs.Lookups
import Metamodel.Proofs.Members
import Metamodel.Proofs.Models
import Metamodel.Proofs.Noninterference
import Metamodel.Proofs.Outlines
import Metamodel.Proofs.Passes
import Metamodel.Proofs.ReadBack
import Metamodel.Proofs.Records
import Metamodel.Proofs.Registration
import Metamodel.Proofs.RegistrationOrder
import Metamodel.Proofs.Relationships
import Metamodel.Proofs.Reports
import Metamodel.Proofs.Subtypes
import Metamodel.Proofs.Supertypes
import Metamodel.Proofs.Sweep
import Metamodel.Proofs.Traces
import Metamodel.Proofs.Validation
import Metamodel.Proofs.Warnings
import Metamodel.Registry
import Metamodel.Resolution.Applicability
import Metamodel.Resolution.Findings
import Metamodel.Resolution.Lineage
import Metamodel.Resolution.Passes
import Metamodel.Resolution.Sweep
import Metamodel.ResolvedType
import Metamodel.Settings
import Metamodel.Settings.File
import Metamodel.Settings.Reader
import Metamodel.Toml.Datum
import Metamodel.Toml.Document
import Metamodel.Toml.Scalar
import Metamodel.Toml.Text
import Metamodel.View
import Metamodel.Vocabulary
import Metamodel.Yaml.Cell
import Metamodel.Yaml.Datum
import Metamodel.Yaml.Document
import Metamodel.Yaml.Reach
import Metamodel.Yaml.Scalar
import Metamodel.Yaml.Tag
import Metamodel.Yaml.Token
import Metamodel.Yaml.Token.Property
import Metamodel.Yaml.Token.Scalar
import Metamodel.Yaml.Token.Stream
import Metamodel.Proofs.Encoding
import Metamodel.Proofs.Conversions
import Metamodel.Proofs.Inventories
import Metamodel.Proofs.Enumerations
import Metamodel.Proofs.Trails
import Metamodel.Proofs.Diagnoses
import Metamodel.Proofs.Translations
import Metamodel.Proofs.Edits
import Metamodel.Proofs.Visits
