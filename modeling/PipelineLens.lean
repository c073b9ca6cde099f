import PipelineLens.Distinct
import PipelineLens.Error
import PipelineLens.Text.Blank
import PipelineLens.Text.Quoted
import PipelineLens.Text.Lines
import PipelineLens.Number.Digit
import PipelineLens.Number.Decimal
import PipelineLens.Number.Binary64
import PipelineLens.Json.Basic
import PipelineLens.Json.Printer
import PipelineLens.Json.Written
import PipelineLens.Json.Numeral
import PipelineLens.Json.Reader
import PipelineLens.Data
import PipelineLens.Json.Record
import PipelineLens.Options
import PipelineLens.Time.Span
import PipelineLens.Tree.Basic
import PipelineLens.Tree.Layout
import PipelineLens.Tree.Query
import PipelineLens.Tree.Host
import PipelineLens.Spec.View
import PipelineLens.Spec.Reference
import PipelineLens.Spec.TaskNode
import PipelineLens.Spec.Awaiting
import PipelineLens.Spec.Extract
import PipelineLens.Resource
import PipelineLens.Spec.Definition
import PipelineLens.Run.Status
import PipelineLens.Run.State
import PipelineLens.Time.Calendar
import PipelineLens.Time.Instant
import PipelineLens.Run.Overlay
import PipelineLens.Graph.Item
import PipelineLens.Graph.Network
import PipelineLens.Graph.Label
import PipelineLens.Graph.Draw
import PipelineLens.Element.Kind
import PipelineLens.Element.Fields
import PipelineLens.Number.Whole
import PipelineLens.Element.Outline
import PipelineLens.Element.Sheet
import PipelineLens.Element.Build
import PipelineLens.Yaml.Glyph
import PipelineLens.Yaml.Text.Gap
import PipelineLens.Yaml.Text.Plain
import PipelineLens.Yaml.Text.Quoted
import PipelineLens.Yaml.Text.Block
import PipelineLens.Yaml.Tag
import PipelineLens.Yaml.Directive
import PipelineLens.Yaml.Token
import PipelineLens.Yaml.Lexer
import PipelineLens.Yaml.Node
import PipelineLens.Yaml.Grammar
import PipelineLens.Yaml.Scalar
import PipelineLens.Yaml.Walk
import PipelineLens.Yaml.Shape
import PipelineLens.Yaml.Json
import PipelineLens.Yaml.Value
import PipelineLens.Preview.Fetched
import PipelineLens.Preview.Cache
import PipelineLens.Preview.Basic
import PipelineLens.Time.Clock
import PipelineLens.Host
import PipelineLens.Proofs.Graph.Sources
import PipelineLens.Proofs.Graph.Flattening
import PipelineLens.Proofs.Graph.Links
import PipelineLens.Proofs.Graph.Shape
import PipelineLens.Proofs.Spec.Dependencies
import PipelineLens.Proofs.Spec.Order
import PipelineLens.Proofs.Spec.Paths
import PipelineLens.Proofs.Spec.Finally
import PipelineLens.Proofs.Spec.Agreement
import PipelineLens.Proofs.Element.Nesting
import PipelineLens.Proofs.Element.Placement
import PipelineLens.Proofs.Element.Lookup
import PipelineLens.Proofs.Preview.Protocol
import PipelineLens.Proofs.Preview.History
import PipelineLens.Proofs.Text.Positions
import PipelineLens.Proofs.Tree.ReadBack
import PipelineLens.Proofs.Tree.Reading
import PipelineLens.Proofs.Tree.Values
import PipelineLens.Proofs.Spec.Ids
import PipelineLens.Proofs.Run.Guards
import PipelineLens.Proofs.Time.Clock
import PipelineLens.Proofs.Preview.HostCalls
import PipelineLens.Proofs.Element.Arena
import PipelineLens.Proofs.Element.PreOrder
import PipelineLens.Proofs.Element.Listing
import PipelineLens.Proofs.Element.Tasks
import PipelineLens.Proofs.Splitting
import PipelineLens.Proofs.Unrepeated
import PipelineLens.Proofs.Spec.Occurrences
import PipelineLens.Proofs.Collecting
import PipelineLens.Proofs.Spec.Blocks
import PipelineLens.Proofs.Time.Labels
import PipelineLens.Proofs.Reordering
import PipelineLens.Proofs.Spec.Rearranged
import PipelineLens.Proofs.Graph.Rearranged
import PipelineLens.Proofs.Tree.Faults
import PipelineLens.Proofs.Graph.EdgeIds
import PipelineLens.Proofs.Resource
import PipelineLens.Proofs.Element.Descent
import PipelineLens.Proofs.Time.Carries
import PipelineLens.Proofs.Element.Keys
