import PipelineEditor.Codec.Basic
import PipelineEditor.Codec.Document
import PipelineEditor.Codec.Record
import PipelineEditor.Deferral
import PipelineEditor.Event
import PipelineEditor.Failure
import PipelineEditor.File
import PipelineEditor.Gesture
import PipelineEditor.Instant
import PipelineEditor.Json.Basic
import PipelineEditor.Json.Document
import PipelineEditor.Json.Numeral
import PipelineEditor.Json.Quoted
import PipelineEditor.Json.Render
import PipelineEditor.Json.Token
import PipelineEditor.Main
import PipelineEditor.Message
import PipelineEditor.Number.Binary
import PipelineEditor.Number.Decimal
import PipelineEditor.Number.Shortest
import PipelineEditor.Number.Single
import PipelineEditor.Number.Word
import PipelineEditor.Options
import PipelineEditor.Pipeline.Basic
import PipelineEditor.Pipeline.Validation
import PipelineEditor.Pipeline.Wire
import PipelineEditor.Proofs.Session.Effect
import PipelineEditor.Proofs.Session.Panels
import PipelineEditor.Proofs.Session.Refocus
import PipelineEditor.Report
import PipelineEditor.Session.Basic
import PipelineEditor.Session.Command
import PipelineEditor.Session.Opening
import PipelineEditor.Session.Panel
import PipelineEditor.Session.Store
import PipelineEditor.Settings.Basic
import PipelineEditor.Settings.Loading
import PipelineEditor.Settings.Sections
import PipelineEditor.Summary
import PipelineEditor.Table
import PipelineEditor.Text.Blank
import PipelineEditor.Text.Case
import PipelineEditor.Text.Decimal
import PipelineEditor.Text.Scanner
import PipelineEditor.Text.Search
import PipelineEditor.Toml.Basic
import PipelineEditor.Toml.Document
import PipelineEditor.Toml.Scalar
import PipelineEditor.Toml.Text
import PipelineEditor.Uuid
import PipelineEditor.Window.Action
import PipelineEditor.Window.Basic
import PipelineEditor.Window.Frame
import PipelineEditor.Window.Picture
import PipelineEditor.Proofs.Session.Frame
import PipelineEditor.Proofs.Session.Projection
import PipelineEditor.Proofs.Session.Draft
import PipelineEditor.Proofs.Json.Numeral
import PipelineEditor.Proofs.Json.Quoted
import PipelineEditor.Proofs.Json.Token
import PipelineEditor.Proofs.Json.Document
import PipelineEditor.Proofs.Codec.Basic
import PipelineEditor.Proofs.Codec.Record
import PipelineEditor.Proofs.Pipeline.Wire
import PipelineEditor.Proofs.Session.Export
import PipelineEditor.Proofs.Session.Handles
import PipelineEditor.Proofs.Session.Focus
import PipelineEditor.Proofs.Text.Scanner
import PipelineEditor.Proofs.Text.Replacement
import PipelineEditor.Proofs.Text.Blank
import PipelineEditor.Proofs.Instant
import PipelineEditor.Proofs.Uuid
import PipelineEditor.Proofs.Pipeline.Validation
import PipelineEditor.Proofs.Session.Publication
import PipelineEditor.Proofs.Deferral
import PipelineEditor.Proofs.Event
import PipelineEditor.Proofs.Session.Delivery
import PipelineEditor.Proofs.Session.Listeners
import PipelineEditor.Proofs.Session.Layout
import PipelineEditor.Proofs.Session.Unsaved
import PipelineEditor.Proofs.Pipeline.Form
import PipelineEditor.Proofs.Pipeline.Reread
import PipelineEditor.Proofs.Session.Extension
import PipelineEditor.Proofs.Window.WakeUps
import PipelineEditor.Proofs.Deferral.Firing
import PipelineEditor.Proofs.Session.Custody
import PipelineEditor.Proofs.Session.Asked
import PipelineEditor.Proofs.Summary
import PipelineEditor.Proofs.Session.Header
import PipelineEditor.Proofs.Session.ViewState
import PipelineEditor.Proofs.Settings.Sections
import PipelineEditor.Proofs.Settings.Variables
import PipelineEditor.Proofs.Settings.Layers
import PipelineEditor.Proofs.Session.StageIds
import PipelineEditor.Proofs.Pipeline.Faults
import PipelineEditor.Proofs.Session.Verdict
import PipelineEditor.Proofs.Session.Mending
import PipelineEditor.Proofs.Session.Canvas
import PipelineEditor.Proofs.Session.SavedDrafts
import PipelineEditor.Proofs.Report
import PipelineEditor.Proofs.Settings.Refusal
import PipelineEditor.Proofs.Window.Frames
import PipelineEditor.Proofs.Window.Title
import PipelineEditor.Proofs.Window.Canvas
import PipelineEditor.Proofs.Window.Rest
