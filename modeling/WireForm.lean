import WireForm.BigEndian
import WireForm.Codec
import WireForm.Composite.Form
import WireForm.Composite.Record
import WireForm.Composite.Tuple
import WireForm.Derivation.Attribute
import WireForm.Derivation.Generics
import WireForm.Derivation.Grammar.Bound
import WireForm.Derivation.Grammar.Expression
import WireForm.Derivation.Grammar.Function
import WireForm.Derivation.Grammar.Path
import WireForm.Derivation.Grammar.Type
import WireForm.Derivation.Implementation
import WireForm.Derivation.Implementation.Printer
import WireForm.Derivation.Item
import WireForm.Derivation.Item.Declaration
import WireForm.Derivation.Item.Description
import WireForm.Derivation.Item.Implementations
import WireForm.Derivation.Options
import WireForm.Derivation.Reader
import WireForm.Derivation.Rejection
import WireForm.Derivation.Separated
import WireForm.Derivation.Token
import WireForm.Derivation.Token.Lexer
import WireForm.Derivation.Token.Literal
import WireForm.Error
import WireForm.Field.Reader
import WireForm.Field.Writer
import WireForm.Length
import WireForm.LengthWidth
import WireForm.Proofs.Acceptance
import WireForm.Proofs.Answers
import WireForm.Proofs.Appending
import WireForm.Proofs.Arguments
import WireForm.Proofs.BigEndian
import WireForm.Proofs.Canonical
import WireForm.Proofs.CodeReading
import WireForm.Proofs.Coincidence
import WireForm.Proofs.Composite
import WireForm.Proofs.Confinement
import WireForm.Proofs.Delimiting
import WireForm.Proofs.Delivery
import WireForm.Proofs.DerivedForm
import WireForm.Proofs.DerivedRecord
import WireForm.Proofs.Discriminants
import WireForm.Proofs.Draining
import WireForm.Proofs.Duration
import WireForm.Proofs.DynamicHeader
import WireForm.Proofs.Encoding
import WireForm.Proofs.FieldBounds
import WireForm.Proofs.FinalReading
import WireForm.Proofs.FixedCodec
import WireForm.Proofs.Gates
import WireForm.Proofs.Hints
import WireForm.Proofs.History
import WireForm.Proofs.Join
import WireForm.Proofs.LengthWidth
import WireForm.Proofs.Likeness
import WireForm.Proofs.Locality
import WireForm.Proofs.Lock
import WireForm.Proofs.MappedConsumer
import WireForm.Proofs.Mapping
import WireForm.Proofs.Meaning
import WireForm.Proofs.OneShot
import WireForm.Proofs.Opening
import WireForm.Proofs.Options
import WireForm.Proofs.Outcome
import WireForm.Proofs.Outlook
import WireForm.Proofs.OwnedReading
import WireForm.Proofs.Ownership
import WireForm.Proofs.PlainTypes
import WireForm.Proofs.Position
import WireForm.Proofs.PromptQueue
import WireForm.Proofs.Pruning
import WireForm.Proofs.Queue
import WireForm.Proofs.Quoted
import WireForm.Proofs.Reading
import WireForm.Proofs.RecordReading
import WireForm.Proofs.Recording
import WireForm.Proofs.Retrieval
import WireForm.Proofs.Rollback
import WireForm.Proofs.RoundTrip
import WireForm.Proofs.Runs
import WireForm.Proofs.SafeReading
import WireForm.Proofs.Scalar
import WireForm.Proofs.Script
import WireForm.Proofs.SequenceReading
import WireForm.Proofs.Session
import WireForm.Proofs.Settlement
import WireForm.Proofs.ShapeLaws
import WireForm.Proofs.StaticSize
import WireForm.Proofs.Store
import WireForm.Proofs.Truncation
import WireForm.Proofs.View
import WireForm.Proofs.Waiting
import WireForm.Proofs.Window
import WireForm.Region
import WireForm.Register.Shapes
import WireForm.Register.Types
import WireForm.Scalar.Basic
import WireForm.Scalar.Enumeration
import WireForm.Scalar.Integer
import WireForm.Sequence
import WireForm.Shape
import WireForm.Step
import WireForm.Sync.Consumer
import WireForm.Sync.Duration
import WireForm.Sync.Gate
import WireForm.Sync.Lock
import WireForm.Sync.OneShot
import WireForm.Sync.Parcel
import WireForm.Sync.Queue
import WireForm.Sync.Session
import WireForm.Text.Blank
import WireForm.Text.Extending
import WireForm.Text.Quoted
import WireForm.Text.Ranges
import WireForm.Text.Unassigned
import WireForm.Text.Utf8
import WireForm.View
