import ChangeRelay.Change.Basic
import ChangeRelay.Change.Position
import ChangeRelay.Change.RowId
import ChangeRelay.Checkpoint.Basic
import ChangeRelay.Checkpoint.File
import ChangeRelay.Config.Basic
import ChangeRelay.Config.Load
import ChangeRelay.Decimal.Binary64
import ChangeRelay.Decimal.Shortest
import ChangeRelay.Delivery.Broker
import ChangeRelay.Delivery.Client
import ChangeRelay.Delivery.Exchange
import ChangeRelay.Error.Basic
import ChangeRelay.Error.Client
import ChangeRelay.Error.Delivery
import ChangeRelay.Error.Storage
import ChangeRelay.Hash.Murmur2
import ChangeRelay.Hash.Sha256
import ChangeRelay.Json.Container
import ChangeRelay.Json.Failure
import ChangeRelay.Json.Printer
import ChangeRelay.Json.Reader
import ChangeRelay.Json.Scalar
import ChangeRelay.Json.Skip
import ChangeRelay.Json.Value
import ChangeRelay.Log
import ChangeRelay.Main
import ChangeRelay.Proofs.Change.LogOrder
import ChangeRelay.Proofs.Change.PositionOrder
import ChangeRelay.Proofs.Change.ReadBack
import ChangeRelay.Proofs.Checkpoint.AtOnce
import ChangeRelay.Proofs.Checkpoint.Calls
import ChangeRelay.Proofs.Checkpoint.Save
import ChangeRelay.Proofs.Checkpoint.SavePair
import ChangeRelay.Proofs.Decimal.Digits
import ChangeRelay.Proofs.Delivery.Books
import ChangeRelay.Proofs.Delivery.Notes
import ChangeRelay.Proofs.Hash.ByIndex
import ChangeRelay.Proofs.Hash.Polynomial
import ChangeRelay.Proofs.Json.Compact
import ChangeRelay.Proofs.Json.NumberText
import ChangeRelay.Proofs.Json.ReadBack
import ChangeRelay.Proofs.Json.Readable
import ChangeRelay.Proofs.Json.Reread
import ChangeRelay.Proofs.Json.Values
import ChangeRelay.Proofs.Progress.Commute
import ChangeRelay.Proofs.Progress.Ledger
import ChangeRelay.Proofs.Progress.Refinement
import ChangeRelay.Proofs.Progress.Safe
import ChangeRelay.Proofs.Progress.Unfinished
import ChangeRelay.Proofs.Record.AllValues
import ChangeRelay.Proofs.Record.InRange
import ChangeRelay.Proofs.Record.InTurn
import ChangeRelay.Proofs.Record.KeyIdentity
import ChangeRelay.Proofs.Record.KeyText
import ChangeRelay.Proofs.Record.PlainTopic
import ChangeRelay.Proofs.Record.RedirectedValue
import ChangeRelay.Proofs.Record.SamePartition
import ChangeRelay.Proofs.Record.Substitution
import ChangeRelay.Proofs.Record.Undisturbed
import ChangeRelay.Proofs.Run.Course
import ChangeRelay.Proofs.Run.Deed
import ChangeRelay.Proofs.Run.Effect
import ChangeRelay.Proofs.Run.Fate
import ChangeRelay.Proofs.Run.Interleaving
import ChangeRelay.Proofs.Run.Offers
import ChangeRelay.Proofs.Run.Queue
import ChangeRelay.Proofs.Run.Quiet
import ChangeRelay.Proofs.Run.Redirection
import ChangeRelay.Proofs.Run.Resume
import ChangeRelay.Proofs.Run.Service
import ChangeRelay.Proofs.Run.Startup
import ChangeRelay.Proofs.Run.Stop
import ChangeRelay.Proofs.Run.Ticket
import ChangeRelay.Proofs.Run.Tolerance
import ChangeRelay.Proofs.Run.Tracked
import ChangeRelay.Proofs.Session.Causes
import ChangeRelay.Proofs.Session.Feeding
import ChangeRelay.Proofs.Session.Process
import ChangeRelay.Proofs.Session.Schedule
import ChangeRelay.Proofs.Shape.Given
import ChangeRelay.Proofs.Shape.ReadBack
import ChangeRelay.Proofs.Source.Lines
import ChangeRelay.Proofs.Source.Reading
import ChangeRelay.Proofs.Storage.FileTree
import ChangeRelay.Proofs.Storage.Operations
import ChangeRelay.Proofs.Storage.Path
import ChangeRelay.Proofs.Text.Utf8
import ChangeRelay.Proofs.Time.Timestamp
import ChangeRelay.Record.Basic
import ChangeRelay.Record.KeyEncoding
import ChangeRelay.Record.KeyHash
import ChangeRelay.Record.Placement
import ChangeRelay.Record.TopicPattern
import ChangeRelay.Run.Alarm
import ChangeRelay.Run.Counts
import ChangeRelay.Run.Diagnostic
import ChangeRelay.Run.Lifecycle
import ChangeRelay.Run.Progress
import ChangeRelay.Run.Relay
import ChangeRelay.Session.Arguments
import ChangeRelay.Session.Basic
import ChangeRelay.Session.Report
import ChangeRelay.Setting.Basic
import ChangeRelay.Setting.Decode
import ChangeRelay.Shape.Basic
import ChangeRelay.Shape.Mismatch
import ChangeRelay.Shape.OfJson
import ChangeRelay.Shape.OfText
import ChangeRelay.Shape.ToJson
import ChangeRelay.Source.Basic
import ChangeRelay.Storage.FileTree
import ChangeRelay.Storage.Path
import ChangeRelay.Text.Blank
import ChangeRelay.Text.Hex
import ChangeRelay.Text.Lowercase
import ChangeRelay.Text.Quoted
import ChangeRelay.Text.Shown
import ChangeRelay.Text.Utf16
import ChangeRelay.Text.Utf8
import ChangeRelay.Time.Duration
import ChangeRelay.Time.Timestamp
import ChangeRelay.Time.Unix
import ChangeRelay.Toml.Basic
import ChangeRelay.Toml.Number
import ChangeRelay.Toml.Reader
import ChangeRelay.Toml.Text
