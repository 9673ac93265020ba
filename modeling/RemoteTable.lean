import RemoteTable.Bytes
import RemoteTable.Call.Arguments
import RemoteTable.Call.Basic
import RemoteTable.Call.Operation
import RemoteTable.Channel.Basic
import RemoteTable.Channel.Failure
import RemoteTable.Channel.Faulty
import RemoteTable.Chunk.Basic
import RemoteTable.Chunk.Crc32
import RemoteTable.Chunk.Damage
import RemoteTable.Chunk.Depot
import RemoteTable.Chunk.Frame
import RemoteTable.Chunk.Stream
import RemoteTable.Cli.Arguments
import RemoteTable.Cli.Command
import RemoteTable.Cli.Demo
import RemoteTable.Cli.Error
import RemoteTable.Client
import RemoteTable.Config
import RemoteTable.Deployment
import RemoteTable.Dict
import RemoteTable.Double
import RemoteTable.Double.Shortest
import RemoteTable.Exchange
import RemoteTable.Json.Basic
import RemoteTable.Json.Codec
import RemoteTable.Json.Complaint
import RemoteTable.Json.Literal
import RemoteTable.Json.Printer
import RemoteTable.Json.Reader
import RemoteTable.Json.Skip
import RemoteTable.Log.Event
import RemoteTable.Log.Record
import RemoteTable.Log.Severity
import RemoteTable.Main
import RemoteTable.Metadata.Basic
import RemoteTable.Metadata.Cache
import RemoteTable.Metrics
import RemoteTable.Numeral
import RemoteTable.Peer
import RemoteTable.Session
import RemoteTable.Store
import RemoteTable.Table.Query
import RemoteTable.Table.Row
import RemoteTable.Token
import RemoteTable.Token.Supply
import RemoteTable.TransportError
import RemoteTable.Tunnel
import RemoteTable.Proofs.Chunk.Chain
import RemoteTable.Proofs.Chunk.Checksum
import RemoteTable.Proofs.Chunk.Frame
import RemoteTable.Proofs.Chunk.Parking
import RemoteTable.Proofs.Chunk.Receivers
import RemoteTable.Proofs.Client.Conversation
import RemoteTable.Proofs.Client.FaultyLine
import RemoteTable.Proofs.Client.Refinement
import RemoteTable.Proofs.Client.SoundLine
import RemoteTable.Proofs.Client.Yields
import RemoteTable.Proofs.Coherence
import RemoteTable.Proofs.Deployment
import RemoteTable.Proofs.Drawn
import RemoteTable.Proofs.Evolution
import RemoteTable.Proofs.Fallible
import RemoteTable.Proofs.Json.Codec
import RemoteTable.Proofs.Json.Items
import RemoteTable.Proofs.Json.Number
import RemoteTable.Proofs.Json.Text
import RemoteTable.Proofs.Json.Value
import RemoteTable.Proofs.Messages
import RemoteTable.Proofs.Peer
import RemoteTable.Proofs.Session
import RemoteTable.Proofs.Tunnel
import RemoteTable.Proofs.Client.Course
import RemoteTable.Proofs.Client.Counts
import RemoteTable.Proofs.Accounts
import RemoteTable.Proofs.Client.PatchyLine
import RemoteTable.Proofs.Revision
import RemoteTable.Proofs.StoreRun
import RemoteTable.Proofs.Chunk.Remainder
import RemoteTable.Proofs.Chunk.Format
import RemoteTable.Proofs.InPlace.Peer
import RemoteTable.Proofs.InPlace.Store
import RemoteTable.Proofs.Invocation
import RemoteTable.Proofs.Authority
import RemoteTable.Proofs.Tunnel.Grammar
import RemoteTable.Proofs.Config
import RemoteTable.Proofs.RoundTrip
import RemoteTable.Proofs.Emission
import RemoteTable.Proofs.Chunk.Refusal
import RemoteTable.Proofs.Chunk.Burst
import RemoteTable.Proofs.Chunk.Shape
import RemoteTable.Proofs.Log.Console
import RemoteTable.Proofs.Client.Likeness
import RemoteTable.Proofs.Log.Live
import RemoteTable.Proofs.Logging
import RemoteTable.Proofs.Chunk.Retrieval
import RemoteTable.Proofs.Chunk.Books
import RemoteTable.Proofs.Withdrawal
import RemoteTable.Proofs.Lookups
import RemoteTable.Proofs.History
import RemoteTable.Proofs.Slots
import RemoteTable.Proofs.Mirror
import RemoteTable.Proofs.Writes
import RemoteTable.Proofs.Rows
import RemoteTable.Proofs.ChunkSize
import RemoteTable.Proofs.ByteOrder
import RemoteTable.Proofs.Log.Line
import RemoteTable.Proofs.Chunk.Laziness
