import FaxClient.Address
import FaxClient.Address.Parser
import FaxClient.Command
import FaxClient.Control
import FaxClient.Control.Call
import FaxClient.Control.Connection
import FaxClient.Control.Script
import FaxClient.Duration
import FaxClient.Event
import FaxClient.Event.Listeners
import FaxClient.Event.Script
import FaxClient.Exchange
import FaxClient.ExchangeError
import FaxClient.Fault
import FaxClient.Filter
import FaxClient.Filter.Direction
import FaxClient.Filter.LineEnding
import FaxClient.HostPort
import FaxClient.Json.Number
import FaxClient.Json.Scanner
import FaxClient.Network
import FaxClient.Octets
import FaxClient.Pool.Bell
import FaxClient.Pool.Error
import FaxClient.Pool.Ledger
import FaxClient.Pool.Login
import FaxClient.Pool.Schedule
import FaxClient.Pool.Script
import FaxClient.Pool.Settings
import FaxClient.Pool.Task
import FaxClient.Pool.World
import FaxClient.Reply
import FaxClient.Reply.Basic
import FaxClient.Reply.Reader
import FaxClient.Representation
import FaxClient.Text.Blank
import FaxClient.Text.Printable
import FaxClient.Text.Quoted
import FaxClient.Transfer.Basic
import FaxClient.Transfer.Document
import FaxClient.Transfer.Error
import FaxClient.Transfer.FileName
import FaxClient.Transfer.Journal
import FaxClient.Transfer.Progress
import FaxClient.Transfer.Pump
import FaxClient.Transfer.Run
import FaxClient.Transfer.Surroundings
import FaxClient.Transfer.Task
import FaxClient.Utf8
import FaxClient.Zlib
import FaxClient.Zlib.Adler32
import FaxClient.Zlib.Alphabet
import FaxClient.Zlib.Deflate
import FaxClient.Zlib.Huffman
import FaxClient.Zlib.Inflate
import FaxClient.Proofs.Reply.Chunks
import FaxClient.Proofs.Transfer.Announcements
import FaxClient.Proofs.Pool.Section
import FaxClient.Proofs.Pool.Action
import FaxClient.Proofs.Pool.Balance
import FaxClient.Proofs.Pool.Capacity
import FaxClient.Proofs.Pool.Departure
import FaxClient.Proofs.Pool.Revocation
import FaxClient.Proofs.Pool.Drain
import FaxClient.Proofs.Filter.Emission
import FaxClient.Proofs.Filter.LineEnding
import FaxClient.Proofs.Filter.Direction
import FaxClient.Proofs.Transfer.Carriage
import FaxClient.Proofs.Transfer.Freight
import FaxClient.Proofs.Transfer.Delivery
import FaxClient.Proofs.Zlib.Inflation
import FaxClient.Proofs.Zlib.Bits
import FaxClient.Proofs.Zlib.Matching
import FaxClient.Proofs.Zlib.Reading
import FaxClient.Proofs.Zlib.Tokens
import FaxClient.Proofs.Zlib.RoundTrip
import FaxClient.Proofs.Control.Inquiry
import FaxClient.Proofs.Transfer.Conversation
import FaxClient.Proofs.Control.Closing
import FaxClient.Proofs.Pool.Provision
import FaxClient.Proofs.Pool.Exhaustion
import FaxClient.Proofs.Text.Encoding
import FaxClient.Proofs.Reply.Grammar
import FaxClient.Proofs.Command.Framing
import FaxClient.Proofs.Filter.Chunking
import FaxClient.Proofs.Filter.RoundTrip
import FaxClient.Proofs.Control.Silence
import FaxClient.Proofs.Event.Trace
import FaxClient.Proofs.Event.Dispatch
import FaxClient.Proofs.Pool.Unfolding
import FaxClient.Proofs.Pool.Retirement
import FaxClient.Proofs.Pool.Whereabouts
import FaxClient.Proofs.Pool.Conservation
import FaxClient.Proofs.Event.Handles
import FaxClient.Proofs.Pool.Masking
import FaxClient.Proofs.Pool.Opening
import FaxClient.Proofs.Pool.Credentials
import FaxClient.Proofs.Transfer.Stopping
import FaxClient.Proofs.Transfer.Cancellation
import FaxClient.Proofs.Pool.Alone
import FaxClient.Proofs.Pool.Renewal
import FaxClient.Proofs.Pool.Observation
import FaxClient.Proofs.Pool.Eviction
import FaxClient.Proofs.Pool.Reckoning
import FaxClient.Proofs.Pool.Admission
import FaxClient.Proofs.Transfer.Undisturbed
import FaxClient.Proofs.Transfer.Verdict
import FaxClient.Proofs.Text.Span
import FaxClient.Proofs.HostPort.Group
import FaxClient.Proofs.HostPort.Runs
import FaxClient.Proofs.HostPort.RoundTrip
import FaxClient.Proofs.HostPort.Positions
import FaxClient.Proofs.Reply.Consumption
import FaxClient.Proofs.Transfer.FileName
import FaxClient.Proofs.Transfer.Spacing
import FaxClient.Proofs.Pool.Turns
