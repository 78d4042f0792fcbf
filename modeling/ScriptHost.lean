import ScriptHost.Event
import ScriptHost.Exchange.Basic
import ScriptHost.Exchange.Engine
import ScriptHost.Exchange.Operations
import ScriptHost.Exchange.Stack
import ScriptHost.Exchange.Transfer
import ScriptHost.Files
import ScriptHost.Host.Error
import ScriptHost.Host.Fault
import ScriptHost.Host.Kind
import ScriptHost.Host.Library
import ScriptHost.Host.Spelling
import ScriptHost.Host.Table
import ScriptHost.Host.Table.Text
import ScriptHost.Host.Value
import ScriptHost.HostFunction
import ScriptHost.Live.Changes
import ScriptHost.Live.Fingerprint
import ScriptHost.Live.LoadedScript
import ScriptHost.Live.Report
import ScriptHost.Logging.Basic
import ScriptHost.Logging.Filter
import ScriptHost.Number.Decimal
import ScriptHost.Number.Double
import ScriptHost.Proofs.Accounts
import ScriptHost.Proofs.Balance
import ScriptHost.Proofs.Calls
import ScriptHost.Proofs.Compaction
import ScriptHost.Proofs.Copies
import ScriptHost.Proofs.Decimals
import ScriptHost.Proofs.Draining
import ScriptHost.Proofs.Engine
import ScriptHost.Proofs.Escalation
import ScriptHost.Proofs.Evaluation
import ScriptHost.Proofs.Exchanges
import ScriptHost.Proofs.Extraction
import ScriptHost.Proofs.Globals
import ScriptHost.Proofs.HostCalls
import ScriptHost.Proofs.HostValues
import ScriptHost.Proofs.Installations
import ScriptHost.Proofs.Keys
import ScriptHost.Proofs.Lawful
import ScriptHost.Proofs.Ledgers
import ScriptHost.Proofs.Lineages
import ScriptHost.Proofs.Loops
import ScriptHost.Proofs.Merging
import ScriptHost.Proofs.Namespaces
import ScriptHost.Proofs.Nesting
import ScriptHost.Proofs.Operations
import ScriptHost.Proofs.OrderedTables
import ScriptHost.Proofs.Pairings
import ScriptHost.Proofs.Paths
import ScriptHost.Proofs.Reading
import ScriptHost.Proofs.Recording
import ScriptHost.Proofs.Reloading
import ScriptHost.Proofs.Replays
import ScriptHost.Proofs.RoundTrip
import ScriptHost.Proofs.Samples
import ScriptHost.Proofs.ScriptTables
import ScriptHost.Proofs.Seclusion
import ScriptHost.Proofs.Separation
import ScriptHost.Proofs.Sequences
import ScriptHost.Proofs.Spellings
import ScriptHost.Proofs.States
import ScriptHost.Proofs.Steps
import ScriptHost.Proofs.Subscribers
import ScriptHost.Proofs.TrackedCode
import ScriptHost.Proofs.Tracking
import ScriptHost.Proofs.Traversals
import ScriptHost.Proofs.ValueEquality
import ScriptHost.Proofs.Wrappers
import ScriptHost.Samples
import ScriptHost.Script.Ascii
import ScriptHost.Script.Builtins
import ScriptHost.Script.Chunk
import ScriptHost.Script.Chunk.Reader
import ScriptHost.Script.Evaluation
import ScriptHost.Script.Numeral
import ScriptHost.Script.Operators
import ScriptHost.Script.State
import ScriptHost.Script.Table
import ScriptHost.Script.Token
import ScriptHost.Script.Value
import ScriptHost.Settings
import ScriptHost.Text.Blank
import ScriptHost.Text.Lossy
import ScriptHost.Text.Printable
import ScriptHost.Text.Quoted
import ScriptHost.Text.Split
import ScriptHost.Toml.Quoted
import ScriptHost.Toml.Reader
import ScriptHost.Toml.Scalar
import ScriptHost.Toml.Value
