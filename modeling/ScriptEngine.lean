import ScriptEngine.Session
import ScriptEngine.Proofs.Classes.Enforcement
import ScriptEngine.Proofs.Classes.Fields
import ScriptEngine.Proofs.Classes.Super
import ScriptEngine.Proofs.Assignments
import ScriptEngine.Proofs.Bodies
import ScriptEngine.Proofs.Calendar
import ScriptEngine.Proofs.Constants
import ScriptEngine.Proofs.Decimal.Halving
import ScriptEngine.Proofs.Decimal.Remainder
import ScriptEngine.Proofs.Decimal.Rounding
import ScriptEngine.Proofs.Equality.Order
import ScriptEngine.Proofs.Files
import ScriptEngine.Proofs.Frames
import ScriptEngine.Proofs.Hashes.Keys
import ScriptEngine.Proofs.Hashes.Order
import ScriptEngine.Proofs.Imports.Cycles
import ScriptEngine.Proofs.Imports.Exports
import ScriptEngine.Proofs.Integer.Conversion
import ScriptEngine.Proofs.Integer.Literal
import ScriptEngine.Proofs.Integer.Ranges
import ScriptEngine.Proofs.Integer.Wrapping
import ScriptEngine.Proofs.Json.Decimals
import ScriptEngine.Proofs.Json.Members
import ScriptEngine.Proofs.Json.RoundTrip
import ScriptEngine.Proofs.Members
import ScriptEngine.Proofs.Operands
import ScriptEngine.Proofs.Parameters
import ScriptEngine.Proofs.Places.Writes
import ScriptEngine.Proofs.Registry
import ScriptEngine.Proofs.Run.Answers
import ScriptEngine.Proofs.Sequences.Lists
import ScriptEngine.Proofs.Suggestion.Distance
import ScriptEngine.Proofs.Suggestion.Ranking
import ScriptEngine.Proofs.Sync.Countdown
import ScriptEngine.Proofs.Sync.Counter
import ScriptEngine.Proofs.Sync.Delivery
import ScriptEngine.Proofs.Sync.Sharing
import ScriptEngine.Proofs.Sync.Wakeups
import ScriptEngine.Proofs.TaskFrames
import ScriptEngine.Proofs.TaskStacks
import ScriptEngine.Proofs.Template.Quoted
import ScriptEngine.Proofs.Template.RoundTrip
import ScriptEngine.Proofs.Text.Parts
import ScriptEngine.Proofs.Xml.Documents
import ScriptEngine.Proofs.Xml.RoundTrip
import ScriptEngine.Proofs.Listener.Nested
