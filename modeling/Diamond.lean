import Diamond.Arel.Statements
import Diamond.Budget.Grace
import Diamond.Bytecode.TypeSets
import Diamond.Bytecode.Verify
import Diamond.Channel.Wakeups
import Diamond.Compiled.RoundTrip
import Diamond.Constraints.Safety
import Diamond.Facet.Archive
import Diamond.Facet.Reports
import Diamond.Freeze.DeepFreeze
import Diamond.Freeze.Slices
import Diamond.Gc.Safety
import Diamond.GraphQL.Completion
import Diamond.Hash.Structural
import Diamond.Jobs.Queue
import Diamond.Json.Sorted
import Diamond.Lexer.Strings
import Diamond.Lsp.Position
import Diamond.Operators.Exact
import Diamond.Operators.Format
import Diamond.Prelude.Lazy
import Diamond.Prelude.Sorting
import Diamond.Rack.RateLimit
import Diamond.Registry.History
import Diamond.Supervisor.Intensity
import Diamond.Threads.Join
import Diamond.Time.Weekdays
import Diamond.Transactions.Settled
import Diamond.WebSocket.Frame
