import ScriptEngine.Calendar.Format
import ScriptEngine.Calendar.Moment
import ScriptEngine.CommandLine.Arguments
import ScriptEngine.CommandLine.Help
import ScriptEngine.CommandLine.Program
import ScriptEngine.Concurrency.Channel
import ScriptEngine.Concurrency.EventLoop
import ScriptEngine.Concurrency.ListenerControl
import ScriptEngine.Concurrency.Waiting
import ScriptEngine.Engine.Loop
import ScriptEngine.Engine.Repl
import ScriptEngine.Engine.Script
import ScriptEngine.Engine.Serve
import ScriptEngine.Engine.Session
import ScriptEngine.Engine.Start
import ScriptEngine.Evaluation.Access
import ScriptEngine.Evaluation.Bounded
import ScriptEngine.Evaluation.Call
import ScriptEngine.Evaluation.Evaluator
import ScriptEngine.Evaluation.Expression
import ScriptEngine.Evaluation.Matching
import ScriptEngine.Evaluation.Operators
import ScriptEngine.Evaluation.Statement
import ScriptEngine.Files.Module
import ScriptEngine.Files.Path
import ScriptEngine.Files.Tree
import ScriptEngine.Grammar.Cursor
import ScriptEngine.Grammar.Expression
import ScriptEngine.Grammar.Parse
import ScriptEngine.Grammar.Pattern
import ScriptEngine.Grammar.Statement
import ScriptEngine.Host.Address
import ScriptEngine.Host.Hub
import ScriptEngine.Host.Sandbox
import ScriptEngine.Http.Message
import ScriptEngine.Json.Basic
import ScriptEngine.Json.Reader
import ScriptEngine.Library.Arguments
import ScriptEngine.Library.Arrays
import ScriptEngine.Library.Time
import ScriptEngine.Library.Dispatch
import ScriptEngine.Library.Files
import ScriptEngine.Library.Json
import ScriptEngine.Library.Network
import ScriptEngine.Library.Promises
import ScriptEngine.Library.System
import ScriptEngine.Library.Texts
import ScriptEngine.Library.Workers
import ScriptEngine.Machine.Basic
import ScriptEngine.Machine.Dialogue
import ScriptEngine.Machine.Eval
import ScriptEngine.Machine.Request
import ScriptEngine.Main
import ScriptEngine.Number.Text
import ScriptEngine.Program.Basic
import ScriptEngine.Proofs.Machine.Agreement
import ScriptEngine.Proofs.Machine.Regime
import ScriptEngine.Proofs.Value.Code
import ScriptEngine.Scope.Basic
import ScriptEngine.Scope.Inspect
import ScriptEngine.Settings.Basic
import ScriptEngine.Settings.File
import ScriptEngine.Text.Blank
import ScriptEngine.Text.Case
import ScriptEngine.Text.CodeRanges
import ScriptEngine.Text.Quoted
import ScriptEngine.Text.Letter
import ScriptEngine.Text.Position
import ScriptEngine.Text.Search
import ScriptEngine.Text.Utf8
import ScriptEngine.Token.Basic
import ScriptEngine.Token.Lexer
import ScriptEngine.Toml.Scalar
import ScriptEngine.Toml.Document
import ScriptEngine.Value.Native
import ScriptEngine.Value.Basic
import ScriptEngine.Value.Failure
import ScriptEngine.Value.Fields
import ScriptEngine.Value.Heap
import ScriptEngine.Proofs.Library.Surroundings
import ScriptEngine.Proofs.Library.Callbacks
import ScriptEngine.Proofs.Evaluation.Expression
import ScriptEngine.Proofs.Evaluation.Statement
import ScriptEngine.Proofs.Evaluation.Call
import ScriptEngine.Proofs.Evaluation.Watch
import ScriptEngine.Proofs.Evaluation.Hygiene
import ScriptEngine.Proofs.Evaluation.Balance
import ScriptEngine.Proofs.Evaluation.Control
import ScriptEngine.Proofs.Evaluation.Chain
import ScriptEngine.Proofs.Engine.Termination
import ScriptEngine.Proofs.Engine.Divergence
import ScriptEngine.Proofs.Concurrency.LoopRun
import ScriptEngine.Proofs.Concurrency.Timers
import ScriptEngine.Proofs.Concurrency.Completions
import ScriptEngine.Proofs.Library.Settlement
import ScriptEngine.Proofs.Grammar.Faultless
import ScriptEngine.Proofs.Grammar.RoundTrip
import ScriptEngine.Proofs.Machine.Discipline
import ScriptEngine.Proofs.Library.Discipline
import ScriptEngine.Proofs.Evaluation.Discipline
import ScriptEngine.Proofs.Machine.Conduct
import ScriptEngine.Proofs.Evaluation.Conduct
import ScriptEngine.Proofs.Library.Desk
import ScriptEngine.Proofs.Library.Serving
import ScriptEngine.Proofs.Engine.Serving
import ScriptEngine.Proofs.Engine.Lifetime
import ScriptEngine.Proofs.Concurrency.Interleaving
import ScriptEngine.Proofs.Concurrency.Outstanding
import ScriptEngine.Proofs.Host.Exchange
import ScriptEngine.Proofs.Host.Task
import ScriptEngine.Proofs.Engine.Arrivals
import ScriptEngine.Proofs.Host.Traffic
import ScriptEngine.Proofs.Host.Reception
import ScriptEngine.Proofs.Value.Transitivity
import ScriptEngine.Proofs.Token.Lossless
import ScriptEngine.Proofs.Token.Writing
import ScriptEngine.Proofs.Json.Reprint
import ScriptEngine.Proofs.Json.RoundTrip
import ScriptEngine.Proofs.Engine.Buffering
import ScriptEngine.Proofs.Engine.Waiting
import ScriptEngine.Proofs.Machine.Cut
import ScriptEngine.Proofs.Evaluation.Import
import ScriptEngine.Proofs.Evaluation.Exit
import ScriptEngine.Proofs.Evaluation.Leak
import ScriptEngine.Proofs.Evaluation.Oversight
import ScriptEngine.Proofs.Library.Custody
import ScriptEngine.Proofs.Evaluation.Custody
import ScriptEngine.Proofs.Library.Promises
import ScriptEngine.Proofs.Library.PromiseSteps
import ScriptEngine.Proofs.Engine.Promises
import ScriptEngine.Proofs.Concurrency.Wakeups
import ScriptEngine.Proofs.Host.Standoff
import ScriptEngine.Proofs.Host.Conversation
import ScriptEngine.Proofs.Engine.Feeding
import ScriptEngine.Proofs.Library.Quiet
import ScriptEngine.Proofs.Machine.Quiet
import ScriptEngine.Proofs.Evaluation.Quiet
import ScriptEngine.Proofs.Engine.Handouts
import ScriptEngine.Proofs.Engine.Isolation
import ScriptEngine.Proofs.Evaluation.SuperOutside
import ScriptEngine.Proofs.Scope.Definitions
import ScriptEngine.Proofs.Evaluation.Destructuring
import ScriptEngine.Proofs.Evaluation.Arms
import ScriptEngine.Proofs.Evaluation.Declarations
import ScriptEngine.Proofs.Evaluation.Arguments
import ScriptEngine.Proofs.Concurrency.DeadlineOrder
import ScriptEngine.Proofs.Scope.Tree
import ScriptEngine.Proofs.Value.Printing
import ScriptEngine.Proofs.Value.Bisimilar
import ScriptEngine.Proofs.Json.Unfolding
import ScriptEngine.Proofs.Library.Snapshot
import ScriptEngine.Proofs.Token.Places
import ScriptEngine.Proofs.Token.InPlace
import ScriptEngine.Proofs.Grammar.Layout
import ScriptEngine.Proofs.Grammar.Placing
import ScriptEngine.Proofs.Grammar.Placed
import ScriptEngine.Proofs.Token.Interpolation
import ScriptEngine.Proofs.Token.Fragment
import ScriptEngine.Proofs.Text.Utf8
import ScriptEngine.Proofs.Http.Request
import ScriptEngine.Proofs.Grammar.Nearsight
import ScriptEngine.Proofs.Grammar.NearsightedExpression
import ScriptEngine.Proofs.Grammar.NearsightedStatement
import ScriptEngine.Proofs.Grammar.StatementForm
import ScriptEngine.Proofs.Grammar.Semicolons
import ScriptEngine.Proofs.Number.Naturals
import ScriptEngine.Proofs.Library.Texts
import ScriptEngine.Proofs.Files.Resolution
import ScriptEngine.Proofs.Concurrency.TimerTable
