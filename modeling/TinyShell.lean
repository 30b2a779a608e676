import TinyShell.Errno
import TinyShell.Failure
import TinyShell.Input.Cursor
import TinyShell.Input.Line
import TinyShell.Machine.Child
import TinyShell.Machine.Console
import TinyShell.Machine.Execution
import TinyShell.Machine.Installation
import TinyShell.Machine.Interpreter
import TinyShell.Machine.Limit
import TinyShell.Machine.Path
import TinyShell.Machine.Pipe
import TinyShell.Machine.Process
import TinyShell.Machine.Program
import TinyShell.Machine.Rights
import TinyShell.Machine.Script
import TinyShell.Machine.Signal
import TinyShell.Machine.Tree
import TinyShell.Main
import TinyShell.Shell.Builtin
import TinyShell.Shell.CommandLine
import TinyShell.Shell.Environment
import TinyShell.Shell.Evaluation
import TinyShell.Shell.Expansion
import TinyShell.Shell.Host
import TinyShell.Shell.Log
import TinyShell.Shell.Session
import TinyShell.Shell.Settings
import TinyShell.Shell.Source
import TinyShell.Shell.State
import TinyShell.Shell.Subshell
import TinyShell.Shell.Wiring
import TinyShell.Statement.Basic
import TinyShell.Statement.Operator
import TinyShell.Statement.Progress
import TinyShell.Statement.Reading
import TinyShell.Statement.Render
import TinyShell.Text.Basic
import TinyShell.Text.Blank
import TinyShell.Text.Quoted
import TinyShell.Text.Unprintable
import TinyShell.Text.Utf8
import TinyShell.Token.Basic
import TinyShell.Token.Queue
import TinyShell.Token.Scan
import TinyShell.Proofs.Grammar.Derivation
import TinyShell.Proofs.Grammar.Soundness
import TinyShell.Proofs.Grammar.Completeness
import TinyShell.Proofs.Grammar.Acceptance
import TinyShell.Proofs.Status.Agreement
import TinyShell.Proofs.Status.Independence
import TinyShell.Proofs.Status.Programs
import TinyShell.Proofs.Status.Session
import TinyShell.Proofs.Lines.Relocation
import TinyShell.Proofs.Lines.Splitting
import TinyShell.Proofs.Lines.Extension
import TinyShell.Proofs.Lines.Standing
import TinyShell.Proofs.Lines.Composition
import TinyShell.Proofs.Redirection.Files
import TinyShell.Proofs.Redirection.Chain
import TinyShell.Proofs.Text.Decoding
import TinyShell.Proofs.Tokens.Along
import TinyShell.Proofs.Tokens.Coverage
import TinyShell.Proofs.Tokens.Spelling
import TinyShell.Proofs.Lines.Ending
import TinyShell.Proofs.Forks.Requests
import TinyShell.Proofs.Forks.Containment
import TinyShell.Proofs.Commands.Recall
import TinyShell.Proofs.Status.Pipelines
import TinyShell.Proofs.Commands.Search
import TinyShell.Proofs.Grammar.Shape
import TinyShell.Proofs.Commands.Rewriting
import TinyShell.Proofs.Text.Delivery
import TinyShell.Proofs.Redirection.Check
import TinyShell.Proofs.Redirection.Writing
import TinyShell.Proofs.Redirection.Refusal
import TinyShell.Proofs.Commands.Substitution
import TinyShell.Proofs.Tokens.Lexemes
import TinyShell.Proofs.Grammar.Rejection
import TinyShell.Proofs.Lines.Demand
import TinyShell.Proofs.Tokens.Positions
import TinyShell.Proofs.Commands.Home
import TinyShell.Proofs.Redirection.Decoders
import TinyShell.Proofs.Redirection.Operators
import TinyShell.Proofs.Redirection.Numbers
import TinyShell.Proofs.Forks.Masks
import TinyShell.Proofs.Status.Connectives
import TinyShell.Proofs.Forks.Turns
import TinyShell.Proofs.Forks.Restored
import TinyShell.Proofs.Forks.Descriptors
import TinyShell.Proofs.Forks.Dispositions
import TinyShell.Proofs.Grammar.Rendering
import TinyShell.Proofs.Redirection.Rebinding
import TinyShell.Proofs.Commands.Reports
import TinyShell.Proofs.Descent.Productions
import TinyShell.Proofs.Descent.Rules
import TinyShell.Proofs.Descent.Agreement
import TinyShell.Proofs.Descent.Discipline
import TinyShell.Proofs.Descent.Conservation
import TinyShell.Proofs.Descent.Misuse
