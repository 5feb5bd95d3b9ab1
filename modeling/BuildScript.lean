import BuildScript.Main
import BuildScript.Number.Reading
import BuildScript.Text.Lossy
import BuildScript.Proofs.Token.Rendering
import BuildScript.Proofs.Expr.Precedence
import BuildScript.Proofs.Source.RoundTrip
import BuildScript.Proofs.Run.Surroundings
import BuildScript.Proofs.Evaluation.Blind
import BuildScript.Proofs.Program.Layout
import BuildScript.Proofs.Program.Units
import BuildScript.Proofs.Program.Nesting
import BuildScript.Proofs.Program.Skipping
import BuildScript.Proofs.Program.Execution
import BuildScript.Proofs.Program.Lines
import BuildScript.Proofs.Program.Structured
import BuildScript.Proofs.Run.Lasting
import BuildScript.Proofs.Run.Termination
import BuildScript.Proofs.Program.Trial
import BuildScript.Proofs.Program.Pairing
import BuildScript.Proofs.Storage.Parts
import BuildScript.Proofs.Storage.Placing
import BuildScript.Proofs.Storage.Writing
import BuildScript.Proofs.Scopes.Levels
import BuildScript.Proofs.Storage.Ownership
import BuildScript.Proofs.Storage.Variables
import BuildScript.Proofs.Storage.Preservation
import BuildScript.Proofs.Evaluation.Triples
import BuildScript.Proofs.Storage.References
import BuildScript.Proofs.Storage.Reached
import BuildScript.Proofs.Storage.Assignments
import BuildScript.Proofs.Typing.Moments
import BuildScript.Proofs.Isolation.Calls
import BuildScript.Proofs.Body.Meaning
import BuildScript.Proofs.Program.Inert
import BuildScript.Proofs.Run.Unwinding
import BuildScript.Proofs.Storage.Binding
import BuildScript.Proofs.Typing.Protocol
import BuildScript.Proofs.Evaluation.Deaf
import BuildScript.Proofs.Run.Deafness
import BuildScript.Proofs.Run.Accounting
import BuildScript.Proofs.Run.Recovery
import BuildScript.Proofs.Token.Seams
import BuildScript.Proofs.Script.Splicing
import BuildScript.Proofs.Body.Extent
import BuildScript.Proofs.Classes.Creation
import BuildScript.Proofs.Script.Bodies
import BuildScript.Proofs.Run.Including
import BuildScript.Proofs.Run.Sharing
import BuildScript.Proofs.Run.Feeding
import BuildScript.Proofs.Run.Braces
import BuildScript.Proofs.Run.Failing
import BuildScript.Proofs.Script.Members
import BuildScript.Proofs.Run.Building
import BuildScript.Proofs.Likeness.Values
import BuildScript.Proofs.Likeness.Storage
import BuildScript.Proofs.Likeness.Coupling
import BuildScript.Proofs.Likeness.Evaluation
import BuildScript.Proofs.Likeness.Calls
import BuildScript.Proofs.Likeness.Running
import BuildScript.Proofs.Places.Recorded
import BuildScript.Proofs.Places.Holding
import BuildScript.Proofs.Likeness.Frames
import BuildScript.Proofs.Places.Course
import BuildScript.Proofs.Places.Following
import BuildScript.Proofs.Places.Attribution
import BuildScript.Proofs.Spacing.Insertion
import BuildScript.Proofs.Storage.Compounding
import BuildScript.Proofs.Evaluation.Names
import BuildScript.Proofs.Scopes.Calls
import BuildScript.Proofs.Run.Declaring
import BuildScript.Proofs.Run.Receivers
import BuildScript.Proofs.Isolation.Holding
import BuildScript.Proofs.Classes.Calling
import BuildScript.Proofs.Storage.Untouched
import BuildScript.Proofs.Value.Arithmetic
import BuildScript.Proofs.Value.Comparison
import BuildScript.Proofs.Value.Concatenation
import BuildScript.Proofs.Value.Conversion
import BuildScript.Proofs.Token.Quoting
import BuildScript.Proofs.Clause.OnePass
import BuildScript.Proofs.Source.Integers
import BuildScript.Proofs.Files.Listings
import BuildScript.Proofs.Run.Diagnostics
import BuildScript.Proofs.Scopes.Operations
import BuildScript.Proofs.Token.Escapes
