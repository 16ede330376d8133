import Railroad.Json.Decoding
import Railroad.Main
import Railroad.Node.Assembly
import Railroad.Proofs.Alternation
import Railroad.Proofs.Diagram.Calls
import Railroad.Proofs.Diagram.Literals
import Railroad.Proofs.Diagram.Readability
import Railroad.Proofs.Grammar.Evaluation
import Railroad.Proofs.Grammar.Recognition
import Railroad.Proofs.Grammar.Simulation
import Railroad.Proofs.Height
import Railroad.Proofs.Json.Depth
import Railroad.Proofs.Json.Outcome
import Railroad.Proofs.Json.RoundTrip
import Railroad.Proofs.Json.Scalars
import Railroad.Proofs.Json.Trees
import Railroad.Proofs.Json.Written
import Railroad.Proofs.Leaves
import Railroad.Proofs.NormalForm
import Railroad.Proofs.Rail.Derivations
import Railroad.Proofs.Rail.RoundTrip
import Railroad.Proofs.Rail.Tokens
import Railroad.Proofs.Token.Spelling
import Railroad.Proofs.Token.Writing
import Railroad.Token.Scanner
import Railroad.Proofs.Token.Cutting
import Railroad.Proofs.Token.Scanning
import Railroad.Proofs.Brackets
import Railroad.Proofs.Faults.Explained
import Railroad.Proofs.Faults
import Railroad.Proofs.Diagram.Arguments
import Railroad.Proofs.Grammar.Limit
import Railroad.Rule.Descent
import Railroad.Proofs.Places
import Railroad.Proofs.Descent.Continuing
import Railroad.Proofs.Insertion
import Railroad.Proofs.Json.Normalizing
import Railroad.Proofs.Batch
import Railroad.Proofs.Assembly
import Railroad.Proofs.Unrendered
import Railroad.Proofs.Verbosity
import Railroad.Proofs.Extension
import Railroad.Proofs.Grammar.EmptyBranches
import Railroad.Proofs.Token.Requests
import Railroad.Proofs.FlagOrder
import Railroad.Proofs.OldSpelling
import Railroad.Proofs.Splicing
import Railroad.Proofs.Descent.Bounds
