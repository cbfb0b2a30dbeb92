import SchemaTypegen.Main
import SchemaTypegen.Golden.Verdict
import SchemaTypegen.Proofs.Reading
import SchemaTypegen.Proofs.Resolution
import SchemaTypegen.Proofs.Emission.Order
import SchemaTypegen.Proofs.Division.Moves
import SchemaTypegen.Proofs.Division
import SchemaTypegen.Proofs.Division.Boundaries
import SchemaTypegen.Proofs.Resolution.Inversion
import SchemaTypegen.Proofs.Closure
import SchemaTypegen.Proofs.Division.Names
import SchemaTypegen.Proofs.Resolution.Names
import SchemaTypegen.Proofs.Exports.Labels
import SchemaTypegen.Proofs.Exports
import SchemaTypegen.Proofs.Resolution.Acceptance
import SchemaTypegen.Proofs.Rearrangement
import SchemaTypegen.Proofs.Repetition
import SchemaTypegen.Proofs.TypeNames
import SchemaTypegen.Proofs.Files
import SchemaTypegen.Proofs.Files.Actions
import SchemaTypegen.Proofs.Arguments
import SchemaTypegen.Proofs.Invocation
import SchemaTypegen.Proofs.Trace
import SchemaTypegen.Proofs.Blocks
import SchemaTypegen.Proofs.Concatenation
import SchemaTypegen.Proofs.Division.Colons
import SchemaTypegen.Proofs.Flat
import SchemaTypegen.Proofs.Resolution.Labels
import SchemaTypegen.Proofs.Readability
import SchemaTypegen.Proofs.Lexing.Words
import SchemaTypegen.Proofs.Division.Headings
import SchemaTypegen.Proofs.Verdicts
import SchemaTypegen.Proofs.Resolution.Faults
import SchemaTypegen.Proofs.Cuts
import SchemaTypegen.Proofs.Emission.Buffer
import SchemaTypegen.Proofs.Emission.Termination
import SchemaTypegen.Proofs.Unions
import SchemaTypegen.Proofs.Division.Nesting
import SchemaTypegen.Proofs.Rereading
import SchemaTypegen.Proofs.Tally
import SchemaTypegen.Proofs.Tally.Soundness
