import DecafFrontEnd.Main
import DecafFrontEnd.Ast.Pretty
import DecafFrontEnd.Json.ToAst
import DecafFrontEnd.Command.Folder
import DecafFrontEnd.Proofs.Compilation.Offender
import DecafFrontEnd.Proofs.Compilation.Malformed
import DecafFrontEnd.Proofs.Compilation.Obstacle
import DecafFrontEnd.Proofs.Compilation.Position
import DecafFrontEnd.Proofs.Compilation.WellFormed
import DecafFrontEnd.Proofs.Operator.Assignment
import DecafFrontEnd.Proofs.Json.Decode
import DecafFrontEnd.Proofs.Compilation.Concatenation
import DecafFrontEnd.Proofs.Compilation.Suggestion
import DecafFrontEnd.Proofs.Compilation.Listener
import DecafFrontEnd.Proofs.Lexical.Lossless
import DecafFrontEnd.Proofs.Lexical.Concatenation
import DecafFrontEnd.Proofs.Lexical.Respacing
import DecafFrontEnd.Proofs.Lexical.Agreement
import DecafFrontEnd.Proofs.Compilation.Blame
import DecafFrontEnd.Proofs.Compilation.Kept
import DecafFrontEnd.Proofs.Compilation.Label
import DecafFrontEnd.Proofs.Compilation.Report
import DecafFrontEnd.Proofs.Json.Nodes
import DecafFrontEnd.Proofs.Json.Stripped
import DecafFrontEnd.Proofs.Text.Offset
import DecafFrontEnd.Proofs.Command.Listing
import DecafFrontEnd.Proofs.Brief.Reading
import DecafFrontEnd.Proofs.Lowering.Value
import DecafFrontEnd.Proofs.Grammar.Termination
