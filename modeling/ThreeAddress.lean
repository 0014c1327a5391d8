import ThreeAddress.Main
import ThreeAddress.Files.Directory
import ThreeAddress.Proofs.Lowering.Total
import ThreeAddress.Proofs.Lowering.Simulation
import ThreeAddress.Proofs.Lowering.Shadowing
import ThreeAddress.Proofs.Lowering.PrintedNames
import ThreeAddress.Proofs.Lowering.SizeLimit
import ThreeAddress.Proofs.Lowering.Breaks
import ThreeAddress.Proofs.Typing.Decision
import ThreeAddress.Proofs.Grammar.Language
import ThreeAddress.Proofs.Lowering.Flow
import ThreeAddress.Proofs.Lowering.Temporaries
import ThreeAddress.Proofs.Lowering.NotedTypes
import ThreeAddress.Proofs.Grammar.Lookups
import ThreeAddress.Proofs.Grammar.Earliest
import ThreeAddress.Proofs.Lexing.Places
import ThreeAddress.Proofs.Lexing.Partition
import ThreeAddress.Proofs.Lexing.Lines
import ThreeAddress.Proofs.Grammar.Relabelled
import ThreeAddress.Proofs.Lowering.Relabelled
import ThreeAddress.Proofs.Typing.Relabelled
import ThreeAddress.Proofs.Reformatting
import ThreeAddress.Proofs.Lowering.SharedNames
import ThreeAddress.Proofs.Lowering.WordNames
import ThreeAddress.Proofs.Typing.DeadFaults
import ThreeAddress.Proofs.Grammar.Climbing
import ThreeAddress.Proofs.Grammar.Layers
import ThreeAddress.Proofs.Lowering.Addresses
import ThreeAddress.Proofs.Lexing.Renamed
import ThreeAddress.Proofs.Renaming
import ThreeAddress.Proofs.Lowering.PrintedTrees
import ThreeAddress.Proofs.Lowering.Operands
import ThreeAddress.Proofs.Typing.Annotation
import ThreeAddress.Proofs.Typing.FirstFault
import ThreeAddress.Proofs.Lexing.Shown
import ThreeAddress.Proofs.Lexing.Misfits
import ThreeAddress.Proofs.Lexing.Carets
import ThreeAddress.Proofs.Grammar.Excerpts
import ThreeAddress.Proofs.Grammar.Semicolon
import ThreeAddress.Proofs.Lexing.Inserted
import ThreeAddress.Proofs.Lexing.Spaced
import ThreeAddress.Proofs.Listing
import ThreeAddress.Proofs.MissingSemicolon
import ThreeAddress.Proofs.Grammar.Descent
import ThreeAddress.Proofs.Grammar.Demand
import ThreeAddress.Proofs.Grammar.Routines
import ThreeAddress.Proofs.Environment
import ThreeAddress.Proofs.Grammar.Closed
import ThreeAddress.Proofs.FaultLines
import ThreeAddress.Proofs.Lexing.TextLines
import ThreeAddress.Proofs.TypeReport
