import AssemblerIndex.Main
import AssemblerIndex.Proofs.Assembly.Branches
import AssemblerIndex.Proofs.Assembly.Inlining
import AssemblerIndex.Proofs.Assembly.MacroInlining
import AssemblerIndex.Proofs.Assembly.Operation
import AssemblerIndex.Proofs.Assembly.Termination
import AssemblerIndex.Proofs.Statement.Splitting
import AssemblerIndex.Proofs.Assembly.Origins
import AssemblerIndex.Proofs.Assembly.SymbolStacks
import AssemblerIndex.Proofs.Statement.FieldRanges
import AssemblerIndex.Proofs.Statement.SequenceColumns
import AssemblerIndex.Proofs.Expression.Precedence
import AssemblerIndex.Proofs.Index.OpenCodeOutline
import AssemblerIndex.Proofs.Expression.VariableSymbols
import AssemblerIndex.Proofs.Context.Operations
import AssemblerIndex.Proofs.Context.SourceLevels
import AssemblerIndex.Proofs.Context.SystemGlobals
import AssemblerIndex.Proofs.Context.UserGlobals
import AssemblerIndex.Proofs.Context.CallVariables
import AssemblerIndex.Proofs.Context.Snapshots
import AssemblerIndex.Proofs.Statement.OperandLayout
import AssemblerIndex.Proofs.Index.MacroCalls
import AssemblerIndex.Proofs.Index.ScopedReferences
import AssemblerIndex.Proofs.Macro.Arguments
import AssemblerIndex.Proofs.Expression.CharacterExpressions
import AssemblerIndex.Proofs.Assembly.BranchCounter
import AssemblerIndex.Proofs.Symbol.Sections
import AssemblerIndex.Proofs.Symbol.Sums
import AssemblerIndex.Proofs.Assembly.StorageLayout
import AssemblerIndex.Proofs.Symbol.FirstDefinitions
import AssemblerIndex.Proofs.Context.Synonyms
import AssemblerIndex.Proofs.Assembly.CapturedDefinitions
import AssemblerIndex.Proofs.Assembly.ElementAssignments
import AssemblerIndex.Proofs.Assembly.MacroFrames
import AssemblerIndex.Proofs.Index.OccurrenceAt
import AssemblerIndex.Proofs.Index.MacroDocumentation
import AssemblerIndex.Proofs.Index.InstructionField
import AssemblerIndex.Proofs.Expression.TermOperands
import AssemblerIndex.Proofs.Expression.CursorBounds
import AssemblerIndex.Proofs.Assembly.DataFaults
import AssemblerIndex.Proofs.Text.SourceLines
import AssemblerIndex.Proofs.Assembly.Returns
