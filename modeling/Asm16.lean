import Asm16.Arith.Value
import Asm16.Assembly
import Asm16.Command.Run
import Asm16.Listing
import Asm16.Main
import Asm16.Project.Settings
import Asm16.Token.Lexer
import Asm16.Proofs.Laid
import Asm16.Proofs.Sizes
import Asm16.Proofs.Decoding
import Asm16.Proofs.Flattening
import Asm16.Proofs.Ledgers
import Asm16.Proofs.Scopes
import Asm16.Proofs.Labels
import Asm16.Proofs.Ascending
import Asm16.Proofs.Includes
import Asm16.Proofs.Cycles
import Asm16.Proofs.Leading
import Asm16.Proofs.Applied
import Asm16.Proofs.SourceText
import Asm16.Proofs.Alike
import Asm16.Proofs.Inlining
import Asm16.Proofs.Numerals
import Asm16.Proofs.Printed
import Asm16.Proofs.SingleLine
import Asm16.Proofs.Reassembly
import Asm16.Proofs.Covering
import Asm16.Proofs.Sweeps
import Asm16.Proofs.Grammar
import Asm16.Proofs.Literals
import Asm16.Proofs.Normalized
import Asm16.Proofs.Spelling
import Asm16.Proofs.Arithmetic
import Asm16.Proofs.Parting
import Asm16.Proofs.DataArithmetic
import Asm16.Proofs.DataSeries
import Asm16.Proofs.LineShapes
import Asm16.Proofs.Unrecognised
import Asm16.Proofs.LateErrors
import Asm16.Proofs.CaseFolding
import Asm16.Proofs.TableCalls
import Asm16.Proofs.ImageFiles
import Asm16.Proofs.Offsets
import Asm16.Proofs.LineInFront
import Asm16.Proofs.WordSources
import Asm16.Proofs.Moving
import Asm16.Proofs.Leftover
import Asm16.Proofs.Replacement
import Asm16.Proofs.DefineLines
import Asm16.Proofs.Stopping
import Asm16.Proofs.Lexemes
import Asm16.Proofs.LabelDefinitions
import Asm16.Proofs.QualifiedNames
import Asm16.Proofs.OperandGrammar
import Asm16.Proofs.ExpressionTexts
import Asm16.Proofs.Outcomes
import Asm16.Proofs.OperandPlaces
import Asm16.Proofs.Synonyms
import Asm16.Proofs.Disassembly
import Asm16.Proofs.DefineLimits
import Asm16.Proofs.Strings
import Asm16.Proofs.Comments
import Asm16.Proofs.StringData
import Asm16.Proofs.WholeWords
import Asm16.Proofs.NumberWords
import Asm16.Proofs.Predefines
