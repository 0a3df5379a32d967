import ParserKit.Eval
import ParserKit.Lexer.Literal
import ParserKit.Lexer.Word
import ParserKit.Parser.Custom
import ParserKit.Runner
import ParserKit.Walk
import ParserKit.Proofs.Motion
import ParserKit.Proofs.Comparison
import ParserKit.Proofs.Meaning
import ParserKit.Proofs.Trampoline
import ParserKit.Proofs.Lookups
import ParserKit.Proofs.Consumption
import ParserKit.Proofs.Associativity
import ParserKit.Proofs.Agreement
import ParserKit.Proofs.Renaming
import ParserKit.Proofs.Transparency
import ParserKit.Proofs.Assembly
import ParserKit.Proofs.TokenLabels
import ParserKit.Proofs.Identity
import ParserKit.Proofs.Termination
import ParserKit.Proofs.Reading
import ParserKit.Proofs.Peg
import ParserKit.Proofs.PegAgreement
import ParserKit.Proofs.Unfolding
import ParserKit.Proofs.Places
import ParserKit.Proofs.Packrat
import ParserKit.Proofs.Counting
import ParserKit.Proofs.Naming
import ParserKit.Proofs.Composition
import ParserKit.Proofs.Rendering
import ParserKit.Proofs.Leaves
import ParserKit.Proofs.Diagnosis
import ParserKit.Proofs.Pointing
import ParserKit.Proofs.Safety
import ParserKit.Proofs.Displacement
import ParserKit.Proofs.Forms
import ParserKit.Proofs.Recursion
import ParserKit.Proofs.Runs
import ParserKit.Proofs.Scanning
import ParserKit.Proofs.WhiteSpace
import ParserKit.Proofs.Deciding
import ParserKit.Proofs.Literals
import ParserKit.Proofs.Words
import ParserKit.Proofs.Folding
import ParserKit.Proofs.Stores
import ParserKit.Proofs.Alternatives
import ParserKit.Proofs.Numerals
import ParserKit.Proofs.Naturals
import ParserKit.Proofs.Rebuilt
import ParserKit.Proofs.Integers
import ParserKit.Proofs.Committing
import ParserKit.Proofs.FloatTexts
import ParserKit.Proofs.Floats
import ParserKit.Proofs.Numbers
import ParserKit.Proofs.LineBreaks
import ParserKit.Proofs.Context
import ParserKit.Proofs.OpenComments
import ParserKit.Proofs.EndlessComments
import ParserKit.Proofs.LineComments
import ParserKit.Proofs.Trailing
import ParserKit.Proofs.Sequencing
import ParserKit.Proofs.Spelling
import ParserKit.Proofs.SeparatedLists
import ParserKit.Proofs.Repetition
