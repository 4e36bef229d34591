import StraightLine.Assembly.Basic
import StraightLine.Assembly.Machine
import StraightLine.Assembly.RegisterFile
import StraightLine.Assembly.Selection
import StraightLine.Build
import StraightLine.Code.Basic
import StraightLine.Code.Generator
import StraightLine.Code.Normal
import StraightLine.Code.Semantics
import StraightLine.Code.TempSupply
import StraightLine.CommandLine
import StraightLine.CommandLine.Arguments
import StraightLine.Compilation
import StraightLine.Disk
import StraightLine.FileStore
import StraightLine.Grammar
import StraightLine.Log
import StraightLine.Main
import StraightLine.ParseTree
import StraightLine.ParseTree.Meaning
import StraightLine.ParseTree.Reader
import StraightLine.Proofs.AcquisitionPolicy
import StraightLine.Proofs.AssemblyText
import StraightLine.Proofs.Calls
import StraightLine.Proofs.CodelessSyntax
import StraightLine.Proofs.Compilation
import StraightLine.Proofs.Declarations
import StraightLine.Proofs.Derivation
import StraightLine.Proofs.Encodable
import StraightLine.Proofs.ErrorPlace
import StraightLine.Proofs.Evaluation
import StraightLine.Proofs.Execution
import StraightLine.Proofs.FailedSteps
import StraightLine.Proofs.Failures
import StraightLine.Proofs.FreshTemporaries
import StraightLine.Proofs.Layout
import StraightLine.Proofs.Lexemes
import StraightLine.Proofs.Lexical
import StraightLine.Proofs.Linearity
import StraightLine.Proofs.Listings
import StraightLine.Proofs.Lowering
import StraightLine.Proofs.NormalFixpoints
import StraightLine.Proofs.NormalForm
import StraightLine.Proofs.Normalization
import StraightLine.Proofs.Parsing
import StraightLine.Proofs.RegisterBindings
import StraightLine.Proofs.RegisterFile
import StraightLine.Proofs.RegisterPressure
import StraightLine.Proofs.Renaming
import StraightLine.Proofs.Replay
import StraightLine.Proofs.Selection
import StraightLine.Proofs.SourceOrder
import StraightLine.Proofs.TableChanges
import StraightLine.Proofs.Tables
import StraightLine.Proofs.Translation
import StraightLine.Proofs.Viability
import StraightLine.Proofs.Warnings
import StraightLine.Proofs.WholeText
import StraightLine.Source
import StraightLine.SymbolTable
import StraightLine.Text.Blank
import StraightLine.Text.Decimal
import StraightLine.Text.Invisible
import StraightLine.Text.Lines
import StraightLine.Text.Quoted
import StraightLine.Text.Terminal
import StraightLine.Token
import StraightLine.Token.Scan
