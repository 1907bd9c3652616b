import FormulaUpgrade.CommandLine.Arguments
import FormulaUpgrade.CommandLine.Files
import FormulaUpgrade.CommandLine.MappingFile
import FormulaUpgrade.CommandLine.Session
import FormulaUpgrade.CommandLine.Usage
import FormulaUpgrade.Conversion.Catalogue
import FormulaUpgrade.Conversion.Context
import FormulaUpgrade.Conversion.Emit
import FormulaUpgrade.Conversion.Grouping
import FormulaUpgrade.Conversion.Report
import FormulaUpgrade.Conversion.Rules
import FormulaUpgrade.Conversion.Run
import FormulaUpgrade.Decimal.Binary64
import FormulaUpgrade.Decimal.Shortest
import FormulaUpgrade.Formula.Basic
import FormulaUpgrade.Formula.Nesting
import FormulaUpgrade.Formula.Normal
import FormulaUpgrade.Formula.Reading
import FormulaUpgrade.Host
import FormulaUpgrade.Json.Display
import FormulaUpgrade.Json.Fault
import FormulaUpgrade.Json.Mentions
import FormulaUpgrade.Json.Reader
import FormulaUpgrade.Json.StringBody
import FormulaUpgrade.Json.Value
import FormulaUpgrade.Json.Writer
import FormulaUpgrade.Log
import FormulaUpgrade.Main
import FormulaUpgrade.Proofs.CommandLine.Arguments
import FormulaUpgrade.Proofs.CommandLine.Diagnostics
import FormulaUpgrade.Proofs.CommandLine.Exit
import FormulaUpgrade.Proofs.CommandLine.LoadedTypes
import FormulaUpgrade.Proofs.CommandLine.Printing
import FormulaUpgrade.Proofs.Conversion.Accumulators
import FormulaUpgrade.Proofs.Conversion.Dependence
import FormulaUpgrade.Proofs.Conversion.Explanation
import FormulaUpgrade.Proofs.Conversion.FixedPoint
import FormulaUpgrade.Proofs.Conversion.Grouping
import FormulaUpgrade.Proofs.Conversion.Issues
import FormulaUpgrade.Proofs.Conversion.Layout
import FormulaUpgrade.Proofs.Conversion.Occurrences
import FormulaUpgrade.Proofs.Formula.Errors
import FormulaUpgrade.Proofs.Formula.Reading
import FormulaUpgrade.Proofs.Formula.Representation
import FormulaUpgrade.Proofs.Json.StandIns
import FormulaUpgrade.Proofs.Parser.Continuation
import FormulaUpgrade.Proofs.Property.Declarations
import FormulaUpgrade.Proofs.Property.Names
import FormulaUpgrade.Proofs.Property.Precedence
import FormulaUpgrade.Proofs.StringLiteral.Value
import FormulaUpgrade.Proofs.Text.Utf8
import FormulaUpgrade.Proofs.Token.Classes
import FormulaUpgrade.Proofs.Token.Pattern
import FormulaUpgrade.Proofs.Token.Scan
import FormulaUpgrade.Property.Kind
import FormulaUpgrade.Property.Mapping
import FormulaUpgrade.Property.Reference
import FormulaUpgrade.StringLiteral
import FormulaUpgrade.SyntaxTree.Basic
import FormulaUpgrade.SyntaxTree.Nesting
import FormulaUpgrade.SyntaxTree.Parser
import FormulaUpgrade.SyntaxTree.Text
import FormulaUpgrade.Table
import FormulaUpgrade.Text.Blank
import FormulaUpgrade.Text.DecimalDigit
import FormulaUpgrade.Text.Hex
import FormulaUpgrade.Text.Lines
import FormulaUpgrade.Text.Printable
import FormulaUpgrade.Text.Quoted
import FormulaUpgrade.Text.Surrogates
import FormulaUpgrade.Text.Utf8
import FormulaUpgrade.Token.Basic
import FormulaUpgrade.Token.Lexeme
import FormulaUpgrade.Token.Lexer
