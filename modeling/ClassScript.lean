import ClassScript.Main
import ClassScript.Report
import ClassScript.Snapshot
import ClassScript.Proofs.Json5.Cycles
import ClassScript.Proofs.Parsing.Inversion
import ClassScript.Proofs.Checked
import ClassScript.Proofs.FinalBody
import ClassScript.Proofs.LoopControl
import ClassScript.Proofs.Modules
import ClassScript.Proofs.NestedClasses
import ClassScript.Proofs.FailedDeclarations
import ClassScript.Proofs.ModuleCopies
import ClassScript.Proofs.Overloads.Choosing
import ClassScript.Proofs.Parsing.Formatting
import ClassScript.Proofs.Parsing.LiteralText
import ClassScript.Proofs.Parsing.Holes
import ClassScript.Proofs.Lexing.Respacing
import ClassScript.Proofs.Parsing.Spans
import ClassScript.Proofs.Equality.Negation
import ClassScript.Proofs.Equality.Structure
import ClassScript.Proofs.Json5.Codes
import ClassScript.Proofs.Ranges
import ClassScript.Proofs.Arithmetic
import ClassScript.Proofs.Inheritance.Fields
import ClassScript.Proofs.Searching
import ClassScript.Proofs.Json5.Integers
import ClassScript.Proofs.Enumerators
import ClassScript.Proofs.EnumMembers
