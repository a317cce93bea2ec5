import WireSchema.ErrorReport.Reader
import WireSchema.Main
import WireSchema.Proofs.Elaboration
import WireSchema.Proofs.OptionWarnings
import WireSchema.Proofs.LogThreading
import WireSchema.Proofs.StructChecks
import WireSchema.Proofs.Acceptance
import WireSchema.Proofs.FixedSizes
import WireSchema.Proofs.Grammar
import WireSchema.Proofs.Derivations
import WireSchema.Proofs.EndOfText
import WireSchema.Proofs.Gathering
import WireSchema.Proofs.Numerals
import WireSchema.Proofs.Spelling
import WireSchema.Proofs.Layout
import WireSchema.Proofs.Findings
import WireSchema.Proofs.FirstFinding
import WireSchema.Proofs.Guarantees
import WireSchema.Proofs.Reordering
import WireSchema.Proofs.Extension
import WireSchema.Proofs.Concatenation
import WireSchema.Proofs.WrittenTokens
import WireSchema.Proofs.EarliestFault
import WireSchema.Proofs.ShortestDecimal
import WireSchema.Proofs.NumberText
import WireSchema.Proofs.JsonText
import WireSchema.Proofs.JsonSpacing
import WireSchema.Proofs.JsonReading
import WireSchema.Proofs.ReportReading
import WireSchema.Proofs.FiniteFloats
import WireSchema.Proofs.SchemaText
import WireSchema.Proofs.PrintedSchema
import WireSchema.Proofs.TypeNames
import WireSchema.Proofs.DefaultLengths
import WireSchema.Proofs.LongestNumber
import WireSchema.Proofs.OversizedStructs
import WireSchema.Proofs.PlanContents
import WireSchema.Proofs.DiagnosticTrace
import WireSchema.Proofs.TableWrites
import WireSchema.Proofs.LoopProgress
import WireSchema.Proofs.Retouching
import WireSchema.Proofs.Overwriting
import WireSchema.Proofs.SettingsText
import WireSchema.Proofs.CommandOutcome
import WireSchema.Proofs.IntegerLiterals
