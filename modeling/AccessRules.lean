import AccessRules.Arity.Json
import AccessRules.Binding.History
import AccessRules.CommandLine
import AccessRules.Evaluation.Failure
import AccessRules.Evaluation.Recording
import AccessRules.FactFile.Argument
import AccessRules.FactFile.Format
import AccessRules.FactTable.Growth
import AccessRules.FileTree
import AccessRules.Main
import AccessRules.OperationTable.History
import AccessRules.Program.Level
import AccessRules.Program.Tree
import AccessRules.ProgramCache.History
import AccessRules.Proofs.Program.Brackets
import AccessRules.Proofs.Program.Postorder
import AccessRules.Proofs.ProgramCache.Soundness
import AccessRules.Proofs.Rule.Refusal
import AccessRules.Rule.Expression
import AccessRules.Token.Canonical
import AccessRules.Proofs.Evaluation.Asking
import AccessRules.Proofs.Evaluation.Grants
import AccessRules.Proofs.Evaluation.Names
import AccessRules.Proofs.Evaluation.Trees
import AccessRules.Proofs.Evaluation.Verdict
import AccessRules.Proofs.FactTable.Growth
import AccessRules.Proofs.Program.Levels
import AccessRules.Proofs.ProgramCache.Transparency
import AccessRules.Proofs.Rule.Composition
import AccessRules.Proofs.Rule.Meaning
import AccessRules.Proofs.FactFile.Decision
import AccessRules.Proofs.FactFile.Loading
import AccessRules.Proofs.FactTable.Loading
import AccessRules.Proofs.Json.Items
import AccessRules.Proofs.Json.RoundTrip
import AccessRules.Proofs.Program.Exchange
import AccessRules.Proofs.ProgramCache.Contents
import AccessRules.Proofs.FactFile.Order
import AccessRules.Proofs.Json.Pretty
import AccessRules.Proofs.CommandLine.Arguments
import AccessRules.Proofs.CommandLine.Check
import AccessRules.Proofs.CommandLine.Status
import AccessRules.Proofs.FactTable.Honour
import AccessRules.Proofs.FactFile.Labels
import AccessRules.Proofs.Evaluation.WellFormed
import AccessRules.Proofs.Program.Conservation
import AccessRules.Proofs.Program.Grouping
import AccessRules.Proofs.Token.WrittenOut
import AccessRules.Proofs.Binding.LastWrite
import AccessRules.Proofs.Token.Literals
import AccessRules.Proofs.Token.Splitting
import AccessRules.Proofs.Program.Printed
import AccessRules.Proofs.CommandLine.Inspection
import AccessRules.Proofs.Program.Waiting
import AccessRules.Proofs.OperationTable.Dispatch
