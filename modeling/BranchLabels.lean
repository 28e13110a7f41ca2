import BranchLabels.Main
import BranchLabels.Proofs.SecondPass
import BranchLabels.Session
import BranchLabels.Proofs.Segmentation
import BranchLabels.Proofs.Refusal
import BranchLabels.Proofs.Declarations
import BranchLabels.Proofs.Report
import BranchLabels.Proofs.Metadata
import BranchLabels.Proofs.Independence
import BranchLabels.Proofs.Store
import BranchLabels.Proofs.Template
import BranchLabels.Proofs.Run
import BranchLabels.Proofs.Json
import BranchLabels.Proofs.Text.Utf8
import BranchLabels.Proofs.Export
import BranchLabels.Proofs.Saving
import BranchLabels.Proofs.Artifacts
import BranchLabels.Proofs.Splicing
import BranchLabels.Proofs.Grammar
import BranchLabels.Proofs.ExactTarget
import BranchLabels.Proofs.Relocation
import BranchLabels.Proofs.NameSafety
import BranchLabels.Proofs.LiteralGrammar
import BranchLabels.Proofs.NameOrder
import BranchLabels.Proofs.OctetLines
import BranchLabels.Proofs.Edits
import BranchLabels.Proofs.OperandSpan
