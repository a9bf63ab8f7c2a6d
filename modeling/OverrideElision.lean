import OverrideElision.Text.Blank
import OverrideElision.Text.Word
import OverrideElision.Text.Lines
import OverrideElision.Text.Quoted
import OverrideElision.Text.UpperCase
import OverrideElision.Text.Utf8
import OverrideElision.NameSet
import OverrideElision.Table
import OverrideElision.Doc.Comment
import OverrideElision.Tree.Program
import OverrideElision.Tree.Walk
import OverrideElision.Index
import OverrideElision.Elision
import OverrideElision.Report.Document
import OverrideElision.Report.Summary
import OverrideElision.Syntax.Reading
import OverrideElision.Main
import OverrideElision.JavaScript.Grammar
import OverrideElision.Proofs.Reference
import OverrideElision.Proofs.Members
import OverrideElision.Proofs.Forwarding
import OverrideElision.Proofs.Superclass
import OverrideElision.Proofs.Records
import OverrideElision.Proofs.Placement
import OverrideElision.Proofs.Verdict
import OverrideElision.Proofs.Removal
import OverrideElision.Proofs.Deletion
import OverrideElision.Proofs.Survivors
import OverrideElision.Proofs.Dispatch
import OverrideElision.Proofs.ReturnValues
import OverrideElision.Proofs.Idempotence
import OverrideElision.Proofs.Invocation
import OverrideElision.Proofs.Rearrangement
import OverrideElision.Proofs.Scoping
import OverrideElision.Proofs.Signatures
import OverrideElision.Proofs.Redefinition
import OverrideElision.Proofs.Defaults
import OverrideElision.Proofs.Inheritance
import OverrideElision.Proofs.Matching
import OverrideElision.Proofs.Syntax.Groups
import OverrideElision.Proofs.Syntax.Comments
import OverrideElision.Proofs.Doc.Gathering
import OverrideElision.Proofs.Doc.Blocks
import OverrideElision.Proofs.Log
import OverrideElision.Proofs.Syntax.Returns
import OverrideElision.Proofs.Syntax.Completion
import OverrideElision.Proofs.Report.Document
import OverrideElision.Proofs.Files.Loading
import OverrideElision.Proofs.Doc.Extent
import OverrideElision.Proofs.Keys
import OverrideElision.Proofs.Walk.Addresses
import OverrideElision.Proofs.Index
