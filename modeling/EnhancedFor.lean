import EnhancedFor.Change.Basic
import EnhancedFor.Change.Delta
import EnhancedFor.Change.Describe
import EnhancedFor.Change.Perform
import EnhancedFor.Change.Status
import EnhancedFor.Change.Validation
import EnhancedFor.Java.Identifier
import EnhancedFor.Java.Level
import EnhancedFor.Java.QualifiedName
import EnhancedFor.Json.Value
import EnhancedFor.Loop.Classification
import EnhancedFor.Loop.Convert
import EnhancedFor.Loop.Counted
import EnhancedFor.Loop.ImportEdit
import EnhancedFor.Loop.Imports
import EnhancedFor.Loop.Iterator
import EnhancedFor.Loop.Names
import EnhancedFor.Loop.Plan
import EnhancedFor.Loop.ProposalChange
import EnhancedFor.Loop.SourceChange
import EnhancedFor.Loop.VariableUse
import EnhancedFor.Name.Candidates
import EnhancedFor.Name.Suggestion
import EnhancedFor.Pattern.Basic
import EnhancedFor.Pattern.Escape
import EnhancedFor.Pattern.Reader
import EnhancedFor.Pattern.Support
import EnhancedFor.Settings.Basic
import EnhancedFor.Settings.Diagnostics
import EnhancedFor.Settings.Load
import EnhancedFor.Settings.LogFilter
import EnhancedFor.Settings.Schema
import EnhancedFor.Syntax.Amend
import EnhancedFor.Syntax.Builder
import EnhancedFor.Syntax.Layout
import EnhancedFor.Syntax.Node
import EnhancedFor.Syntax.Parents
import EnhancedFor.Syntax.Printer
import EnhancedFor.Syntax.Scope
import EnhancedFor.Syntax.Unit
import EnhancedFor.Syntax.Walk
import EnhancedFor.Text.Blank
import EnhancedFor.Text.Bytes
import EnhancedFor.Text.CodeRange
import EnhancedFor.Text.Edit
import EnhancedFor.Text.Hidden
import EnhancedFor.Text.Inverse
import EnhancedFor.Text.Letter
import EnhancedFor.Text.Quoted
import EnhancedFor.Text.Span
import EnhancedFor.Text.Unassigned
import EnhancedFor.Toml.Number
import EnhancedFor.Toml.Reader
import EnhancedFor.Toml.Value
import EnhancedFor.Types.Collections
import EnhancedFor.Types.Parameterize
import EnhancedFor.Types.Store
import EnhancedFor.Types.Supertype
import EnhancedFor.Proofs.Except
import EnhancedFor.Proofs.Lists
import EnhancedFor.Proofs.Name.Suggestion
import EnhancedFor.Proofs.Syntax.Tree
import EnhancedFor.Proofs.Text.Revision
import EnhancedFor.Proofs.Syntax.SingleUse
import EnhancedFor.Proofs.Loop.VariableUse
import EnhancedFor.Proofs.Loop.Classification
import EnhancedFor.Proofs.Loop.Lookups
import EnhancedFor.Proofs.Loop.OuterElement
import EnhancedFor.Proofs.Syntax.Parents
import EnhancedFor.Proofs.Loop.PlannedImports
import EnhancedFor.Proofs.Loop.Plan
import EnhancedFor.Proofs.Loop.Removal
import EnhancedFor.Proofs.Syntax.Layout
import EnhancedFor.Proofs.Syntax.Shape
import EnhancedFor.Proofs.Syntax.Printed
import EnhancedFor.Proofs.Syntax.Spans
import EnhancedFor.Proofs.Syntax.Marks
import EnhancedFor.Proofs.Syntax.Frames
import EnhancedFor.Proofs.Syntax.PrintedText
import EnhancedFor.Proofs.Syntax.Scopes
import EnhancedFor.Proofs.Syntax.NearestBlock
import EnhancedFor.Proofs.Loop.ImportList
import EnhancedFor.Proofs.Loop.ImportLines
import EnhancedFor.Proofs.Loop.ImportBlock
import EnhancedFor.Proofs.Loop.Rewrite
import EnhancedFor.Proofs.Loop.NodeEdits
import EnhancedFor.Proofs.Loop.Conversion
import EnhancedFor.Proofs.Text.Inverse
import EnhancedFor.Proofs.Change.TextUndo
import EnhancedFor.Proofs.Change.GroupUndo
import EnhancedFor.Proofs.Loop.IteratorUse
import EnhancedFor.Proofs.Loop.Occurrences
import EnhancedFor.Proofs.Loop.AdvanceOnce
import EnhancedFor.Proofs.Loop.IteratorCreation
import EnhancedFor.Proofs.Loop.HeadVariables
import EnhancedFor.Proofs.Loop.HeaderName
import EnhancedFor.Proofs.Change.Delta
import EnhancedFor.Proofs.Change.Validation
import EnhancedFor.Proofs.Loop.FieldElement
import EnhancedFor.Proofs.Types.Mentions
import EnhancedFor.Proofs.Loop.TypeSpelling
import EnhancedFor.Proofs.Loop.UnusedImports
import EnhancedFor.Proofs.Loop.LinkedNames
import EnhancedFor.Proofs.Loop.Accounting
import EnhancedFor.Proofs.Text.Splice
import EnhancedFor.Proofs.Text.Position
import EnhancedFor.Proofs.Change.Notices
import EnhancedFor.Proofs.Types.Interning
import EnhancedFor.Proofs.Types.Term
import EnhancedFor.Proofs.Types.Substitution
import EnhancedFor.Proofs.Types.Hierarchy
import EnhancedFor.Proofs.Types.Termination
import EnhancedFor.Proofs.Types.Kinds
import EnhancedFor.Proofs.Types.Lookup
import EnhancedFor.Proofs.Types.MentionOrder
import EnhancedFor.Proofs.Loop.ProposedNames
import EnhancedFor.Proofs.Syntax.Bindings
import EnhancedFor.Proofs.Syntax.PreOrder
import EnhancedFor.Proofs.Syntax.Ancestors
import EnhancedFor.Proofs.Syntax.Reprint
import EnhancedFor.Proofs.Loop.ImportOrder
