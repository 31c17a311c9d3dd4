import PhpMembers.Classes.Hierarchy
import PhpMembers.Classes.Snapshot
import PhpMembers.Classes.Table
import PhpMembers.Name
import PhpMembers.Proofs.Classes.Ancestry
import PhpMembers.Proofs.Classes.Arguments
import PhpMembers.Proofs.Classes.Building
import PhpMembers.Proofs.Classes.Declared
import PhpMembers.Proofs.Classes.Enclosing
import PhpMembers.Proofs.Classes.Exploration
import PhpMembers.Proofs.Classes.Hints
import PhpMembers.Proofs.Classes.Insertion
import PhpMembers.Proofs.Classes.Instances
import PhpMembers.Proofs.Classes.Known
import PhpMembers.Proofs.Classes.Members
import PhpMembers.Proofs.Classes.Unrelated
import PhpMembers.Proofs.Printing.Entries
import PhpMembers.Proofs.Printing.Pieces
import PhpMembers.Proofs.Printing.Reading
import PhpMembers.Proofs.Printing.Running
import PhpMembers.Proofs.Printing.Skeletons
import PhpMembers.Proofs.Search.Accesses
import PhpMembers.Proofs.Search.Candidates
import PhpMembers.Proofs.Search.Diagnostics
import PhpMembers.Proofs.Search.Filters
import PhpMembers.Proofs.Search.Names
import PhpMembers.Proofs.Search.Order
import PhpMembers.Proofs.Search.OwnIndex
import PhpMembers.Proofs.Search.Policy
import PhpMembers.Proofs.Search.Retargeting
import PhpMembers.Proofs.Search.Rewriting
import PhpMembers.Proofs.Search.Rules
import PhpMembers.Proofs.Search.Spelling
import PhpMembers.Proofs.Search.Target
import PhpMembers.Proofs.Source.ClassNames
import PhpMembers.Proofs.Source.Imports
import PhpMembers.Proofs.Source.Marks
import PhpMembers.Proofs.Source.Parts
import PhpMembers.Proofs.Source.Regions
import PhpMembers.Proofs.Source.Rewritten
import PhpMembers.Proofs.Source.TagLines
import PhpMembers.Proofs.Source.Tags
import PhpMembers.Proofs.Syntax.Applied
import PhpMembers.Proofs.Syntax.Braces
import PhpMembers.Proofs.Syntax.Callees
import PhpMembers.Proofs.Syntax.Damage
import PhpMembers.Proofs.Syntax.Descent
import PhpMembers.Proofs.Syntax.Following
import PhpMembers.Proofs.Syntax.Fronts
import PhpMembers.Proofs.Syntax.Guards
import PhpMembers.Proofs.Syntax.LabelledStrings
import PhpMembers.Proofs.Syntax.Leaves
import PhpMembers.Proofs.Syntax.LetterCase
import PhpMembers.Proofs.Syntax.Lossless
import PhpMembers.Proofs.Syntax.Moves
import PhpMembers.Proofs.Syntax.Naming
import PhpMembers.Proofs.Syntax.Nesting
import PhpMembers.Proofs.Syntax.Operands
import PhpMembers.Proofs.Syntax.Operators
import PhpMembers.Proofs.Syntax.Outlines
import PhpMembers.Proofs.Syntax.Pairing
import PhpMembers.Proofs.Syntax.Parents
import PhpMembers.Proofs.Syntax.Placement
import PhpMembers.Proofs.Syntax.Places
import PhpMembers.Proofs.Syntax.Precedence
import PhpMembers.Proofs.Syntax.Progress
import PhpMembers.Proofs.Syntax.Recasing
import PhpMembers.Proofs.Syntax.Recovery
import PhpMembers.Proofs.Syntax.Replaced
import PhpMembers.Proofs.Syntax.StatementEnds
import PhpMembers.Proofs.Syntax.Targets
import PhpMembers.Proofs.Syntax.Termination
import PhpMembers.Proofs.Syntax.Tiling
import PhpMembers.Proofs.Syntax.Tokens
import PhpMembers.Proofs.Syntax.Trimmed
import PhpMembers.Proofs.Syntax.Trivia
import PhpMembers.Proofs.Syntax.Types
import PhpMembers.Proofs.Text.Positions
import PhpMembers.Proofs.Typing.Comments
import PhpMembers.Proofs.Typing.Depth
import PhpMembers.Proofs.Typing.Documented
import PhpMembers.Proofs.Typing.Latest
import PhpMembers.Proofs.Typing.Levels
import PhpMembers.Proofs.Typing.Receivers
import PhpMembers.Proofs.Typing.Scopes
import PhpMembers.Proofs.Typing.TypeNames
import PhpMembers.Proofs.Workspace.Additions
import PhpMembers.Proofs.Workspace.Freshness
import PhpMembers.Proofs.Workspace.GivenFiles
import PhpMembers.Search.Analysis
import PhpMembers.Search.Diagnostic
import PhpMembers.Search.Find
import PhpMembers.Search.Query
import PhpMembers.Search.Site
import PhpMembers.Search.Verdict
import PhpMembers.Source.Declaration
import PhpMembers.Source.DocComment
import PhpMembers.Source.Expression
import PhpMembers.Source.Namespace
import PhpMembers.Source.Written
import PhpMembers.Syntax.Cursor
import PhpMembers.Syntax.Fault
import PhpMembers.Syntax.Grammar.Declaration
import PhpMembers.Syntax.Grammar.Expression
import PhpMembers.Syntax.Grammar.Rule
import PhpMembers.Syntax.Grammar.Statement
import PhpMembers.Syntax.Kind
import PhpMembers.Syntax.Parse
import PhpMembers.Syntax.Production
import PhpMembers.Syntax.Scan
import PhpMembers.Syntax.Token
import PhpMembers.Syntax.Tree
import PhpMembers.Text.Alphanumeric
import PhpMembers.Text.Blank
import PhpMembers.Text.Identifier
import PhpMembers.Text.Lines
import PhpMembers.Text.XidContinue
import PhpMembers.Text.XidStart
import PhpMembers.Typing.Binding
import PhpMembers.Typing.Inference
import PhpMembers.Typing.StaticType
import PhpMembers.Workspace.Cache
import PhpMembers.Workspace.FileTree
import PhpMembers.Workspace.Session
import PhpMembers.Workspace.SourceFile
