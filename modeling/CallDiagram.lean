import CallDiagram.Call.Declaration
import CallDiagram.Call.Graph
import CallDiagram.Call.Resolver
import CallDiagram.Call.Site
import CallDiagram.Call.Trace
import CallDiagram.Codebase.Basic
import CallDiagram.Codebase.Load
import CallDiagram.Codebase.Locate
import CallDiagram.Codebase.Lookup
import CallDiagram.Codebase.Member
import CallDiagram.CommandLine
import CallDiagram.Data.Decimal
import CallDiagram.Data.Json
import CallDiagram.Data.Json5
import CallDiagram.Data.Table
import CallDiagram.Data.Value
import CallDiagram.Diagram.Drawing
import CallDiagram.Diagram.Naming
import CallDiagram.EntryPoint
import CallDiagram.Failure
import CallDiagram.FileTree.Basic
import CallDiagram.FileTree.Lookup
import CallDiagram.Glob.Basic
import CallDiagram.Glob.Parser
import CallDiagram.Glob.Set
import CallDiagram.Main
import CallDiagram.Module.Finder
import CallDiagram.Module.Manifest
import CallDiagram.Module.PackageName
import CallDiagram.Module.Pattern
import CallDiagram.Outline.Basic
import CallDiagram.Outline.File
import CallDiagram.Outline.Script
import CallDiagram.Path.Basic
import CallDiagram.Path.Package
import CallDiagram.Path.Relative
import CallDiagram.Project.Load
import CallDiagram.Proofs.Call.Breadth
import CallDiagram.Proofs.Call.Callees
import CallDiagram.Proofs.Call.Discovery
import CallDiagram.Proofs.Call.FirstSeen
import CallDiagram.Proofs.Call.Insertion
import CallDiagram.Proofs.Call.Reach
import CallDiagram.Proofs.Call.Search
import CallDiagram.Proofs.Codebase.AddFile
import CallDiagram.Proofs.Codebase.ClassChain
import CallDiagram.Proofs.Codebase.Declare
import CallDiagram.Proofs.Codebase.Exported
import CallDiagram.Proofs.Codebase.Field
import CallDiagram.Proofs.Codebase.Followed
import CallDiagram.Proofs.Codebase.Hierarchy
import CallDiagram.Proofs.Codebase.Inherited
import CallDiagram.Proofs.Codebase.Load
import CallDiagram.Proofs.Codebase.Loading
import CallDiagram.Proofs.Codebase.Locate
import CallDiagram.Proofs.Codebase.Qualified
import CallDiagram.Proofs.Codebase.Readable
import CallDiagram.Proofs.Codebase.Receiver
import CallDiagram.Proofs.Codebase.Sides
import CallDiagram.Proofs.Codebase.Sources
import CallDiagram.Proofs.Codebase.WellFormed
import CallDiagram.Proofs.Diagram.Drawn
import CallDiagram.Proofs.Diagram.Groups
import CallDiagram.Proofs.Diagram.Keys
import CallDiagram.Proofs.Diagram.Lines
import CallDiagram.Proofs.Diagram.Names
import CallDiagram.Proofs.Diagram.Reachable
import CallDiagram.Proofs.Diagram.Reads
import CallDiagram.Proofs.EntryPoint
import CallDiagram.Proofs.Failure
import CallDiagram.Proofs.FileTree.Canonical
import CallDiagram.Proofs.FileTree.Place
import CallDiagram.Proofs.FileTree.Walk
import CallDiagram.Proofs.Glob.Literal
import CallDiagram.Proofs.Lookup.Answer
import CallDiagram.Proofs.Lookup.Chain
import CallDiagram.Proofs.Lookup.Derivable
import CallDiagram.Proofs.Lookup.Explored
import CallDiagram.Proofs.Lookup.Lead
import CallDiagram.Proofs.Lookup.Once
import CallDiagram.Proofs.Lookup.Search
import CallDiagram.Proofs.Lookup.Visible
import CallDiagram.Proofs.Module.Attempt
import CallDiagram.Proofs.Module.Candidate
import CallDiagram.Proofs.Module.Finder
import CallDiagram.Proofs.Module.Order
import CallDiagram.Proofs.Module.Package
import CallDiagram.Proofs.Module.PackageName
import CallDiagram.Proofs.Module.Pattern
import CallDiagram.Proofs.Module.Reentry
import CallDiagram.Proofs.Module.Termination
import CallDiagram.Proofs.Outline.CallSites
import CallDiagram.Proofs.Outline.Overloads
import CallDiagram.Proofs.Outline.Statement
import CallDiagram.Proofs.Path.Ancestors
import CallDiagram.Proofs.Path.Characters
import CallDiagram.Proofs.Path.Location
import CallDiagram.Proofs.Path.Package
import CallDiagram.Proofs.Path.Relative
import CallDiagram.Proofs.Path.Steps
import CallDiagram.Proofs.Project.Directories
import CallDiagram.Proofs.Project.Files
import CallDiagram.Proofs.Project.Members
import CallDiagram.Proofs.Renumbering.Agree
import CallDiagram.Proofs.Renumbering.Drawing
import CallDiagram.Proofs.Renumbering.File
import CallDiagram.Proofs.Renumbering.Lookup
import CallDiagram.Proofs.Renumbering.Member
import CallDiagram.Proofs.Renumbering.Related
import CallDiagram.Proofs.Renumbering.Shared
import CallDiagram.Proofs.Settings.Chain
import CallDiagram.Proofs.Settings.Lineage
import CallDiagram.Proofs.Settings.Read
import CallDiagram.Proofs.Settings.Sorted
import CallDiagram.Proofs.Source.Preorder
import CallDiagram.Proofs.Text.Cut
import CallDiagram.Proofs.Text.Key
import CallDiagram.Proofs.Text.Order
import CallDiagram.Proofs.Text.Quoted
import CallDiagram.Proofs.Text.Trim
import CallDiagram.Request
import CallDiagram.Settings.Basic
import CallDiagram.Settings.Load
import CallDiagram.Source.Cursor
import CallDiagram.Source.Dialect
import CallDiagram.Source.Grammar.Basic
import CallDiagram.Source.Grammar.Binding
import CallDiagram.Source.Grammar.Class
import CallDiagram.Source.Grammar.Damage
import CallDiagram.Source.Grammar.Expression
import CallDiagram.Source.Grammar.Markup
import CallDiagram.Source.Grammar.Script
import CallDiagram.Source.Grammar.Statement
import CallDiagram.Source.Grammar.Type
import CallDiagram.Source.Node
import CallDiagram.Source.Statement
import CallDiagram.Source.Token
import CallDiagram.Text.Blank
import CallDiagram.Text.Cut
import CallDiagram.Text.Letter
import CallDiagram.Text.Order
import CallDiagram.Text.Quoted
