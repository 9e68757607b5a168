import SceneDiagram.Cancellation
import SceneDiagram.CommandLine.Arguments
import SceneDiagram.CommandLine.Discovery
import SceneDiagram.CommandLine.Program
import SceneDiagram.CommandLine.Run
import SceneDiagram.CommandLine.Settings
import SceneDiagram.Config
import SceneDiagram.Data
import SceneDiagram.Decimal
import SceneDiagram.Declaration
import SceneDiagram.Diagnostic
import SceneDiagram.Diagram
import SceneDiagram.Directory
import SceneDiagram.Disk
import SceneDiagram.Document
import SceneDiagram.Failure
import SceneDiagram.Generation
import SceneDiagram.Hierarchy.Cycle
import SceneDiagram.Hierarchy.Graph
import SceneDiagram.Hierarchy.Node
import SceneDiagram.Hierarchy.Registry
import SceneDiagram.Main
import SceneDiagram.Path
import SceneDiagram.Project
import SceneDiagram.Proofs.Basic
import SceneDiagram.Proofs.CommandLine.Changes
import SceneDiagram.Proofs.CommandLine.Documents
import SceneDiagram.Proofs.Diagram.LinkTarget
import SceneDiagram.Proofs.Diagram.OutputPath
import SceneDiagram.Proofs.Diagram.Unfolding
import SceneDiagram.Proofs.Directory.Standing
import SceneDiagram.Proofs.Disk
import SceneDiagram.Proofs.Generation
import SceneDiagram.Proofs.Hierarchy.Cycle
import SceneDiagram.Proofs.Hierarchy.FirstEdges
import SceneDiagram.Proofs.Hierarchy.Origin
import SceneDiagram.Proofs.Hierarchy.Registry
import SceneDiagram.Proofs.Hierarchy.Sweep
import SceneDiagram.Proofs.Hierarchy.Way
import SceneDiagram.Proofs.Hierarchy.Wiring
import SceneDiagram.Proofs.Path.Extension
import SceneDiagram.Proofs.Path.FileName
import SceneDiagram.Proofs.Path.Spelling
import SceneDiagram.Proofs.Path.Trail
import SceneDiagram.Proofs.Path.Way
import SceneDiagram.Proofs.Project
import SceneDiagram.Proofs.Scene.Elaboration
import SceneDiagram.Proofs.Scene.Lookup
import SceneDiagram.Proofs.Scene.Tree
import SceneDiagram.Proofs.Scene.Walk
import SceneDiagram.Proofs.Section.Grammar
import SceneDiagram.Proofs.Section.Reading
import SceneDiagram.Proofs.Text.Split
import SceneDiagram.Report
import SceneDiagram.Scene
import SceneDiagram.Scene.Elaboration
import SceneDiagram.Scene.Walk
import SceneDiagram.Section.Parser
import SceneDiagram.Span
import SceneDiagram.Text.Alphanumeric
import SceneDiagram.Text.Blank
import SceneDiagram.Text.CodePoint
import SceneDiagram.Text.PascalCase
import SceneDiagram.Text.Quoted
import SceneDiagram.Text.Split
import SceneDiagram.Text.Uppercase
import SceneDiagram.Token
import SceneDiagram.Token.Lexer
import SceneDiagram.Token.Number
import SceneDiagram.Toml.Document
import SceneDiagram.Toml.Quoted
import SceneDiagram.Toml.Scalar
import SceneDiagram.Toml.Table
import SceneDiagram.Toml.Value
import SceneDiagram.Value
import SceneDiagram.Warning
import SceneDiagram.Proofs.Section.Layout
import SceneDiagram.Proofs.Section.Extent
import SceneDiagram.Proofs.Section.Fault
import SceneDiagram.Proofs.Hierarchy.Groups
import SceneDiagram.Proofs.Generation.Collision
import SceneDiagram.Proofs.Hierarchy.Reordering
import SceneDiagram.Proofs.Diagram.Reordering
import SceneDiagram.Proofs.Generation.Reordering
import SceneDiagram.Proofs.Token.Number
import SceneDiagram.Proofs.Token.Spelling
import SceneDiagram.Proofs.Token.Tiling
import SceneDiagram.Proofs.Section.Moving
import SceneDiagram.Proofs.Section.Joining
import SceneDiagram.Proofs.Scene.Placing
import SceneDiagram.Proofs.Scene.LineEnding
import SceneDiagram.Proofs.Generation.Reporting
import SceneDiagram.Proofs.Scene.FileOrder
import SceneDiagram.Proofs.Hierarchy.Registration
import SceneDiagram.Proofs.Generation.Outcome
import SceneDiagram.Proofs.Directory.Walk
import SceneDiagram.Proofs.Disk.Effect
import SceneDiagram.Proofs.Disk.Below
import SceneDiagram.Proofs.CommandLine.Stale
import SceneDiagram.Proofs.CommandLine.Sweep
import SceneDiagram.Proofs.CommandLine.Earlier
import SceneDiagram.Proofs.CommandLine.Reading
import SceneDiagram.Proofs.CommandLine.Again
import SceneDiagram.Proofs.Diagram.Containment
import SceneDiagram.Proofs.Diagram.MemberLabel
import SceneDiagram.Proofs.Hierarchy.Backing
import SceneDiagram.Proofs.Text.ByteOrder
import SceneDiagram.Proofs.Diagram.ClassSections
import SceneDiagram.Proofs.Diagram.MemberLink
import SceneDiagram.Proofs.Hierarchy.Rewiring
import SceneDiagram.Proofs.Diagram.Nesting
import SceneDiagram.Proofs.Hierarchy.Fate
import SceneDiagram.Proofs.Hierarchy.Records
import SceneDiagram.Proofs.Hierarchy.Accounts
import SceneDiagram.Proofs.Hierarchy.SourceFile
import SceneDiagram.Proofs.Section.Within
import SceneDiagram.Proofs.Scene.BodyLine
import SceneDiagram.Proofs.Scene.Naming
import SceneDiagram.Proofs.Scene.Slices
import SceneDiagram.Proofs.Diagram.Framing
import SceneDiagram.Proofs.Token.Literal
import SceneDiagram.Proofs.Token.Quoting
import SceneDiagram.Proofs.Token.Word
import SceneDiagram.Proofs.Scene.Resources
import SceneDiagram.Proofs.CommandLine.Finding
import SceneDiagram.Proofs.Hierarchy.History
import SceneDiagram.Proofs.Text.Uppercase
import SceneDiagram.Proofs.Text.PascalCase
import SceneDiagram.Proofs.Section.Row
import SceneDiagram.Proofs.Section.Places
