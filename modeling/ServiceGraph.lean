import ServiceGraph.Annotations
import ServiceGraph.CommandLine.Options
import ServiceGraph.CommandLine.Run
import ServiceGraph.Dict
import ServiceGraph.Discovery
import ServiceGraph.Disk.Basic
import ServiceGraph.Disk.Error
import ServiceGraph.Disk.Path
import ServiceGraph.Environment
import ServiceGraph.Event
import ServiceGraph.Grammar.Automaton
import ServiceGraph.Grammar.Parse
import ServiceGraph.Grammar.Part
import ServiceGraph.Grammar.Rule
import ServiceGraph.Grammar.Stacks
import ServiceGraph.Grammar.Table
import ServiceGraph.Graph.Adjacency
import ServiceGraph.Graph.Basic
import ServiceGraph.Graph.Matching
import ServiceGraph.Graph.Report
import ServiceGraph.Json.Basic
import ServiceGraph.Json.Printer
import ServiceGraph.Json.Reader
import ServiceGraph.Json.Record
import ServiceGraph.Main
import ServiceGraph.Number.Binary64
import ServiceGraph.Number.Decimal
import ServiceGraph.Number.Numeral
import ServiceGraph.Program.Basic
import ServiceGraph.Program.Build
import ServiceGraph.Program.Codec
import ServiceGraph.Program.Draft
import ServiceGraph.Project.Discover
import ServiceGraph.Project.Error
import ServiceGraph.Project.Load
import ServiceGraph.Project.Sources
import ServiceGraph.Proofs.Graph.Edges
import ServiceGraph.Proofs.Graph.Receivers
import ServiceGraph.Proofs.SortedSet
import ServiceGraph.Proofs.Walk.Activations
import ServiceGraph.Proofs.Walk.Blocks
import ServiceGraph.Proofs.Walk.Denotation
import ServiceGraph.Proofs.Walk.FirstFindings
import ServiceGraph.Proofs.Walk.Repetition
import ServiceGraph.Proofs.Walk.Run
import ServiceGraph.Proofs.Walk.Step
import ServiceGraph.Settings
import ServiceGraph.Source.Bus
import ServiceGraph.Source.Comment
import ServiceGraph.Source.Node
import ServiceGraph.Source.Number
import ServiceGraph.Source.Parse
import ServiceGraph.Source.Phrase
import ServiceGraph.Source.Syntax
import ServiceGraph.Source.Token
import ServiceGraph.Text.Blank
import ServiceGraph.Text.Utf8
import ServiceGraph.Tree
import ServiceGraph.Walk.Callable
import ServiceGraph.Walk.Findings
import ServiceGraph.Walk.Resolve
import ServiceGraph.Walk.Stack
import ServiceGraph.Walk.Visit
import ServiceGraph.Proofs.Graph.Grouping
import ServiceGraph.Proofs.Graph.Nodes
import ServiceGraph.Proofs.Walk.Nesting
import ServiceGraph.Proofs.Walk.Limits
import ServiceGraph.Proofs.Json.Spelling
import ServiceGraph.Proofs.Walk.Variables
import ServiceGraph.Proofs.Json.Reading
import ServiceGraph.Proofs.Json.Record
import ServiceGraph.Proofs.Number.Doubles
import ServiceGraph.Proofs.Text.Utf8
import ServiceGraph.Proofs.Program.Codec
import ServiceGraph.Proofs.RoundTrip
import ServiceGraph.Proofs.Graph.Report
import ServiceGraph.Proofs.Walk.Unboxing
import ServiceGraph.Proofs.Project.Load
import ServiceGraph.Proofs.Walk.Targets
import ServiceGraph.Proofs.Disk.Place
import ServiceGraph.Proofs.Disk.Locality
import ServiceGraph.Proofs.Project.Services
import ServiceGraph.Proofs.Project.Schedule
import ServiceGraph.Proofs.Project.Independence
import ServiceGraph.Proofs.Walk.Binding
import ServiceGraph.Proofs.Walk.Variadic
import ServiceGraph.Proofs.Walk.Agreement
import ServiceGraph.Proofs.Walk.Depth
import ServiceGraph.Proofs.Program.Drafts
import ServiceGraph.Proofs.Program.Filling
import ServiceGraph.Proofs.Program.Construction
import ServiceGraph.Proofs.Walk.Formatting
import ServiceGraph.Proofs.Graph.Producers
import ServiceGraph.Proofs.Graph.Stability
import ServiceGraph.Proofs.Annotations
import ServiceGraph.Proofs.Text.Cuts
import ServiceGraph.Proofs.Environment.Lines
import ServiceGraph.Proofs.Environment.Reading
import ServiceGraph.Proofs.Environment.Listing
import ServiceGraph.Proofs.AnnotationText
import ServiceGraph.Proofs.Graph.Writing
import ServiceGraph.Proofs.Source.Scan
import ServiceGraph.Proofs.Walk.Coverage
