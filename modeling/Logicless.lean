import Logicless.Attempt
import Logicless.Cache
import Logicless.Cache.Computation
import Logicless.Cache.SharedKey
import Logicless.Cache.Shelf
import Logicless.CommandLine
import Logicless.CommandLine.Arguments
import Logicless.Config
import Logicless.Config.Inspect
import Logicless.Config.Json
import Logicless.Context
import Logicless.Context.Openings
import Logicless.Decimal.Read
import Logicless.Decimal.Shortest
import Logicless.Disk
import Logicless.Engine
import Logicless.Engine.Build
import Logicless.Engine.Inspect
import Logicless.Error
import Logicless.Hint
import Logicless.Json
import Logicless.Json.Number
import Logicless.Key
import Logicless.Locator
import Logicless.Lookup
import Logicless.Main
import Logicless.Proofs.Accounting
import Logicless.Proofs.Binding
import Logicless.Proofs.Census
import Logicless.Proofs.Chain
import Logicless.Proofs.Company
import Logicless.Proofs.Compilation
import Logicless.Proofs.Conservation
import Logicless.Proofs.Course
import Logicless.Proofs.Custody
import Logicless.Proofs.Delimiting
import Logicless.Proofs.Depth
import Logicless.Proofs.DocumentOrder
import Logicless.Proofs.Entities
import Logicless.Proofs.Escaping
import Logicless.Proofs.Excerpt
import Logicless.Proofs.Fetch
import Logicless.Proofs.Filing
import Logicless.Proofs.Founding
import Logicless.Proofs.Frame
import Logicless.Proofs.Inclusion
import Logicless.Proofs.Lease
import Logicless.Proofs.Leasing
import Logicless.Proofs.Lines
import Logicless.Proofs.Loading
import Logicless.Proofs.Lookup
import Logicless.Proofs.Machine
import Logicless.Proofs.Memory
import Logicless.Proofs.Mirror
import Logicless.Proofs.Nesting
import Logicless.Proofs.Numbering
import Logicless.Proofs.Outline
import Logicless.Proofs.Output
import Logicless.Proofs.Pairing
import Logicless.Proofs.Passage
import Logicless.Proofs.Printing
import Logicless.Proofs.Reading
import Logicless.Proofs.Recall
import Logicless.Proofs.Recency
import Logicless.Proofs.Recollection
import Logicless.Proofs.Recompilation
import Logicless.Proofs.Recursion
import Logicless.Proofs.Renaming
import Logicless.Proofs.Renaming.Build
import Logicless.Proofs.Renaming.Cache
import Logicless.Proofs.Renaming.Execution
import Logicless.Proofs.Renaming.Lookup
import Logicless.Proofs.Renaming.Session
import Logicless.Proofs.Renaming.Source
import Logicless.Proofs.Renaming.Step
import Logicless.Proofs.Renaming.Store
import Logicless.Proofs.Renaming.Tree
import Logicless.Proofs.Renumbering
import Logicless.Proofs.Repetition
import Logicless.Proofs.Retention
import Logicless.Proofs.RoundTrip
import Logicless.Proofs.Scalars
import Logicless.Proofs.Scoping
import Logicless.Proofs.Segments
import Logicless.Proofs.Session
import Logicless.Proofs.Settling
import Logicless.Proofs.Shape
import Logicless.Proofs.Slots
import Logicless.Proofs.Step
import Logicless.Proofs.Termination
import Logicless.Proofs.Tiling
import Logicless.Proofs.Transparency
import Logicless.Proofs.Writing
import Logicless.Render
import Logicless.Resolver
import Logicless.Segment
import Logicless.Segment.Tree
import Logicless.Segment.Walk
import Logicless.Store
import Logicless.Template
import Logicless.Text.Blank
import Logicless.Text.Bytes
import Logicless.Text.Escape
import Logicless.Text.Pieces
import Logicless.Text.Printable
import Logicless.Text.Record
import Logicless.Text.Search
import Logicless.Token
import Logicless.Token.Lexer
import Logicless.Token.Line
import Logicless.Value
import Logicless.Value.Json
import Logicless.Value.Text
