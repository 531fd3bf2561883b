import RefGraph.Bindings
import RefGraph.Call
import RefGraph.Command
import RefGraph.Command.Options
import RefGraph.Conversion
import RefGraph.Corpus
import RefGraph.Crawl
import RefGraph.Declaration
import RefGraph.Dependency
import RefGraph.Diagnostics
import RefGraph.Expression.Form
import RefGraph.Expression.Operator
import RefGraph.Expression.Referent
import RefGraph.Expression.Typing
import RefGraph.Failure
import RefGraph.FileError
import RefGraph.FileTree
import RefGraph.Hierarchy
import RefGraph.Inference
import RefGraph.Inheritance
import RefGraph.Library
import RefGraph.Library.Standard
import RefGraph.Lookup
import RefGraph.Main
import RefGraph.Members
import RefGraph.Name
import RefGraph.NameTable
import RefGraph.Outline
import RefGraph.Overload
import RefGraph.Path
import RefGraph.Placeholder
import RefGraph.Primitive
import RefGraph.Proofs.BoundClasses
import RefGraph.Proofs.Boxing
import RefGraph.Proofs.CallMachine
import RefGraph.Proofs.Concatenation
import RefGraph.Proofs.Crawl
import RefGraph.Proofs.CrawlOrder
import RefGraph.Proofs.DeclarationIndex
import RefGraph.Proofs.DepthLimit
import RefGraph.Proofs.DottedNames
import RefGraph.Proofs.EdgeSoundness
import RefGraph.Proofs.FaultyFiles
import RefGraph.Proofs.FieldNames
import RefGraph.Proofs.FileOrder
import RefGraph.Proofs.FileTree
import RefGraph.Proofs.Found
import RefGraph.Proofs.HierarchyClimb
import RefGraph.Proofs.InferenceOrder
import RefGraph.Proofs.KeyCollisions
import RefGraph.Proofs.LineDecoding
import RefGraph.Proofs.LocalFrames
import RefGraph.Proofs.LocalTyping
import RefGraph.Proofs.Makers
import RefGraph.Proofs.MemberAccess
import RefGraph.Proofs.ModelledTypes
import RefGraph.Proofs.Numbering
import RefGraph.Proofs.Occurrences
import RefGraph.Proofs.OperatorChains
import RefGraph.Proofs.Outline
import RefGraph.Proofs.OverloadRule
import RefGraph.Proofs.Overriding
import RefGraph.Proofs.OwnTypeParameters
import RefGraph.Proofs.PairedRuns
import RefGraph.Proofs.ParameterNesting
import RefGraph.Proofs.Readings
import RefGraph.Proofs.RecordMembers
import RefGraph.Proofs.Registry
import RefGraph.Proofs.Renaming.Basic
import RefGraph.Proofs.Renaming.Call
import RefGraph.Proofs.Renaming.Dependency
import RefGraph.Proofs.Renaming.Hierarchy
import RefGraph.Proofs.Renaming.Lookup
import RefGraph.Proofs.Renaming.Members
import RefGraph.Proofs.Renaming.Mentions
import RefGraph.Proofs.Renaming.Referent
import RefGraph.Proofs.Renaming.Relations
import RefGraph.Proofs.Renaming.Sites
import RefGraph.Proofs.Renaming.Typing
import RefGraph.Proofs.ResolutionCode
import RefGraph.Proofs.ResolutionEnds
import RefGraph.Proofs.RootChoice
import RefGraph.Proofs.Run
import RefGraph.Proofs.SearchTermination
import RefGraph.Proofs.SharedPlaceholders
import RefGraph.Proofs.SimpleNames
import RefGraph.Proofs.SiteIndependence
import RefGraph.Proofs.Superclass
import RefGraph.Proofs.SupertypeSearch
import RefGraph.Proofs.Supertypes
import RefGraph.Proofs.Synthesis
import RefGraph.Proofs.SynthesisOrder
import RefGraph.Proofs.Tiers
import RefGraph.Proofs.TypeArguments
import RefGraph.Proofs.TypeListing
import RefGraph.Proofs.TypeNesting
import RefGraph.Proofs.TypeRegions
import RefGraph.Proofs.TypeTextEnds
import RefGraph.Proofs.TypeTextReading
import RefGraph.Proofs.TypeTextRoundTrip
import RefGraph.Proofs.TypingSteps
import RefGraph.Proofs.UnitGroups
import RefGraph.Proofs.UnitKey
import RefGraph.Proofs.UnitsPerRoot
import RefGraph.Proofs.Walk
import RefGraph.Proofs.WalkLoop
import RefGraph.Relation
import RefGraph.ResolvedType
import RefGraph.Run
import RefGraph.Scope
import RefGraph.Signature
import RefGraph.Sites.Locals
import RefGraph.Sites.Value
import RefGraph.Sites.Walk
import RefGraph.SourceUnit
import RefGraph.Synthesis
import RefGraph.Text.Alphanumeric
import RefGraph.Text.Blank
import RefGraph.Text.Lines
import RefGraph.Text.Printable
import RefGraph.Text.Quoted
import RefGraph.Text.Split
import RefGraph.Text.Utf8
import RefGraph.Tree
import RefGraph.Tree.Listing
import RefGraph.TypeRef
import RefGraph.TypeRef.Node
import RefGraph.TypeRef.Text
import RefGraph.UnitKey
import RefGraph.World
