import TestScout.Code.Adaptation
import TestScout.Code.Read
import TestScout.Code.Tree
import TestScout.Code.Written
import TestScout.Collection.Basic
import TestScout.Collection.Json
import TestScout.Collection.Tracking
import TestScout.Collection.Updates
import TestScout.Command.Arguments
import TestScout.Command.Discover
import TestScout.Discovery.CallTests
import TestScout.Discovery.ClassTests
import TestScout.Discovery.Scope
import TestScout.Discovery.Scout
import TestScout.Editor.Basic
import TestScout.Editor.Questions
import TestScout.Files.Basic
import TestScout.Files.Tree
import TestScout.Glob.Basic
import TestScout.Glob.Matching
import TestScout.Glob.Parser
import TestScout.Ignore.Level
import TestScout.Ignore.Rule
import TestScout.Ignore.Walk
import TestScout.Json.Decode
import TestScout.Json.Draft
import TestScout.Json.Member
import TestScout.Json.Value
import TestScout.Main
import TestScout.Outline.Basic
import TestScout.Outline.Builder
import TestScout.Outline.Json
import TestScout.Path.Address
import TestScout.Path.Basic
import TestScout.Proofs.AdaptationNames
import TestScout.Proofs.ArrivalOrder
import TestScout.Proofs.AttributeGroups
import TestScout.Proofs.AttributeNames
import TestScout.Proofs.BuilderAdditions
import TestScout.Proofs.BuilderBeds
import TestScout.Proofs.BuilderEntry
import TestScout.Proofs.BuilderFrames
import TestScout.Proofs.BuilderLineage
import TestScout.Proofs.BuilderPaths
import TestScout.Proofs.BuilderReturn
import TestScout.Proofs.BuilderReuse
import TestScout.Proofs.BuilderRun
import TestScout.Proofs.BuilderSites
import TestScout.Proofs.BuilderTags
import TestScout.Proofs.BuilderTrace
import TestScout.Proofs.ClassReferences
import TestScout.Proofs.CollectionContainer
import TestScout.Proofs.CollectionEntries
import TestScout.Proofs.CollectionHistory
import TestScout.Proofs.CommentPlaces
import TestScout.Proofs.DataSetGrammar
import TestScout.Proofs.DataSetIds
import TestScout.Proofs.DataSetItems
import TestScout.Proofs.DataSetKeys
import TestScout.Proofs.DataSetNames
import TestScout.Proofs.DataSetOrder
import TestScout.Proofs.DataSetPlaces
import TestScout.Proofs.DefinitionGrove
import TestScout.Proofs.DefinitionKeys
import TestScout.Proofs.DefinitionSites
import TestScout.Proofs.DefinitionTrails
import TestScout.Proofs.DependentSources
import TestScout.Proofs.DescribedTests
import TestScout.Proofs.DiscoveryOrder
import TestScout.Proofs.DocblockTags
import TestScout.Proofs.EditorAccount
import TestScout.Proofs.EditorBooks
import TestScout.Proofs.EditorCatalogue
import TestScout.Proofs.EditorGroups
import TestScout.Proofs.EditorHistory
import TestScout.Proofs.EditorIntake
import TestScout.Proofs.EditorIsolation
import TestScout.Proofs.EditorLedger
import TestScout.Proofs.EditorLineage
import TestScout.Proofs.EditorLines
import TestScout.Proofs.EditorOutline
import TestScout.Proofs.EditorRegister
import TestScout.Proofs.EditorRuns
import TestScout.Proofs.EditorSound
import TestScout.Proofs.ExplicitKeys
import TestScout.Proofs.ForestParents
import TestScout.Proofs.GlobText
import TestScout.Proofs.GroupMembers
import TestScout.Proofs.InheritedKeys
import TestScout.Proofs.ItemIdentity
import TestScout.Proofs.LinePlaces
import TestScout.Proofs.MethodLikeness
import TestScout.Proofs.MethodLookup
import TestScout.Proofs.MethodResolution
import TestScout.Proofs.NameResolution
import TestScout.Proofs.OutlineEdits
import TestScout.Proofs.OutlineForest
import TestScout.Proofs.OutlineLineage
import TestScout.Proofs.OutlineMoves
import TestScout.Proofs.OutlinePlaces
import TestScout.Proofs.OutlinePruning
import TestScout.Proofs.OutlineTwins
import TestScout.Proofs.PathOrder
import TestScout.Proofs.PlainCalls
import TestScout.Proofs.PlainDeclarations
import TestScout.Proofs.PlainKeys
import TestScout.Proofs.PlainSource
import TestScout.Proofs.QuotedTexts
import TestScout.Proofs.ReaderAgreement
import TestScout.Proofs.RegistryDependence
import TestScout.Proofs.RegistryReach
import TestScout.Proofs.ReplayCourse
import TestScout.Proofs.ScopeLikeness
import TestScout.Proofs.ScoutMemory
import TestScout.Proofs.SpaceIds
import TestScout.Proofs.SpaceLikeIds
import TestScout.Proofs.SuiteDirectories
import TestScout.Proofs.SuiteExclusion
import TestScout.Proofs.TextBytes
import TestScout.Proofs.TextWords
import TestScout.Proofs.TopLevelPieces
import TestScout.Proofs.TraitAdaptations
import TestScout.Proofs.VisibleMethods
import TestScout.Proofs.WorkspaceEntries
import TestScout.Proofs.WorkspaceIsolation
import TestScout.Registry.Basic
import TestScout.Registry.Dependents
import TestScout.Registry.Json
import TestScout.Registry.Methods
import TestScout.Runner.Event
import TestScout.Runner.Json
import TestScout.Runner.Replay
import TestScout.Runner.Transition
import TestScout.Source.Attribute
import TestScout.Source.Comment
import TestScout.Source.Escape
import TestScout.Source.Json
import TestScout.Source.Nesting
import TestScout.Source.Point
import TestScout.Source.Quoted
import TestScout.Suite.Basic
import TestScout.Suite.Json
import TestScout.Suite.Loading
import TestScout.Suite.Matcher
import TestScout.Surface.Lenient
import TestScout.Surface.Lenient.Declaration
import TestScout.Surface.Lenient.Expression
import TestScout.Surface.Lenient.Lexer
import TestScout.Surface.Lenient.Parser
import TestScout.Surface.Lenient.Reading
import TestScout.Surface.Lenient.Signature
import TestScout.Surface.Lenient.Source
import TestScout.Surface.Lenient.Statement
import TestScout.Surface.Lenient.Token
import TestScout.Surface.Reader
import TestScout.Surface.Span
import TestScout.Surface.Strict
import TestScout.Surface.Strict.Declaration
import TestScout.Surface.Strict.Expression
import TestScout.Surface.Strict.Parser
import TestScout.Surface.Strict.Reading
import TestScout.Surface.Strict.Scan
import TestScout.Surface.Strict.Signature
import TestScout.Surface.Strict.Source
import TestScout.Surface.Strict.Statement
import TestScout.Surface.Strict.Template
import TestScout.Surface.Tree
import TestScout.Test.Annotations
import TestScout.Test.DataSet
import TestScout.Test.Definition
import TestScout.Test.Provider
import TestScout.Test.Read
import TestScout.Test.Written
import TestScout.Text.Blank
import TestScout.Text.Bytes
import TestScout.Text.Letter
import TestScout.Text.Piece
import TestScout.Text.Upper
