import ClientGen.Main
import ClientGen.Proofs.ClassNames
import ClientGen.Proofs.Reachability
import ClientGen.Proofs.Runs
import ClientGen.Proofs.Tables
import ClientGen.Proofs.Dependencies
import ClientGen.Proofs.LinkedModels
import ClientGen.Proofs.ModelTable
import ClientGen.Proofs.ClosedModels
import ClientGen.Proofs.Compilation
import ClientGen.Proofs.Pruning
import ClientGen.Proofs.Constituents
import ClientGen.Proofs.PrintedTypes
import ClientGen.Proofs.Compositions
import ClientGen.Proofs.ModelBodies
import ClientGen.Proofs.RenderedValues
import ClientGen.Proofs.Imports
import ClientGen.Proofs.ServiceTable
import ClientGen.Proofs.ResultKinds
import ClientGen.Proofs.SharedReferences
import ClientGen.Proofs.DistinctKeys
import ClientGen.Proofs.ReadDocuments
import ClientGen.Proofs.TagDeletion
import ClientGen.Proofs.TagFiltering
import ClientGen.Proofs.CheckedReferences
import ClientGen.Proofs.ReferenceNames
import ClientGen.Proofs.DeclaredProperties
import ClientGen.Proofs.TypeTree
import ClientGen.Proofs.TokenScan
import ClientGen.Proofs.TypeReader
import ClientGen.Proofs.SchemaParts
import ClientGen.Proofs.TypeMeaning
import ClientGen.Proofs.TupleTypes
import ClientGen.Proofs.WrittenTypes
import ClientGen.Proofs.LetterCase
import ClientGen.Proofs.OperationIds
import ClientGen.Proofs.ServiceIds
import ClientGen.Proofs.ServiceMembers
import ClientGen.Proofs.FileStems
import ClientGen.Proofs.FilePaths
import ClientGen.Proofs.OperationGroups
import ClientGen.Proofs.SharedParameters
import ClientGen.Proofs.AliasKinds
import ClientGen.Proofs.RepeatedResults
import ClientGen.Proofs.Hierarchy
import ClientGen.Proofs.PrunedHierarchy
import ClientGen.Proofs.NamelessTypes
import ClientGen.Proofs.OverridingKeywords
import ClientGen.Proofs.FilterComposition
import ClientGen.Proofs.DefinitionOrder
import ClientGen.Proofs.DiskPaths
import ClientGen.Proofs.FileWrites
import ClientGen.Proofs.StaleFiles
import ClientGen.Proofs.ServiceImports
import ClientGen.Proofs.FailedRuns
import ClientGen.Proofs.Leftovers
import ClientGen.Proofs.TypeLeaves
import ClientGen.Proofs.TrimmedLines
import ClientGen.Proofs.StringLiterals
import ClientGen.Proofs.ServiceLiterals
import ClientGen.Proofs.LeastClosure
import ClientGen.Proofs.CandidateOrder
import ClientGen.Proofs.SchemaSources
import ClientGen.Proofs.PresentTexts
import ClientGen.Proofs.TypeSources
import ClientGen.Proofs.NamedDependencies
import ClientGen.Proofs.ReferenceChains
import ClientGen.Proofs.Expansions
import ClientGen.Proofs.Numerals
import ClientGen.Proofs.Pointers
import ClientGen.Proofs.UnresolvedReferences
import ClientGen.Proofs.SchemaPlaces
import ClientGen.Proofs.MergedProperties
import ClientGen.Proofs.InlineObjects
import ClientGen.Proofs.ModelShapes
import ClientGen.Proofs.ParameterOrder
import ClientGen.Proofs.PathTemplates
import ClientGen.Proofs.FormValues
import ClientGen.Proofs.ParameterIdentifiers
import ClientGen.Proofs.TagNames
import ClientGen.Proofs.NormalizedTags
import ClientGen.Proofs.CommentBlocks
import ClientGen.Proofs.WrittenJson
import ClientGen.Proofs.ExampleLiterals
import ClientGen.Proofs.EscapedLiterals
import ClientGen.Proofs.PropertyKeys
import ClientGen.Proofs.Enumerations
import ClientGen.Proofs.ConstantLiterals
import ClientGen.Proofs.ConstantNames
import ClientGen.Proofs.ModelFiles
import ClientGen.Proofs.StrippedTypes
import ClientGen.Proofs.Settings
import ClientGen.Proofs.ConfigurationFiles
import ClientGen.Proofs.ClassIdentifiers
import ClientGen.Proofs.ConstantIdentifiers
