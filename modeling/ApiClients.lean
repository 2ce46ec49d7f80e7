import ApiClients.Command
import ApiClients.Document
import ApiClients.Files
import ApiClients.Json.Reader
import ApiClients.Main
import ApiClients.Manifest
import ApiClients.Report
import ApiClients.Proofs.Casing
import ApiClients.Proofs.NamedTypes
import ApiClients.Proofs.MethodNames
import ApiClients.Proofs.Reachability
import ApiClients.Proofs.Passes
import ApiClients.Proofs.ClientMethods
import ApiClients.Proofs.Coverage
import ApiClients.Proofs.Reading
import ApiClients.Proofs.ReadingOperations
import ApiClients.Proofs.Completeness
import ApiClients.Proofs.Moves
import ApiClients.Proofs.Histories
import ApiClients.Proofs.Requests
import ApiClients.Proofs.Passages
import ApiClients.Proofs.Counts
import ApiClients.Proofs.ReadingEnds
import ApiClients.Proofs.Parsed
import ApiClients.Proofs.EmittedTypes
import ApiClients.Proofs.EndlessShapes
import ApiClients.Proofs.TwoReadings
import ApiClients.Proofs.Fingerprints
import ApiClients.Proofs.DeclaredTypes
import ApiClients.Proofs.KeywordKinds
import ApiClients.Proofs.GenerationEnds
import ApiClients.Proofs.OperationKeys
import ApiClients.Proofs.FrozenResolution
import ApiClients.Proofs.Pointers
import ApiClients.Proofs.InlinedShapes
import ApiClients.Proofs.TwinNodes
import ApiClients.Proofs.Renderings
import ApiClients.Proofs.Parents
import ApiClients.Proofs.Lineage
import ApiClients.Proofs.Emptying
import ApiClients.Proofs.OutputFolder
import ApiClients.Proofs.EmittedNames
import ApiClients.Proofs.Identifiers
import ApiClients.Proofs.Beside
import ApiClients.Proofs.ReadingBeside
import ApiClients.Proofs.ReusedReader
import ApiClients.Proofs.ShapeTypes
import ApiClients.Proofs.SharedNames
import ApiClients.Proofs.DepthFirst
import ApiClients.Proofs.Containers
import ApiClients.Proofs.VariableNames
import ApiClients.Proofs.LocationSuffixes
import ApiClients.Proofs.VariableIdentifiers
import ApiClients.Proofs.StatusCodes
import ApiClients.Proofs.ResponseTable
import ApiClients.Proofs.RepeatedTypes
import ApiClients.Proofs.ExceptionTypes
import ApiClients.Proofs.RefusedCodes
import ApiClients.Proofs.Nullability
import ApiClients.Proofs.ParameterTable
import ApiClients.Proofs.NullableFlags
import ApiClients.Proofs.TypeSpellings
import ApiClients.Proofs.ResultShapes
import ApiClients.Proofs.WithoutNull
import ApiClients.Proofs.OptionalParameters
import ApiClients.Proofs.NullableUses
import ApiClients.Proofs.ReferenceChains
import ApiClients.Proofs.MergedParameters
import ApiClients.Proofs.ResponseTurns
import ApiClients.Proofs.PromotedResponses
import ApiClients.Proofs.ParameterOrder
import ApiClients.Proofs.ClientGroups
import ApiClients.Proofs.SpecificationInside
import ApiClients.Proofs.TableRows
import ApiClients.Proofs.SnakeForms
import ApiClients.Proofs.PascalNames
import ApiClients.Proofs.ReferenceCircles
