import ApiAnnotations.Main
import ApiAnnotations.Workspace
import ApiAnnotations.Proofs.MarkedBlocks
import ApiAnnotations.Proofs.BlockSearch
import ApiAnnotations.Proofs.BlockWalk
import ApiAnnotations.Proofs.Text.Words
import ApiAnnotations.Proofs.DirectiveTable
import ApiAnnotations.Proofs.RunSearch
import ApiAnnotations.Proofs.ClosingLine
import ApiAnnotations.Proofs.Text.Decimal
import ApiAnnotations.Proofs.Text.Lines
import ApiAnnotations.Proofs.Annotation
import ApiAnnotations.Proofs.RecordLines
import ApiAnnotations.Proofs.Rendering
import ApiAnnotations.Proofs.OrderedMap
import ApiAnnotations.Proofs.Replacement
import ApiAnnotations.Proofs.Composition
import ApiAnnotations.Proofs.FileOrder
import ApiAnnotations.Proofs.ParameterSchemas
import ApiAnnotations.Proofs.Conservation
import ApiAnnotations.Proofs.MissedRuns
import ApiAnnotations.Proofs.Json.Draft
import ApiAnnotations.Proofs.Json.Reader
import ApiAnnotations.Proofs.Json.Record
import ApiAnnotations.Proofs.Metadata
import ApiAnnotations.Proofs.Document
import ApiAnnotations.Proofs.ReadingBack
import ApiAnnotations.Proofs.ReadRecords
import ApiAnnotations.Proofs.ReplacedParts
import ApiAnnotations.Proofs.PathNotation
import ApiAnnotations.Proofs.WellFormedDocument
import ApiAnnotations.Proofs.FieldLines
import ApiAnnotations.Proofs.EntryOrder
import ApiAnnotations.Proofs.SourceListing
import ApiAnnotations.Proofs.ListingOrder
import ApiAnnotations.Proofs.ScannedPaths
import ApiAnnotations.Proofs.DocumentTags
import ApiAnnotations.Proofs.ModifierWindow
import ApiAnnotations.Proofs.RejectedArguments
import ApiAnnotations.Proofs.BlockDescription
import ApiAnnotations.Proofs.TableLines
import ApiAnnotations.Proofs.FieldScan
import ApiAnnotations.Proofs.TypeTokens
import ApiAnnotations.Proofs.PathSpellings
import ApiAnnotations.Proofs.StatusCodes
import ApiAnnotations.Proofs.LineBytes
import ApiAnnotations.Proofs.PartialMetadata
