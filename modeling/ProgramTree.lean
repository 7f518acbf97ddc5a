import ProgramTree.AlphabeticMarks
import ProgramTree.Arguments
import ProgramTree.BorrowCycles
import ProgramTree.BorrowGraph
import ProgramTree.Builders
import ProgramTree.CharacterClass
import ProgramTree.Conflict
import ProgramTree.Construction
import ProgramTree.CycleSearch
import ProgramTree.Decimal
import ProgramTree.Declarations
import ProgramTree.DeepEdit
import ProgramTree.Description
import ProgramTree.Edit
import ProgramTree.Explanation
import ProgramTree.Field
import ProgramTree.Findings
import ProgramTree.Globals
import ProgramTree.Grammar
import ProgramTree.GraphemeExtenders
import ProgramTree.HiddenCharacters
import ProgramTree.IdentifierContinue
import ProgramTree.IdentifierStart
import ProgramTree.Kind
import ProgramTree.Layout
import ProgramTree.Lexeme
import ProgramTree.NameTable
import ProgramTree.Node
import ProgramTree.NodeEquality
import ProgramTree.Outline
import ProgramTree.Pairing
import ProgramTree.Path
import ProgramTree.Program
import ProgramTree.Prose
import ProgramTree.Quotation
import ProgramTree.Scope
import ProgramTree.ShapeCheck
import ProgramTree.ShapeError
import ProgramTree.Symbol
import ProgramTree.UnalphabeticStarts
import ProgramTree.Validation
import ProgramTree.Walk
import ProgramTree.Proofs.ArgumentSlots
import ProgramTree.Proofs.BorrowEdges
import ProgramTree.Proofs.BorrowPlaces
import ProgramTree.Proofs.CallResolution
import ProgramTree.Proofs.Calls
import ProgramTree.Proofs.ClosedCycles
import ProgramTree.Proofs.CycleCover
import ProgramTree.Proofs.CycleReports
import ProgramTree.Proofs.Executable
import ProgramTree.Proofs.ExploredEdges
import ProgramTree.Proofs.History
import ProgramTree.Proofs.LexicalScope
import ProgramTree.Proofs.Occurrences
import ProgramTree.Proofs.ReportedCircles
import ProgramTree.Proofs.SearchMoves
import ProgramTree.Proofs.SourceLookup
import ProgramTree.Proofs.WellFormed
import ProgramTree.Proofs.Growth
import ProgramTree.Proofs.BuilderGrowth
import ProgramTree.Proofs.EditGrowth
import ProgramTree.Proofs.Sessions
import ProgramTree.Proofs.AssignedFields
import ProgramTree.Proofs.Pairs
import ProgramTree.Proofs.Grafts
import ProgramTree.Proofs.FieldEdits
import ProgramTree.Proofs.FirstPlaces
import ProgramTree.Proofs.SpineEdits
import ProgramTree.Proofs.DeepReplacement
import ProgramTree.Proofs.FieldRemovals
import ProgramTree.Proofs.Counts
import ProgramTree.Proofs.DeepRemoval
import ProgramTree.Proofs.Erasure
import ProgramTree.Proofs.DisjointEdits
import ProgramTree.Proofs.Identity
import ProgramTree.Proofs.MappedFields
import ProgramTree.Proofs.Parts
import ProgramTree.Proofs.ScopedConflicts
import ProgramTree.Proofs.TranslatedPrograms
import ProgramTree.Proofs.Translations
import ProgramTree.Proofs.TranslatedConflicts
import ProgramTree.Proofs.TranslatedCycles
import ProgramTree.Proofs.Relabelling
import ProgramTree.Proofs.RelabelledPrograms
import ProgramTree.Proofs.IdentityBlindness
import ProgramTree.Proofs.VerdictLookups
import ProgramTree.Proofs.SourceOrder
import ProgramTree.Proofs.NamesApart
import ProgramTree.Proofs.AddedSource
import ProgramTree.Proofs.RedefinedConflicts
import ProgramTree.Proofs.ValueEdits
import ProgramTree.Proofs.EditLocality
import ProgramTree.Proofs.Documentation
import ProgramTree.Proofs.FoundConflicts
import ProgramTree.Proofs.Provenance
import ProgramTree.Proofs.BorrowAccounts
import ProgramTree.Proofs.ConflictSites
import ProgramTree.Proofs.ConflictSubjects
import ProgramTree.Proofs.ReportOrder
import ProgramTree.Proofs.FieldOutcomes
import ProgramTree.Proofs.PositionalArguments
import ProgramTree.Proofs.Assignments
import ProgramTree.Proofs.CallReports
import ProgramTree.Proofs.NamedArguments
import ProgramTree.Proofs.CircleMembers
import ProgramTree.Proofs.PathOrder
import ProgramTree.Proofs.PathLookups
import ProgramTree.Proofs.UndoneEdits
import ProgramTree.Proofs.Renumbering
import ProgramTree.Proofs.PartialRebuilds
import ProgramTree.Proofs.EditRuns
import ProgramTree.Proofs.RemovedInsertions
import ProgramTree.Proofs.Places
import ProgramTree.Proofs.ShapeFaults
import ProgramTree.Proofs.Tours
import ProgramTree.Proofs.BuiltPrograms
import ProgramTree.Proofs.DocumentedPlaces
import ProgramTree.Proofs.ReplacedSources
import ProgramTree.Proofs.RemovedSources
import ProgramTree.Proofs.GlobalDefinitions
import ProgramTree.Proofs.NumberTexts
import ProgramTree.Proofs.DeclaredNames
import ProgramTree.Proofs.TemplatePaths
import ProgramTree.Proofs.ProseSearch
import ProgramTree.Proofs.SearchTurns
import ProgramTree.Proofs.HalfPairs
import ProgramTree.Proofs.Violations
