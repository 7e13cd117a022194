import Mustache.JsonTemplate
import Mustache.Rendering.Sequence
import Mustache.Sink
import Mustache.Value.Document
import Mustache.Workspace
import Mustache.Proofs.DocumentOrder
import Mustache.Proofs.StandingAlone
import Mustache.Proofs.TextConservation
import Mustache.Proofs.Nesting
import Mustache.Proofs.SourcePieces
import Mustache.Proofs.SourceReading
import Mustache.Proofs.SourceRoundTrip
import Mustache.Proofs.Delivery
import Mustache.Proofs.Descent
import Mustache.Proofs.RunsInSequence
import Mustache.Proofs.SideBySide
import Mustache.Proofs.Within
import Mustache.Proofs.Leniency
import Mustache.Proofs.Markup
import Mustache.Proofs.ConcatenatedText
import Mustache.Proofs.Indentation
import Mustache.Proofs.IndentedText
import Mustache.Proofs.CanonicalSource
import Mustache.Proofs.ConfinedPartials
import Mustache.Proofs.Failures
import Mustache.Proofs.Transparency
import Mustache.Proofs.ForcedRaw
import Mustache.Proofs.Writings
import Mustache.Proofs.ScopeByScope
import Mustache.Proofs.ChainsAlike
import Mustache.Proofs.InvertedSections
import Mustache.Proofs.UnaskedContexts
import Mustache.Proofs.FallbackContexts
import Mustache.Proofs.EscapeModes
import Mustache.Proofs.NameResolution
import Mustache.Proofs.HandedSources
import Mustache.Proofs.PlainData
import Mustache.Proofs.Interchange
import Mustache.Proofs.CapturedDocuments
import Mustache.Proofs.Survey
import Mustache.Proofs.FinalDefects
import Mustache.Proofs.SectionTwins
import Mustache.Proofs.DottedNames
import Mustache.Proofs.Entities
import Mustache.Proofs.StringLiterals
import Mustache.Proofs.LooseMarks
import Mustache.Proofs.IndentedLines
import Mustache.Proofs.KeptDocuments
import Mustache.Proofs.MappingSteps
import Mustache.Proofs.Recapture
import Mustache.Proofs.UntaggedDocuments
import Mustache.Proofs.EqualValues
import Mustache.Proofs.NormalForm
