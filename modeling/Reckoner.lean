import Reckoner.Main
import Reckoner.Proofs.Acceptance
import Reckoner.Session.Operation
import Reckoner.Proofs.Reading.Faults
import Reckoner.Proofs.Session.Transparency
import Reckoner.Proofs.Reading.Leftward
import Reckoner.Proofs.Retrieval
import Reckoner.Proofs.Number.Nearest
import Reckoner.Proofs.Number.Plain
import Reckoner.Proofs.Session.Recency
import Reckoner.Proofs.Extraction
import Reckoner.Proofs.Rendering
import Reckoner.Proofs.Reparsing
import Reckoner.Proofs.Session.Rows
import Reckoner.Proofs.Reading.Windows
import Reckoner.Proofs.Agreement
import Reckoner.Proofs.Grouping
import Reckoner.Proofs.LongestNumerals
import Reckoner.Proofs.Captures
import Reckoner.Proofs.Insertions
import Reckoner.Proofs.EmptyTexts
import Reckoner.Proofs.NestingSteps
import Reckoner.Proofs.Moves
import Reckoner.Proofs.LookAhead
import Reckoner.Proofs.Recapture
import Reckoner.Proofs.Reading.Places
import Reckoner.Proofs.Calls
import Reckoner.Proofs.Session.Inclusion
import Reckoner.Proofs.Listings
import Reckoner.Proofs.Reading.Signs
