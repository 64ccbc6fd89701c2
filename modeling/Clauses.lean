import Clauses.Request.Builder
import Clauses.Proofs.Batch
import Clauses.Proofs.Congruence
import Clauses.Proofs.Drafting
import Clauses.Proofs.Completing
import Clauses.Proofs.Numbering
import Clauses.Proofs.Rollback
import Clauses.Proofs.Outcomes
import Clauses.Proofs.Streaming
import Clauses.Proofs.Grammar.Lexeme
import Clauses.Proofs.Grammar.Reader
import Clauses.Proofs.Grammar.Conditions
import Clauses.Proofs.Meaning
import Clauses.Proofs.Predicates
import Clauses.Proofs.Conjunction
import Clauses.Proofs.Passage
import Clauses.Proofs.Lexing
import Clauses.Proofs.Respelling
import Clauses.Proofs.SideBySide
import Clauses.Proofs.FrontEnds
import Clauses.Proofs.Postponing
import Clauses.Proofs.Placeholders
import Clauses.Proofs.Verbatim
import Clauses.Proofs.Emission
import Clauses.Proofs.Base64
import Clauses.Proofs.Json.Reading
import Clauses.Proofs.WireParts
import Clauses.Proofs.Json.WireValues
import Clauses.Proofs.Json.Accepting
import Clauses.Proofs.Encoding
import Clauses.Proofs.Provenance
import Clauses.Proofs.Emptiness
import Clauses.Proofs.Sealing
import Clauses.Proofs.Reuse
import Clauses.Proofs.Transparency
import Clauses.Proofs.Numbers
import Clauses.Proofs.RoundTrip
import Clauses.Proofs.Shapes
import Clauses.Proofs.Noninterference
import Clauses.Proofs.Inlining
import Clauses.Proofs.Renumbering
import Clauses.Proofs.Reordering
import Clauses.Proofs.Positions
import Clauses.Proofs.Acceptance
import Clauses.Proofs.TextOrder
import Clauses.Proofs.Grammar.Updates
import Clauses.Proofs.Updates
import Clauses.Proofs.MalformedTemplates
import Clauses.Proofs.ReservedWords
import Clauses.Proofs.Policies
import Clauses.Proofs.Escaping
import Clauses.Proofs.Grammar.Slotted
import Clauses.Proofs.SlotPolicies
import Clauses.Proofs.FirstEmpty
import Clauses.Proofs.Numerals
import Clauses.Proofs.NumberFormats
import Clauses.Proofs.KeyTexts
import Clauses.Proofs.Calendar.Days
import Clauses.Proofs.Calendar.Texts
import Clauses.Proofs.Dates
import Clauses.Proofs.KeyOrder
import Clauses.Proofs.FloatTexts
import Clauses.Proofs.Legibility
