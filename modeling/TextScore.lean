import TextScore.Library.FileStore
import TextScore.Main
import TextScore.Session
import TextScore.Proofs.Notation.Words
import TextScore.Proofs.Notation.Signature
import TextScore.Proofs.Pitch.Token
import TextScore.Proofs.Pitch.Degree
import TextScore.Proofs.Pitch.Written
import TextScore.Proofs.Notation.Outline
import TextScore.Proofs.Notation.Printed
import TextScore.Proofs.Notation.RoundTrip
import TextScore.Proofs.Edit.Faithful
import TextScore.Proofs.Session.Agreement
import TextScore.Proofs.Notation.Account
import TextScore.Proofs.Notation.Loss
import TextScore.Proofs.Session.Names
import TextScore.Proofs.Library.File
import TextScore.Proofs.Schedule.Clock
import TextScore.Proofs.Notation.Coherence
import TextScore.Proofs.Notation.Canonical
import TextScore.Proofs.Json.Numeral
import TextScore.Proofs.Json.RoundTrip
import TextScore.Proofs.Library.Envelope
import TextScore.Proofs.Library.Merge
import TextScore.Proofs.Library.Convergence
import TextScore.Proofs.Staff.Places
import TextScore.Proofs.Compile.Views
import TextScore.Proofs.Notation.Locality
import TextScore.Proofs.Notation.Columns
import TextScore.Proofs.Notation.SourceOrder
import TextScore.Proofs.Session.Clean
import TextScore.Proofs.Edit.Effect
import TextScore.Proofs.Session.Outcome
import TextScore.Proofs.Notation.Pointing
import TextScore.Proofs.Decimal.Rounding
import TextScore.Proofs.Decimal.Operations
import TextScore.Proofs.Decimal.Line
import TextScore.Proofs.Decimal.Arithmetic
import TextScore.Proofs.Decimal.Unpacked
import TextScore.Proofs.Decimal.Written
import TextScore.Proofs.Decimal.Scientific
import TextScore.Proofs.Json.Number
import TextScore.Proofs.Calendar.Date
import TextScore.Proofs.Calendar.Written
import TextScore.Proofs.Notation.Fullness
import TextScore.Proofs.Edit.Commute
import TextScore.Proofs.Edit.Transposition
import TextScore.Proofs.Notation.Extension
import TextScore.Proofs.Session.Heading
import TextScore.Proofs.Session.Append
import TextScore.Proofs.Schedule.Cursor
import TextScore.Proofs.Schedule.Onset
import TextScore.Proofs.Schedule.Gaps
import TextScore.Proofs.Library.Import
import TextScore.Proofs.Decimal.Extent
import TextScore.Proofs.Library.Copy
import TextScore.Proofs.Library.Place
import TextScore.Proofs.Library.Proper
import TextScore.Proofs.Staff.Stretch
import TextScore.Proofs.Staff.Usable
import TextScore.Proofs.Pitch.Spelling
import TextScore.Proofs.Pitch.Semitones
import TextScore.Proofs.Notation.LineEnds
import TextScore.Proofs.Notation.Metre
import TextScore.Proofs.Compile.Strict
