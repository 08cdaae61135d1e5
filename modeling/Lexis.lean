import Lexis.Main
import Lexis.Proofs.Alphabet
import Lexis.Proofs.Division
import Lexis.Proofs.Searches
import Lexis.Proofs.Lines
import Lexis.Proofs.NormalForm
import Lexis.Proofs.Reading
import Lexis.Proofs.Again
import Lexis.Proofs.RoundTrip
import Lexis.Proofs.Cursor
import Lexis.Proofs.Concatenation
import Lexis.Proofs.Seams
import Lexis.Proofs.LineEndings
import Lexis.Proofs.Carets
import Lexis.Proofs.Invocations
import Lexis.Proofs.Grammar
import Lexis.Proofs.Precedence
import Lexis.Proofs.Limits
import Lexis.Proofs.Refusals
import Lexis.Proofs.Records
import Lexis.Proofs.CommentLines
import Lexis.Proofs.Loading
import Lexis.Proofs.TokenText
import Lexis.Proofs.Lookup
import Lexis.Proofs.Rendering
import Lexis.Proofs.Accounting
import Lexis.Proofs.FaultText
