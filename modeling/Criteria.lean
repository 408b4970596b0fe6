import Criteria.Json.Reader
import Criteria.Main
import Criteria.Proofs.Turns
import Criteria.Proofs.Conservation
import Criteria.Proofs.Printing
import Criteria.Proofs.Pieces
import Criteria.Proofs.Keywords
import Criteria.Proofs.Calls
import Criteria.Proofs.Groups
import Criteria.Json.Path
import Criteria.Json.Tree
import Criteria.Proofs.Places
import Criteria.Proofs.Trees
import Criteria.Proofs.Literals
import Criteria.Proofs.LetterCase
import Criteria.Proofs.Lockstep
import Criteria.Proofs.Respelling
import Criteria.Proofs.Marks
import Criteria.Proofs.Balance
import Criteria.Proofs.Values
import Criteria.Proofs.Forms
import Criteria.Proofs.Reading
import Criteria.Proofs.Rendering
import Criteria.Proofs.Loosening
import Criteria.Proofs.Spacing
import Criteria.Proofs.Respacing
import Criteria.Proofs.Kinds
import Criteria.Proofs.Persistence
import Criteria.Proofs.Levels
import Criteria.Proofs.Prompted
import Criteria.Proofs.Sweeping
