import Rewind.Json.Line
import Rewind.Proofs.Guard
import Rewind.Proofs.TwoStacks
import Rewind.Session
import Rewind.Settings.Script
import Rewind.Proofs.Scalar
import Rewind.Proofs.Growth
import Rewind.Proofs.Bystanders
import Rewind.Proofs.Coherence
import Rewind.Proofs.Rig
import Rewind.Proofs.Following
import Rewind.Proofs.Reel
import Rewind.Proofs.Forgetting
import Rewind.Proofs.Footing
import Rewind.Proofs.Mirroring
import Rewind.Proofs.Refreshing
import Rewind.Proofs.Shown
import Rewind.Proofs.Neighbours
import Rewind.Proofs.Torn
import Rewind.Proofs.Relaying
import Rewind.Proofs.Candour
import Rewind.Proofs.Failing
import Rewind.Proofs.Onward
import Rewind.Proofs.InTurn
import Rewind.Proofs.Ledger
import Rewind.Proofs.Orderly
import Rewind.Proofs.Telling
import Rewind.Proofs.Dues
import Rewind.Proofs.News
import Rewind.Proofs.Watching
import Rewind.Proofs.Chronicle
import Rewind.Proofs.Announcing
import Rewind.Proofs.Office
import Rewind.Proofs.Independent
import Rewind.Proofs.Dispatching
import Rewind.Proofs.Retracing
import Rewind.Proofs.Flattening
import Rewind.Proofs.Brackets
import Rewind.Proofs.Spelled
import Rewind.Proofs.Likeness
import Rewind.Proofs.Sanitizing
import Rewind.Proofs.Recording
import Rewind.Proofs.Selecting
import Rewind.Proofs.Comparing
