import TapeLang.Command
import TapeLang.Extension.Catalogue
import TapeLang.Interp.Run
import TapeLang.Main
import TapeLang.Script
import TapeLang.Traceback
import TapeLang.Proofs.Evaluation
import TapeLang.Proofs.Brackets
import TapeLang.Proofs.Spelling
import TapeLang.Proofs.Reading
import TapeLang.Proofs.Cursor
import TapeLang.Proofs.Written
import TapeLang.Proofs.Texts
import TapeLang.Proofs.RoundTrip
import TapeLang.Proofs.Locations
import TapeLang.Proofs.Ending
import TapeLang.Proofs.Walk
import TapeLang.Proofs.Agreement
import TapeLang.Proofs.Observers
import TapeLang.Proofs.Rounds
import TapeLang.Proofs.Moments
import TapeLang.Proofs.Announcements
import TapeLang.Proofs.Reporting
import TapeLang.Proofs.CallStack
import TapeLang.Proofs.Protocol
import TapeLang.Proofs.Silence
import TapeLang.Proofs.Single
import TapeLang.Proofs.Cutoff
import TapeLang.Proofs.Headway
import TapeLang.Proofs.Limiter
import TapeLang.Proofs.Budget
import TapeLang.Proofs.Continuation
import TapeLang.Proofs.Relaid
import TapeLang.Proofs.Layout
import TapeLang.Proofs.Encodings
import TapeLang.Proofs.Routes
import TapeLang.Proofs.Blocks
import TapeLang.Proofs.Sessions
import TapeLang.Proofs.Kinship
import TapeLang.Proofs.Past
import TapeLang.Proofs.Mirror
import TapeLang.Proofs.Circle
import TapeLang.Proofs.Footprint
import TapeLang.Proofs.Joining
import TapeLang.Proofs.Registry
import TapeLang.Proofs.Histories
import TapeLang.Proofs.Passes
import TapeLang.Proofs.Containment
import TapeLang.Proofs.Closing
import TapeLang.Proofs.Decoding
import TapeLang.Proofs.Stories
import TapeLang.Proofs.Ticks
import TapeLang.Proofs.Direct
import TapeLang.Proofs.Unrolling
import TapeLang.Proofs.Loopless
import TapeLang.Proofs.Window
import TapeLang.Proofs.Rows
