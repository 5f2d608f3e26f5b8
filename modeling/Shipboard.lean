import Shipboard.Main
import Shipboard.Session.Script
import Shipboard.Proofs.Core.Advance
import Shipboard.Proofs.Core.Boundless
import Shipboard.Proofs.Core.Growth
import Shipboard.Proofs.Core.Widening
import Shipboard.Proofs.Core.Failing
import Shipboard.Proofs.Core.Trapping
import Shipboard.Proofs.Core.Executing
import Shipboard.Proofs.Core.Addressing
import Shipboard.Proofs.Core.Decoding
import Shipboard.Proofs.Core.Histories
import Shipboard.Proofs.Machine.Resume
import Shipboard.Proofs.Machine.Faulting
import Shipboard.Proofs.Machine.Lifecycle
import Shipboard.Proofs.Session.Attendance
import Shipboard.Proofs.Session.Buffered
import Shipboard.Proofs.Painter.Easel
import Shipboard.Proofs.Painter.Cosimulation
import Shipboard.Proofs.Painter.Painting
import Shipboard.Proofs.Painter.Pictures
import Shipboard.Proofs.Session.Reach
import Shipboard.Proofs.Session.Confluence
import Shipboard.Proofs.Session.Ledger
import Shipboard.Proofs.Session.Scripted
import Shipboard.Proofs.Session.Pulses
import Shipboard.Proofs.Painter.Requests
import Shipboard.Proofs.Session.Closure
import Shipboard.Proofs.Scaffold.Compression
import Shipboard.Proofs.Scaffold.Lines
import Shipboard.Proofs.Scaffold.Soundness
import Shipboard.Proofs.Scaffold.Completeness
import Shipboard.Proofs.Scaffold.Precedence
import Shipboard.Proofs.Scaffold.Backtracking
import Shipboard.Proofs.Scaffold.Guidance
import Shipboard.Proofs.Scaffold.Cutting
import Shipboard.Proofs.Scaffold.Replay
import Shipboard.Proofs.Scaffold.Turns
import Shipboard.Proofs.Scaffold.Crossings
import Shipboard.Proofs.Scaffold.Motions
import Shipboard.Proofs.Scaffold.Framing
import Shipboard.Proofs.Scaffold.Surveying
import Shipboard.Proofs.Scaffold.Reading
import Shipboard.Proofs.Scaffold.Lengths
import Shipboard.Proofs.Scaffold.Tracing
import Shipboard.Proofs.Scaffold.Moving
import Shipboard.Proofs.Scaffold.Walking
import Shipboard.Proofs.Scaffold.Covering
import Shipboard.Proofs.Listing.Printing
