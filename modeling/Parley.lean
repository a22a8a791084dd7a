import Parley.Main
import Parley.Proofs.Landing
import Parley.Proofs.Machine
import Parley.Proofs.Meaning
import Parley.Proofs.Outcome
import Parley.Proofs.Record
import Parley.Proofs.StateName
import Parley.Proofs.Stretch
import Parley.Proofs.Transition
import Parley.Session.Barrier
import Parley.Session.Fork
import Parley.Session.Inbox
import Parley.Session.Mesh
import Parley.Session.Stage
import Parley.Proofs.Refinement
import Parley.Proofs.Drive
import Parley.Proofs.Duet
import Parley.Proofs.Declared
import Parley.Proofs.Signal
import Parley.Proofs.Mirror
import Parley.Proofs.Ledger
import Parley.Proofs.ForkJoin
import Parley.Proofs.Structured
import Parley.Proofs.Crew
import Parley.Proofs.Delivery
import Parley.Proofs.Reader
import Parley.Proofs.Reading
import Parley.Proofs.Numbering
import Parley.Proofs.Wording
import Parley.Proofs.StepRun
import Parley.Proofs.StepReading
import Parley.Proofs.Acceptance
import Parley.Proofs.Print
import Parley.Proofs.Schedule
import Parley.Proofs.Concurrent
import Parley.Proofs.Commutation
import Parley.Proofs.Roster
import Parley.Proofs.Linkage
import Parley.Proofs.Naming
import Parley.Proofs.Checked
import Parley.Proofs.Request
import Parley.Proofs.RoleCode
import Parley.Proofs.SourceCode
import Parley.Proofs.Closure
import Parley.Proofs.Arrival
import Parley.Proofs.Continuation
import Parley.Proofs.WellFormed
import Parley.Proofs.Containment
import Parley.Proofs.WayOut
import Parley.Proofs.Variant
import Parley.Proofs.Generation
import Parley.Proofs.Verified
import Parley.Proofs.Identifier
import Parley.Proofs.Passes
import Parley.Proofs.Position
import Parley.Proofs.Twin
import Parley.Proofs.TwinReading
import Parley.Proofs.Respacing
import Parley.Proofs.Observer
import Parley.Proofs.Opening
import Parley.Proofs.Spelling
import Parley.Proofs.Outline
import Parley.Proofs.Legible
import Parley.Proofs.TypeScope
import Parley.Proofs.Fifo
import Parley.Proofs.Partition
import Parley.Proofs.Slices
import Parley.Proofs.Bounds
import Parley.Proofs.SlotTable
import Parley.Proofs.SlotWalk
