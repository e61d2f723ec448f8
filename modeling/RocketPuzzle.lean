import RocketPuzzle.Main
import RocketPuzzle.Proofs.Acts
import RocketPuzzle.Proofs.Agenda
import RocketPuzzle.Proofs.Firing
import RocketPuzzle.Proofs.Slicing
import RocketPuzzle.Proofs.Coherence
import RocketPuzzle.Proofs.Course
import RocketPuzzle.Proofs.Modes
import RocketPuzzle.Proofs.Isolation
import RocketPuzzle.Proofs.Solvability
import RocketPuzzle.Proofs.Emission
import RocketPuzzle.Proofs.Numeral
import RocketPuzzle.Proofs.Lexing
import RocketPuzzle.Proofs.Grammar
import RocketPuzzle.Proofs.Spelling
import RocketPuzzle.Proofs.JsonTokens
import RocketPuzzle.Proofs.Replay
import RocketPuzzle.Proofs.JsonReading
import RocketPuzzle.Proofs.Nesting
import RocketPuzzle.Proofs.Payload
import RocketPuzzle.Proofs.Sharing
import RocketPuzzle.Proofs.Deeds
import RocketPuzzle.Proofs.Chronicle
import RocketPuzzle.Proofs.Retrace
import RocketPuzzle.Proofs.Validity
import RocketPuzzle.Proofs.Ledger
import RocketPuzzle.Proofs.Confinement
import RocketPuzzle.Proofs.Delivery
import RocketPuzzle.Proofs.Navigation
import RocketPuzzle.Proofs.Rejection
import RocketPuzzle.Proofs.Milestones
import RocketPuzzle.Proofs.Rounds
import RocketPuzzle.Proofs.Playing
import RocketPuzzle.Proofs.Passage
import RocketPuzzle.Proofs.Timetable
import RocketPuzzle.Proofs.Owing
import RocketPuzzle.Proofs.Announcement
import RocketPuzzle.Proofs.Stepwise
import RocketPuzzle.Proofs.Plane
import RocketPuzzle.Proofs.WayBack
import RocketPuzzle.Proofs.Logbook
import RocketPuzzle.Proofs.Inspection
import RocketPuzzle.Proofs.Scanning
import RocketPuzzle.Proofs.Reading
import RocketPuzzle.Proofs.Blame
import RocketPuzzle.Proofs.Layout
import RocketPuzzle.Proofs.Joining
import RocketPuzzle.Proofs.Dissection
import RocketPuzzle.Proofs.Display
import RocketPuzzle.Proofs.Layers
import RocketPuzzle.Proofs.Legibility
import RocketPuzzle.Proofs.Toolbox
import RocketPuzzle.Proofs.Storage
