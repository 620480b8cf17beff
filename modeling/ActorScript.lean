import ActorScript.Main
import ActorScript.Proofs.Representation
import ActorScript.Recording
import ActorScript.Session
import ActorScript.Proofs.Selection
import ActorScript.Proofs.Refusal
import ActorScript.Proofs.Stuck
import ActorScript.Proofs.Layout
import ActorScript.Proofs.Slicing
import ActorScript.Proofs.Related
import ActorScript.Proofs.Recorder
import ActorScript.Proofs.Sequence
import ActorScript.Proofs.Steps
import ActorScript.Proofs.Effort
import ActorScript.Proofs.Entered
import ActorScript.Proofs.Dozing
import ActorScript.Proofs.Waiting
import ActorScript.Proofs.Resuming
import ActorScript.Proofs.Asked
import ActorScript.Proofs.Linted
import ActorScript.Proofs.Isolation
import ActorScript.Proofs.Naming
import ActorScript.Proofs.Printed
import ActorScript.Proofs.Numbering
import ActorScript.Proofs.Counterpart
import ActorScript.Proofs.Renewed
import ActorScript.Proofs.SessionCall
import ActorScript.Proofs.Independent
import ActorScript.Proofs.Gaps
import ActorScript.Proofs.Lexemes
import ActorScript.Proofs.Offsets
import ActorScript.Proofs.Located
import ActorScript.Proofs.Reread
import ActorScript.Proofs.Written
import ActorScript.Proofs.Saving
import ActorScript.Proofs.Remembered
import ActorScript.Proofs.CallSites
import ActorScript.Proofs.Called
import ActorScript.Proofs.Seeding
import ActorScript.Proofs.Reloading
import ActorScript.Proofs.Shape
import ActorScript.Proofs.Pausing
import ActorScript.Proofs.Aliases
import ActorScript.Proofs.Decoding
import ActorScript.Proofs.Arithmetic
import ActorScript.Proofs.Spending
import ActorScript.Proofs.Atomic
import ActorScript.Proofs.Journal
import ActorScript.Proofs.SessionJournal
import ActorScript.Proofs.Placeholders
import ActorScript.Proofs.Formatting
import ActorScript.Proofs.Lines
import ActorScript.Proofs.Cursor
import ActorScript.Proofs.Walks
import ActorScript.Proofs.Progress
