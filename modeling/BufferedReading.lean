import BufferedReading.Session.Blocking
import BufferedReading.Session.Polled
import BufferedReading.Session.Window
import BufferedReading.Source.Script
import BufferedReading.Source.Cursor
import BufferedReading.Source.Paced
import BufferedReading.Source.Recorded
import BufferedReading.Check.Lines
import BufferedReading.Check.MixedReads
import BufferedReading.Main
import BufferedReading.Proofs.Account
import BufferedReading.Proofs.Conservation
import BufferedReading.Proofs.EventStream
import BufferedReading.Proofs.Mirror
import BufferedReading.Proofs.Signals
import BufferedReading.Proofs.Suspension
import BufferedReading.Proofs.Transparency
import BufferedReading.Proofs.Courses
import BufferedReading.Proofs.Waited
import BufferedReading.Proofs.Attempts
import BufferedReading.Proofs.Discipline
import BufferedReading.Proofs.Splitting
import BufferedReading.Proofs.LinesUnderWay
import BufferedReading.Proofs.Alike
import BufferedReading.Proofs.Cancellation
import BufferedReading.Proofs.Amortisation
import BufferedReading.Proofs.Checks
import BufferedReading.Proofs.Settled
import BufferedReading.Proofs.NoFaults
import BufferedReading.Proofs.Persistence
import BufferedReading.Proofs.Allowance
import BufferedReading.Proofs.Decision
import BufferedReading.Proofs.FalseCounts
import BufferedReading.Proofs.Failures
import BufferedReading.Proofs.ByteQueue
import BufferedReading.Proofs.Resumption
import BufferedReading.Proofs.PolledServing
import BufferedReading.Proofs.LineCounts
