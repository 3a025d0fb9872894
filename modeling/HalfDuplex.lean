import HalfDuplex.Main
import HalfDuplex.Proofs.Text.Encoding
import HalfDuplex.Proofs.Durations.Period
import HalfDuplex.Proofs.Durations.Draws
import HalfDuplex.Proofs.Durations.Rejection
import HalfDuplex.Proofs.Durations.Frequencies
import HalfDuplex.Proofs.Durations.Streams
import HalfDuplex.Proofs.Durations.Calls
import HalfDuplex.Proofs.Semaphore.Sleepers
import HalfDuplex.Proofs.Semaphore.Accounts
import HalfDuplex.Proofs.Arbiter.Coherence
import HalfDuplex.Proofs.Arbiter.HandOver
import HalfDuplex.Proofs.Arbiter.Acts
import HalfDuplex.Proofs.Arbiter.Convoy
import HalfDuplex.Proofs.Arbiter.Priority
import HalfDuplex.Proofs.Arbiter.Promptness
import HalfDuplex.Proofs.Arbiter.Draining
import HalfDuplex.Proofs.Arbiter.Headroom
import HalfDuplex.Proofs.Arbiter.Misuse
import HalfDuplex.Proofs.Arbiter.Succession
import HalfDuplex.Proofs.Arbiter.Exchange
import HalfDuplex.Proofs.Bus.Calls
import HalfDuplex.Proofs.Bus.Outlook
import HalfDuplex.Proofs.Bus.Recording
import HalfDuplex.Proofs.Crew.Census
import HalfDuplex.Proofs.Crew.Moves
import HalfDuplex.Proofs.Crew.Turns
import HalfDuplex.Proofs.Crew.Occupancy
import HalfDuplex.Proofs.Crew.Progress
import HalfDuplex.Proofs.Crew.Fates
import HalfDuplex.Proofs.Crew.Finish
import HalfDuplex.Proofs.Crew.Reuse
import HalfDuplex.Proofs.Crew.Completion
import HalfDuplex.Proofs.Crew.Integrity
import HalfDuplex.Proofs.Crew.Driven
import HalfDuplex.Proofs.Crew.Strays
import HalfDuplex.Proofs.Trace.Following
import HalfDuplex.Proofs.Trace.Mirror
import HalfDuplex.Proofs.Trace.Ledger
import HalfDuplex.Proofs.Trace.Marks
import HalfDuplex.Proofs.Trace.Steps
import HalfDuplex.Proofs.Trace.Words
import HalfDuplex.Proofs.Trace.Counting
import HalfDuplex.Proofs.Trace.Checking
import HalfDuplex.Proofs.Trace.Breaches
import HalfDuplex.Proofs.Trace.Glances
import HalfDuplex.Proofs.Trace.Splicing
import HalfDuplex.Proofs.Trace.Holding
import HalfDuplex.Proofs.Trace.Renaming
import HalfDuplex.Proofs.Trace.Interchange
import HalfDuplex.Proofs.Batch.Building
import HalfDuplex.Proofs.Batch.Blocks
import HalfDuplex.Proofs.Batch.Completion
import HalfDuplex.Proofs.Batch.Freezing
import HalfDuplex.Proofs.Batch.Deciding
import HalfDuplex.Proofs.Batch.Outcomes
import HalfDuplex.Proofs.Batch.Peaks
import HalfDuplex.Proofs.Batch.TransferTimes
import HalfDuplex.Proofs.Batch.Names
import HalfDuplex.Proofs.CommandLine.Arguments
import HalfDuplex.Proofs.CommandLine.Scanning
import HalfDuplex.Proofs.CommandLine.Exits
import HalfDuplex.Proofs.CommandLine.Overriding
