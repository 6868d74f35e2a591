import Emsd.Lib.Run
import Emsd.Lib.Cyclic
import Emsd.Ocp.Data
import Emsd.Ocp.Fsm
import Emsd.Erop.Types
import Emsd.Erop.Invoke
import Emsd.Erop.InvokerActions
import Emsd.Erop.PerformerActions
import Emsd.Erop.Diagrams
import Emsd.Erop.Engine
import Emsd.Proof.Transitions
import Emsd.Proof.Primitives
import Emsd.Proof.ActionSpec
import Emsd.Proof.Step
import Emsd.Proof.Rows
import Emsd.Proof.Fire
import Emsd.Proof.WellFormed
import Emsd.Proof.References
import Emsd.Proof.Tasks
import Emsd.Life.Phases
import Emsd.Life.Refinement
import Emsd.Safety.ReferenceNumbers
import Emsd.Safety.Outcomes
import Emsd.Safety.Indications
import Emsd.Safety.Orphans
import Emsd.Safety.Release
import Emsd.Proof.Pdus
import Emsd.Safety.Retransmissions
import Emsd.Lib.Chain
import Emsd.Ocp.Buf
import Emsd.Mtsua.Sender
import Emsd.Mts.MessageStore
import Emsd.Mts.Deliver
import Emsd.Mts.Server
import Emsd.Mts.Lists
import Emsd.Mts.Cleaning
import Emsd.Mts.Effects
import Emsd.Mts.Turns
import Emsd.Mts.Moves
import Emsd.Mts.Operations
import Emsd.Mts.Reports
import Emsd.Mts.Queue
import Emsd.Mts.Serial
import Emsd.Mts.Performer
import Emsd.Mtsua.Reassembly
import Emsd.Mtsua.Sequence
import Emsd.Ua.Submit
import Emsd.Mtsua.Segments
import Emsd.Mtsua.Sending
import Emsd.Ocp.Reading
import Emsd.Mtsua.Receiver
import Emsd.Mtsua.Gathered
import Emsd.Mts.Collecting
import Emsd.Mtsua.Operations
import Emsd.Mtsua.Association
import Emsd.Lib.Ledger
import Emsd.Mtsua.Resources
import Emsd.Mtsua.Ownership
import Emsd.Lib.Table
import Emsd.Mtsua.Diagrams
import Emsd.Mtsua.Transitions
import Emsd.Lib.Ring
import Emsd.Ua.VerifyMemory
import Emsd.Lib.Chunks
import Emsd.Net.Upq
import Emsd.Lib.Numeral
import Emsd.Ocp.Writing
import Emsd.Asn.Table
import Emsd.Asn.Ber
import Emsd.Asn.Encoding
import Emsd.Asn.Parsing
import Emsd.Asn.RoundTrip
import Emsd.Ua.Performer
import Emsd.Ua.PendingQueue
import Emsd.Ua.Submission
import Emsd.Ua.Outcome
import Emsd.Esros.UserShell
import Emsd.Mtsua.Routing
import Emsd.Lib.Waiting
import Emsd.Mtsua.Waiting
import Emsd.Ua.Progress
import Emsd.Mts.Perform
import Emsd.Mts.Progress
import Emsd.Safety.Headers
import Emsd.Mtsua.Duplicates
import Emsd.Sch.Scheduler
import Emsd.Sch.Runs
import Emsd.Sbm.Runs
import Emsd.Asn.Quota
import Emsd.Asn.Presence
import Emsd.Ocp.Sharing
import Emsd.Asn.BitStrings
import Emsd.Asn.SequencesOf
import Emsd.Mts.Errors
import Emsd.Ocp.Strings
import Emsd.Mm.Entity
import Emsd.Mm.Agent
import Emsd.Mm.Program
import Emsd.Mm.Access
import Emsd.Mm.Shown
import Emsd.Mm.Values
import Emsd.Mm.Replies
import Emsd.Mm.Raising
import Emsd.Mm.Delivery
import Emsd.Mtsua.Heading
import Emsd.Ua.FromShell
import Emsd.Ua.ToShell
import Emsd.Ua.Headings
import Emsd.Safety.Datagrams
import Emsd.Sbm.Enumeration
import Emsd.Mts.Verify
import Emsd.Mtsua.Window
import Emsd.Sbm.Aborting
import Emsd.Mts.Rejecting
import Emsd.Ua.Failing
import Emsd.Tmr.Punctual
import Emsd.Safety.Requests
import Emsd.Safety.Unbinding
import Emsd.Sbm.Walking
import Emsd.Mts.Subscribers
import Emsd.Mtsua.ControlFile
import Emsd.Mts.Resubmit
import Emsd.Mts.Dates
import Emsd.Mtsua.DateRenderer
import Emsd.Mts.LocalAddresses
import Emsd.Mts.Mailer
import Emsd.Mts.FanOut
import Emsd.Mts.Conversion
import Emsd.Asn.Lengths
import Emsd.Asn.Formatter
import Emsd.Asn.Counting
import Emsd.Asn.Tags
import Emsd.Asn.Repetition
import Emsd.Asn.Bcd
import Emsd.Lib.Scanf
import Emsd.Ua.MessageIds
import Emsd.Lib.Filling
import Emsd.Cfg.Expand
import Emsd.Ocp.Seq
import Emsd.Safety.Binding
import Emsd.Asn.Numbers
import Emsd.Mtsua.Answers
import Emsd.Ua.Refusals
import Emsd.Mts.Aua
import Emsd.Mts.Spooling
import Emsd.Mm.Thresholds
import Emsd.Mm.Saturation
import Emsd.Mm.TimerHandles
import Emsd.Mm.NameLists
import Emsd.Ocp.DataUnits
import Emsd.Ocp.Queue
import Emsd.Sbm.Durable
import Emsd.Safety.Network
import Emsd.Mm.Expiries
import Emsd.Mtsua.Conveyed
