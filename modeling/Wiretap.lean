import Wiretap.Context.Basic
import Wiretap.Context.Edit
import Wiretap.Context.Snapshot
import Wiretap.Context.Text
import Wiretap.Context.Value
import Wiretap.Demand
import Wiretap.Emission
import Wiretap.Fault.Basic
import Wiretap.Fault.Tapped
import Wiretap.Fault.Undelivered
import Wiretap.Fault.Violation
import Wiretap.Item
import Wiretap.Journal.Basic
import Wiretap.Journal.Log
import Wiretap.Listener
import Wiretap.Machine.History
import Wiretap.Machine.Plan
import Wiretap.Machine.Publisher
import Wiretap.Machine.State
import Wiretap.Machine.Step
import Wiretap.Proofs.Tap.Ledger
import Wiretap.Proofs.Tap.Life
import Wiretap.Scenario.Narration
import Wiretap.Scenario.Playback
import Wiretap.Scenario.Predicate
import Wiretap.Scenario.Script
import Wiretap.Scenario.Session
import Wiretap.Scenario.Subscriber
import Wiretap.Scope.Basic
import Wiretap.Scope.Program
import Wiretap.Scope.Text
import Wiretap.Signal
import Wiretap.Tap.Basic
import Wiretap.Tap.Setup
import Wiretap.Tap.Work
import Wiretap.Text.Quoted
import Wiretap.Proofs.Tap.Stream
import Wiretap.Proofs.Tap.Account
import Wiretap.Proofs.Tap.Opening
import Wiretap.Proofs.Tap.Withdrawal
import Wiretap.Proofs.Tap.Containment
import Wiretap.Proofs.Tap.Finality
import Wiretap.Proofs.Tap.Routine
import Wiretap.Proofs.Tap.Epilogue
import Wiretap.Proofs.Tap.Calls
import Wiretap.Proofs.Tap.Record
import Wiretap.Proofs.Tap.Relaying
import Wiretap.Proofs.Tap.Dealing
import Wiretap.Proofs.Machine.Trace
import Wiretap.Proofs.Machine.Steps
import Wiretap.Proofs.Machine.Lines
import Wiretap.Proofs.Machine.Assembly
import Wiretap.Proofs.Machine.Lives
import Wiretap.Proofs.Machine.Mail
import Wiretap.Proofs.Machine.Play
import Wiretap.Proofs.Machine.Handles
import Wiretap.Proofs.Machine.Nesting
import Wiretap.Proofs.Machine.Courtesy
import Wiretap.Proofs.Machine.Calls
import Wiretap.Proofs.Machine.Follow
import Wiretap.Proofs.Machine.Dialogue
import Wiretap.Proofs.Machine.Callbacks
import Wiretap.Proofs.Machine.Dealings
import Wiretap.Proofs.Machine.Solo
import Wiretap.Proofs.Emission.Account
import Wiretap.Proofs.Emission.Serving
import Wiretap.Proofs.Chain.Protocol
import Wiretap.Proofs.Chain.Accounts
import Wiretap.Proofs.Chain.Beginning
import Wiretap.Proofs.Chain.Containment
import Wiretap.Proofs.Chain.Epilogue
import Wiretap.Proofs.Chain.Demand
import Wiretap.Proofs.Machine.Relay
import Wiretap.Proofs.Machine.Mirror
import Wiretap.Proofs.Machine.Matching
import Wiretap.Proofs.Chain.Transparency
import Wiretap.Proofs.Chain.Conservation
import Wiretap.Proofs.Tap.Context
import Wiretap.Proofs.Machine.Ambient
import Wiretap.Proofs.Machine.Visit
import Wiretap.Proofs.Machine.Carried
import Wiretap.Proofs.Chain.Ambient
import Wiretap.Proofs.Tap.Release
import Wiretap.Proofs.Machine.Joined
import Wiretap.Proofs.Machine.Release
import Wiretap.Proofs.Chain.Release
import Wiretap.Proofs.Tap.Passing
import Wiretap.Proofs.Emission.Metered
import Wiretap.Proofs.Machine.Feeding
import Wiretap.Proofs.Machine.Offers
import Wiretap.Proofs.Machine.Supply
import Wiretap.Proofs.Machine.Rations
import Wiretap.Proofs.Chain.Backpressure
import Wiretap.Proofs.Context.Laws
import Wiretap.Proofs.Context.Recipe
import Wiretap.Proofs.Tap.Bracketing
import Wiretap.Proofs.Machine.Minutes
import Wiretap.Proofs.Machine.Deliveries
import Wiretap.Proofs.Chain.Bracketing
import Wiretap.Proofs.Tap.Settling
import Wiretap.Proofs.Tap.FastPath
import Wiretap.Proofs.Machine.Stage
import Wiretap.Proofs.Machine.Staging
import Wiretap.Proofs.Machine.Driving
import Wiretap.Proofs.Chain.FastPath
import Wiretap.Proofs.Machine.Twins
import Wiretap.Proofs.Machine.Calling
import Wiretap.Proofs.Machine.Solitude
import Wiretap.Proofs.Machine.Fanout
import Wiretap.Proofs.Chain.Separation
import Wiretap.Proofs.Tap.Aftermath
import Wiretap.Proofs.Chain.Aftermath
import Wiretap.Proofs.Tap.Candour
import Wiretap.Proofs.Tap.Parting
import Wiretap.Proofs.Machine.Meanwhile
import Wiretap.Proofs.Machine.Unwinding
import Wiretap.Proofs.Machine.Received
import Wiretap.Proofs.Machine.Parting
import Wiretap.Proofs.Chain.Parting
import Wiretap.Proofs.Tap.Requests
import Wiretap.Proofs.Machine.Requests
import Wiretap.Proofs.Chain.Requests
import Wiretap.Proofs.Tap.Dismissal
import Wiretap.Proofs.Machine.Forsaken
import Wiretap.Proofs.Machine.Dismissal
import Wiretap.Proofs.Chain.Dismissal
import Wiretap.Proofs.Tap.Handles
import Wiretap.Proofs.Machine.Uses
import Wiretap.Proofs.Chain.FirstHandle
import Wiretap.Proofs.Machine.Pacing
import Wiretap.Proofs.Machine.Lookahead
import Wiretap.Proofs.Chain.Pacing
import Wiretap.Proofs.Scope.Restoring
import Wiretap.Proofs.Context.Algebra
import Wiretap.Proofs.Context.Identity
import Wiretap.Proofs.Fault.Causes
import Wiretap.Proofs.Chain.Counters
import Wiretap.Proofs.Chain.Standing
