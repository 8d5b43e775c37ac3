import Switchboard.Services
import Switchboard.World.History
import Switchboard.Proofs.Frames
import Switchboard.Proofs.Moves
import Switchboard.Proofs.Turns
import Switchboard.Proofs.Runs
import Switchboard.Proofs.Histories
import Switchboard.Proofs.Ledger
import Switchboard.Proofs.Jobs
import Switchboard.Proofs.Traffic
import Switchboard.Proofs.CrossTalk
import Switchboard.Proofs.Leads
import Switchboard.Proofs.Results
import Switchboard.Proofs.Registrations
import Switchboard.Proofs.Listening
import Switchboard.Proofs.Answers
import Switchboard.Proofs.Course
import Switchboard.Proofs.Places
import Switchboard.Proofs.EndToEnd
import Switchboard.Proofs.Wakes
import Switchboard.Proofs.Attempts
import Switchboard.Proofs.Enrolments
import Switchboard.Proofs.Deeds
import Switchboard.Proofs.Closing
import Switchboard.Proofs.Serving
import Switchboard.Proofs.AtMostOnce
import Switchboard.Proofs.Pending
import Switchboard.Proofs.Deadlines
import Switchboard.Proofs.Holding
import Switchboard.Proofs.Outcomes
import Switchboard.Proofs.Releases
import Switchboard.Proofs.Queueing
import Switchboard.Proofs.Deliveries
import Switchboard.Proofs.WireForms
import Switchboard.Proofs.Relays
import Switchboard.Proofs.Trials
import Switchboard.Proofs.Senders
import Switchboard.Proofs.FirstUse
import Switchboard.Proofs.Publications
import Switchboard.Proofs.Retries
import Switchboard.Proofs.Likeness
import Switchboard.Proofs.Lockstep
import Switchboard.Proofs.Opacity
import Switchboard.Proofs.Isolation
import Switchboard.Proofs.Invocations
import Switchboard.Proofs.Rosters
import Switchboard.Proofs.Completions
import Switchboard.Proofs.Inbox
import Switchboard.Proofs.Filters
import Switchboard.Proofs.Defects
import Switchboard.Proofs.Settings
import Switchboard.Proofs.Desks
import Switchboard.Proofs.Registries
import Switchboard.Proofs.Orders
import Switchboard.Proofs.Instants
import Switchboard.Proofs.Expiry
import Switchboard.Proofs.Postings
import Switchboard.Proofs.Redemptions
import Switchboard.Proofs.AwaitedCalls
import Switchboard.Proofs.TypedCalls
import Switchboard.Proofs.Seniority
import Switchboard.Proofs.Nesting
import Switchboard.Proofs.Mentions
