import Dialogue.Table
import Dialogue.Script
import Dialogue.Ending
import Dialogue.CloseReason
import Dialogue.Text.Unprintable
import Dialogue.Text.Quoted
import Dialogue.Roster.Basic
import Dialogue.Roster.Script
import Dialogue.OneShot.Basic
import Dialogue.OneShot.Rack
import Dialogue.OneShot.Script
import Dialogue.Handoff.Queue
import Dialogue.Handoff.Exchange
import Dialogue.Handoff.Script
import Dialogue.Broadcast.Signal
import Dialogue.Broadcast.Registry
import Dialogue.Broadcast.Script
import Dialogue.Session.Progress
import Dialogue.Session.Link
import Dialogue.Session.Handler
import Dialogue.Session.Basic
import Dialogue.Session.Perform
import Dialogue.Session.Advance
import Dialogue.Session.Script
import Dialogue.Countdown.Deadline
import Dialogue.Countdown.Scenario
import Dialogue.Proofs.Handoff.Queue
import Dialogue.Proofs.Session.Run
import Dialogue.Proofs.Session.Effects
import Dialogue.Proofs.Session.Advance
import Dialogue.Proofs.Session.Sound
import Dialogue.Proofs.Session.Stages
import Dialogue.Proofs.Session.Waking
import Dialogue.Proofs.Session.Settling
import Dialogue.Proofs.Session.Callbacks
import Dialogue.Proofs.Session.Stopping
import Dialogue.Proofs.Session.Verdict
import Dialogue.Proofs.Session.Writing
import Dialogue.Proofs.Session.Sink
import Dialogue.Proofs.Session.Choosing
import Dialogue.Proofs.Session.Farewell
import Dialogue.Proofs.Session.Resolving
import Dialogue.Proofs.Session.Dropping
import Dialogue.Proofs.Session.Reading
import Dialogue.Proofs.Session.Hearing
import Dialogue.Proofs.Session.Gist
import Dialogue.Proofs.Session.Taming
import Dialogue.Proofs.Session.Repeating
import Dialogue.Proofs.Handoff.Run
import Dialogue.Proofs.Handoff.Marks
import Dialogue.Proofs.Handoff.Entries
import Dialogue.Proofs.Handoff.Conservation
import Dialogue.Proofs.Handoff.Due
import Dialogue.Proofs.Handoff.Posting
import Dialogue.Proofs.Handoff.Plays
import Dialogue.Proofs.Handoff.Alerts
import Dialogue.Proofs.Handoff.Wakers
import Dialogue.Proofs.Broadcast.Agenda
import Dialogue.Proofs.Broadcast.Firing
import Dialogue.Proofs.Broadcast.Completing
import Dialogue.Proofs.Broadcast.Plays
import Dialogue.Proofs.OneShot.Custody
import Dialogue.Proofs.OneShot.Agenda
import Dialogue.Proofs.OneShot.Calls
import Dialogue.Proofs.OneShot.Plays
import Dialogue.Proofs.OneShot.Layouts
import Dialogue.Proofs.OneShot.Storage
import Dialogue.Proofs.Handoff.Waits
import Dialogue.Proofs.Handoff.Vanishing
import Dialogue.Proofs.Handoff.Abandoning
import Dialogue.Proofs.Broadcast.Run
import Dialogue.Proofs.Broadcast.Hooks
import Dialogue.Proofs.Broadcast.Channels
import Dialogue.Proofs.Broadcast.Readiness
import Dialogue.Proofs.Session.Opening
import Dialogue.Proofs.Session.TurnedAway
import Dialogue.Proofs.Countdown.Run
import Dialogue.Proofs.Countdown.Schedule
import Dialogue.Proofs.Countdown.Answer
import Dialogue.Proofs.Countdown.Outcome
import Dialogue.Proofs.Session.Refusing
import Dialogue.Proofs.Session.Overruling
import Dialogue.Proofs.Session.Sending
import Dialogue.Proofs.Handoff.Relabel
import Dialogue.Proofs.Handoff.Handlers
import Dialogue.Proofs.Broadcast.Life
import Dialogue.Proofs.Session.Signals
import Dialogue.Proofs.Depot
import Dialogue.Proofs.Assertions
