import Domotics.Document.Reader
import Domotics.Document.Writer
import Domotics.Engine.Inspection
import Domotics.Proofs.Bus.Order
import Domotics.Proofs.Catalog.Label
import Domotics.Proofs.Engine.Newest
import Domotics.Proofs.Engine.Reading
import Domotics.Proofs.Periodic.Heartbeat
import Domotics.Proofs.Periodic.Recurrence
import Domotics.Proofs.Periodic.Timer
import Domotics.Proofs.Rehearsal.Delay
import Domotics.Proofs.Rehearsal.Heartbeat
import Domotics.Proofs.Rehearsal.Punctuality
import Domotics.Proofs.Rehearsal.Registration
import Domotics.Proofs.Resolution.Compatible
import Domotics.Proofs.Resolution.Identifier
import Domotics.Proofs.Resolution.Unordered
import Domotics.Proofs.Run.Account
import Domotics.Proofs.Run.Alone
import Domotics.Proofs.Run.Ease
import Domotics.Proofs.Run.History
import Domotics.Proofs.Run.Quiescence
import Domotics.Proofs.Run.Reachable
import Domotics.Proofs.Run.Reordering
import Domotics.Proofs.Run.Restriction
import Domotics.Proofs.Run.Seen
import Domotics.Proofs.Schedule.BoundText
import Domotics.Proofs.Schedule.Daily
import Domotics.Proofs.Schedule.Meaning
import Domotics.Proofs.Schedule.NextTime
import Domotics.Proofs.Schedule.WeekLater
import Domotics.Proofs.Service.Atomicity
import Domotics.Proofs.Service.Hearing
import Domotics.Proofs.Transition.EventDriven
import Domotics.Proofs.Transition.Firing
import Domotics.Proofs.Value.Integer
import Domotics.Proofs.Value.Settled
import Domotics.Service.Configuration
