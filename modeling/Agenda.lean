import Agenda.Except
import Agenda.Time.Date
import Agenda.Time.Duration
import Agenda.Time.Instant
import Agenda.Text.Blank
import Agenda.Text.Utf8
import Agenda.Text.Quoted
import Agenda.Text.Lowercase
import Agenda.Decimal.Digits
import Agenda.Decimal.Shortest
import Agenda.Time.Text
import Agenda.Json.Error
import Agenda.Json.Number
import Agenda.Json.Quoted
import Agenda.Json.Reader
import Agenda.Json.Skip
import Agenda.Json.Record
import Agenda.Json.Printer
import Agenda.Event.Basic
import Agenda.Event.Validation
import Agenda.Event.Json
import Agenda.Failure
import Agenda.Store.Basic
import Agenda.Store.Backend
import Agenda.Calendar
import Agenda.Intake
import Agenda.Retention
import Agenda.Reminders
import Agenda.Store.Relational
import Agenda.Http.Response
import Agenda.Cron.Field
import Agenda.Cron.Grammar
import Agenda.Cron.Next
import Agenda.Cron.Crontab
import Agenda.Http.Target
import Agenda.Http.Router
import Agenda.Scheduler
import Agenda.Toml.Item
import Agenda.Toml.Text
import Agenda.Toml.Number
import Agenda.Toml.Document
import Agenda.Config.Value
import Agenda.Config.Source
import Agenda.Config.Reader
import Agenda.Config.Settings
import Agenda.Main
import Agenda.Proofs.Event.Validation
import Agenda.Proofs.Store.View
import Agenda.Proofs.Calendar
import Agenda.Proofs.Call
import Agenda.Proofs.Reminders
import Agenda.Proofs.Retention
import Agenda.Proofs.Concurrent.System
import Agenda.Proofs.Concurrent.Alone
import Agenda.Proofs.Concurrent.Sent
import Agenda.Proofs.Concurrent.Edits
import Agenda.Proofs.Sequential.Session
import Agenda.Proofs.Sequential.Lives
import Agenda.Proofs.Sequential.LifeCycle
import Agenda.Proofs.Sequential.Validity
import Agenda.Proofs.Text.Utf8
import Agenda.Proofs.Time.Date
import Agenda.Proofs.Time.Text
import Agenda.Proofs.Json.Number
import Agenda.Proofs.Json.Quoted
import Agenda.Proofs.Json.Reader
import Agenda.Proofs.Json.Record
import Agenda.Proofs.Event.Json
import Agenda.Proofs.Event.RemindTime
import Agenda.Proofs.Json.Grammar
import Agenda.Proofs.Json.Skip
import Agenda.Proofs.Json.Values
import Agenda.Proofs.Json.Object
import Agenda.Proofs.Json.Sequence
import Agenda.Proofs.Event.Members
import Agenda.Proofs.Time.Offset
import Agenda.Proofs.Event.Start
import Agenda.Proofs.Http.Router
import Agenda.Proofs.Http.Intake
import Agenda.Proofs.Http.Start
import Agenda.Proofs.Cron.Grammar
import Agenda.Proofs.Cron.Crontab
import Agenda.Proofs.Cron.Parts
import Agenda.Proofs.Cron.Earliest
import Agenda.Proofs.Time.Month
import Agenda.Proofs.Windows
import Agenda.Proofs.Views
import Agenda.Proofs.Concurrent.Confluence
import Agenda.Proofs.Concurrent.Purges
import Agenda.Proofs.Answers
import Agenda.Proofs.Concurrent.Accounting
import Agenda.Proofs.Handover
import Agenda.Proofs.Sequential.Reordering
import Agenda.Proofs.Sequential.Redelivery
import Agenda.Proofs.Reminders.DueOnce
import Agenda.Proofs.Retention.Expired
import Agenda.Proofs.Retention.Repeated
import Agenda.Proofs.Concurrent.Traffic
import Agenda.Proofs.Scheduler.Discipline
import Agenda.Proofs.Windows.Tiling
import Agenda.Proofs.Json.Extension
import Agenda.Proofs.Json.Written
import Agenda.Proofs.Http.Damage
import Agenda.Proofs.Http.Query
import Agenda.Proofs.Http.Owner
import Agenda.Proofs.Text.Lowercase
import Agenda.Proofs.Decimal.Binary64
import Agenda.Proofs.Toml.Integer
import Agenda.Proofs.Config.Tree
import Agenda.Proofs.Config.Layers
import Agenda.Proofs.Config.Settings
import Agenda.Proofs.Config.Environment
import Agenda.Proofs.Config.Verbatim
import Agenda.Proofs.Config.Numbers
import Agenda.Proofs.Config.Independence
import Agenda.Proofs.Config.Address
