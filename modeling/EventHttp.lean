import EventHttp.Text.Utf8.RoundTrip
import EventHttp.Buffer.View
import EventHttp.Connection.PolledPairs
import EventHttp.Connection.Session
import EventHttp.Server.Loopback
import EventHttp.Main
import EventHttp.Proofs.Connection.Drive
import EventHttp.Proofs.Connection.ScheduleIndependence
import EventHttp.Proofs.Connection.Delivered
import EventHttp.Proofs.Headers
import EventHttp.Proofs.Numeral
import EventHttp.Proofs.Parser.Chunks
import EventHttp.Proofs.Parser.RequestText
import EventHttp.Proofs.Parser.Grammar
import EventHttp.Proofs.Timer.Order
import EventHttp.Proofs.Timer.Operations
import EventHttp.Proofs.Timer.KeyMap
import EventHttp.Proofs.Timer.MinMap
import EventHttp.Proofs.Timer.Firing
import EventHttp.Proofs.Worker.Tables
import EventHttp.Proofs.Worker.Serving
import EventHttp.Proofs.Worker.InStep
import EventHttp.Proofs.Crew.Desk
import EventHttp.Proofs.Crew.Accounting
import EventHttp.Proofs.Crew.Shutdown
import EventHttp.Proofs.Crew.Alone
import EventHttp.Proofs.Buffer.ByteQueue
import EventHttp.Proofs.Polling.Delivery
import EventHttp.Proofs.Connection.Awaiting
import EventHttp.Proofs.Worker.Arming
import EventHttp.Proofs.Worker.Shift
import EventHttp.Proofs.Parser.RequestBytes
import EventHttp.Proofs.Parser.Pipelining
import EventHttp.Proofs.Worker.Deadlines
import EventHttp.Proofs.Worker.Idleness
import EventHttp.Proofs.Connection.Seclusion
import EventHttp.Server.EventLoop
import EventHttp.Proofs.Worker.Apart
import EventHttp.Proofs.Credentials.Calls
import EventHttp.Proofs.Credentials.Registry
import EventHttp.Proofs.Message.Framing
import EventHttp.Proofs.Connection.Dialogue
import EventHttp.Proofs.Crew.Descriptors
import EventHttp.Proofs.Crew.Door
import EventHttp.Proofs.Crew.Bound
import EventHttp.Proofs.Crew.Alarm
import EventHttp.Proofs.Connection.ShortWrites
import EventHttp.Proofs.Parser.LastLine
import EventHttp.Proofs.Parser.Verdicts
import EventHttp.Proofs.Crew.Frame
import EventHttp.Proofs.Crew.RollCall
import EventHttp.Proofs.Crew.Ending
import EventHttp.Proofs.Crew.Descent
import EventHttp.Proofs.Crew.Homecoming
import EventHttp.Proofs.Site.FormText
import EventHttp.Proofs.Site.Location
import EventHttp.Proofs.Site.FormPosts
import EventHttp.Proofs.Site.MediaType
import EventHttp.Proofs.Escaped
import EventHttp.Proofs.CommandLine.LastWins
import EventHttp.Proofs.Connection.Metering
import EventHttp.Proofs.Crew.Dealings
import EventHttp.Proofs.Crew.Turns
import EventHttp.Proofs.Timer.Repair
import EventHttp.Message.ParserRecord
import EventHttp.Proofs.Parser.Phases
import EventHttp.Proofs.Parser.Recorded
import EventHttp.Proofs.Connection.Completion
import EventHttp.Polling.Timeout
import EventHttp.Proofs.Worker.Punctual
