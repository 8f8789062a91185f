import KeysharpDesktop.Kwin.Report
import KeysharpDesktop.Kwin.Delivery
import KeysharpDesktop.Kwin.Queue
import KeysharpDesktop.Kwin.Text
import KeysharpDesktop.Authority.Display
import KeysharpDesktop.State.Record
import KeysharpDesktop.State.Codec
import KeysharpDesktop.State.Wire
import KeysharpDesktop.State.Json
import KeysharpDesktop.Authority.Lease
import KeysharpDesktop.Lib.Keyed
import KeysharpDesktop.Lib.Tally
import KeysharpDesktop.Authority.Windows
import KeysharpDesktop.Authority.Source
import KeysharpDesktop.Authority.Replication
import KeysharpDesktop.Authority.Provider
import KeysharpDesktop.Authority.Grants
import KeysharpDesktop.Authority.Sync
import KeysharpDesktop.Authority.Authorize
import KeysharpDesktop.Authority.Operation
import KeysharpDesktop.Kwin.Bus
import KeysharpDesktop.Kwin.Inflight
import KeysharpDesktop.Kwin.Park
import KeysharpDesktop.Kwin.Dispatch
import KeysharpDesktop.Kwin.Lanes
import KeysharpDesktop.Kwin.Turns
import KeysharpDesktop.Kwin.Chain
import KeysharpDesktop.Kwin.Retry
import KeysharpDesktop.Kwin.Asking
import KeysharpDesktop.Lib.JsText
import KeysharpDesktop.Kwin.Script
import KeysharpDesktop.Lib.Stream
import KeysharpDesktop.Wire.Request
import KeysharpDesktop.Wire.Transfer
import KeysharpDesktop.Authority.Respond
import KeysharpDesktop.Authority.Admission
import KeysharpDesktop.Authority.Pool
import KeysharpDesktop.Authority.Assembly
import KeysharpDesktop.Authority.Lifetime
import KeysharpDesktop.Client.Connection
import KeysharpDesktop.Client.Response
import KeysharpDesktop.Client.Events
import KeysharpDesktop.Client.Operations
import KeysharpDesktop.Authority.Reset
import KeysharpDesktop.Kwin.Callers
import KeysharpDesktop.Lib.Exclusive
import KeysharpDesktop.Kwin.Demux
import KeysharpDesktop.Kwin.Execute
import KeysharpDesktop.Kwin.Lines
import KeysharpDesktop.Kwin.RoundTrip
import KeysharpDesktop.Kwin.Handing
import KeysharpDesktop.Kwin.Channel
import KeysharpDesktop.Kwin.Conversation
import KeysharpDesktop.Kwin.Sizes
import KeysharpDesktop.Kwin.Survival
import KeysharpDesktop.Client.Grants
import KeysharpDesktop.Display.Clipboard
import KeysharpDesktop.Display.Requests
import KeysharpDesktop.Display.Capture
import KeysharpDesktop.State.Objects
import KeysharpDesktop.Display.Toplevels
import KeysharpDesktop.Display.Readable
import KeysharpDesktop.Provider.Placements
import KeysharpDesktop.Provider.Images
import KeysharpDesktop.Provider.Quotas
import KeysharpDesktop.Provider.Frames
import KeysharpDesktop.Lib.Refcount
import KeysharpDesktop.Lib.Framer
import KeysharpDesktop.Hypr.Events
import KeysharpDesktop.Authority.Backends
import KeysharpDesktop.Lib.Edges
import KeysharpDesktop.Display.Compose
import KeysharpDesktop.Display.Tails
import KeysharpDesktop.Display.Drain
import KeysharpDesktop.Display.Records
import KeysharpDesktop.Lib.Diff
import KeysharpDesktop.Display.Watch
import KeysharpDesktop.Display.WatchRun
import KeysharpDesktop.Lib.StableSort
import KeysharpDesktop.Hypr.Reader
import KeysharpDesktop.Hypr.Stack
import KeysharpDesktop.Lib.Allocation
import KeysharpDesktop.Kwin.Handles
import KeysharpDesktop.Lib.SearchTable
import KeysharpDesktop.X11.Watch
import KeysharpDesktop.X11.Searchable
import KeysharpDesktop.Hypr.Unknown
import KeysharpDesktop.Wire.Storage
import KeysharpDesktop.State.Scanner
import KeysharpDesktop.X11.Text
import KeysharpDesktop.Lib.JsNumber
import KeysharpDesktop.Lib.Ancillary
import KeysharpDesktop.Lib.Pipe
import KeysharpDesktop.Display.CaptureWorker
import KeysharpDesktop.Provider.Damage
import KeysharpDesktop.Authority.Counters
