import Noobia.Vm.Catalog
import Noobia.Native.Dispatch
import Noobia.Wisp.Request
import Noobia.Council.Closure
import Noobia.Council.Imitation
import Noobia.Neo.Agreement
import Noobia.Iris.TextCall
import Noobia.Iris.Download
import Noobia.Wisp.Terminal
import Noobia.Hue.Lock
import Noobia.Store.Delete
import Noobia.Esp.Pass
import Noobia.Esp.Load
import Noobia.Council.Book
import Noobia.Council.Settings
import Noobia.Council.Web
import Noobia.Council.Status
import Noobia.Council.Forward
import Noobia.Council.Lease
import Noobia.Council.Initiation
import Noobia.Council.Failover
import Noobia.Vm.Report
import Noobia.Vm.Arithmetic
import Noobia.Sequence.Agree
import Noobia.Sequence.Fresh
import Noobia.Thread.Pause
import Noobia.Esp.Schedule
import Noobia.Thread.Rise
import Noobia.Iris.Align
import Noobia.Wisp.Path
