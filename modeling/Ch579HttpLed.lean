import Ch579HttpLed.Foundation.Runs
import Ch579HttpLed.Foundation.Memory
import Ch579HttpLed.Foundation.Ring
import Ch579HttpLed.Foundation.Search
import Ch579HttpLed.Foundation.CString
import Ch579HttpLed.Foundation.Wrap
import Ch579HttpLed.Foundation.Deadlines
import Ch579HttpLed.Foundation.OnesComplement
import Ch579HttpLed.Foundation.Areas
import Ch579HttpLed.Driver.Gpio
import Ch579HttpLed.Net.EthMac
import Ch579HttpLed.Net.RxRing
import Ch579HttpLed.Net.RxFifo
import Ch579HttpLed.Net.RxPreempt
import Ch579HttpLed.Net.Pbuf
import Ch579HttpLed.Net.StatusLed
import Ch579HttpLed.Net.Ethernetif
import Ch579HttpLed.Net.InputChain
import Ch579HttpLed.Net.InputProgress
import Ch579HttpLed.Net.InputSchedule
import Ch579HttpLed.Net.Transmit
import Ch579HttpLed.Net.TransmitLive
import Ch579HttpLed.Net.TransmitIntegrity
import Ch579HttpLed.Net.IrqAck
import Ch579HttpLed.Net.Timer0
import Ch579HttpLed.Net.TimerExact
import Ch579HttpLed.Net.SysNow
import Ch579HttpLed.Net.Timeouts
import Ch579HttpLed.Net.TimeoutPool
import Ch579HttpLed.Net.TimeoutQueue
import Ch579HttpLed.Net.TimeoutPace
import Ch579HttpLed.Net.InetChksum
import Ch579HttpLed.Net.ChksumUse
import Ch579HttpLed.Net.Mem
import Ch579HttpLed.Net.MemLayout
import Ch579HttpLed.Net.MemOps
import Ch579HttpLed.Net.MemRuns
import Ch579HttpLed.Net.Lwipcomm
import Ch579HttpLed.Net.LinkPace
import Ch579HttpLed.Net.LinkState
import Ch579HttpLed.Net.LedSeparation
import Ch579HttpLed.App.StdlibImpl
import Ch579HttpLed.App.UriParams
import Ch579HttpLed.App.RequestActions
import Ch579HttpLed.App.Main
import Ch579HttpLed.Http.Httpd
import Ch579HttpLed.Http.HookOnce
import Ch579HttpLed.Http.Response
import Ch579HttpLed.Http.IdleClose
import Ch579HttpLed.Http.GetResponse
