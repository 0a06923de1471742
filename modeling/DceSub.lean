import DceSub.Base.Bytes
import DceSub.Base.Chain
import DceSub.Base.CString
import DceSub.Base.Double
import DceSub.Base.Loop
import DceSub.Base.Machine
import DceSub.Base.Numeral
import DceSub.Base.Outcome
import DceSub.Base.Pool
import DceSub.Base.Printf
import DceSub.Base.Strtok
import DceSub.Base.Word
import DceSub.Base.Wrap
import DceSub.Wire.Output
import DceSub.Wire.Text
import DceSub.Wire.Filter
import DceSub.Wire.Reads
import DceSub.Wire.Receiver
import DceSub.Wire.Price
import DceSub.Wire.Log
import DceSub.Client.RawSock
import DceSub.Client.Exanic
import DceSub.Client.HandlePkt
import DceSub.Client.Agreement
import DceSub.Client.Residue
import DceSub.Client.Vlan
import DceSub.Client.Socket
import DceSub.Client.Logs
import DceSub.Client.Feed
import DceSub.Client.Startup
import DceSub.Efvi.Memreg
import DceSub.Efvi.Rxq
import DceSub.Efvi.Resources
import DceSub.Efvi.Refill
import DceSub.Efvi.Ownership
import DceSub.Efvi.Init
import DceSub.Efvi.McClient
import DceSub.Efvi.Conservation
import DceSub.Efvi.EventLoop
import DceSub.Efvi.Delivery
import DceSub.Efvi.SameWire
import DceSub.Efvi.OwnBytes
import DceSub.Efvi.Windows
import DceSub.Efvi.Pace
import DceSub.Efvi.Backlog
import DceSub.Efvi.Statistics
import DceSub.Efvi.Stdout
import DceSub.Efvi.FilterParse
import DceSub.Efvi.FilterText
import DceSub.Efvi.FilterReads
