import Enc28j60.RegisterFile
import Enc28j60.BankCache
import Enc28j60.Duplex
import Enc28j60.Startup
import Enc28j60.SpiWindows
import Enc28j60.Requests
import Enc28j60.Retention
import Enc28j60.Output
import Enc28j60.Interleaving
import Enc28j60.Input
import Enc28j60.Lwip.Ip4Input
import Enc28j60.Lwip.Routing
