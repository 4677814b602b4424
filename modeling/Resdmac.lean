import Resdmac.Accounting
import Resdmac.Board
import Resdmac.Completion
import Resdmac.Contention
import Resdmac.Counter
import Resdmac.Driver
import Resdmac.FifoQueue
import Resdmac.FlashData
import Resdmac.FlushExact
import Resdmac.FlushFlag
import Resdmac.FlushReset
import Resdmac.FlushTwice
import Resdmac.Isolation
import Resdmac.Peripheral
import Resdmac.Polling
import Resdmac.PortAccess
import Resdmac.PortData
import Resdmac.PortLatency
import Resdmac.PowerUp
import Resdmac.Progress
import Resdmac.ReadStream
import Resdmac.Requests
import Resdmac.StopDma
import Resdmac.Tenure
import Resdmac.WriteGlitch
import Resdmac.WriteStream
