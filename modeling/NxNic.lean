import NxNic.Tx.Ownership
import NxNic.Tx.RingSafety
import NxNic.Tx.Fifo
import NxNic.Rx.Conservation
import NxNic.Rx.LowWater
import NxNic.Fw.Recoveries
import NxNic.Fw.Storms
import NxNic.Req.Correlation
import NxNic.Req.Allocator
import NxNic.Req.Returns
import NxNic.Cdrp.Agreement
import NxNic.Cdrp.Results
import NxNic.Sem.Semaphores
import NxNic.Mac.Filters
import NxNic.Lro.Flows
import NxNic.Lro.Ownership
import NxNic.Hash.LroTable
import NxNic.Mem.RoundTrips
import NxNic.Mem.Direct
import NxNic.Tool.Ioctl
import NxNic.Pexq.RingInvariant
import NxNic.Ctx.Consistency
import NxNic.Ctx.Rules
import NxNic.Ctx.Pointers
import NxNic.Ctx.Destroy
import NxNic.Ctx.Mtu
import NxNic.Ctx.Ids
import NxNic.Ctx.Response
import NxNic.Ctx.SdsRings
import NxNic.Ctx.Tables
import NxNic.Tx.WakeUps
import NxNic.Load.Selection
import NxNic.Load.Image
import NxNic.Load.Versions
import NxNic.Load.Bounds
import NxNic.Load.InitTable
import NxNic.Attach.Memory
import NxNic.Attach.Port
import NxNic.Attach.Steps
import NxNic.Attach.Balance
import NxNic.Tx.Headers
import NxNic.Tool.Eeprom
import NxNic.Rx.VlanTag
import NxNic.Esx.Search
import NxNic.Esx.Conservation
import NxNic.Esx.Xmit
import NxNic.Esx.Exits
import NxNic.Phy.Loopback
import NxNic.Lib.Checksum
import NxNic.Lro.Attempts
import NxNic.Rx.Interrupts
import NxNic.Mac.P2Ports
import NxNic.Load.CrbAddresses
import NxNic.Lro.LifeCycle
