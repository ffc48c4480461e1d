import WlanxVms.Lib.Machine
import WlanxVms.Lib.Mem
import WlanxVms.Lib.Ring
import WlanxVms.Lib.Framing
import WlanxVms.ArrayQueue
import WlanxVms.Bcaster.Client
import WlanxVms.Bcaster.Reframe
import WlanxVms.Injector.Item
import WlanxVms.Lisa
import WlanxVms.Injector.Receiving
import WlanxVms.Injector.Sending
import WlanxVms.Bcaster.Threads
import WlanxVms.Bcaster.Tables
import WlanxVms.Bcaster.Cast
import WlanxVms.Bcaster.Failure
import WlanxVms.Radiotap
import WlanxVms.Hwsim
import WlanxVms.Injector.BignumSec
import WlanxVms.Injector.LagTime
import WlanxVms.Injector.Queues
import WlanxVms.Bcaster.Stop
import WlanxVms.Bcaster.Disconnect
import WlanxVms.Injector.Tube
import WlanxVms.Looper
import WlanxVms.Lib.Lock
import WlanxVms.Lisa.Locks
import WlanxVms.Bcaster.Locks
import WlanxVms.Injector.BignumExact
import WlanxVms.Injector.ReceivingSafe
import WlanxVms.Bcaster.Bounds
import WlanxVms.Lisa.CloseClient
import WlanxVms.Lisa.SendLoop
import WlanxVms.Lib.Crc
import WlanxVms.Injector.Checksum
import WlanxVms.Lib.Slots
import WlanxVms.Injector.FixedPool
import WlanxVms.Lib.Reads
import WlanxVms.Frame
import WlanxVms.Bcaster.PrintData
import WlanxVms.Lib.Layout
import WlanxVms.Radiotap.Format
import WlanxVms.Radiotap.Rewrite
import WlanxVms.Hwsim.MonXmit
import WlanxVms.Lib.Select
import WlanxVms.Lisa.Connect
import WlanxVms.Lisa.SelectSets
import WlanxVms.Injector.Registry
import WlanxVms.Injector.PoolFree
import WlanxVms.Injector.Fcs
import WlanxVms.Bcaster.DataFrames
import WlanxVms.Injector.History
import WlanxVms.Injector.ItemQueue
import WlanxVms.Lisa.ReadResponse
import WlanxVms.Injector.RelayParts
import WlanxVms.Injector.Relay
import WlanxVms.Injector.RelayDrain
import WlanxVms.Hwsim.Netlink
import WlanxVms.Lib.Cursor
import WlanxVms.Hwsim.Dump
import WlanxVms.Hwsim.Medium
import WlanxVms.Hwsim.Pending
import WlanxVms.Hwsim.Air
import WlanxVms.Hwsim.AirInv
import WlanxVms.Hwsim.PowerSave
import WlanxVms.Hwsim.Monitor
import WlanxVms.Lib.Broadcast
import WlanxVms.Bcaster.Bus
import WlanxVms.Wlan
import WlanxVms.Wlan.Radio
