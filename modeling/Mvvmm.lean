import Mvvmm.Lib.Bytes
import Mvvmm.Lib.CMem
import Mvvmm.Lib.Run
import Mvvmm.Lib.Fair
import Mvvmm.Lib.Ring
import Mvvmm.Lib.Linear
import Mvvmm.Lib.Exclusion
import Mvvmm.Lib.Trail
import Mvvmm.Lib.Strtoull
import Mvvmm.Lib.Mealy
import Mvvmm.Lib.Space
import Mvvmm.Lib.Journal
import Mvvmm.Lib.Ledger
import Mvvmm.Pool.Machine
import Mvvmm.Pool.Locks
import Mvvmm.Pool.Once
import Mvvmm.Pool.Live
import Mvvmm.Uart.Device
import Mvvmm.Uart.Machine
import Mvvmm.Uart.Announce
import Mvvmm.Uart.Latch
import Mvvmm.Uart.Strings
import Mvvmm.Vm.Memory
import Mvvmm.Vm.Options
import Mvvmm.Vm.SizeOption
import Mvvmm.Vm.Keyboard
import Mvvmm.Vm.Input
import Mvvmm.Vm.Boot
import Mvvmm.Vm.Loader
import Mvvmm.Vm.Power
import Mvvmm.Vm.Poweroff
import Mvvmm.Virtio.Mem
import Mvvmm.Virtio.Pages
import Mvvmm.Virtio.Desc
import Mvvmm.Virtio.Copy
import Mvvmm.Virtio.Queue
import Mvvmm.Virtio.Mmio
import Mvvmm.Virtio.Bounds
import Mvvmm.Virtio.Walk
import Mvvmm.Virtio.Parts
import Mvvmm.Virtio.Gather
import Mvvmm.Virtio.Scatter
import Mvvmm.Virtio.Transfer
import Mvvmm.Virtio.Ends
import Mvvmm.Virtio.Rounds
import Mvvmm.Virtio.Chain
import Mvvmm.Virtio.Registers
import Mvvmm.Virtio.Config
import Mvvmm.Virtio.Ring
import Mvvmm.Virtio.Completions
import Mvvmm.Virtio.Suppress
import Mvvmm.Virtio.Driver
import Mvvmm.Virtio.Machine
import Mvvmm.Virtio.Notify
import Mvvmm.Block.Device
import Mvvmm.Block.Io
import Mvvmm.Block.Machine
import Mvvmm.Block.Recv
import Mvvmm.Block.Serve
import Mvvmm.Block.Request
import Mvvmm.Block.Reset
import Mvvmm.Block.Safe
import Mvvmm.Block.Threads
import Mvvmm.Net.Device
import Mvvmm.Net.Tx
import Mvvmm.Net.Packet
import Mvvmm.Net.Rx
import Mvvmm.Sizes
import Mvvmm.Returns
import Mvvmm.Account
import Mvvmm.Block.Submit
import Mvvmm.Block.Driver
import Mvvmm.Block.Ledger
import Mvvmm.Block.Upkeep
import Mvvmm.Block.Linear
import Mvvmm.Block.Refusal
import Mvvmm.Shared.Frames
import Mvvmm.Shared.Isolation
import Mvvmm.Ready
import Mvvmm.Virtio.Live
import Mvvmm.Block.Live
import Mvvmm.Net.Send
import Mvvmm.Notify
import Mvvmm.Registers
import Mvvmm.Teardown
import Mvvmm.Startup.Programs
import Mvvmm.Startup.Devices
import Mvvmm.Startup.Life
import Mvvmm.Vm.Exit
