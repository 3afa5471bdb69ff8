import Mvvmm.Lib.Ledger
import Mvvmm.Block.Device
import Mvvmm.Teardown
import Mvvmm.Vm.Memory

/-!
# Start-up and teardown

Model of what `mvvm_init` takes and `mvvm_destroy` gives back, with every path on which a call fails: the descriptors
of KVM, the guest memory, the contexts and descriptors of the two backends, the thread pool, the two devices with
their interrupts, ioeventfds and poll threads, and the thread that receives packets. The functions are programs that
keep books (`Lib.Ledger`); which of their calls succeed is left open.

Several allocations are not checked (`Unchecked`); the rest of the module is about runs in which they succeed.
-/

namespace Mvvmm.Startup
open Ledger Teardown Vm

/-- What is taken: descriptors, memory and threads. -/
inductive Item where
  | kvmFd
  | vmFd
  | cpuFd
  /-- The `struct guest_mem_map`, and the mapping in it. -/
  | memMap
  | hostMem
  /-- The table of `init_cpu`. -/
  | cpuid
  /-- The context of a backend (C `struct block_device_ctx`, `struct tap_net_ctx`), and the descriptor in it. -/
  | ctx (d : Device)
  | fd (d : Device)
  /-- The thread pool, its two arrays, and its workers with their threads. -/
  | pool
  | workers
  | isWorking
  | worker (i : Nat)
  | workerThread (i : Nat)
  /-- The backend as the device sees it (C `struct block_device`, `struct ether_device`), and the device. -/
  | backend (d : Device)
  | device (d : Device)
  | irqfd (d : Device)
  | ioeventfd (d : Device) (q : Nat)
  | pollThread (d : Device)
  | rxThread
  deriving DecidableEq, Repr

/-- The calls that may fail. -/
inductive Call where
  | openKvm
  | createVm
  | createIrqchip
  | createPit2
  | setTssAddr
  | setIdentityMapAddr
  | mallocMemMap
  | mmapHostMem
  | setUserMemoryRegion (slot : Nat)
  | createVcpu
  | getSregs
  | getRegs
  | setRegs
  | setSregs
  | mallocCpuid
  | getSupportedCpuid
  | setCpuid2
  | mallocCtx (d : Device)
  | open (d : Device)
  | fstat
  | tunsetiff
  | mallocPool
  | mallocWorkers
  | mallocIsWorking
  | mallocWorker (i : Nat)
  | createWorkerThread (i : Nat)
  | mallocBackend (d : Device)
  | mallocDevice (d : Device)
  | irqEventfd (d : Device)
  | kvmIrqfd (d : Device)
  | ioEventfd (d : Device) (q : Nat)
  | kvmIoeventfd (d : Device) (q : Nat)
  | createPollThread (d : Device)
  | createRxThread
  deriving DecidableEq, Repr

/-- The allocations whose result is used without a check. -/
def Unchecked : Call → Prop
  | .mallocCpuid => True
  | .mallocPool => True
  | .mallocWorkers => True
  | .mallocIsWorking => True
  | .mallocWorker _ => True
  | .mallocDevice _ => True
  | _ => False

abbrev P (α : Type) : Type := Prog Call Item α

/-! ## Interrupts and notifications -/

/-- C `virtio_irqfd_init`. -/
def virtioIrqfdInit (d : Device) : P Int := do
  if !(← call (.irqEventfd d)) then
    say "eventfd"
    return -1
  gain (.irqfd d)
  if !(← call (.kvmIrqfd d)) then
    say "KVM_IRQFD"
    drop (.irqfd d)
    return -1
  name (.irqfd d)
  return 0

/-- C `virtio_irqfd_cleanup`. -/
def virtioIrqfdCleanup (d : Device) : P Unit := do
  if ← isNamed (.irqfd d) then
    drop (.irqfd d)
    unname (.irqfd d)

/-- C `virtio_ioeventfd_register`. -/
def virtioIoeventfdRegister (d : Device) (q : Nat) : P Int := do
  if !(← call (.ioEventfd d q)) then
    say "eventfd"
    return -1
  gain (.ioeventfd d q)
  if !(← call (.kvmIoeventfd d q)) then
    say "KVM_IOEVENTFD"
    drop (.ioeventfd d q)
    return -1
  name (.ioeventfd d q)
  return 0

/-- C `virtio_ioeventfd_unregister`. -/
def virtioIoeventfdUnregister (d : Device) (q : Nat) : P Unit := do
  if ← isNamed (.ioeventfd d q) then
    drop (.ioeventfd d q)
    unname (.ioeventfd d q)

/-- The loop of `virtio_ioeventfd_stop`, over some queues. -/
def unregisterAll (d : Device) : List Nat → P Unit
  | [] => return
  | q :: qs => do
    virtioIoeventfdUnregister d q
    unregisterAll d qs

/-- The first loop of `virtio_ioeventfd_start`: `done` are the queues that are registered, latest first. -/
def registerAll (d : Device) (done : List Nat) : List Nat → P Int
  | [] => return 0
  | q :: qs => do
    if (← virtioIoeventfdRegister d q) < 0 then
      unregisterAll d done
      return -1
    registerAll d (q :: done) qs

/-- The queues of a device, in the order of the loops. -/
def queues : List Nat := List.range Virtio.maxQueue

/-- C `virtio_ioeventfd_start`. -/
def virtioIoeventfdStart (d : Device) : P Int := do
  if (← registerAll d [] queues) < 0 then
    return -1
  if !(← call (.createPollThread d)) then
    say "pthread_create"
    unregisterAll d queues
    return -1
  gain (.pollThread d)
  return 0

/-- C `virtio_ioeventfd_stop`. -/
def virtioIoeventfdStop (d : Device) : P Unit := do
  drop (.pollThread d)
  unregisterAll d queues

/-- The loop of `virtio_init` that sets the ioeventfds to -1. -/
def clearIoeventfds (d : Device) : List Nat → P Unit
  | [] => return
  | q :: qs => do
    unname (.ioeventfd d q)
    clearIoeventfds d qs

/-- C `virtio_init`, as far as it takes anything. -/
def virtioInit (d : Device) : P Int := do
  unname (.irqfd d)
  clearIoeventfds d queues
  if (← virtioIrqfdInit d) < 0 then
    say "virtio_init: failed to initialize irqfd\n"
    return -1
  if (← virtioIoeventfdStart d) < 0 then
    say "virtio_init: ioeventfd initialization failed, falling back to MMIO exits\n"
    return -1
  return 0

/-- C `virtio_block_init` and `virtio_net_init`: whether they return a device. -/
def virtioDeviceInit (d : Device) : P Bool := do
  if !(← call (.mallocDevice d)) then
    crash
  gain (.device d)
  if (← virtioInit d) < 0 then
    drop (.device d)
    return false
  return true

/-- C `virtio_block_destroy` and `virtio_net_destroy`. -/
def virtioDeviceDestroy (d : Device) : P Unit := do
  touch (.device d)
  virtioIoeventfdStop d
  virtioIrqfdCleanup d
  drop (.backend d)

/-- C `virtio_block_get_opaque` and `virtio_net_get_opaque`. -/
def virtioDeviceGetOpaque (d : Device) : P Unit := do
  if !(← isNamed (.device d)) then
    crash
  touch (.device d)
  touch (.backend d)

/-! ## The thread pool -/

/-- C `new_worker_thread`: the result of `pthread_create` is not looked at. -/
def newWorkerThread (i : Nat) : P Unit := do
  if !(← call (.mallocWorker i)) then
    crash
  gain (.worker i)
  if ← call (.createWorkerThread i) then
    gain (.workerThread i)

/-- The loop of `new_thread_pool`. -/
def newWorkers : List Nat → P Unit
  | [] => return
  | i :: is => do
    newWorkerThread i
    newWorkers is

/-- The ids of the workers, in the order of the loops. -/
def workerIds : List Nat := List.range Block.virtioBlkMaxQueueNum

/-- C `new_thread_pool`. -/
def newThreadPool : P Unit := do
  if !(← call .mallocPool) then
    crash
  gain .pool
  if !(← call .mallocWorkers) then
    crash
  gain .workers
  if !(← call .mallocIsWorking) then
    crash
  gain .isWorking
  newWorkers workerIds

/-- The loop of `delete_thread_pool`. -/
def joinWorkers : List Nat → P Unit
  | [] => return
  | i :: is => do
    touch (.worker i)
    drop (.workerThread i)
    drop (.worker i)
    joinWorkers is

/-- C `delete_thread_pool`. -/
def deleteThreadPool : P Unit := do
  touch .pool
  joinWorkers workerIds
  drop .workers
  drop .isWorking
  drop .pool

/-! ## The backends -/

/-- The end of `mvvm_init_virtio_blk` and `mvvm_init_virtio_net` after a failure: `backend` and `opened` say whether
`bs` or `net` is not NULL, and whether `ctx->fd` is not negative. -/
def fail (d : Device) (backend opened : Bool) : P Int := do
  if backend then
    drop (.backend d)
  if opened then
    drop (.fd d)
  drop (.ctx d)
  return -1

/-- C `mvvm_init_virtio_blk`. -/
def mvvmInitVirtioBlk : P Int := do
  if !(← call (.mallocCtx .blk)) then
    say "failed to allocate block device context\n"
    return -1
  gain (.ctx .blk)
  if !(← call (.open .blk)) then
    say "mvvm_init_virtio_blk, open disk image"
    return ← fail .blk false false
  gain (.fd .blk)
  if !(← call .fstat) then
    say "mvvm_init_virtio_blk, fstat disk image"
    return ← fail .blk false true
  newThreadPool
  if !(← call (.mallocBackend .blk)) then
    say "failed to allocate struct block_device structure\n"
    return ← fail .blk false true
  gain (.backend .blk)
  if ← virtioDeviceInit .blk then
    name (.device .blk)
    return 0
  unname (.device .blk)
  say "failed to initialize virtio block device\n"
  fail .blk true true

/-- C `mvvm_destroy_virtio_blk`. -/
def mvvmDestroyVirtioBlk : P Unit := do
  virtioDeviceGetOpaque .blk
  touch (.ctx .blk)
  deleteThreadPool
  drop (.ctx .blk)
  virtioDeviceDestroy .blk
  drop (.device .blk)

/-- C `mvvm_init_virtio_net`. -/
def mvvmInitVirtioNet : P Int := do
  if !(← call (.mallocCtx .net)) then
    say "failed to allocate TAP network context\n"
    return -1
  gain (.ctx .net)
  if !(← call (.open .net)) then
    say "mvvm_init_virtio_net: open /dev/net/tun failed"
    return ← fail .net false false
  gain (.fd .net)
  if !(← call .tunsetiff) then
    say "mvvm_init_virtio_net: ioctl TUNSETIFF failed"
    return ← fail .net false true
  if !(← call (.mallocBackend .net)) then
    say "failed to allocate struct ether_device structure\n"
    return ← fail .net false true
  gain (.backend .net)
  if !(← virtioDeviceInit .net) then
    unname (.device .net)
    say "failed to initialize virtio net device\n"
    return ← fail .net true true
  name (.device .net)
  if !(← call .createRxThread) then
    say "failed to create TAP RX thread\n"
    return ← fail .net true true
  gain .rxThread
  return 0

/-- C `mvvm_destroy_virtio_net`. -/
def mvvmDestroyVirtioNet : P Unit := do
  virtioDeviceGetOpaque .net
  touch (.ctx .net)
  drop .rxThread
  drop (.ctx .net)
  virtioDeviceDestroy .net
  drop (.device .net)

/-! ## The virtual machine -/

/-- A call that only has to succeed: `false` if it fails, after a message. -/
def check (c : Call) (message : String) : P Bool := do
  if !(← call c) then
    say message
    return false
  return true

/-- C `init_cpu`. -/
def initCpu : P Int := do
  if !(← check .getSregs "failed to get sregs.\n") then
    return -1
  if !(← check .getRegs "failed to get regs.\n") then
    return -1
  if !(← check .setRegs "failed to set regs.\n") then
    return -1
  if !(← check .setSregs "failed to set sregs.\n") then
    return -1
  if !(← call .mallocCpuid) then
    crash
  gain .cpuid
  if !(← check .getSupportedCpuid "failed to get supported cpuid.\n") then
    drop .cpuid
    return -1
  if !(← check .setCpuid2 "failed to set cpuid.\n") then
    drop .cpuid
    return -1
  drop .cpuid
  return 0

/-- The part of `mvvm_init` that registers the guest memory: the calls it makes, and what it says if they fail. -/
def registerRegions (memSize : UInt64) : P Bool := do
  if memSize ≤ reservedAddr then
    check (.setUserMemoryRegion 0) "failed to set user memory region\n"
  else
    if !(← check (.setUserMemoryRegion 0) "failed to set user memory region 0\n") then
      return false
    if memSize > reservedAddr + reservedSize then
      check (.setUserMemoryRegion 1) "failed to set user memory region 1\n"
    else
      return true

/-- The part of `mvvm_init` for the disk. -/
def initDisk (disk : Bool) : P Bool := do
  if disk then
    if (← mvvmInitVirtioBlk) < 0 then
      say "mvvm init error, failed to load disk.\n"
      return false
    return true
  return true

/-- The part of `mvvm_init` for the network. -/
def initNetwork (network : Bool) : P Bool := do
  if network then
    if (← mvvmInitVirtioNet) < 0 then
      say "mvvm init error, failed to open tap interface.\n"
      return false
    return true
  return true

/-- C `mvvm_init`: `disk` and `network` say whether the two arguments are not NULL. -/
def mvvmInit (memSize : UInt64) (disk network : Bool) : P Int := do
  if !(← check .openKvm "failed to open /dev/kvm\n") then
    return -1
  gain .kvmFd
  if !(← check .createVm "failed to create vm\n") then
    return -1
  gain .vmFd
  if !(← check .createIrqchip "failed to create irqchip\n") then
    return -1
  if !(← check .createPit2 "failed to create pit\n") then
    return -1
  if !(← check .setTssAddr "failed to set TSS address\n") then
    return -1
  if !(← check .setIdentityMapAddr "failed to set identity map address\n") then
    return -1
  if !(← check .mallocMemMap "failed to allocate PhysMemoryMap\n") then
    return -1
  gain .memMap
  if !(← check .mmapHostMem "failed to mmap memory\n") then
    return -1
  gain .hostMem
  name .memMap
  if !(← registerRegions memSize) then
    return -1
  if !(← check .createVcpu "failed to create vcpu\n") then
    return -1
  gain .cpuFd
  if (← initCpu) < 0 then
    say "cpu init failed.\n"
    return -1
  if !(← initDisk disk) then
    return -1
  if !(← initNetwork network) then
    return -1
  return 0

/-- C `mvvm_destroy`. -/
def mvvmDestroy : P Unit := do
  if !(← isNamed .memMap) then
    crash
  touch .memMap
  drop .hostMem
  drop .cpuFd
  drop .vmFd
  drop .kvmFd
  mvvmDestroyVirtioBlk
  mvvmDestroyVirtioNet
  drop .memMap

end Mvvmm.Startup
