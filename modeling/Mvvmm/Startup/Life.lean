import Mvvmm.Startup.Devices

/-!
# The life of the machine

`mvvm_init` and then `mvvm_destroy`. The teardown is written for a machine with both devices: it follows their
pointers without a look at them, and joins every thread of the pool. `init_destroy` says for which configurations and
outcomes of the calls it goes through, and what it does not give back.
-/

namespace Mvvmm.Startup
open Ledger Teardown Vm

variable {ok : Call → Bool} {b : Books Item} {d : Device} {Q : Unit → Books Item → Prop}

/-! ## Teardown -/

/-- Stopping the ioeventfds gives back all of them and the poll thread. -/
lemma ensures_ioeventfdStop (poll : .pollThread d ∈ b.held) (held : ioeventfds d queues ⊆ b.held)
    (named : ioeventfds d queues ⊆ b.named) :
    Ensures ok (virtioIoeventfdStop d) Q b ↔
      Q () { b with
        held := b.held \ insert (.pollThread d) (ioeventfds d queues)
        named := b.named \ ioeventfds d queues } := by
  simp only [virtioIoeventfdStop, ensures_bind, ensures_drop, poll, true_and]
  refine (ensures_unregisterAll queues_nodup ?_).trans ?_
  · exact fun q mem => named (by simp [mem])
  rw [and_iff_right fun q mem => Finset.mem_erase.mpr ⟨by simp, held (by simp [mem])⟩, Finset.erase_sdiff_comm,
    ← Finset.sdiff_insert]

/-- Cleaning up the interrupt gives back its descriptor. -/
lemma ensures_irqfdCleanup (held : .irqfd d ∈ b.held) (named : .irqfd d ∈ b.named) :
    Ensures ok (virtioIrqfdCleanup d) Q b ↔
      Q () { b with held := b.held.erase (.irqfd d), named := b.named.erase (.irqfd d) } := by
  simp [virtioIrqfdCleanup, held, named]

/-- Destroying a device gives back its parts and its backend. -/
lemma ensures_deviceDestroy (device : .device d ∈ b.held) (backend : .backend d ∈ b.held) (held : parts d ⊆ b.held)
    (named : partNames d ⊆ b.named) :
    Ensures ok (virtioDeviceDestroy d) Q b ↔
      Q () { b with held := b.held \ insert (.backend d) (parts d), named := b.named \ partNames d } := by
  have poll : .pollThread d ∈ b.held := held (by simp [parts])
  have irqfd : .irqfd d ∈ b.held := held (by simp [parts])
  have irqName : .irqfd d ∈ b.named := named (by simp [partNames])
  simp only [virtioDeviceDestroy, ensures_bind, ensures_touch, device, true_and]
  rw [ensures_ioeventfdStop poll (fun r mem => held (by simp [parts] at mem ⊢; simp [mem]))
    (fun r mem => named (by simp [partNames] at mem ⊢; simp [mem]))]
  rw [ensures_irqfdCleanup (by simp [irqfd]) (by simp [irqName]), ensures_drop, and_iff_right (by simp [backend])]
  have eq : ((b.held \ insert (.pollThread d) (ioeventfds d queues)).erase (.irqfd d)).erase (.backend d) =
      b.held \ insert (.backend d) (parts d) := by
    grind [parts]
  have eq' : (b.named \ ioeventfds d queues).erase (.irqfd d) = b.named \ partNames d := by
    rw [partNames, Finset.sdiff_insert]
  simp only [eq, eq']

/-- The thread pool with all its threads. -/
def fullPool : Finset Item :=
  insert .isWorking (insert .workers (insert .pool (workersAndThreads workerIds)))

/-- The workers are numbered once each. -/
lemma workerIds_nodup : workerIds.Nodup := List.nodup_range

/-- Deleting the pool gives back all of it, and all of it must be held. -/
lemma ensures_deleteThreadPool :
    Ensures ok deleteThreadPool Q b ↔ fullPool ⊆ b.held ∧ Q () { b with held := b.held \ fullPool } := by
  have eq : (((b.held \ workersAndThreads workerIds).erase .workers).erase .isWorking).erase .pool =
      b.held \ fullPool := by
    grind [fullPool]
  simp only [deleteThreadPool, ensures_bind, ensures_touch, ensures_joinWorkers workerIds_nodup, ensures_drop, eq]
  rw [← and_assoc, ← and_assoc, ← and_assoc, ← and_assoc]
  refine and_congr_left fun _ => ?_
  simp only [fullPool, Finset.insert_subset_iff, Finset.mem_erase, Finset.mem_sdiff, mem_workersAndThreads]
  grind

/-- What the teardown of a device gives back: everything but the descriptor of its backend. -/
def givenBack (d : Device) : Finset Item :=
  owned d \ {.fd d}

/-- A device is there. -/
structure Standing (b : Books Item) (d : Device) : Prop where
  held : owned d ⊆ b.held
  device : .device d ∈ b.named
  parts : partNames d ⊆ b.named

/-- What a standing device owns is held. -/
lemma Standing.mem (h : Standing b d) {r : Item} (mem : r ∈ owned d) : r ∈ b.held := h.held mem

/-- The context of a standing device can be got at. -/
lemma ensures_getOpaque (h : Standing b d) : Ensures ok (virtioDeviceGetOpaque d) Q b ↔ Q () b := by
  have device : .device d ∈ b.held := h.mem (by simp [owned])
  have backend : .backend d ∈ b.held := h.mem (by simp [owned, prepared])
  simp [virtioDeviceGetOpaque, h.device, device, backend]

/-- The full pool is nothing that a device owns. -/
lemma disjoint_fullPool : Disjoint fullPool (owned d) := by
  rw [Finset.disjoint_left]
  intro r mem
  simp only [fullPool, Finset.mem_insert, mem_workersAndThreads] at mem
  simp only [owned, prepared, parts, Finset.mem_union, Finset.mem_insert, Finset.mem_singleton, mem_ioeventfds]
  grind

/-- The context is not one of the parts of the device. -/
lemma ctx_notMem_parts : .ctx d ∉ parts d := by
  simp [parts]

/-- The second half of the teardown of a device, from the free of its context on. -/
lemma ensures_freeDevice (held : owned d ⊆ b.held) (named : partNames d ⊆ b.named) :
    Ensures ok (do drop (.ctx d); virtioDeviceDestroy d; drop (.device d)) Q b ↔
      Q () { b with held := b.held \ givenBack d, named := b.named \ partNames d } := by
  have ctx : .ctx d ∈ b.held := held (by simp [owned, prepared])
  have device : .device d ∈ b.held := held (by simp [owned])
  have backend : .backend d ∈ b.held := held (by simp [owned, prepared])
  have sub : parts d ⊆ b.held.erase (.ctx d) := by
    intro r mem
    exact Finset.mem_erase.mpr ⟨fun e => ctx_notMem_parts (e ▸ mem), held (by simp [owned, mem])⟩
  have other : .device d ∉ insert (.backend d) (parts d) := by simp [parts]
  have eq : (b.held.erase (.ctx d) \ insert (.backend d) (parts d)).erase (.device d) = b.held \ givenBack d := by
    ext r
    simp only [givenBack, owned, prepared, parts, Finset.mem_sdiff, Finset.mem_erase, Finset.mem_union, Finset.mem_insert,
      Finset.mem_singleton, mem_ioeventfds]
    grind
  rw [ensures_bind, ensures_drop, and_iff_right ctx, ensures_bind]
  refine (ensures_deviceDestroy ?_ ?_ sub ?_).trans ?_
  · simp [device]
  · simp [backend]
  · exact named
  rw [ensures_drop, and_iff_right (Finset.mem_sdiff.mpr ⟨by simp [device], other⟩)]
  simp only [eq]

/-- Destroying the block device gives back what `givenBack` says and the pool, which must be full. -/
lemma ensures_destroyBlk (h : Standing b .blk) :
    Ensures ok mvvmDestroyVirtioBlk Q b ↔ fullPool ⊆ b.held ∧
      Q () { b with held := (b.held \ fullPool) \ givenBack .blk, named := b.named \ partNames .blk } := by
  have ctx : .ctx .blk ∈ b.held := h.mem (by simp [owned, prepared])
  have sub : owned .blk ⊆ b.held \ fullPool :=
    fun r mem => Finset.mem_sdiff.mpr ⟨h.mem mem, fun pool => Finset.disjoint_left.mp disjoint_fullPool pool mem⟩
  rw [mvvmDestroyVirtioBlk, ensures_bind, ensures_getOpaque h, ensures_bind, ensures_touch, and_iff_right ctx,
    ensures_bind, ensures_deleteThreadPool]
  exact and_congr_right fun _ => ensures_freeDevice sub h.parts

/-- Destroying the network device gives back what `givenBack` says and the receive thread, which must be there. -/
lemma ensures_destroyNet (h : Standing b .net) :
    Ensures ok mvvmDestroyVirtioNet Q b ↔ .rxThread ∈ b.held ∧
      Q () { b with held := b.held.erase .rxThread \ givenBack .net, named := b.named \ partNames .net } := by
  have ctx : .ctx .net ∈ b.held := h.mem (by simp [owned, prepared])
  have sub : owned .net ⊆ b.held.erase .rxThread := by
    intro r mem
    refine Finset.mem_erase.mpr ⟨?_, h.mem mem⟩
    rintro rfl
    simp [owned, prepared, parts] at mem
  rw [mvvmDestroyVirtioNet, ensures_bind, ensures_getOpaque h, ensures_bind, ensures_touch, and_iff_right ctx,
    ensures_bind, ensures_drop]
  exact and_congr_right fun _ => ensures_freeDevice sub h.parts

/-- The teardown follows a null pointer if there is no such device. -/
lemma not_ensures_getOpaque (no : .device d ∉ b.named) : ¬ Ensures ok (virtioDeviceGetOpaque d) Q b := by
  simp [virtioDeviceGetOpaque, no]

/-! ## The virtual machine -/

/-- What `mvvm_init` holds apart from the devices. -/
def machineItems : Finset Item :=
  {.kvmFd, .vmFd, .memMap, .hostMem, .cpuFd}

/-- A check goes on if the call succeeds, and else puts down its message. -/
lemma ensures_check {α : Type} {Q : α → Books Item → Prop} {c : Call} {m : String} {p p' : P α}
    (no : ok c = false → Ensures ok p' Q { b with errors := m :: b.errors }) (yes : ok c = true → Ensures ok p Q b) :
    Ensures ok (check c m >>= fun x => if (!x) = true then p' else p) Q b := by
  cases h : ok c with
  | false => simpa [check, h] using no h
  | true => simpa [check, h] using yes h

/-- What is held for the disk, and what for the network. -/
def diskItems (ok : Call → Bool) (disk : Bool) : Finset Item :=
  if disk = true then owned .blk ∪ poolItems ok else ∅

def networkItems (network : Bool) : Finset Item :=
  if network = true then insert .rxThread (owned .net) else ∅

/-- What is named for a device. -/
def deviceNames (d : Device) (there : Bool) : Finset Item :=
  if there = true then insert (.device d) (partNames d) else ∅

/-- The set-up of the disk, if there is one. -/
lemma ensures_initDisk {disk : Bool} (alloc : ∀ c, Unchecked c → ok c = true)
    (fresh : Disjoint b.held (owned .blk)) :
    Ensures ok (initDisk disk) (Returns (disk = true → DeviceGood ok .blk) true false
      (fun b' => b'.held = b.held ∪ diskItems ok disk ∧ b'.named = b.named ∪ deviceNames .blk disk)
      fun b' => b.held ⊆ b'.held) b := by
  cases disk with
  | false => exact .ok (by simp) (by simp [diskItems, deviceNames])
  | true =>
    refine (ensures_initBlk alloc fresh).returns ?_ ?_
    · rintro good b' ⟨held, named⟩
      rw [if_neg (lt_irrefl 0)]
      refine .ok (fun _ => good) ⟨?_, ?_⟩
      · simp [held, diskItems]
      · simp [named, deviceNames]
    · intro bad b' held
      rw [if_pos (by decide), ensures_bind, ensures_say]
      refine .fail (fun h => bad (h rfl)) ?_
      rw [held]
      exact Finset.subset_union_left

/-- The set-up of the network, if there is one. -/
lemma ensures_initNetwork {network : Bool} (alloc : ∀ c, Unchecked c → ok c = true)
    (fresh : Disjoint b.held (owned .net)) :
    Ensures ok (initNetwork network)
      (Returns (network = true → DeviceGood ok .net ∧ ok .createRxThread = true) true false
        (fun b' => b'.held = b.held ∪ networkItems network ∧ b'.named = b.named ∪ deviceNames .net network)
        fun b' => b.held ⊆ b'.held) b := by
  cases network with
  | false => exact .ok (by simp) (by simp [networkItems, deviceNames])
  | true =>
    refine (ensures_initNet alloc fresh).returns ?_ ?_
    · rintro good b' ⟨held, named⟩
      rw [if_neg (lt_irrefl 0)]
      refine .ok (fun _ => good) ⟨?_, ?_⟩
      · simp [held, networkItems]
      · simp [named, deviceNames]
    · intro bad b' held
      rw [if_pos (by decide), ensures_bind, ensures_say]
      refine .fail (fun h => bad (h rfl)) ?_
      rw [held]
      exact Finset.subset_union_left

/-- The calls of `init_cpu` succeed. -/
def CpuGood (ok : Call → Bool) : Prop :=
  ∀ c ∈ [Call.getSregs, .getRegs, .setRegs, .setSregs, .getSupportedCpuid, .setCpuid2], ok c = true

instance : Decidable (CpuGood ok) :=
  inferInstanceAs (Decidable (∀ c ∈ _, _))

/-- The set-up of the vCPU holds nothing afterwards. -/
lemma ensures_initCpu (alloc : ok .mallocCpuid = true) (fresh : .cpuid ∉ b.held) :
    Ensures ok initCpu (Returns (CpuGood ok) 0 (-1) (fun b' => b'.held = b.held ∧ b'.named = b.named)
      fun b' => b'.held = b.held) b := by
  unfold initCpu
  refine ensures_check (fun no => .fail (by simp [CpuGood, no]) rfl) fun sregs => ?_
  refine ensures_check (fun no => .fail (by simp [CpuGood, no]) rfl) fun regs => ?_
  refine ensures_check (fun no => .fail (by simp [CpuGood, no]) rfl) fun regs' => ?_
  refine ensures_check (fun no => .fail (by simp [CpuGood, no]) rfl) fun sregs' => ?_
  refine ensures_unless.mpr ⟨fun no => absurd alloc (by simp [no]), fun _ => ?_⟩
  rw [ensures_bind, ensures_gain]
  refine ensures_check (fun no => ?_) fun cpuid => ?_
  · rw [ensures_bind, ensures_drop]
    exact ⟨by simp, .fail (by simp [CpuGood, no]) (Finset.erase_insert fresh)⟩
  refine ensures_check (fun no => ?_) fun cpuid' => ?_
  · rw [ensures_bind, ensures_drop]
    exact ⟨by simp, .fail (by simp [CpuGood, no]) (Finset.erase_insert fresh)⟩
  rw [ensures_bind, ensures_drop]
  exact ⟨by simp, .ok (by simp [CpuGood, *]) ⟨Finset.erase_insert fresh, rfl⟩⟩

/-- The calls that register the guest memory succeed. -/
def RegionsGood (ok : Call → Bool) (memSize : UInt64) : Prop :=
  ok (.setUserMemoryRegion 0) = true ∧ (memSize > reservedAddr + reservedSize → ok (.setUserMemoryRegion 1) = true)

/-- A check returns whether the call succeeds. -/
lemma check_returns {c : Call} {m : String} :
    Ensures ok (check c m) (Returns (ok c = true) true false (fun b' => b'.held = b.held ∧ b'.named = b.named)
      fun b' => b'.held = b.held) b := by
  unfold check
  refine ensures_unless.mpr ⟨fun no => ?_, fun yes => .ok yes ⟨rfl, rfl⟩⟩
  rw [ensures_bind, ensures_say]
  exact .fail (by simp [no]) rfl

/-- Registering the memory succeeds if and only if all of its calls do. -/
lemma ensures_registerRegions {memSize : UInt64} :
    Ensures ok (registerRegions memSize) (Returns (RegionsGood ok memSize) true false
      (fun b' => b'.held = b.held ∧ b'.named = b.named) fun b' => b'.held = b.held) b := by
  unfold registerRegions
  by_cases below : memSize ≤ reservedAddr
  · have small : ¬ memSize > reservedAddr + reservedSize := by
      rw [UInt64.le_iff_toNat_le] at below
      rw [gt_iff_lt, UInt64.lt_iff_toNat_lt]
      have lt : reservedAddr.toNat < (reservedAddr + reservedSize).toNat := by decide
      omega
    have good : RegionsGood ok memSize ↔ ok (.setUserMemoryRegion 0) = true := by simp [RegionsGood, small]
    rw [if_pos below]
    simp only [good]
    exact check_returns
  · rw [if_neg below]
    refine ensures_check (fun no => .fail (by simp [RegionsGood, no]) rfl) fun first => ?_
    by_cases large : memSize > reservedAddr + reservedSize
    · have good : RegionsGood ok memSize ↔ ok (.setUserMemoryRegion 1) = true := by simp [RegionsGood, first, large]
      rw [if_pos large]
      simp only [good]
      exact check_returns
    · rw [if_neg large]
      exact .ok ⟨first, fun h => absurd h large⟩ ⟨rfl, rfl⟩

/-- All calls of `mvvm_init` succeed. -/
structure InitGood (ok : Call → Bool) (memSize : UInt64) (disk network : Bool) : Prop where
  machine : ∀ c ∈ [Call.openKvm, .createVm, .createIrqchip, .createPit2, .setTssAddr, .setIdentityMapAddr, .mallocMemMap,
    .mmapHostMem, .createVcpu], ok c = true
  regions : RegionsGood ok memSize
  cpu : CpuGood ok
  disk : disk = true → DeviceGood ok .blk
  network : network = true → DeviceGood ok .net ∧ ok .createRxThread = true

/-- The machine itself is nothing that a device owns. -/
lemma disjoint_machineItems : Disjoint machineItems (owned d) := by
  cases d <;> decide

/-- The disk is nothing that the network device owns. -/
lemma disjoint_diskItems {disk : Bool} : Disjoint (diskItems ok disk) (owned .net) := by
  unfold diskItems
  split
  · exact Finset.disjoint_union_left.mpr ⟨by decide, disjoint_poolItems⟩
  · exact Finset.disjoint_empty_left _

/-- `mvvm_init` holds the machine and the devices that are configured, if it succeeds. -/
lemma ensures_mvvmInit {memSize : UInt64} {disk network : Bool} (alloc : ∀ c, Unchecked c → ok c = true) :
    Ensures ok (mvvmInit memSize disk network) (Returns (InitGood ok memSize disk network) 0 (-1)
      (fun b' => b'.held = machineItems ∪ diskItems ok disk ∪ networkItems network ∧
        b'.named = {.memMap} ∪ deviceNames .blk disk ∪ deviceNames .net network)
      fun b' => ok .openKvm = true → .kvmFd ∈ b'.held) nothing := by
  have stop : ∀ {c : Call}, ok c = false → c ∈ [Call.openKvm, .createVm, .createIrqchip, .createPit2, .setTssAddr,
      .setIdentityMapAddr, .mallocMemMap, .mmapHostMem, .createVcpu] → ¬ InitGood ok memSize disk network := by
    intro c no mem good
    simp [good.machine c mem] at no
  unfold mvvmInit
  refine ensures_check (fun no => .fail (stop no (by simp)) (by simp [no])) fun kvm => ?_
  rw [ensures_bind, ensures_gain]
  refine ensures_check (fun no => .fail (stop no (by simp)) (by simp)) fun vm => ?_
  rw [ensures_bind, ensures_gain]
  refine ensures_check (fun no => .fail (stop no (by simp)) (by simp)) fun irqchip => ?_
  refine ensures_check (fun no => .fail (stop no (by simp)) (by simp)) fun pit => ?_
  refine ensures_check (fun no => .fail (stop no (by simp)) (by simp)) fun tss => ?_
  refine ensures_check (fun no => .fail (stop no (by simp)) (by simp)) fun identity => ?_
  refine ensures_check (fun no => .fail (stop no (by simp)) (by simp)) fun memMap => ?_
  rw [ensures_bind, ensures_gain]
  refine ensures_check (fun no => .fail (stop no (by simp)) (by simp)) fun hostMem => ?_
  rw [ensures_bind, ensures_gain, ensures_bind, ensures_name]
  refine ensures_registerRegions.returns ?_ ?_
  rotate_left
  · intro bad b' held
    exact .fail (fun good => bad good.regions) (by simp [held])
  rintro regions b₁ ⟨held, named⟩
  refine ensures_check (fun no => .fail (stop no (by simp)) (by simp [held])) fun vcpu => ?_
  rw [ensures_bind, ensures_gain]
  have held₂ : insert .cpuFd b₁.held = machineItems := by
    rw [held]
    decide
  simp only [held₂]
  have cpuid : .cpuid ∉ machineItems := by decide
  refine (ensures_initCpu (alloc _ trivial) cpuid).returns ?_ ?_
  rotate_left
  · intro bad b' held
    rw [if_pos (by decide), ensures_bind, ensures_say]
    exact .fail (fun good => bad good.cpu) (by simp [held, machineItems])
  rintro cpu b₃ ⟨held₃, named₃⟩
  rw [if_neg (lt_irrefl 0)]
  refine (ensures_initDisk alloc ?_).returns ?_ ?_
  · rw [held₃]
    exact disjoint_machineItems
  rotate_left
  · intro bad b' sub
    exact .fail (fun good => bad good.disk) fun _ => sub (by simp [held₃, machineItems])
  rintro diskGood b₄ ⟨held₄, named₄⟩
  refine (ensures_initNetwork alloc ?_).returns ?_ ?_
  · rw [held₄, held₃]
    exact Finset.disjoint_union_left.mpr ⟨disjoint_machineItems, disjoint_diskItems⟩
  · rintro networkGood b₅ ⟨held₅, named₅⟩
    refine .ok ⟨by simp [*], regions, cpu, diskGood, networkGood⟩ ⟨?_, ?_⟩
    · rw [held₅, held₄, held₃]
    · rw [named₅, named₄, named₃, named]
      simp [nothing]
  · intro bad b' sub
    exact .fail (fun good => bad good.network) fun _ => sub (by simp [held₄, held₃, machineItems])

/-- What `mvvm_destroy` gives back before it comes to the devices. -/
def machineFds : Finset Item :=
  {.kvmFd, .vmFd, .cpuFd, .hostMem}

/-- `mvvm_destroy` gives back the machine, and goes on with the devices. -/
lemma ensures_mvvmDestroy (named : .memMap ∈ b.named) (held : machineItems ⊆ b.held) :
    Ensures ok mvvmDestroy Q b ↔ Ensures ok (do mvvmDestroyVirtioBlk; mvvmDestroyVirtioNet; drop .memMap) Q
      { b with held := b.held \ machineFds } := by
  have mem : ∀ {r}, r ∈ machineItems → r ∈ b.held := fun h => held h
  have memMap : .memMap ∈ b.held := mem (by decide)
  have hostMem : .hostMem ∈ b.held := mem (by decide)
  have cpuFd : .cpuFd ∈ b.held := mem (by decide)
  have vmFd : .vmFd ∈ b.held := mem (by decide)
  have kvmFd : .kvmFd ∈ b.held := mem (by decide)
  have eq : (((b.held.erase .hostMem).erase .cpuFd).erase .vmFd).erase .kvmFd = b.held \ machineFds := by
    ext r
    simp only [machineFds, Finset.mem_erase, Finset.mem_sdiff, Finset.mem_insert, Finset.mem_singleton]
    tauto
  simp [mvvmDestroy, named, memMap, hostMem, cpuFd, vmFd, kvmFd, eq]

/-- The threads of all workers could be created. -/
def ThreadsGood (ok : Call → Bool) : Prop :=
  ∀ i ∈ workerIds, ok (.createWorkerThread i) = true

/-- With all threads the pool is full. -/
lemma poolItems_eq (threads : ThreadsGood ok) : poolItems ok = fullPool := by
  have eq : workerItems ok workerIds = workersAndThreads workerIds := by
    ext r
    simp only [mem_workerItems, mem_workersAndThreads]
    exact exists_congr fun i => and_congr_right fun mem => by simp [threads i mem]
  rw [poolItems, fullPool, eq]

/-- What `mvvm_init` has taken when it has succeeded. -/
structure Initialised (ok : Call → Bool) (disk network : Bool) (b : Books Item) : Prop where
  held : b.held = machineItems ∪ diskItems ok disk ∪ networkItems network
  named : b.named = {.memMap} ∪ deviceNames .blk disk ∪ deviceNames .net network

/-- Everything that is held with both devices, all threads included. -/
def everything : Finset Item :=
  machineItems ∪ (owned .blk ∪ fullPool) ∪ insert .rxThread (owned .net)

/-- All that is named with both devices. -/
def allNames : Finset Item :=
  {.memMap} ∪ insert (.device .blk) (partNames .blk) ∪ insert (.device .net) (partNames .net)

/-- What is held between the teardown of the two devices. -/
def afterBlk : Finset Item :=
  ((everything \ machineFds) \ fullPool) \ givenBack .blk

/-- With a disk, a network and all threads `mvvm_destroy` gives back all but the descriptors of the backends. -/
lemma destroy_complete (h : Initialised ok true true b) (threads : ThreadsGood ok) :
    Ensures ok mvvmDestroy (fun _ b' => b'.held = {.fd .blk, .fd .net}) b := by
  have held : b.held = everything := by
    rw [h.held, diskItems, if_pos rfl, poolItems_eq threads, networkItems, if_pos rfl, everything]
  have named : b.named = allNames := by
    rw [h.named, deviceNames, if_pos rfl, deviceNames, if_pos rfl, allNames]
  rw [ensures_mvvmDestroy (by rw [named]; decide +kernel) (by rw [held]; decide +kernel), ensures_bind, held, named]
  have ownedBlk : owned .blk ⊆ everything \ machineFds := by decide +kernel
  have namedBlk : .device .blk ∈ allNames ∧ partNames .blk ⊆ allNames := by decide +kernel
  have pool : fullPool ⊆ everything \ machineFds := by decide +kernel
  have ownedNet : owned .net ⊆ afterBlk := by decide +kernel
  have namedNet : .device .net ∈ allNames \ partNames .blk ∧ partNames .net ⊆ allNames \ partNames .blk := by
    decide +kernel
  have rx : .rxThread ∈ afterBlk := by decide +kernel
  have memMap : .memMap ∈ afterBlk.erase .rxThread \ givenBack .net := by decide +kernel
  have last : (afterBlk.erase .rxThread \ givenBack .net).erase .memMap = {.fd .blk, .fd .net} := by decide +kernel
  rw [ensures_destroyBlk ⟨ownedBlk, namedBlk.1, namedBlk.2⟩]
  refine ⟨pool, ?_⟩
  rw [ensures_bind, ensures_destroyNet ⟨ownedNet, namedNet.1, namedNet.2⟩]
  refine ⟨rx, ?_⟩
  rw [ensures_drop]
  exact ⟨memMap, last⟩

/-- The thread of a worker is held only if it could be created. -/
lemma Initialised.thread {disk network : Bool} (h : Initialised ok disk network b) {i : Nat}
    (mem : .workerThread i ∈ b.held) : ok (.createWorkerThread i) = true := by
  rw [h.held] at mem
  cases disk <;> cases network <;>
    simp [machineItems, diskItems, networkItems, owned, prepared, parts, poolItems] at mem
  · exact mem.2
  · exact mem.2

/-- Without a disk, without a network, or without one of the threads of the pool, `mvvm_destroy` goes wrong. -/
lemma destroy_misuse {disk network : Bool} (h : Initialised ok disk network b)
    (lacks : ¬ (disk = true ∧ network = true ∧ ThreadsGood ok)) : ¬ Ensures ok mvvmDestroy Q b := by
  have named : .memMap ∈ b.named := by simp [h.named]
  have held : machineItems ⊆ b.held := by
    rw [h.held, Finset.union_assoc]
    exact Finset.subset_union_left
  rw [ensures_mvvmDestroy named held, ensures_bind]
  cases disk with
  | false =>
    rw [mvvmDestroyVirtioBlk, ensures_bind]
    refine not_ensures_getOpaque ?_
    cases network <;> simp [h.named, deviceNames, partNames]
  | true =>
    have blk : Standing { b with held := b.held \ machineFds } .blk := by
      refine ⟨fun r mem => Finset.mem_sdiff.mpr ⟨?_, fun fd => ?_⟩, ?_, fun r mem => ?_⟩
      · simp [h.held, diskItems, mem]
      · exact Finset.disjoint_left.mp disjoint_machineItems ((by decide : machineFds ⊆ machineItems) fd) mem
      · simp [h.named, deviceNames]
      · simp [h.named, deviceNames, mem]
    rw [ensures_destroyBlk blk]
    rintro ⟨pool, net⟩
    have threads : ThreadsGood ok := by
      intro i mem
      have thread : .workerThread i ∈ fullPool := by simp [fullPool, mem]
      exact h.thread (Finset.mem_sdiff.mp (pool thread)).1
    cases network with
    | true => exact lacks ⟨rfl, rfl, threads⟩
    | false =>
      rw [ensures_bind, mvvmDestroyVirtioNet, ensures_bind] at net
      refine not_ensures_getOpaque ?_ net
      simp [h.named, deviceNames, partNames]

/-! ## The life of the machine -/

/-- For every configuration, and whatever calls fail: if the allocations that nobody checks succeed, `mvvm_init` does
nothing wrong, and it returns 0 if and only if all calls succeed that it checks. In this case `mvvm_destroy` does nothing
wrong if and only if there is a disk, a network and a thread for every worker of the pool; and it then gives back all but
the descriptors of the two backends. If `mvvm_init` fails, the descriptor of KVM stays open. What the other threads use
meanwhile is left to `Teardown`. -/
theorem init_destroy (alloc : ∀ c, Unchecked c → ok c = true) (memSize : UInt64) (disk network : Bool) :
    Ensures ok (mvvmInit memSize disk network) (Returns (InitGood ok memSize disk network) 0 (-1)
      (fun b =>
        (Ensures ok mvvmDestroy (fun _ _ => True) b ↔ disk = true ∧ network = true ∧ ThreadsGood ok) ∧
        (Ensures ok mvvmDestroy (fun _ _ => True) b →
          Ensures ok mvvmDestroy (fun _ b' => b'.held = {.fd .blk, .fd .net}) b))
      fun b => ok .openKvm = true → .kvmFd ∈ b.held) nothing := by
  refine (ensures_mvvmInit alloc).mono ?_
  rintro ret b (⟨good, held, named⟩ | ⟨bad, kvm⟩)
  · have h : Initialised ok disk network b := ⟨held, named⟩
    have full : disk = true ∧ network = true ∧ ThreadsGood ok →
        Ensures ok mvvmDestroy (fun _ b' => b'.held = {.fd .blk, .fd .net}) b := by
      rintro ⟨rfl, rfl, threads⟩
      exact destroy_complete h threads
    have lacks : Ensures ok mvvmDestroy (fun _ _ => True) b → disk = true ∧ network = true ∧ ThreadsGood ok := by
      intro done
      by_contra no
      exact destroy_misuse h no done
    exact .ok good ⟨⟨lacks, fun h => (full h).mono fun _ _ _ => trivial⟩, fun done => full (lacks done)⟩
  · exact .fail bad kvm

/-- The thread of one worker cannot be created. -/
def noWorkerThread (c : Call) : Bool :=
  c ≠ .createWorkerThread 3

/-- The creation of a thread is not an allocation. -/
lemma noWorkerThread_unchecked (c : Call) (h : Unchecked c) : noWorkerThread c = true := by
  cases c <;> simp_all [noWorkerThread, Unchecked]

/-- Nobody notices until `mvvm_destroy` joins it. -/
theorem init_destroy_noWorkerThread :
    ∃ b, mvvmInit 0x40000000 true true noWorkerThread nothing = .ok (0, b) ∧
      ¬ Ensures noWorkerThread mvvmDestroy (fun _ _ => True) b := by
  have device : ∀ d, DeviceGood noWorkerThread d := fun d => by cases d <;> decide +kernel
  have good : InitGood noWorkerThread 0x40000000 true true :=
    ⟨by decide, ⟨rfl, fun _ => rfl⟩, by decide, fun _ => device .blk, fun _ => ⟨device .net, rfl⟩⟩
  have third : noWorkerThread (.createWorkerThread 3) = false := rfl
  have alloc := noWorkerThread_unchecked
  -- with the calls hidden, nothing below runs the programs
  generalize noWorkerThread = ok at *
  obtain ⟨ret, b, run, ⟨-, iff, -⟩ | ⟨bad, -⟩⟩ := (init_destroy alloc 0x40000000 true true).exists
  · refine ⟨b, run, fun done => ?_⟩
    have threads := (iff.mp done).2.2 3 (by decide)
    simp [third] at threads
  · exact absurd good bad

end Mvvmm.Startup
