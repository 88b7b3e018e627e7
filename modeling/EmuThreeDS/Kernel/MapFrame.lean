import EmuThreeDS.Kernel.MapCalls

/-!
# Mapping new memory beside old memory

The processes and shared memory blocks that runs of the memory calls lead to, and what a
successful mapping call does to the addresses outside its range.
-/
namespace EmuThreeDS
open Tiling OrderedMap Intervals

namespace SharedMemory

structure Ok (shared : SharedMemory) : Prop where
  some_block : shared.backingBlocks ≠ []
  blocks : ∀ b ∈ shared.backingBlocks, VMManager.BlockOk b
  total : VMManager.totalSize shared.backingBlocks = shared.size
  small : shared.size < 0x100000000
  offset : shared.linearHeapPhysOffset ≤ fcramSize

variable {shared : SharedMemory} {p p' : Process}

variable {address : Nat} {permissions otherPermissions : MemoryPermission} {reply : ResultVal Unit}
  {region region' : MemoryRegionInfo} {vm' : VMManager} {list : List (MemoryRef × Nat)}

theorem targetAddress_lt (h : address < 0x100000000) :
    shared.targetAddress address < 0x100000000 := by
  unfold targetAddress
  split_ifs
  · exact add32_lt _ _
  · exact h

theorem map_ok {isOwner : Bool} (ok : shared.Ok) (sound : p.Sound) (ha : address < 0x100000000)
    (run : shared.map isOwner p address permissions otherPermissions = .ok (reply, p')) :
    (∃ e, reply = .error e) ∧ p' = p ∨ reply = .ok () ∧ ∃ vm', p' = { p with vmManager := vm' } ∧
      VMManager.MapsBlocks p.vmManager vm' (shared.targetAddress address) shared.size
        shared.backingBlocks .shared (convertPermissions permissions) := by
  have refused : ∀ {e : ResultCode}, (Except.ok (.error e, p) : Exec (ResultVal Unit × Process)) =
      .ok (reply, p') → (∃ e, reply = .error e) ∧ p' = p := by
    intro e h
    cases h
    exact ⟨⟨_, rfl⟩, rfl⟩
  unfold map at run
  generalize (if isOwner then shared.permissions else shared.otherPermissions) = own at run
  simp only at run
  split_ifs at run
  · exact Or.inl (refused run)
  · exact Or.inl (refused run)
  · exact Or.inl (refused run)
  · exact Or.inl (refused run)
  · exact Or.inl (refused run)
  · obtain ⟨roomy, _, run⟩ := bind_eq_ok.mp run
    split_ifs at run
    · exact Or.inl (refused run)
    · obtain ⟨vm, map, run⟩ := bind_eq_ok.mp run
      cases run
      have maps := VMManager.mapBlocks_ok sound.vm (targetAddress_lt ha) ok.some_block ok.blocks map
      rw [ok.total] at maps
      exact Or.inr ⟨rfl, vm, rfl, maps⟩

theorem create_ok {owner owner' : Option Process} {size : Nat}
    {reply : ResultVal SharedMemory} (hs : size < 0x100000000) (ha : address < 0x100000000)
    (region_sound : region.Sound) (owner_sound : ∀ p ∈ owner, p.Sound)
    (run : createSharedMemory owner region size permissions otherPermissions address =
      .ok (reply, owner', region')) :
    (∀ p ∈ owner', p.Sound) ∧ ∀ shared, reply = .ok shared → shared.Ok := by
  unfold createSharedMemory at run
  by_cases first : address = 0
  · rw [if_pos first] at run
    obtain ⟨⟨offset, r⟩, alloc, run⟩ := bind_eq_ok.mp run
    rcases MemoryRegionInfo.linearAllocate_ok alloc with ⟨_, rfl, _⟩ | ⟨b, _, rfl, handed⟩
    · cases run
    · obtain ⟨_, fill, run⟩ := bind_eq_ok.mp run
      obtain ⟨memory, ref, run⟩ := bind_eq_ok.mp run
      obtain ⟨_, inside, ref⟩ := bind_eq_ok.mp ref
      cases ref
      cases run
      refine ⟨?_, ?_⟩
      · intro p hp
        obtain ⟨q, hq, rfl⟩ := Option.map_eq_some_iff.mp hp
        exact ⟨(owner_sound q hq).vm, (owner_sound q hq).region⟩
      · rintro shared ⟨⟩
        refine ⟨List.cons_ne_nil _ _, ?_, Nat.add_zero _, hs, assert_eq_ok.mp inside⟩
        intro c hc
        cases List.mem_singleton.mp hc
        refine ⟨hs, fun pos _ => ?_⟩
        have bounds := handed.bounds region_sound pos
        have whole : fcram.size = fcramSize := rfl
        simp only [MemoryRef.getSize, whole]
        omega
  · rw [if_neg first] at run
    cases owner with
    | none => cases run
    | some p =>
      have sound := owner_sound p rfl
      obtain ⟨⟨result, vm⟩, change, run⟩ := bind_eq_ok.mp run
      rcases VMManager.changeMemoryState_ok sound.vm ha hs change with
        ⟨⟨e, rfl⟩, rfl⟩ | ⟨rfl, changed⟩
      · cases run
        refine ⟨?_, fun _ h => by cases h⟩
        rintro q ⟨⟩
        exact sound
      · obtain ⟨listed, list, run⟩ := bind_eq_ok.mp run
        cases listed with
        | error e => cases run
        | ok blocks =>
          cases run
          have valid := changed.valid
          have pos := valid.nonempty
          obtain ⟨backs, total⟩ :=
            VMManager.getBackingBlocksForRange_ok changed.inv valid.fits list
          refine ⟨?_, ?_⟩
          · rintro q ⟨⟩
            exact ⟨changed.inv, sound.region⟩
          · rintro shared ⟨⟩
            refine ⟨?_, backs.blockOk (total.symm ▸ valid.fits) (by decide), total, hs,
              Nat.zero_le _⟩
            rintro rfl
            have : (0 : Nat) = size := total
            omega

theorem appletBlocks_ok {bs : List Block} {blocks : List (MemoryRef × Nat)}
    (run : appletBlocks bs = .ok blocks) : blocks = bs.map fcramBlock := by
  induction bs generalizing blocks with
  | nil =>
    cases run
    rfl
  | cons b rest ih =>
    obtain ⟨memory, ref, run⟩ := bind_eq_ok.mp run
    obtain ⟨_, _, ref⟩ := bind_eq_ok.mp ref
    cases ref
    obtain ⟨_, _, run⟩ := bind_eq_ok.mp run
    obtain ⟨more, later, run⟩ := bind_eq_ok.mp run
    cases run
    rw [ih later]
    rfl

theorem createForApplet_ok {offset size : Nat} (hs : size < 0x100000000)
    (sound : region.Sound) (run : createSharedMemoryForApplet region offset size permissions
      otherPermissions = .ok (shared, region')) : shared.Ok := by
  obtain ⟨⟨result, r⟩, alloc, run⟩ := bind_eq_ok.mp run
  obtain ⟨_, some_block, run⟩ := bind_eq_ok.mp run
  have some_block := assert_eq_ok.mp some_block
  obtain ⟨blocks, list, run⟩ := bind_eq_ok.mp run
  cases run
  obtain rfl := appletBlocks_ok list
  obtain ⟨_, none | ⟨rfl, total, _⟩⟩ := MemoryRegionInfo.heapAllocate_ok alloc
  · exact False.elim (some_block none.1)
  · refine ⟨fun none => some_block (List.map_eq_nil_iff.mp none), ?_, ?_, hs, Nat.zero_le _⟩
    · intro b hb
      obtain ⟨c, hc, rfl⟩ := List.mem_map.mp hb
      exact VMManager.fcramBlock_ok (sound.highest_block hc)
    · rw [VMManager.totalSize_fcram]
      exact total

end SharedMemory

inductive MapCall where
  | heapAllocate (target size : Nat) (perms : VMAPermission) (memoryState : MemoryState)
      (skipRangeCheck : Bool)
  | linearAllocate (target size : Nat) (perms : VMAPermission)
  | map (target source size : Nat) (perms : VMAPermission) (privileged : Bool)
  | sharedMemoryMap (shared : SharedMemory) (isOwner : Bool) (address : Nat)
      (permissions otherPermissions : MemoryPermission)

inductive ReleaseCall where
  | heapFree (target size : Nat)
  | linearFree (target size : Nat)
  | unmap (target source size : Nat) (perms : VMAPermission) (privileged : Bool)
  | sharedMemoryUnmap (shared : SharedMemory) (address : Nat)

namespace MapCall

def run (p : Process) : MapCall → Exec (ResultVal Nat × Process)
  | heapAllocate target size perms memoryState skipRangeCheck =>
    p.heapAllocate target size perms memoryState skipRangeCheck
  | linearAllocate target size perms => p.linearAllocate target size perms
  | map target source size perms privileged => do
      let (reply, p) ← p.map target source size perms privileged
      return (reply.map fun _ => 0, p)
  | sharedMemoryMap shared isOwner address permissions otherPermissions => do
      let (reply, p) ← shared.map isOwner p address permissions otherPermissions
      return (reply.map fun _ => 0, p)

/-- The numbers of a call are words, and its shared memory is one that was created. -/
def Given (blocks : List SharedMemory) : MapCall → Prop
  | heapAllocate target size _ _ _ => target < 0x100000000 ∧ size < 0x100000000
  | linearAllocate target size _ => target < 0x100000000 ∧ size < 0x100000000
  | map target source size _ _ => target < 0x100000000 ∧ source < 0x100000000 ∧ size < 0x100000000
  | sharedMemoryMap shared _ address _ _ => shared ∈ blocks ∧ address < 0x100000000

end MapCall

namespace ReleaseCall

def run (p : Process) : ReleaseCall → Exec (ResultVal Unit × Process)
  | heapFree target size => p.heapFree target size
  | linearFree target size => p.linearFree target size
  | unmap target source size perms privileged => p.unmap target source size perms privileged
  | sharedMemoryUnmap shared address => shared.unmap p address

def Given (blocks : List SharedMemory) : ReleaseCall → Prop
  | heapFree target size => target < 0x100000000 ∧ size < 0x100000000
  | linearFree target size => target < 0x100000000 ∧ size < 0x100000000
  | unmap target source size _ _ =>
    target < 0x100000000 ∧ source < 0x100000000 ∧ size < 0x100000000
  | sharedMemoryUnmap shared address => shared ∈ blocks ∧ address < 0x100000000

end ReleaseCall

namespace Process

/-- A process and the shared memory it can be handed. The region is also used by others, and
the kernel and its services call the `VMManager` of the process themselves. -/
inductive Reachable : Process → List SharedMemory → Prop where
  | created {vm vm' : VMManager} {region : MemoryRegionInfo} {kernelVersion : Nat} :
      vm.reset = .ok vm' → MemoryRegionInfo.Reachable region →
      Reachable
        { vmManager := vm', memoryRegion := region, kernelVersion := kernelVersion } []
  | map {p p' : Process} {blocks : List SharedMemory} {call : MapCall} {reply : ResultVal Nat} :
      Reachable p blocks → call.Given blocks → call.run p = .ok (reply, p') → Reachable p' blocks
  | release {p p' : Process} {blocks : List SharedMemory} {call : ReleaseCall}
      {reply : ResultVal Unit} :
      Reachable p blocks → call.Given blocks → call.run p = .ok (reply, p') → Reachable p' blocks
  | kernel {p : Process} {blocks : List SharedMemory} {op : VMManager.Op} {vm : VMManager}
      {reply : ResultVal Nat} : Reachable p blocks → op.Valid p.vmManager →
      op.run p.vmManager = .ok (reply, vm) → Reachable { p with vmManager := vm } blocks
  | region {p : Process} {blocks : List SharedMemory} {region : MemoryRegionInfo} :
      Reachable p blocks → MemoryRegionInfo.Reachable region →
      Reachable { p with memoryRegion := region } blocks
  | share {p p' : Process} {blocks : List SharedMemory} {region region' : MemoryRegionInfo}
      {size : Nat} {permissions otherPermissions : MemoryPermission} {address : Nat}
      {shared : SharedMemory} : Reachable p blocks → MemoryRegionInfo.Reachable region →
      size < 0x100000000 → address < 0x100000000 →
      createSharedMemory (some p) region size permissions otherPermissions address =
        .ok (.ok shared, some p', region') → Reachable p' (shared :: blocks)
  | unowned {p : Process} {blocks : List SharedMemory} {region region' : MemoryRegionInfo}
      {size : Nat} {permissions otherPermissions : MemoryPermission} {shared : SharedMemory} :
      Reachable p blocks → MemoryRegionInfo.Reachable region → size < 0x100000000 →
      createSharedMemory none region size permissions otherPermissions 0 =
        .ok (.ok shared, none, region') → Reachable p (shared :: blocks)
  | applet {p : Process} {blocks : List SharedMemory} {region region' : MemoryRegionInfo}
      {offset size : Nat} {permissions otherPermissions : MemoryPermission}
      {shared : SharedMemory} : Reachable p blocks → MemoryRegionInfo.Reachable region →
      size < 0x100000000 → createSharedMemoryForApplet region offset size permissions
        otherPermissions = .ok (shared, region') → Reachable p (shared :: blocks)
  | handed {p q : Process} {blocks others : List SharedMemory} {shared : SharedMemory} :
      Reachable p blocks → Reachable q others → shared ∈ others →
      Reachable p (shared :: blocks)

variable {p p' : Process} {blocks : List SharedMemory}

theorem Sound.map {call : MapCall} {reply : ResultVal Nat} (sound : p.Sound)
    (ok : ∀ shared ∈ blocks, shared.Ok) (given : call.Given blocks)
    (run : call.run p = .ok (reply, p')) :
    p'.Sound ∧ (VMManager.Managed p.vmManager → VMManager.Managed p'.vmManager) := by
  cases call with
  | heapAllocate target size perms memoryState skipRangeCheck =>
    rcases heapAllocate_ok sound given.1 run with ⟨_, kept⟩ | ⟨_, done⟩
    · exact ⟨kept.sound sound, fun managed => kept.vm ▸ managed⟩
    · exact ⟨⟨done.maps.inv, sound.region.moved done.moved fun a ha =>
        sound.region.inside a ((done.rest a).mp ha).1⟩, done.maps.managed⟩
  | linearAllocate target size perms =>
    rcases linearAllocate_ok sound given.1 given.2 run with ⟨_, kept⟩ | ⟨_, done⟩
    · exact ⟨kept.sound sound, fun managed => kept.vm ▸ managed⟩
    · exact ⟨⟨done.maps.inv, done.handed.sound sound.region⟩, done.maps.managed⟩
  | map target source size perms privileged =>
    obtain ⟨⟨result, q⟩, call, run⟩ := bind_eq_ok.mp run
    cases run
    obtain ⟨vm, rfl, outcome⟩ := map_ok sound.vm given.1 given.2.1 given.2.2 call
    cases outcome with
    | refused e => exact ⟨⟨sound.vm, sound.region⟩, id⟩
    | inPlace _ changed | marked e changed _ =>
      exact ⟨⟨changed.inv, sound.region⟩, changed.managed⟩
    | mapped _ changed _ _ maps =>
      exact ⟨⟨maps.inv, sound.region⟩, fun managed => maps.managed (changed.managed managed)⟩
  | sharedMemoryMap shared isOwner address permissions otherPermissions =>
    obtain ⟨⟨result, q⟩, call, run⟩ := bind_eq_ok.mp run
    cases run
    rcases SharedMemory.map_ok (ok shared given.1) sound given.2 call with
      ⟨_, rfl⟩ | ⟨_, vm, rfl, maps⟩
    · exact ⟨sound, id⟩
    · exact ⟨⟨maps.inv, sound.region⟩, maps.managed⟩

theorem Sound.release {call : ReleaseCall} (sound : p.Sound) (ok : ∀ shared ∈ blocks, shared.Ok)
    (given : call.Given blocks) (run : call.run p = .ok (reply, p')) : p'.Sound := by
  cases call with
  | heapFree target size =>
    rcases heapFree_ok sound given.1 given.2 run with rfl | ⟨_, freed, done⟩
    · exact sound
    · exact ⟨done.unmapped.inv, done.region⟩
  | linearFree target size =>
    rcases linearFree_ok sound given.1 given.2 run with rfl | ⟨_, done⟩
    · exact sound
    · refine ⟨done.unmapped.inv, sound.region.moved done.moved fun a ha => ?_⟩
      have within := done.within
      rcases (done.rest a).mp ha with on | ha
      · omega
      · exact sound.region.inside a ha
  | unmap target source size perms privileged =>
    obtain ⟨vm, rfl, outcome⟩ := unmap_ok sound.vm given.1 given.2.1 given.2.2 run
    refine ⟨?_, sound.region⟩
    cases outcome with
    | refused e => exact sound.vm
    | inPlace _ changed | unmapped _ changed => exact changed.inv
    | freed e unmapped => exact unmapped.inv
  | sharedMemoryUnmap shared address =>
    obtain ⟨⟨result, vm⟩, call, run⟩ := bind_eq_ok.mp run
    cases run
    refine ⟨?_, sound.region⟩
    rcases VMManager.unmapRange_ok sound.vm given.2 (ok shared given.1).small call with
      ⟨_, rfl⟩ | ⟨_, unmapped⟩
    · exact sound.vm
    · exact unmapped.inv

theorem Reachable.sound (h : Reachable p blocks) : p.Sound ∧ ∀ shared ∈ blocks, shared.Ok := by
  have extend : ∀ {shared : SharedMemory} {blocks : List SharedMemory}, shared.Ok →
      (∀ other ∈ blocks, other.Ok) → ∀ other ∈ shared :: blocks, other.Ok := by
    intro shared blocks first rest other mem
    rcases List.mem_cons.mp mem with rfl | mem
    · exact first
    · exact rest other mem
  induction h with
  | created reset region => exact ⟨⟨VMManager.reset_inv reset, region.sound⟩, nofun⟩
  | map _ given run ih => exact ⟨(ih.1.map ih.2 given run).1, ih.2⟩
  | release _ given run ih => exact ⟨ih.1.release ih.2 given run, ih.2⟩
  | kernel _ valid run ih =>
    exact ⟨⟨(VMManager.refined_of_run ih.1.vm valid run).inv, ih.1.region⟩, ih.2⟩
  | region _ region ih => exact ⟨⟨ih.1.vm, region.sound⟩, ih.2⟩
  | share _ region hs ha run ih =>
    obtain ⟨owner, created⟩ := SharedMemory.create_ok hs ha region.sound
      (fun q hq => Option.some.inj hq ▸ ih.1) run
    exact ⟨owner _ rfl, extend (created _ rfl) ih.2⟩
  | unowned _ region hs run ih =>
    obtain ⟨_, created⟩ := SharedMemory.create_ok hs (by decide) region.sound
      (fun _ mem => by cases mem) run
    exact ⟨ih.1, extend (created _ rfl) ih.2⟩
  | applet _ region hs run ih =>
    exact ⟨ih.1, extend (SharedMemory.createForApplet_ok hs region.sound run) ih.2⟩
  | handed _ _ mem ih ih' => exact ⟨ih.1, extend (ih'.2 _ mem) ih.2⟩

def started : Process where
  vmManager := VMManager.fresh
  memoryRegion :=
    { base := 0
      size := 0x4000000
      used := 0
      freeBlocks := IntervalSet.empty.add ⟨0, 0x4000000⟩ }

theorem started_reachable : started.Reachable [] := by
  have init : memoryInit false 0 0 (List.replicate 3 ⟨0, 0, 0, IntervalSet.empty, false⟩) =
    .ok [started.memoryRegion, _, _] := rfl
  exact .created VMManager.fresh_reset (.init init List.mem_cons_self)

end Process

namespace MapCall
open VMManager

def start (p : Process) : MapCall → Nat
  | heapAllocate target _ _ _ _ => target
  | linearAllocate target size _ => p.linearTarget target size
  | map target _ _ _ _ => target
  | sharedMemoryMap shared _ address _ _ => shared.targetAddress address

def size : MapCall → Nat
  | heapAllocate _ size _ _ _ => size
  | linearAllocate _ size _ => size
  | map _ _ size _ _ => size
  | sharedMemoryMap shared _ _ _ _ => shared.size

def state : MapCall → MemoryState
  | heapAllocate _ _ _ memoryState _ => memoryState
  | linearAllocate _ _ _ => .continuous
  | map _ _ _ _ privileged => Process.targetState privileged
  | sharedMemoryMap _ _ _ _ _ => .shared

def perms : MapCall → VMAPermission
  | heapAllocate _ _ perms _ _ => perms
  | linearAllocate _ _ perms => perms
  | map _ _ _ perms _ => perms
  | sharedMemoryMap _ _ _ permissions _ => SharedMemory.convertPermissions permissions

def first (p : Process) : MapCall → HostPtr
  | heapAllocate _ size _ _ _ => firstByte ((p.memoryRegion.highest size).blocks.map fcramBlock)
  | linearAllocate target size _ => firstByte [Process.linearBlock (p.linearOffset target size) size]
  | map _ source _ _ _ => (p.vmManager.info source).bind AddressInfo.backing
  | sharedMemoryMap shared _ _ _ _ => firstByte shared.backingBlocks

def past (p : Process) : MapCall → HostPtr
  | heapAllocate _ size _ _ _ => pastByte ((p.memoryRegion.highest size).blocks.map fcramBlock)
  | linearAllocate target size _ => pastByte [Process.linearBlock (p.linearOffset target size) size]
  | map _ source size _ _ =>
    HostPtr.add ((p.vmManager.info (source + size - 1)).bind AddressInfo.backing) 1
  | sharedMemoryMap shared _ _ _ _ => pastByte shared.backingBlocks

def documented : MapCall → InfoMap → InfoMap
  | map _ source size _ privileged => updateOn source (source + size) fun _ i =>
    { i with
      permissions := Process.sourcePerm privileged
      meminfoState := Process.sourceState privileged }
  | _ => id

def InPlace : MapCall → Prop
  | map target source _ _ _ => source = target
  | _ => False

/-- No neighbour is reprotected with the new range, or reprotecting it changes nothing. -/
def Keeps (p : Process) (call : MapCall) : Prop :=
  call.perms = .readWrite ∨ call.InPlace ∨
    ¬ LeftFits p.vmManager.info (call.start p) call.state (call.first p) ∧
    ¬ RightFits p.vmManager.info (call.start p + call.size) call.state (call.past p)

def Framed (p p' : Process) (call : MapCall) : Prop :=
  ∀ a, ¬ (call.start p ≤ a ∧ a < call.start p + call.size) →
    p'.vmManager.info a = call.documented p.vmManager.info a

/-- A successful call maps its blocks into a map that differs by the documented change. -/
structure Maps (p p' : Process) (call : MapCall) (vm : VMManager)
    (blocks : List (MemoryRef × Nat)) : Prop where
  apart : ¬ call.InPlace
  maps : MapsBlocks vm p'.vmManager (call.start p) call.size blocks call.state call.perms
  documented : vm.info = call.documented p.vmManager.info
  left : LeftFits vm.info (call.start p) call.state (firstByte blocks) ↔
    LeftFits p.vmManager.info (call.start p) call.state (call.first p)
  right : RightFits vm.info (call.start p + call.size) call.state (pastByte blocks) ↔
    RightFits p.vmManager.info (call.start p + call.size) call.state (call.past p)

/-- Marking the source takes no part in what fits: its state is never that of the target. -/
theorem marked_info {vm : VMManager} {size : Nat} (inv : Inv vm)
    (changed : Changed vm vm' source size .«private» .readWrite
      (Process.sourceState privileged) (Process.sourcePerm privileged)) (a : Nat)
    (q : HostPtr) : vm'.info a = some ⟨.backingMemory, .readWrite, Process.targetState privileged, q⟩
      ↔ vm.info a = some ⟨.backingMemory, .readWrite, Process.targetState privileged, q⟩ := by
  rw [changed.info]
  by_cases on : source ≤ a ∧ a < source + size
  · obtain ⟨i, here, state⟩ := expected_info inv changed.valid changed.expected on.1 on.2
    rw [updateOn_in on, here, Option.map_some, Option.some.injEq, Option.some.injEq]
    constructor
    · intro same
      have clash := congrArg AddressInfo.meminfoState same
      cases privileged <;> exact nomatch clash
    · rintro rfl
      cases privileged <;> exact nomatch state
  · rw [updateOn_out on]

theorem backed_ends {vm : VMManager} {size : Nat} {expectedState newState : MemoryState}
    {expectedPerms newPerms : VMAPermission} {blocks : List (MemoryRef × Nat)}
    (changed : Changed vm vm' source size expectedState expectedPerms newState newPerms)
    (backs : Backs vm'.info source blocks) (total : totalSize blocks = size) :
    firstByte blocks = (vm.info source).bind AddressInfo.backing ∧
      pastByte blocks = HostPtr.add ((vm.info (source + size - 1)).bind AddressInfo.backing) 1 := by
  have pos := changed.valid.nonempty
  cases blocks with
  | nil =>
    have : 0 = size := total
    omega
  | cons b rest =>
    obtain ⟨i, here, _, start⟩ := backs.first
    obtain ⟨j, last, stop⟩ := backs.past
    rw [total] at last
    rw [← changed.backing, ← changed.backing, here, last]
    exact ⟨start.symm, stop.symm⟩

variable {p p' : Process} {blocks : List SharedMemory} {call : MapCall} {value : Nat}

theorem maps_marked {size : Nat} {perms : VMAPermission} {vm : VMManager} (inv : Inv p.vmManager)
    (apart : source ≠ target)
    (changed : Changed p.vmManager vm source size .«private» .readWrite
      (Process.sourceState privileged) (Process.sourcePerm privileged))
    (backs : Backs vm.info source list) (total : totalSize list = size)
    (maps : MapsBlocks vm vm' target size list (Process.targetState privileged) perms) :
    (MapCall.map target source size perms privileged).Maps p { p with vmManager := vm' } vm
      list := by
  obtain ⟨first, past⟩ := backed_ends changed backs total
  refine ⟨apart, maps, changed.info, ?_, ?_⟩
  · rw [first]
    exact and_congr_right fun _ => exists_congr fun q => and_congr_left fun _ =>
      marked_info inv changed (target - 1) q
  · rw [past]
    exact marked_info inv changed (target + size) _

theorem map_outcome {size : Nat} {perms : VMAPermission} {u : Unit} (inv : Inv p.vmManager)
    (given : (MapCall.map target source size perms privileged).Given blocks)
    (run : p.map target source size perms privileged = .ok (.ok u, p')) :
    (MapCall.map target source size perms privileged).InPlace ∧
        (MapCall.map target source size perms privileged).Framed p p' ∨
      ∃ vm blocks, (MapCall.map target source size perms privileged).Maps p p' vm blocks := by
  obtain ⟨vm, rfl, done⟩ := Process.map_ok inv given.1 given.2.1 given.2.2 run
  cases done with
  | inPlace same changed =>
    refine Or.inl ⟨same, fun a outside => ?_⟩
    subst same
    have outside : ¬ (source ≤ a ∧ a < source + size) := outside
    simp only [changed.info, documented, updateOn_out outside]
  | @mapped vm₁ _ list apart changed backs total maps =>
    exact Or.inr ⟨vm₁, list, maps_marked inv apart changed backs total maps⟩

theorem outcome (h : p.Reachable blocks) (given : call.Given blocks)
    (run : call.run p = .ok (.ok value, p')) :
    call.InPlace ∧ call.Framed p p' ∨ ∃ vm blocks, call.Maps p p' vm blocks := by
  obtain ⟨sound, ok⟩ := h.sound
  cases call with
  | heapAllocate target size perms memoryState skipRangeCheck =>
    rcases Process.heapAllocate_ok sound given.1 run with ⟨⟨_, error⟩, _⟩ | ⟨_, done⟩
    · cases error
    · exact Or.inr ⟨_, _, id, done.maps, rfl, Iff.rfl, Iff.rfl⟩
  | linearAllocate target size perms =>
    rcases Process.linearAllocate_ok sound given.1 given.2 run with ⟨⟨_, error⟩, _⟩ | ⟨_, done⟩
    · cases error
    · exact Or.inr ⟨_, _, id, done.maps, rfl, Iff.rfl, Iff.rfl⟩
  | map target source size perms privileged =>
    obtain ⟨⟨result, q⟩, call, run⟩ := bind_eq_ok.mp run
    cases result with
    | error e => cases run
    | ok u =>
      cases run
      exact map_outcome sound.vm given call
  | sharedMemoryMap shared isOwner address permissions otherPermissions =>
    obtain ⟨⟨result, q⟩, call, run⟩ := bind_eq_ok.mp run
    cases result with
    | error e => cases run
    | ok u =>
      cases run
      rcases SharedMemory.map_ok (ok shared given.1) sound given.2 call with
        ⟨⟨_, error⟩, _⟩ | ⟨_, vm, rfl, maps⟩
      · cases error
      · exact Or.inr ⟨_, _, id, maps, rfl, Iff.rfl, Iff.rfl⟩

/-- Nothing around the range is swept along just if no neighbour fits, or sweeping shows nothing. -/
theorem Maps.frames {vm : VMManager} (h : call.Maps p p' vm list) : call.Framed p p' ↔
    call.Keeps p := by
  obtain ⟨apart, maps, documented, left, right⟩ := h
  have effect := maps.effect
  constructor
  · intro framed
    by_cases same : call.perms = .readWrite
    · exact Or.inl same
    · refine Or.inr (Or.inr ⟨fun fits => same ?_, fun fits => same ?_⟩)
      · have swept := effect.below_swept (left.mpr fits)
        obtain ⟨low, q, here, _⟩ := left.mpr fits
        have kept := framed (call.start p - 1) (by omega)
        rw [← documented, swept, here] at kept
        exact congrArg AddressInfo.permissions (Option.some.inj kept)
      · have swept := effect.above_swept (right.mpr fits)
        have here := right.mpr fits
        have kept := framed (call.start p + call.size) (by omega)
        rw [← documented, swept, here] at kept
        exact congrArg AddressInfo.permissions (Option.some.inj kept)
  · rintro (same | place | ⟨no_left, no_right⟩) a outside
    · rw [effect.unchanged same a outside, documented]
    · exact False.elim (apart place)
    · rw [← documented]
      by_cases below : a < call.start p
      · exact effect.below_kept (fun fits => no_left (left.mp fits)) a below
      · exact effect.above_kept (fun fits => no_right (right.mp fits)) a (by omega)

/-- A mapping call leaves the memory around it alone exactly when it asks for read-write
memory, maps in place, or finds no neighbour that fits. -/
theorem framed_iff_keeps (h : p.Reachable blocks) (given : call.Given blocks)
    (run : call.run p = .ok (.ok value, p')) : call.Framed p p' ↔ call.Keeps p := by
  rcases outcome h given run with ⟨place, framed⟩ | ⟨vm, list, maps⟩
  · exact iff_of_true framed (Or.inr (Or.inl place))
  · exact maps.frames

def upperPage : MapCall := .heapAllocate 0x08001000 0x1000 .readWrite .«private» false

def lowerPage : MapCall := .heapAllocate 0x08000000 0x1000 .read .«private» false

/-- The first page of a new process changes no other address. -/
theorem framed_iff_keeps_upperPage : ∃ p p', p.Reachable [] ∧
    upperPage.run p = .ok (.ok 0x08001000, p') ∧ upperPage.Framed p p' := by
  have given : upperPage.Given [] := ⟨by decide, by decide⟩
  exact ⟨_, _, Process.started_reachable, rfl,
    (framed_iff_keeps Process.started_reachable given rfl).mpr (Or.inl rfl)⟩

/-- The bytes behind the two pages are contiguous, so the page above, read-write until then,
becomes read-only with the one below. -/
theorem framed_fails : ∃ p p' value, p.Reachable [] ∧ lowerPage.Given [] ∧
    lowerPage.run p = .ok (.ok value, p') ∧ ¬ lowerPage.Framed p p' := by
  have given : upperPage.Given [] := ⟨by decide, by decide⟩
  have mapped := Process.started_reachable.map given rfl
  refine ⟨_, _, 0x08000000, mapped, ⟨by decide, by decide⟩, rfl, fun framed => ?_⟩
  have kept := framed 0x08001000 (by decide)
  exact absurd kept (by decide)

end MapCall
end EmuThreeDS
