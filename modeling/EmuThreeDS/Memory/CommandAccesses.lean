import EmuThreeDS.Kernel.CommandBounds
import EmuThreeDS.Memory.BlockBounds

/-!
# Block accesses of the guest's choice

The translation of command buffers over the memory of the guest: the addresses and sizes of static
and mapped buffers come from the command, and nobody asks whether a range ends before the last
address.
-/
namespace EmuThreeDS

open ForwardLoop GuestMemory Layout PageTables

/-- The memory of the guest, and the number of the next host buffer. -/
abbrev BufferMemory := GuestMemory × Nat

def guestSystem (pluginFb : Nat) (r : Rasterizer) (tables : Nat → PageTable) :
    MemorySystem BufferMemory where
  readBlock memory process address size := do
    let (data, m) ← readBlockImpl pluginFb r (tables process) memory.1 address size
    return (data, m, memory.2)
  writeBlock memory process address data := do
    let m ← writeBlockImpl pluginFb r (tables process) memory.1 address data
    return (m, memory.2)
  copyBlock memory destProcess srcProcess destAddr srcAddr size := do
    let m ← copyBlock pluginFb r (tables srcProcess) (tables destProcess) memory.1 destAddr srcAddr
      size
    return (m, memory.2)
  makeBuffer memory _ := (memory.2, memory.1, memory.2 + 1)
  fillBuffer memory buffer offset data := (memory.1.store (buffer, offset) data, memory.2)

theorem blocks_stay_in_table_iff {s : PageTables} {t destTable : PageTable} {pluginFb : Nat}
    (reachable : s.ProcessReachable) (member : t ∈ s.list) (member' : destTable ∈ s.list)
    (plugged : Plugged pluginFb t) (plugged' : Plugged pluginFb destTable) (r : Rasterizer)
    (m : GuestMemory) {start dest : Nat} (low : dest < 0x100000000) (size : Nat)
    (data : List UInt8) :
    (StaysInTable (readBlockImpl pluginFb r t m start size) ↔ InTable start size) ∧
    (StaysInTable (writeBlockImpl pluginFb r destTable m dest data) ↔ InTable dest data.length) ∧
    (StaysInTable (zeroBlock pluginFb r destTable m dest size) ↔ InTable dest size) ∧
    (StaysInTable (copyBlock pluginFb r t destTable m dest start size) ↔
      CopyInTable start dest size) ∧
    ∀ len < (0x80000000 : Int), StaysInTable (outputDebugString pluginFb r t m start len) := by
  have backs := reachable.reachable.backs member plugged
  have backs' := reachable.reachable.backs member' plugged'
  refine ⟨blockLoop_stays_iff (readTurn_ends backs), ?_, blockLoop_stays_iff (zeroPiece_ends backs'),
    ?_, fun len word => outputDebugString_stays reachable member plugged r m start word⟩
  · unfold writeBlockImpl
    rw [staysInTable_map]
    exact blockLoop_stays_iff (writeTurn_ends backs')
  · unfold copyBlock
    rw [staysInTable_map]
    constructor
    · intro stays
      by_contra outside
      exact stays (copyLoop_leaves backs backs' low outside)
    · intro inside
      exact staysInTable_of_ok (copyLoop_ends backs backs' low inside)

def commandBytes (words : List Nat) : GuestMemory :=
  store ⟨fun _ => 0, fun _ => none⟩ (fcram, 0x80) (words.flatMap (leBytes 4))

def commandTable : PageTable := PageTable.clear.set 0x1FF82 .memory (some (fcram, 0))

theorem commandTable_reachable :
    (⟨[commandTable], fun _ => false⟩ : PageTables).ProcessReachable := by
  have registered : (⟨[PageTable.clear], fun _ => false⟩ : PageTables).ProcessReachable :=
    .step (a := .registerPageTable) (.start rfl) ⟨trivial, nofun⟩ rfl
  refine .step (a := .mapMemoryRegion 0 0x1FF82000 0x1000 ⟨some fcram, 0⟩) registered ⟨rfl, ?_⟩ rfl
  rintro _ _ _ _ ⟨⟩
  decide

theorem commandTable_plugged (pluginFb : Nat) : Plugged pluginFb commandTable := by
  intro vaddr _ _ cached
  by_cases same : vaddr / pageSize = 0x1FF82
  · rw [same] at cached
    cases cached
  · rw [commandTable, PageTable.set_attributes_other same] at cached
    cases cached

/-- Two bytes from the last address on. -/
theorem blocks_stay_in_table_iff_last :
    (StaysInTable (readBlockImpl 0 exactRasterizer commandTable (commandBytes []) 0xFFFFFFFF 2) ↔
      InTable 0xFFFFFFFF 2) ∧
    (StaysInTable (writeBlockImpl 0 exactRasterizer commandTable (commandBytes []) 0xFFFFFFFF
      [1, 2]) ↔ InTable 0xFFFFFFFF 2) ∧
    (StaysInTable (zeroBlock 0 exactRasterizer commandTable (commandBytes []) 0xFFFFFFFF 2) ↔
      InTable 0xFFFFFFFF 2) ∧
    (StaysInTable (copyBlock 0 exactRasterizer commandTable commandTable (commandBytes [])
      0xFFFFFFFF 0xFFFFFFFF 2) ↔ CopyInTable 0xFFFFFFFF 0xFFFFFFFF 2) ∧
    ∀ len < (0x80000000 : Int), StaysInTable
      (outputDebugString 0 exactRasterizer commandTable (commandBytes []) 0xFFFFFFFF len) :=
  blocks_stay_in_table_iff commandTable_reachable (List.mem_singleton_self _)
    (List.mem_singleton_self _) (commandTable_plugged 0) (commandTable_plugged 0) exactRasterizer
    (commandBytes []) (by decide) 2 [1, 2]

def bufferTranslation (words : List Nat) : Translation Unit BufferMemory where
  processes := someProcess
  memory := (commandBytes words, 0)
  mappedBufferContext := []
  cmdBuf := fun _ => 0
  touched := []

/-- A static buffer of two bytes from the last address on. -/
theorem static_buffer_leaves : ∃ s : PageTables, s.ProcessReachable ∧ commandTable ∈ s.list ∧
    ¬ StaysInTable (outcome (Translate.translateCommandBuffer
      (guestSystem 0 exactRasterizer fun _ => commandTable)
      { someCall with srcAddress := 0x1FF82080 })
      (bufferTranslation [2, 0x8002, 0xFFFFFFFF])).1 := by
  refine ⟨_, commandTable_reachable, List.mem_singleton_self _, ?_⟩
  decide +kernel

end EmuThreeDS
