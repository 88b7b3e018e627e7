import EmuThreeDS.Exec
import EmuThreeDS.Lib.Tiling

/-!
# Host memory references and virtual memory areas

`common/memory_ref.h` and the records of `vm_manager.h`. A host pointer is the block it
points into and an offset, so pointers into different allocations are never equal.
-/
namespace EmuThreeDS

/-- One host allocation and its `GetSize()`. -/
structure BackingMem where
  id : Nat
  size : Nat
  deriving DecidableEq

/-- `nullptr` is the reference without a block. -/
structure MemoryRef where
  backingMem : Option BackingMem := none
  offset : Nat := 0
  deriving DecidableEq

abbrev HostPtr := Option (BackingMem × Nat)

def HostPtr.add (p : HostPtr) (n : Nat) : HostPtr := p.map fun q => (q.1, q.2 + n)

namespace MemoryRef

def getPtr (r : MemoryRef) : HostPtr := r.backingMem.map fun b => (b, r.offset)

/-- The cached `csize`. -/
def getSize (r : MemoryRef) : Nat :=
  match r.backingMem with
  | some b => b.size - r.offset
  | none => 0

/-- `operator+=` and `operator+`. -/
def advance (r : MemoryRef) (offsetBy : Nat) : Exec MemoryRef := do
  assert .memoryRef (offsetBy < r.getSize)
  return { r with offset := r.offset + offsetBy }

@[simp] theorem getPtr_offset (r : MemoryRef) (n : Nat) :
    getPtr { r with offset := r.offset + n } = HostPtr.add r.getPtr n := by
  cases h : r.backingMem <;> simp [getPtr, HostPtr.add, h]

end MemoryRef

@[simp] theorem HostPtr.add_zero (p : HostPtr) : HostPtr.add p 0 = p := by
  cases p <;> rfl

theorem HostPtr.add_add (p : HostPtr) (m n : Nat) :
    HostPtr.add (HostPtr.add p m) n = HostPtr.add p (m + n) := by
  cases p <;> simp [HostPtr.add, Nat.add_assoc]

inductive VMAType where
  | free | backingMemory | mmio
  deriving DecidableEq

/-- A set of flags in a `u8`. -/
abbrev VMAPermission := BitVec 8

namespace VMAPermission

def none : VMAPermission := 0
def read : VMAPermission := 1
def write : VMAPermission := 2
def execute : VMAPermission := 4
def readWrite : VMAPermission := 3
def readExecute : VMAPermission := 5
def readWriteExecute : VMAPermission := 7

end VMAPermission

inductive MemoryState where
  | free | reserved | io | static | code | «private» | shared | continuous | aliased | «alias»
  | aliasCode | locked
  deriving DecidableEq

structure VirtualMemoryArea where
  base : Nat := 0
  size : Nat := 0
  type : VMAType := .free
  permissions : VMAPermission := .none
  meminfoState : MemoryState := .free
  backingMemory : MemoryRef := {}
  paddr : Nat := 0
  deriving DecidableEq

/-- What one address of the process is: the four attributes the guest can tell apart. -/
structure AddressInfo where
  type : VMAType
  permissions : VMAPermission
  meminfoState : MemoryState
  backing : HostPtr
  deriving DecidableEq

namespace VirtualMemoryArea

/-- The comparisons of `CanBeMergedWith`, after its assertion. -/
def mergeable (v next : VirtualMemoryArea) : Bool :=
  if v.permissions ≠ next.permissions ∨ v.meminfoState ≠ next.meminfoState ∨ v.type ≠ next.type then
    false
  else if v.type = .backingMemory ∧
      HostPtr.add v.backingMemory.getPtr v.size ≠ next.backingMemory.getPtr then
    false
  else if v.type = .mmio ∧ add32 v.paddr v.size ≠ next.paddr then
    false
  else
    true

def canBeMergedWith (v next : VirtualMemoryArea) : Exec Bool := do
  assert .canBeMergedWith (add32 v.base v.size = next.base)
  return v.mergeable next

/-- The backing byte is defined for areas of type `BackingMemory` only. -/
def infoAt (v : VirtualMemoryArea) (a : Nat) : AddressInfo :=
  { type := v.type
    permissions := v.permissions
    meminfoState := v.meminfoState
    backing := if v.type = .backingMemory then
      HostPtr.add v.backingMemory.getPtr (a - v.base) else none }

instance : Tiling.Segment VirtualMemoryArea AddressInfo where
  base := VirtualMemoryArea.base
  size := VirtualMemoryArea.size
  value := infoAt

theorem mergeable_iff {v n : VirtualMemoryArea} : v.mergeable n = true ↔
    v.permissions = n.permissions ∧ v.meminfoState = n.meminfoState ∧ v.type = n.type ∧
      (v.type = .backingMemory →
        HostPtr.add v.backingMemory.getPtr v.size = n.backingMemory.getPtr) ∧
      (v.type = .mmio → add32 v.paddr v.size = n.paddr) := by
  unfold mergeable
  split_ifs with h1 h2 h3 <;> grind

end VirtualMemoryArea

end EmuThreeDS
