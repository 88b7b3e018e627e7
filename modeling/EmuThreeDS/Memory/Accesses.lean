import EmuThreeDS.Memory.PageTables
import EmuThreeDS.Common.Bytes

/-!
# Guest memory accesses

`Read` and `Write` of one value and `ReadBlock` and `WriteBlock` of a range, for addresses below
2^31: what lies above is Luma's own mapping. The rasterizer is what its interface says: it holds
bytes that are newer than memory, a flush writes back those of a region and an invalidation drops
them, and either may write back others besides. It is asked for pages marked as cached alone, which
are those of the linear heap and of VRAM; a plain alias of their bytes goes to memory as it is.
-/
namespace EmuThreeDS

open Layout

/-- The physical address of a byte of FCRAM or VRAM, the only ones that are flushed. -/
def paddrOf (loc : HostLoc) : Option Nat :=
  if loc.1 = fcram then some (fcramPaddr + loc.2)
  else if loc.1 = vram ∧ loc.2 < vramSize then some (vramPaddr + loc.2)
  else none

/-- Host memory, and the bytes the rasterizer holds for physical addresses. -/
@[ext] structure GuestMemory where
  bytes : HostLoc → UInt8
  held : Nat → Option UInt8

/-- What a flush or an invalidation of a region writes back besides. -/
structure Rasterizer where
  alsoFlushes : (Nat → Option UInt8) → Nat → Nat → Nat → Bool

def HostLoc.plus (loc : HostLoc) (j : Nat) : HostLoc := (loc.1, loc.2 + j)

namespace GuestMemory

def visible (m : GuestMemory) (loc : HostLoc) : UInt8 :=
  match (paddrOf loc).bind m.held with
  | some byte => byte
  | none => m.bytes loc

def load (m : GuestMemory) (loc : HostLoc) (size : Nat) : List UInt8 :=
  (List.range size).map fun j => m.bytes (loc.plus j)

def store (m : GuestMemory) (loc : HostLoc) (data : List UInt8) : GuestMemory :=
  { m with
    bytes := fun other =>
      if other.1 = loc.1 ∧ loc.2 ≤ other.2 then data.getD (other.2 - loc.2) (m.bytes other)
      else m.bytes other }

def writeBack (m : GuestMemory) (which : Nat → Bool) : GuestMemory where
  bytes := fun loc => if (paddrOf loc).any which then m.visible loc else m.bytes loc
  held := fun paddr => if which paddr then none else m.held paddr

def inRegion (start size paddr : Nat) : Bool := start ≤ paddr ∧ paddr < start + size

def flushRegion (r : Rasterizer) (m : GuestMemory) (start size : Nat) : GuestMemory :=
  m.writeBack fun paddr => inRegion start size paddr || r.alsoFlushes m.held start size paddr

def invalidateRegion (r : Rasterizer) (m : GuestMemory) (start size : Nat) : GuestMemory :=
  let m := m.writeBack (r.alsoFlushes m.held start size)
  { m with held := fun paddr => if inRegion start size paddr then none else m.held paddr }

/-- The virtual regions that `RasterizerFlushVirtualRegion` checks, with their physical starts. -/
def checkedRegions (pluginFb : Nat) : List (Nat × Nat × Nat) :=
  [(linearHeapVaddr, linearHeapVaddrEnd, fcramPaddr),
   (newLinearHeapVaddr, newLinearHeapVaddrEnd, fcramPaddr),
   (vramVaddr, vramVaddrEnd, vramPaddr)] ++
  if pluginFb ≠ 0 then [(plugin3gxFbVaddr, plugin3gxFbVaddrEnd, pluginFb)] else []

/-- `CheckRegion`, with the operation of the rasterizer that the mode picks. -/
def checkRegion (op : GuestMemory → Nat → Nat → GuestMemory) (start stop : Nat) (m : GuestMemory)
    (region : Nat × Nat × Nat) : GuestMemory :=
  if start ≥ region.2.1 ∨ stop ≤ region.1 then m
  else
    let overlapStart := max start region.1
    let overlapEnd := min stop region.2.1
    op m (region.2.2 + (overlapStart - region.1)) (overlapEnd - overlapStart)

def rasterizerFlushVirtualRegion (op : GuestMemory → Nat → Nat → GuestMemory) (pluginFb : Nat)
    (m : GuestMemory) (start size : Nat) : GuestMemory :=
  (checkedRegions pluginFb).foldl (checkRegion op start (start + size)) m

end GuestMemory

open GuestMemory PageTables

section

variable (pluginFb : Nat) (r : Rasterizer) (t : PageTable) (m : GuestMemory)

/-- `Read<T>` for a type of `size` bytes. -/
def read (vaddr size : Nat) : Exec (Nat × GuestMemory) :=
  match t.pointers (vaddr / pageSize) with
  | some pagePointer => .ok (leValue (m.load (pagePointer.plus (vaddr % pageSize)) size), m)
  | none =>
    match t.attributes (vaddr / pageSize) with
    | .unmapped => .ok (0, m)
    | .memory => .error (.assertion .mappedPage)
    | .rasterizerCachedMemory => do
      let m := rasterizerFlushVirtualRegion (flushRegion r) pluginFb m vaddr size
      let pointer ← getPointerForRasterizerCache pluginFb vaddr
      return (leValue (m.load pointer size), m)

/-- `Write<T>` of a value of `size` bytes. -/
def write (vaddr size data : Nat) : Exec GuestMemory :=
  match t.pointers (vaddr / pageSize) with
  | some pagePointer => .ok (m.store (pagePointer.plus (vaddr % pageSize)) (leBytes size data))
  | none =>
    match t.attributes (vaddr / pageSize) with
    | .unmapped => .ok m
    | .memory => .error (.assertion .mappedPage)
    | .rasterizerCachedMemory => do
      let m := rasterizerFlushVirtualRegion (invalidateRegion r) pluginFb m vaddr size
      let pointer ← getPointerForRasterizerCache pluginFb vaddr
      return m.store pointer (leBytes size data)

/-- One turn of the loop of `ReadBlockImpl`: `size` bytes of the page of `vaddr`. -/
def readPiece (vaddr size : Nat) : Exec (List UInt8 × GuestMemory) :=
  match t.attributes (vaddr / pageSize) with
  | .unmapped => .ok (List.replicate size 0, m)
  | .memory =>
    match t.pointers (vaddr / pageSize) with
    | some pointer => .ok (m.load (pointer.plus (vaddr % pageSize)) size, m)
    | none => .error .undefinedBehaviour
  | .rasterizerCachedMemory => do
    let m := rasterizerFlushVirtualRegion (flushRegion r) pluginFb m vaddr size
    let pointer ← getPointerForRasterizerCache pluginFb vaddr
    return (m.load pointer size, m)

/-- One turn of the loop of `WriteBlockImpl`. -/
def writePiece (vaddr : Nat) (data : List UInt8) : Exec GuestMemory :=
  match t.attributes (vaddr / pageSize) with
  | .unmapped => .ok m
  | .memory =>
    match t.pointers (vaddr / pageSize) with
    | some pointer => .ok (m.store (pointer.plus (vaddr % pageSize)) data)
    | none => .error .undefinedBehaviour
  | .rasterizerCachedMemory => do
    let m := rasterizerFlushVirtualRegion (invalidateRegion r) pluginFb m vaddr data.length
    let pointer ← getPointerForRasterizerCache pluginFb vaddr
    return m.store pointer data

/-- `copy_amount`: the bytes left of the page of `vaddr`, or all that remain. -/
def copyAmount (vaddr remaining : Nat) : Nat := min (pageSize - vaddr % pageSize) remaining

theorem copyAmount_pos (vaddr : Nat) {remaining : Nat} (h : 0 < remaining) :
    0 < copyAmount vaddr remaining := by
  have inside : vaddr % pageSize < pageSize := Nat.mod_lt _ (by decide)
  unfold copyAmount
  omega

/-- `ReadBlockImpl`: the page index and the page offset are those of `vaddr`. -/
def readBlock (m : GuestMemory) (vaddr remaining : Nat) : Exec (List UInt8 × GuestMemory) :=
  if _ : 0 < remaining then do
    let (bytes, m) ← readPiece pluginFb r t m vaddr (copyAmount vaddr remaining)
    let (more, m) ← readBlock m ((vaddr / pageSize + 1) * pageSize)
      (remaining - copyAmount vaddr remaining)
    return (bytes ++ more, m)
  else .ok ([], m)
termination_by remaining
decreasing_by
  have := copyAmount_pos vaddr ‹0 < remaining›
  omega

def writeBlock (m : GuestMemory) (vaddr : Nat) (data : List UInt8) : Exec GuestMemory :=
  if _ : 0 < data.length then do
    let m ← writePiece pluginFb r t m vaddr (data.take (copyAmount vaddr data.length))
    writeBlock m ((vaddr / pageSize + 1) * pageSize) (data.drop (copyAmount vaddr data.length))
  else .ok m
termination_by data.length
decreasing_by
  have := copyAmount_pos vaddr ‹0 < data.length›
  rw [List.length_drop]
  omega

end

/-!
## What flushing shows and hides

Flushing changes nothing the guest can see, and leaves the bytes it was asked for as they are
seen. The regions that `RasterizerFlushVirtualRegion` knows are whole pages and far apart, and
`GetPointerForRasterizerCache` points to the bytes it is asked for.
-/

namespace HostLoc

@[simp] theorem plus_zero (loc : HostLoc) : loc.plus 0 = loc := rfl

theorem plus_plus (loc : HostLoc) (i j : Nat) : (loc.plus i).plus j = loc.plus (i + j) := by
  simp [plus, Nat.add_assoc]

theorem plus_inj {loc : HostLoc} {i j : Nat} (same : loc.plus i = loc.plus j) : i = j := by
  have offsets := congrArg Prod.snd same
  simp only [plus] at offsets
  omega

end HostLoc

theorem paddrOf_inj {x y : HostLoc} {p : Nat} (hx : paddrOf x = some p)
    (hy : paddrOf y = some p) : x = y := by
  have sizes : vramPaddr + vramSize ≤ fcramPaddr := by decide
  unfold paddrOf at hx hy
  rcases x with ⟨bx, ix⟩
  rcases y with ⟨by', iy⟩
  split_ifs at hx hy <;> simp_all <;> omega

namespace GuestMemory

variable {m : GuestMemory} {x : HostLoc} {p : Nat}

theorem visible_held {byte : UInt8} (at_x : paddrOf x = some p) (h : m.held p = some byte) :
    m.visible x = byte := by
  unfold visible
  rw [at_x, Option.bind_some, h]

theorem visible_free (h : ∀ p, paddrOf x = some p → m.held p = none) : m.visible x = m.bytes x := by
  unfold visible
  cases at_x : paddrOf x with
  | none => rfl
  | some p => rw [Option.bind_some, h p at_x]

section

variable {which : Nat → Bool}

theorem writeBack_held (m : GuestMemory) (which : Nat → Bool) (p : Nat) :
    (m.writeBack which).held p = none ∨ (m.writeBack which).held p = m.held p := by
  unfold writeBack
  dsimp only
  split_ifs
  · exact .inl rfl
  · exact .inr rfl

theorem writeBack_visible (m : GuestMemory) (which : Nat → Bool) :
    (m.writeBack which).visible = m.visible := by
  funext x
  cases at_x : paddrOf x with
  | none => simp [visible, writeBack, at_x]
  | some p =>
    by_cases picked : which p
    · have free : (m.writeBack which).held p = none := if_pos picked
      have bytes : (m.writeBack which).bytes x = m.visible x := by simp [writeBack, at_x, picked]
      rw [visible_free, bytes]
      intro q same
      cases at_x.symm.trans same
      exact free
    · have held : (m.writeBack which).held p = m.held p := if_neg picked
      have bytes : (m.writeBack which).bytes x = m.bytes x := by simp [writeBack, at_x, picked]
      unfold visible
      rw [at_x, Option.bind_some, Option.bind_some, held, bytes]

end

/-- What is left of the held bytes: those of `gone` are held no more, and only those of `lost`
may look different. -/
structure Cleared (lost gone : Nat → Prop) (m after : GuestMemory) : Prop where
  seen : ∀ x, (∀ p, paddrOf x = some p → ¬ lost p) → after.visible x = m.visible x
  shrunk : ∀ p, m.held p = none → after.held p = none
  gone : ∀ p, gone p → after.held p = none

namespace Cleared

variable {lost gone lost' gone' : Nat → Prop} {m' m'' : GuestMemory}

theorem refl (m : GuestMemory) : Cleared lost (fun _ => False) m m :=
  ⟨fun _ _ => rfl, fun _ free => free, fun _ no => no.elim⟩

theorem trans (h : Cleared lost gone m m') (h' : Cleared lost gone' m' m'') :
    Cleared lost (fun p => gone p ∨ gone' p) m m'' := by
  refine ⟨?_, ?_, ?_⟩
  · intro x kept
    rw [h'.seen x kept, h.seen x kept]
  · intro p free
    exact h'.shrunk p (h.shrunk p free)
  · rintro p (first | second)
    · exact h'.shrunk p (h.gone p first)
    · exact h'.gone p second

theorem mono (h : Cleared lost gone m m') (wider : ∀ p, lost p → lost' p)
    (fewer : ∀ p, gone' p → gone p) : Cleared lost' gone' m m' :=
  ⟨fun x kept => h.seen x fun p at_x isLost => kept p at_x (wider p isLost), h.shrunk,
    fun p isGone => h.gone p (fewer p isGone)⟩

theorem bytes (h : Cleared lost gone m m') (kept : ∀ p, paddrOf x = some p → ¬ lost p)
    (free : ∀ p, paddrOf x = some p → m.held p = none) : m'.bytes x = m.bytes x := by
  have same := h.seen x kept
  rwa [visible_free free, visible_free fun p at_x => h.shrunk p (free p at_x)] at same

end Cleared

theorem flushRegion_cleared (r : Rasterizer) (m : GuestMemory) (start size : Nat) :
    Cleared (fun _ => False) (fun p => inRegion start size p) m (flushRegion r m start size) := by
  refine ⟨?_, ?_, ?_⟩
  · intro x _
    unfold flushRegion
    rw [writeBack_visible]
  · intro p free
    rcases writeBack_held m (fun paddr => inRegion start size paddr ||
      r.alsoFlushes m.held start size paddr) p with none | same
    · exact none
    · exact same.trans free
  · intro p inside
    unfold flushRegion writeBack
    simp [inside]

theorem invalidateRegion_cleared (r : Rasterizer) (m : GuestMemory) (start size : Nat) :
    Cleared (fun p => inRegion start size p) (fun p => inRegion start size p) m
      (invalidateRegion r m start size) := by
  refine ⟨?_, ?_, ?_⟩
  · intro x kept
    have before := congrFun (writeBack_visible m (r.alsoFlushes m.held start size)) x
    rw [← before]
    unfold visible invalidateRegion
    dsimp only
    cases at_x : paddrOf x with
    | none => rfl
    | some p =>
      have outside : ¬ inRegion start size p := kept p at_x
      rw [Option.bind_some, Option.bind_some, if_neg outside]
  · intro p free
    unfold invalidateRegion
    dsimp only
    split_ifs
    · rfl
    · rcases writeBack_held m (r.alsoFlushes m.held start size) p with
        none | same
      · exact none
      · exact same.trans free
  · intro p inside
    exact if_pos inside

def Reached (pluginFb start size p : Nat) : Prop :=
  ∃ region ∈ checkedRegions pluginFb, ∃ v, region.1 ≤ v ∧ v < region.2.1 ∧ start ≤ v ∧
    v < start + size ∧ p = region.2.2 + (v - region.1)

theorem checkRegion_cleared {op : GuestMemory → Nat → Nat → GuestMemory}
    {lost : Nat → Nat → Nat → Prop} {start stop : Nat} {region : Nat × Nat × Nat}
    (clears : ∀ m start size, Cleared (lost start size) (fun p => inRegion start size p) m
      (op m start size))
    (few : ∀ start size p, lost start size p → inRegion start size p) (m : GuestMemory) :
    let asked := fun p => ∃ v, region.1 ≤ v ∧ v < region.2.1 ∧ start ≤ v ∧ v < stop ∧
      p = region.2.2 + (v - region.1)
    Cleared (fun p => asked p ∧ ∃ start size, lost start size p) asked m
      (checkRegion op start stop m region) := by
  intro asked
  unfold checkRegion
  split_ifs with apart
  · refine ⟨fun _ _ => rfl, fun _ free => free, ?_⟩
    omega
  · have within : ∀ p, inRegion (region.2.2 + (max start region.1 - region.1))
        (min stop region.2.1 - max start region.1) p ↔ asked p := by
      intro p
      simp only [inRegion, asked, decide_eq_true_eq]
      constructor
      · intro inside
        exact ⟨region.1 + (p - region.2.2), by omega, by omega, by omega, by omega, by omega⟩
      · omega
    refine (clears m _ _).mono ?_ ?_
    · intro p isLost
      exact ⟨(within p).mp (few _ _ p isLost), _, _, isLost⟩
    · intro p isAsked
      exact (within p).mpr isAsked

theorem foldl_cleared {op : GuestMemory → Nat → Nat → GuestMemory}
    {lost : Nat → Nat → Nat → Prop} {start stop : Nat}
    (clears : ∀ m start size, Cleared (lost start size) (fun p => inRegion start size p) m
      (op m start size)) (few : ∀ start size p, lost start size p → inRegion start size p)
    (regions : List (Nat × Nat × Nat)) (m : GuestMemory) :
    let asked := fun p => ∃ region ∈ regions, ∃ v, region.1 ≤ v ∧ v < region.2.1 ∧ start ≤ v ∧
      v < stop ∧ p = region.2.2 + (v - region.1)
    Cleared (fun p => asked p ∧ ∃ start size, lost start size p) asked m
      (regions.foldl (checkRegion op start stop) m) := by
  induction regions generalizing m with
  | nil => exact ⟨fun _ _ => rfl, fun _ free => free, by rintro p ⟨_, ⟨⟩, _⟩⟩
  | cons region regions ih =>
    have first := @checkRegion_cleared op lost start stop region clears few m
    have later := ih (checkRegion op start stop m region)
    refine ((first.mono ?_ fun p isAsked => isAsked).trans
      (later.mono ?_ fun p isAsked => isAsked)).mono (fun p isLost => isLost) ?_
    · rintro p ⟨isAsked, isLost⟩
      exact ⟨⟨region, List.mem_cons_self .., isAsked⟩, isLost⟩
    · rintro p ⟨⟨other, member, isAsked⟩, isLost⟩
      exact ⟨⟨other, List.mem_cons_of_mem _ member, isAsked⟩, isLost⟩
    · rintro p ⟨other, member, isAsked⟩
      rcases List.mem_cons.mp member with rfl | member
      · exact .inl isAsked
      · exact .inr ⟨other, member, isAsked⟩

section

variable (r : Rasterizer) (pluginFb : Nat) (m : GuestMemory) (start size : Nat)

theorem flushVirtual_cleared : Cleared (fun _ => False) (Reached pluginFb start size) m
      (rasterizerFlushVirtualRegion (flushRegion r) pluginFb m start size) := by
  refine (foldl_cleared (flushRegion_cleared r) (fun _ _ _ no => no.elim) _ m).mono ?_
    fun p reached => reached
  rintro p ⟨_, _, _, no⟩
  exact no

theorem invalidateVirtual_cleared : Cleared (Reached pluginFb start size)
    (Reached pluginFb start size) m
      (rasterizerFlushVirtualRegion (invalidateRegion r) pluginFb m start size) :=
  (foldl_cleared (invalidateRegion_cleared r) (fun _ _ _ inside => inside) _ m).mono
    (fun _ isLost => isLost.1) fun _ reached => reached

end

end GuestMemory
end EmuThreeDS
