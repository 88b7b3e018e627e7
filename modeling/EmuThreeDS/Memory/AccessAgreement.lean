import EmuThreeDS.Lib.Runs
import EmuThreeDS.Memory.Accesses
import Mathlib.Data.List.GetD
import Mathlib.Data.Nat.Digits.Lemmas

/-!
# Single accesses and block accesses

A single access is one turn of the block access on all of its bytes. Where it ends on its page
that is the whole block access; where it goes on, the two agree exactly if the second page lies
behind the first in host memory and is no more or less cached.
-/
namespace EmuThreeDS

open Layout GuestMemory PageTables

variable {pluginFb : Nat} {r : Rasterizer} {t : PageTable} {m : GuestMemory} {loc : HostLoc}
  {vaddr size : Nat}

variable {region : Nat × Nat × Nat} {m' : GuestMemory} {lost : Nat → Prop}

theorem mem_checkedRegions : region ∈ checkedRegions pluginFb ↔
      region = (linearHeapVaddr, linearHeapVaddrEnd, fcramPaddr) ∨
      region = (newLinearHeapVaddr, newLinearHeapVaddrEnd, fcramPaddr) ∨
      region = (vramVaddr, vramVaddrEnd, vramPaddr) ∨
      pluginFb ≠ 0 ∧ region = (plugin3gxFbVaddr, plugin3gxFbVaddrEnd, pluginFb) := by
  unfold checkedRegions
  split_ifs with loaded <;> simp [loaded]

theorem region_aligned (member : region ∈ checkedRegions pluginFb) :
    region.1 % pageSize = 0 ∧ region.2.1 % pageSize = 0 := by
  rcases mem_checkedRegions.mp member with rfl | rfl | rfl | ⟨-, rfl⟩
  · exact ⟨by decide, by decide⟩
  · exact ⟨by decide, by decide⟩
  · exact ⟨by decide, by decide⟩
  · dsimp only
    exact ⟨by decide, by decide⟩

theorem regions_apart {other : Nat × Nat × Nat} {j : Nat}
    (member : region ∈ checkedRegions pluginFb) (member' : other ∈ checkedRegions pluginFb)
    (inside : region.1 ≤ vaddr ∧ vaddr < region.2.1)
    (inside' : other.1 ≤ vaddr + j ∧ vaddr + j < other.2.1) (near : j ≤ 2 * pageSize) :
    other = region := by
  simp only [pageSize] at near
  rcases mem_checkedRegions.mp member with rfl | rfl | rfl | ⟨-, rfl⟩ <;>
  rcases mem_checkedRegions.mp member' with rfl | rfl | rfl | ⟨-, rfl⟩ <;>
  simp only [linearHeapVaddr, linearHeapVaddrEnd, newLinearHeapVaddr, newLinearHeapVaddrEnd,
    vramVaddr, vramVaddrEnd, plugin3gxFbVaddr, plugin3gxFbVaddrEnd] at inside inside' ⊢ <;> omega

theorem plugin_offset {x fb : Nat} (word : fb < 0x100000000) (small : x < plugin3gxFbSize)
    (valid : sub32 (add32 x fb) fcramPaddr ≤ fcramSize) :
    fcramPaddr + sub32 (add32 x fb) fcramPaddr = fb + x ∧ fb ≠ 0 := by
  unfold sub32 add32 fcramPaddr fcramSize at *
  unfold plugin3gxFbSize at small
  omega

theorem pointer_region (word : pluginFb < 0x100000000)
    (pointer : getPointerForRasterizerCache pluginFb vaddr = .ok loc) :
    ∃ region ∈ checkedRegions pluginFb, (region.1 ≤ vaddr ∧ vaddr < region.2.1) ∧
      ∀ j, vaddr + j < region.2.1 →
        paddrOf (loc.plus j) = some (region.2.2 + (vaddr + j - region.1)) := by
  have other : vram ≠ fcram := by decide
  unfold getPointerForRasterizerCache at pointer
  split_ifs at pointer with linear new atVram plugin
  · cases pointer
    refine ⟨_, mem_checkedRegions.mpr (.inl rfl), linear, ?_⟩
    intro j _
    simp only [paddrOf, HostLoc.plus, if_true]
    rw [Option.some.injEq]
    omega
  · cases pointer
    refine ⟨_, mem_checkedRegions.mpr (.inr (.inl rfl)), new, ?_⟩
    intro j _
    simp only [paddrOf, HostLoc.plus, if_true]
    rw [Option.some.injEq]
    omega
  · cases pointer
    refine ⟨_, mem_checkedRegions.mpr (.inr (.inr (.inl rfl))), atVram, ?_⟩
    intro j below
    have fits : vramVaddr + vramSize = vramVaddrEnd := rfl
    dsimp only at below
    simp only [paddrOf, HostLoc.plus, if_neg other, true_and]
    rw [if_pos (by omega)]
    rw [Option.some.injEq]
    omega
  · obtain ⟨_, valid, pointer⟩ := bind_eq_ok.mp pointer
    cases pointer
    have whole : plugin3gxFbVaddr + plugin3gxFbSize = plugin3gxFbVaddrEnd := rfl
    obtain ⟨same, loaded⟩ := plugin_offset word (by omega) (assert_eq_ok.mp valid)
    refine ⟨_, mem_checkedRegions.mpr (.inr (.inr (.inr ⟨loaded, rfl⟩))), plugin, ?_⟩
    intro j _
    simp only [paddrOf, HostLoc.plus, if_true]
    rw [Option.some.injEq]
    omega

/-- A virtual range asks the rasterizer for the bytes from `loc` on, and for no others. -/
def Covers (pluginFb vaddr size : Nat) (loc : HostLoc) : Prop :=
  (∀ j < size, ∃ p, paddrOf (loc.plus j) = some p ∧ Reached pluginFb vaddr size p) ∧
    ∀ p, Reached pluginFb vaddr size p → ∃ j < size, paddrOf (loc.plus j) = some p

def Asked (pluginFb vaddr : Nat) : Prop :=
  ∃ region ∈ checkedRegions pluginFb, region.1 ≤ vaddr ∧ vaddr < region.2.1

theorem covers_of_pointer (word : pluginFb < 0x100000000)
    (pointer : getPointerForRasterizerCache pluginFb vaddr = .ok loc) (near : size ≤ 2 * pageSize)
    (asked : ∀ j < size, Asked pluginFb (vaddr + j)) : Covers pluginFb vaddr size loc := by
  obtain ⟨region, member, inside, places⟩ := pointer_region word pointer
  have same : ∀ other ∈ checkedRegions pluginFb, ∀ j < size,
      other.1 ≤ vaddr + j ∧ vaddr + j < other.2.1 → other = region := by
    intro other member' j below inside'
    exact regions_apart member member' inside inside' (by omega)
  constructor
  · intro j below
    obtain ⟨other, member', inside'⟩ := asked j below
    obtain rfl := same other member' j below inside'
    exact ⟨_, places j inside'.2, other, member', vaddr + j, inside'.1, inside'.2, by omega,
      by omega, rfl⟩
  · rintro p ⟨other, member', v, low, high, start, below, rfl⟩
    have at_v : vaddr + (v - vaddr) = v := by omega
    obtain rfl := same other member' (v - vaddr) (by omega) (by omega)
    refine ⟨v - vaddr, by omega, ?_⟩
    rw [places (v - vaddr) (by omega), at_v]

theorem asked_page {other : Nat} (asked : Asked pluginFb vaddr)
    (page : other / pageSize = vaddr / pageSize) : Asked pluginFb other := by
  obtain ⟨region, member, low, high⟩ := asked
  obtain ⟨start, stop⟩ := region_aligned member
  simp only [pageSize] at start stop page
  exact ⟨region, member, by omega, by omega⟩

section

variable {seen seen' : HostLoc → UInt8} {data more : List UInt8} {x : HostLoc}

def loadSeen (seen : HostLoc → UInt8) (loc : HostLoc) (size : Nat) : List UInt8 :=
  (List.range size).map fun j => seen (loc.plus j)

def overwrite (seen : HostLoc → UInt8) (loc : HostLoc) (data : List UInt8) : HostLoc → UInt8 :=
  fun other =>
    if other.1 = loc.1 ∧ loc.2 ≤ other.2 then data.getD (other.2 - loc.2) (seen other)
    else seen other

@[simp] theorem length_loadSeen : (loadSeen seen loc size).length = size := by
  simp [loadSeen]

theorem loadSeen_append (seen : HostLoc → UInt8) (loc : HostLoc) (first second : Nat) :
    loadSeen seen loc (first + second) =
      loadSeen seen loc first ++ loadSeen seen (loc.plus first) second := by
  unfold loadSeen
  rw [List.range_add, List.map_append, List.map_map]
  congr 1
  apply List.map_congr_left
  intro j _
  rw [Function.comp_apply, HostLoc.plus_plus]

theorem loadSeen_congr (same : ∀ j < size, seen (loc.plus j) = seen' (loc.plus j)) :
    loadSeen seen loc size = loadSeen seen' loc size := by
  apply List.map_congr_left
  intro j inside
  exact same j (List.mem_range.mp inside)

theorem overwrite_at {j : Nat} (below : j < data.length) :
    overwrite seen loc data (loc.plus j) = data[j] := by
  have inside : (loc.plus j).1 = loc.1 ∧ loc.2 ≤ (loc.plus j).2 := ⟨rfl, Nat.le_add_right _ _⟩
  have place : (loc.plus j).2 - loc.2 = j := Nat.add_sub_cancel_left _ _
  rw [overwrite, if_pos inside, place, List.getD_eq_getElem _ _ below]

theorem overwrite_off (off : ∀ j < data.length, x ≠ loc.plus j) :
    overwrite seen loc data x = seen x := by
  unfold overwrite
  split_ifs with inside
  · have past : data.length ≤ x.2 - loc.2 := by
      by_contra below
      apply off (x.2 - loc.2) (by omega)
      exact Prod.ext inside.1 (by simp only [HostLoc.plus]; omega)
    exact List.getD_eq_default _ _ past
  · rfl

theorem overwrite_congr (same : ∀ x, (∀ j < data.length, x ≠ loc.plus j) → seen x = seen' x) :
    overwrite seen loc data = overwrite seen' loc data := by
  funext x
  by_cases off : ∀ j < data.length, x ≠ loc.plus j
  · rw [overwrite_off off, overwrite_off off, same x off]
  · push Not at off
    obtain ⟨j, below, rfl⟩ := off
    rw [overwrite_at below, overwrite_at below]

theorem overwrite_append : overwrite seen loc (data ++ more) =
      overwrite (overwrite seen loc data) (loc.plus data.length) more := by
  funext x
  by_cases first : ∃ j < data.length, x = loc.plus j
  · obtain ⟨j, below, rfl⟩ := first
    have off : ∀ i < more.length, loc.plus j ≠ (loc.plus data.length).plus i := by
      intro i _ same
      rw [HostLoc.plus_plus] at same
      have := HostLoc.plus_inj same
      omega
    have longer : j < (data ++ more).length := by
      rw [List.length_append]
      omega
    rw [overwrite_off off, overwrite_at below, overwrite_at longer, List.getElem_append_left below]
  · push Not at first
    by_cases second : ∃ i < more.length, x = (loc.plus data.length).plus i
    · obtain ⟨i, below, rfl⟩ := second
      have longer : data.length + i < (data ++ more).length := by
        rw [List.length_append]
        omega
      rw [overwrite_at below, HostLoc.plus_plus, overwrite_at longer]
      simp
    · push Not at second
      have off : ∀ j < (data ++ more).length, x ≠ loc.plus j := by
        intro j below
        rw [List.length_append] at below
        by_cases low : j < data.length
        · exact first j low
        · have far := second (j - data.length) (by omega)
          rw [HostLoc.plus_plus] at far
          have place : data.length + (j - data.length) = j := by omega
          rwa [place] at far
      rw [overwrite_off off, overwrite_off second, overwrite_off first]

end

def Free (m : GuestMemory) (loc : HostLoc) (size : Nat) : Prop :=
  ∀ j < size, ∀ p, paddrOf (loc.plus j) = some p → m.held p = none

section

variable {data : List UInt8}

theorem load_free (free : Free m loc size) : m.load loc size = loadSeen m.visible loc size :=
  loadSeen_congr fun j below => (visible_free (free j below)).symm

theorem Free.cleared {gone : Nat → Prop} (free : Free m loc size)
    (h : Cleared lost gone m m') : Free m' loc size :=
  fun j below p at_j => h.shrunk p (free j below p at_j)

theorem Covers.free (covers : Covers pluginFb vaddr size loc)
    (h : Cleared lost (Reached pluginFb vaddr size) m m') : Free m' loc size := by
  intro j below p at_j
  obtain ⟨q, at_q, reached⟩ := covers.1 j below
  obtain rfl := Option.some.inj (at_q.symm.trans at_j)
  exact h.gone q reached

theorem visible_same (h : Cleared (fun _ => False) gone m m') : m'.visible = m.visible :=
  funext fun x => h.seen x fun _ _ no => no

theorem load_cached (covers : Covers pluginFb vaddr size loc) :
    (rasterizerFlushVirtualRegion (flushRegion r) pluginFb m vaddr size).load loc size =
      loadSeen m.visible loc size := by
  have flushed := flushVirtual_cleared r pluginFb m vaddr size
  rw [load_free (covers.free flushed), visible_same flushed]

theorem store_free (free : Free m loc data.length) :
    (m.store loc data).visible = overwrite m.visible loc data := by
  funext x
  by_cases off : ∀ j < data.length, x ≠ loc.plus j
  · rw [overwrite_off off]
    have bytes : (m.store loc data).bytes x = m.bytes x := overwrite_off off
    unfold visible
    rw [bytes]
    rfl
  · push Not at off
    obtain ⟨j, below, rfl⟩ := off
    have shown : (m.store loc data).visible (loc.plus j) = (m.store loc data).bytes (loc.plus j) :=
      visible_free fun p at_j => free j below p at_j
    rw [shown, overwrite_at below]
    exact overwrite_at below

theorem store_cached (covers : Covers pluginFb vaddr data.length loc) :
    ((rasterizerFlushVirtualRegion (invalidateRegion r) pluginFb m vaddr data.length).store loc
      data).visible = overwrite m.visible loc data := by
  have dropped := invalidateVirtual_cleared r pluginFb m vaddr data.length
  rw [store_free (covers.free dropped)]
  apply overwrite_congr
  intro x off
  apply dropped.seen
  intro p at_x reached
  obtain ⟨j, below, at_j⟩ := covers.2 p reached
  exact off j below (paddrOf_inj at_x at_j)

theorem store_append (more : List UInt8) :
    m.store loc (data ++ more) = (m.store loc data).store (loc.plus data.length) more := by
  apply GuestMemory.ext
  · exact overwrite_append
  · rfl

end

def PageTable.WellTyped (t : PageTable) : Prop :=
  ∀ page, (t.pointers page).isSome ↔ t.attributes page = .memory

inductive Backing where
  | nothing
  | plain (loc : HostLoc)
  | cached (loc : HostLoc)
  deriving DecidableEq

def backing (pluginFb : Nat) (t : PageTable) (vaddr : Nat) : Exec Backing :=
  match t.attributes (vaddr / pageSize) with
  | .unmapped => .ok .nothing
  | .memory =>
    match t.pointers (vaddr / pageSize) with
    | some pointer => .ok (.plain (pointer.plus (vaddr % pageSize)))
    | none => .error .undefinedBehaviour
  | .rasterizerCachedMemory => .cached <$> getPointerForRasterizerCache pluginFb vaddr

def readBacked (pluginFb : Nat) (r : Rasterizer) (m : GuestMemory) (vaddr size : Nat) :
    Backing → List UInt8 × GuestMemory
  | .nothing => (List.replicate size 0, m)
  | .plain loc => (m.load loc size, m)
  | .cached loc =>
    let m := rasterizerFlushVirtualRegion (flushRegion r) pluginFb m vaddr size
    (m.load loc size, m)

def writeBacked (pluginFb : Nat) (r : Rasterizer) (m : GuestMemory) (vaddr : Nat)
    (data : List UInt8) : Backing → GuestMemory
  | .nothing => m
  | .plain loc => m.store loc data
  | .cached loc =>
    (rasterizerFlushVirtualRegion (invalidateRegion r) pluginFb m vaddr data.length).store loc data

section

variable (pluginFb : Nat) (r : Rasterizer) (t : PageTable) (m : GuestMemory)

theorem readPiece_eq (vaddr size : Nat) : readPiece pluginFb r t m vaddr size =
      readBacked pluginFb r m vaddr size <$> backing pluginFb t vaddr := by
  unfold readPiece backing
  cases t.attributes (vaddr / pageSize) with
  | unmapped => rfl
  | memory => cases t.pointers (vaddr / pageSize) <;> rfl
  | rasterizerCachedMemory => cases getPointerForRasterizerCache pluginFb vaddr <;> rfl

theorem writePiece_eq (vaddr : Nat) (data : List UInt8) : writePiece pluginFb r t m vaddr data =
      writeBacked pluginFb r m vaddr data <$> backing pluginFb t vaddr := by
  unfold writePiece backing
  cases t.attributes (vaddr / pageSize) with
  | unmapped => rfl
  | memory => cases t.pointers (vaddr / pageSize) <;> rfl
  | rasterizerCachedMemory => cases getPointerForRasterizerCache pluginFb vaddr <;> rfl

end

theorem leValue_inj {x y : List UInt8} (length : x.length = y.length)
    (same : leValue x = leValue y) : x = y := by
  have small : ∀ z : List UInt8, ∀ digit ∈ z.map (·.toNat), digit < 256 := by
    intro z digit member
    obtain ⟨byte, _, rfl⟩ := List.mem_map.mp member
    exact byte.toNat_lt
  have digits := Nat.ofDigits_inj_of_len_eq (by decide) (by simpa using length) (small x)
    (small y) same
  exact List.map_injective_iff.mpr (fun _ _ => UInt8.toNat_inj.mp) digits

theorem read_eq (typed : t.WellTyped) : read pluginFb r t m vaddr size =
    (fun answer => (leValue answer.1, answer.2)) <$> readPiece pluginFb r t m vaddr size := by
  have at_page := typed (vaddr / pageSize)
  unfold read readPiece
  cases pointer : t.pointers (vaddr / pageSize) with
  | some loc =>
    rw [pointer] at at_page
    rw [at_page.mp rfl]
    rfl
  | none =>
    rw [pointer] at at_page
    cases type : t.attributes (vaddr / pageSize) with
    | unmapped => exact congrArg (fun value => Except.ok (value, m)) (leValue_zeros size).symm
    | memory => exact absurd (at_page.mpr type) nofun
    | rasterizerCachedMemory => cases getPointerForRasterizerCache pluginFb vaddr <;> rfl

theorem write_eq (typed : t.WellTyped) {value : Nat} : write pluginFb r t m vaddr size value =
    writePiece pluginFb r t m vaddr (leBytes size value) := by
  have at_page := typed (vaddr / pageSize)
  unfold write writePiece
  rw [length_leBytes]
  cases pointer : t.pointers (vaddr / pageSize) with
  | some loc =>
    rw [pointer] at at_page
    rw [at_page.mp rfl]
  | none =>
    rw [pointer] at at_page
    cases type : t.attributes (vaddr / pageSize) with
    | unmapped | rasterizerCachedMemory => rfl
    | memory => exact absurd (at_page.mpr type) nofun

theorem readBlock_nil : readBlock pluginFb r t m vaddr 0 = .ok ([], m) := by
  rw [readBlock, dif_neg (Nat.lt_irrefl _)]

theorem writeBlock_nil : writeBlock pluginFb r t m vaddr [] = .ok m := by
  rw [writeBlock, dif_neg (by simp)]

theorem readBlock_one (some : 0 < size) (fits : vaddr % pageSize + size ≤ pageSize) :
    readBlock pluginFb r t m vaddr size = readPiece pluginFb r t m vaddr size := by
  have whole : copyAmount vaddr size = size := by
    unfold copyAmount
    omega
  rw [readBlock, dif_pos some, whole, Nat.sub_self]
  cases readPiece pluginFb r t m vaddr size with
  | error e => rfl
  | ok answer =>
    rw [ok_bind]
    dsimp only
    rw [readBlock_nil, ok_bind]
    rw [List.append_nil]
    rfl

theorem writeBlock_one {data : List UInt8} (some : 0 < data.length)
    (fits : vaddr % pageSize + data.length ≤ pageSize) :
    writeBlock pluginFb r t m vaddr data = writePiece pluginFb r t m vaddr data := by
  have whole : copyAmount vaddr data.length = data.length := by
    unfold copyAmount
    omega
  rw [writeBlock, dif_pos some, whole, List.take_length, List.drop_length]
  cases writePiece pluginFb r t m vaddr data with
  | error e => rfl
  | ok answer => rw [ok_bind, writeBlock_nil]

def pageRest (vaddr : Nat) : Nat := pageSize - vaddr % pageSize

def nextPage (vaddr : Nat) : Nat := (vaddr / pageSize + 1) * pageSize

theorem nextPage_eq (vaddr : Nat) : nextPage vaddr = vaddr + pageRest vaddr := by
  unfold nextPage pageRest pageSize
  omega

theorem nextPage_mod (vaddr : Nat) : nextPage vaddr % pageSize = 0 := Nat.mul_mod_left _ _

theorem pageRest_pos (vaddr : Nat) : 0 < pageRest vaddr := by
  unfold pageRest pageSize
  omega

theorem readBlock_two (goesOn : pageRest vaddr < size) (ends : size ≤ pageSize) :
    readBlock pluginFb r t m vaddr size = (do
      let first ← readPiece pluginFb r t m vaddr (pageRest vaddr)
      let second ← readPiece pluginFb r t first.2 (nextPage vaddr) (size - pageRest vaddr)
      return (first.1 ++ second.1, second.2)) := by
  have part : copyAmount vaddr size = pageRest vaddr := by
    unfold copyAmount
    unfold pageRest at goesOn ⊢
    omega
  rw [readBlock, dif_pos (by omega), part]
  cases readPiece pluginFb r t m vaddr (pageRest vaddr) with
  | error e => rfl
  | ok answer =>
    rw [ok_bind, ok_bind]
    dsimp only
    have again : readBlock pluginFb r t answer.2 ((vaddr / pageSize + 1) * pageSize)
        (size - pageRest vaddr) = readPiece pluginFb r t answer.2 (nextPage vaddr)
          (size - pageRest vaddr) := by
      refine readBlock_one (by omega) ?_
      have start := nextPage_mod vaddr
      unfold nextPage at start
      omega
    rw [again]

theorem writeBlock_two {data : List UInt8} (goesOn : pageRest vaddr < data.length)
    (ends : data.length ≤ pageSize) :
    writeBlock pluginFb r t m vaddr data = (do
      let m ← writePiece pluginFb r t m vaddr (data.take (pageRest vaddr))
      writePiece pluginFb r t m (nextPage vaddr) (data.drop (pageRest vaddr))) := by
  have part : copyAmount vaddr data.length = pageRest vaddr := by
    unfold copyAmount
    unfold pageRest at goesOn ⊢
    omega
  rw [writeBlock, dif_pos (by omega), part]
  cases writePiece pluginFb r t m vaddr (data.take (pageRest vaddr)) with
  | error e => rfl
  | ok after =>
    refine writeBlock_one ?_ ?_
    · rw [List.length_drop]
      omega
    · have start := nextPage_mod vaddr
      unfold nextPage at start
      rw [List.length_drop]
      omega

end EmuThreeDS
