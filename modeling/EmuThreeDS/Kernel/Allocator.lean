import EmuThreeDS.Kernel.Region
import EmuThreeDS.Lib.BytePool
import EmuThreeDS.Lib.Runs

/-!
# The region allocator as a pool of bytes

What `MemoryRegionInfo` is for: the bytes of a region are free or handed out, and a call
hands out the highest free bytes, a given run, or the lowest or highest run that fits.
-/
namespace EmuThreeDS
open Intervals

namespace MemoryRegionInfo

inductive Reply where
  | blocks (result : IntervalSet)
  | done (success : Bool)
  | offset (found : Option Nat)
  | freed

/-- An empty set, `false` or no offset. -/
def Reply.Failed : Reply → Prop
  | .blocks result => result.blocks = []
  | .done success => success = false
  | .offset found => found = none
  | .freed => False

def Op.answer (region : MemoryRegionInfo) : Op → Exec (Reply × MemoryRegionInfo)
  | .heapAllocate size => do
      let (result, region) ← region.heapAllocate size
      return (.blocks result, region)
  | .linearAllocateAt offset size => do
      let (success, region) ← region.linearAllocateAt offset size
      return (.done success, region)
  | .linearAllocate size => do
      let (found, region) ← region.linearAllocate size
      return (.offset found, region)
  | .rLinearAllocate size => do
      let (found, region) ← region.rLinearAllocate size
      return (.offset found, region)
  | .free offset size => do
      let region ← region.free offset size
      return (.freed, region)

def Op.bytes : Op → Reply → Finset Nat
  | .heapAllocate _, .blocks result => result.toFinset
  | .linearAllocateAt offset size, .done true => Finset.Ico offset (offset + size)
  | .linearAllocate size, .offset (some found) => Finset.Ico found (found + size)
  | .rLinearAllocate size, .offset (some found) => Finset.Ico found (found + size)
  | _, _ => ∅

def Op.returned : Op → Finset Nat
  | .free offset size => Finset.Ico offset (offset + size)
  | _ => ∅

def Op.track (taken : Finset Nat) (op : Op) (reply : Reply) : Finset Nat :=
  (taken ∪ op.bytes reply) \ op.returned

/-- Sizes are not zero, ranges do not wrap, and only bytes handed out are given back. -/
def Op.Legal (taken : Finset Nat) : Op → Prop
  | .heapAllocate size | .linearAllocate size | .rLinearAllocate size => 0 < size
  | .linearAllocateAt offset size => 0 < size ∧ offset + size < 0x100000000
  | .free offset size =>
    0 < size ∧ offset + size < 0x100000000 ∧ Finset.Ico offset (offset + size) ⊆ taken

/-- What the reply of a call says about the free bytes. -/
def Op.Means (free : Finset Nat) : Op → Reply → Prop
  | .heapAllocate size, .blocks result =>
    size ≤ free.card ∧ Pool.Highest free size result.toFinset ∨
      free.card < size ∧ result.blocks = []
  | .linearAllocateAt offset size, .done success => success = true ↔ Pool.Fits free size offset
  | .linearAllocate size, .offset found =>
    match found with
    | some start => Pool.LowestFit free size start
    | none => ∀ start, ¬ Pool.Fits free size start
  | .rLinearAllocate size, .offset found =>
    match found with
    | some start => Pool.HighestFit free size start
    | none => ∀ start, ¬ Pool.Fits free size start
  | .free _ _, .freed => True
  | _, _ => False

/-- The region `[base, base + size)` with the bytes of `taken` handed out. -/
structure Accounts (base size : Nat) (region : MemoryRegionInfo) (taken : Finset Nat) : Prop where
  base_eq : region.base = base
  size_eq : region.size = size
  unlocked : region.isLocked = false
  within : taken ⊆ Finset.Ico base (base + size)
  free : region.freeBlocks.toFinset = Finset.Ico base (base + size) \ taken
  used : region.used = taken.card

variable {base size offset n : Nat} {region region' : MemoryRegionInfo} {taken : Finset Nat}

theorem Accounts.card (h : Accounts base size region taken) :
    region.used + total region.freeBlocks.blocks = size := by
  rw [← IntervalSet.card_toFinset, h.free, h.used, Finset.card_sdiff_of_subset h.within, Nat.card_Ico]
  have := Finset.card_le_card h.within
  rw [Nat.card_Ico] at this
  omega

theorem Accounts.hand (h : Accounts base size region taken) (fits : size < 0x100000000)
    (region' : MemoryRegionInfo) {bytes : Finset Nat} (wereFree : bytes ⊆ region.freeBlocks.toFinset)
    (moved : Moved region region')
    (left : region'.freeBlocks.toFinset = region.freeBlocks.toFinset \ bytes)
    (count : region'.used = add32 region.used bytes.card) :
    Accounts base size region' (taken ∪ bytes) ∧ Disjoint bytes taken := by
  have apart : Disjoint bytes taken := by
    apply Finset.disjoint_left.mpr
    intro a here there
    have free := wereFree here
    rw [h.free, Finset.mem_sdiff] at free
    exact free.2 there
  have total := h.card
  have fewer := Finset.card_le_card wereFree
  rw [IntervalSet.card_toFinset] at fewer
  refine ⟨⟨moved.base.trans h.base_eq, moved.size.trans h.size_eq,
    moved.unlocked.trans h.unlocked, ?_, ?_, ?_⟩, apart⟩
  · apply Finset.union_subset h.within
    rw [h.free] at wereFree
    exact wereFree.trans Finset.sdiff_subset
  · rw [left, h.free, sdiff_sdiff_left]
    rfl
  · rw [count, add32_eq (by omega), h.used, Finset.union_comm, Finset.card_union_of_disjoint apart,
      Nat.add_comm]

theorem gather_above (rest : Nat) {bs : List Block} (acc : IntervalSet)
    (falling : bs.Pairwise fun b c => c.upper < b.lower) (nonempty : ∀ b ∈ bs, b.lower < b.upper)
    (above : ∀ a ∈ acc, ∀ b ∈ bs, b.upper ≤ a) {x y : Nat} (hx : x ∈ (gather rest bs acc).1)
    (hy : y ∈ acc ∨ ∃ b ∈ bs, b.Has y) (left : y ∉ (gather rest bs acc).1) : y < x := by
  induction bs generalizing rest acc with
  | nil =>
    rcases hy with hy | ⟨b, hb, _⟩
    · exact absurd hy left
    · cases hb
  | cons b more ih =>
    obtain ⟨first, later⟩ := List.pairwise_cons.mp falling
    have pos := nonempty b List.mem_cons_self
    unfold gather at hx left
    split_ifs at hx left with enough
    · have enough : rest ≤ b.upper - b.lower := enough
      rw [IntervalSet.mem_add, not_or] at left
      have low : b.upper - rest ≤ x := by
        rcases IntervalSet.mem_add.mp hx with has | old
        · exact has.1
        · have := above x old b List.mem_cons_self
          omega
      rcases hy with hy | ⟨c, hc, has⟩
      · exact absurd hy left.2
      rcases List.mem_cons.mp hc with rfl | hc
      · have out := left.1
        simp only [Block.Has] at out has
        omega
      · have := first c hc
        have := has.2
        omega
    · apply ih (rest - b.length) (acc.add b) later
        (fun c hc => nonempty c (List.mem_cons_of_mem b hc)) ?_ hx ?_ left
      · intro a ha c hc
        rcases IntervalSet.mem_add.mp ha with has | old
        · have := first c hc
          have := has.1
          omega
        · exact above a old c (List.mem_cons_of_mem b hc)
      · rcases hy with hy | ⟨c, hc, has⟩
        · exact Or.inl (IntervalSet.mem_add.mpr (Or.inr hy))
        rcases List.mem_cons.mp hc with rfl | hc
        · exact Or.inl (IntervalSet.mem_add.mpr (Or.inl has))
        · exact Or.inr ⟨c, hc, has⟩

theorem gather_short (rest : Nat) {bs : List Block} (acc : IntervalSet)
    (short : (gather rest bs acc).2 ≠ 0) : total bs < rest := by
  induction bs generalizing rest acc with
  | nil =>
    exact Nat.pos_of_ne_zero short
  | cons b more ih =>
    unfold gather at short
    split_ifs at short with enough
    · exact absurd rfl short
    · have less := ih (rest - b.length) (acc.add b) short
      have sum : total (b :: more) = b.length + total more := rfl
      omega

theorem highest_pool (region : MemoryRegionInfo) (n : Nat)
    (enough : (gather n region.freeBlocks.blocks.reverse .empty).2 = 0) :
    Pool.Highest region.freeBlocks.toFinset n (region.highest n).toFinset := by
  obtain ⟨inside, sum⟩ := highest_spec region n
  refine ⟨?_, ?_, ?_⟩
  · intro a ha
    exact IntervalSet.mem_toFinset.mpr (inside a (IntervalSet.mem_toFinset.mp ha))
  · rw [IntervalSet.card_toFinset]
    omega
  · intro a ha b hb left
    apply gather_above n .empty (List.pairwise_reverse.mpr region.freeBlocks.apart.pairwise)
      (fun b hb => (region.freeBlocks.apart.bounds (List.mem_reverse.mp hb)).2)
      (fun a ha => absurd ha (IntervalSet.not_mem_empty a)) (IntervalSet.mem_toFinset.mp ha)
    · obtain ⟨c, hc, has⟩ := IntervalSet.mem_toFinset.mp hb
      exact Or.inr ⟨c, List.mem_reverse.mpr hc, has⟩
    · exact fun taken => left (IntervalSet.mem_toFinset.mpr taken)

/-- The call returns what it means for the free bytes, hands out bytes that were not handed
out, and changes nothing if it fails. -/
def Op.Works (base size : Nat) (region : MemoryRegionInfo) (taken : Finset Nat) (op : Op) : Prop :=
  ∃ reply region', op.answer region = .ok (reply, region') ∧
    op.Means region.freeBlocks.toFinset reply ∧ Disjoint (op.bytes reply) taken ∧
    (reply.Failed → region' = region) ∧ Accounts base size region' (op.track taken reply)

theorem track_failed {op : Op} {reply : Reply} (bytes : op.bytes reply = ∅)
    (returned : op.returned = ∅) : op.track taken reply = taken := by
  unfold Op.track
  rw [bytes, returned, Finset.union_empty, Finset.sdiff_empty]

theorem track_handed {op : Op} {reply : Reply} (returned : op.returned = ∅) :
    op.track taken reply = taken ∪ op.bytes reply := by
  unfold Op.track
  rw [returned, Finset.sdiff_empty]

section

variable (h : Accounts base size region taken) (fits : size < 0x100000000)
include h fits

theorem Accounts.heapAllocate (positive : 0 < n) :
    (Op.heapAllocate n).Works base size region taken := by
  unfold Op.Works Op.answer MemoryRegionInfo.heapAllocate
  rw [assert_pos h.unlocked]
  simp only [ok_bind, pure_eq_ok]
  by_cases short : (gather n region.freeBlocks.blocks.reverse .empty).2 ≠ 0
  · rw [if_pos short]
    refine ⟨_, _, rfl, Or.inr ⟨?_, rfl⟩, Finset.disjoint_empty_left _, fun _ => rfl, ?_⟩
    · have less := gather_short n .empty short
      rw [IntervalSet.card_toFinset]
      unfold total at less ⊢
      rwa [List.map_reverse, List.sum_reverse] at less
    · rw [track_failed rfl rfl]
      exact h
  · rw [if_neg short]
    have highest := highest_pool region n (not_not.mp short)
    have enough := Finset.card_le_card highest.subset
    rw [highest.card] at enough
    have left : (region.freeBlocks.removeAll (region.highest n).blocks).toFinset =
        region.freeBlocks.toFinset \ (region.highest n).toFinset := by
      ext a
      rw [IntervalSet.mem_toFinset, IntervalSet.mem_removeAll, Finset.mem_sdiff,
        IntervalSet.mem_toFinset, IntervalSet.mem_toFinset]
      refine and_congr_right fun _ => ?_
      rw [IntervalSet.mem_iff]
      simp only [not_exists, not_and]
    obtain ⟨accounts, apart⟩ := h.hand fits { region with
      freeBlocks := region.freeBlocks.removeAll (region.highest n).blocks
      used := add32 region.used n } highest.subset ⟨rfl, rfl, rfl⟩ left (by rw [highest.card])
    refine ⟨_, _, rfl, Or.inl ⟨enough, highest⟩, apart, ?_, ?_⟩
    · intro failed
      have none : (region.highest n).toFinset = ∅ := by
        unfold IntervalSet.toFinset
        rw [show (region.highest n).blocks = [] from failed]
        rfl
      have count := highest.card
      rw [none, Finset.card_empty] at count
      omega
    · rw [track_handed rfl]
      exact accounts

theorem Accounts.handRun {start : Nat} (free : Pool.Fits region.freeBlocks.toFinset n start) :
    Accounts base size { region with
      freeBlocks := region.freeBlocks.remove ⟨start, start + n⟩
      used := add32 region.used n } (taken ∪ Finset.Ico start (start + n)) ∧
    Disjoint (Finset.Ico start (start + n)) taken := by
  apply h.hand fits _ free
  · exact ⟨rfl, rfl, rfl⟩
  · ext a
    rw [IntervalSet.mem_toFinset, IntervalSet.mem_remove, Finset.mem_sdiff,
      IntervalSet.mem_toFinset, Finset.mem_Ico]
    rfl
  · rw [Nat.card_Ico, Nat.add_sub_cancel_left]

theorem Accounts.linearAllocateAt (positive : 0 < n) (small : offset + n < 0x100000000) :
    (Op.linearAllocateAt offset n).Works base size region taken := by
  unfold Op.Works Op.answer MemoryRegionInfo.linearAllocateAt
  rw [assert_pos h.unlocked]
  simp only [ok_bind, pure_eq_ok, add32_eq small]
  have meaning := IntervalSet.contains_iff (s := region.freeBlocks) (a := offset) positive
  cases free : region.freeBlocks.contains ⟨offset, offset + n⟩ with
  | false =>
    refine ⟨_, _, rfl, ?_, Finset.disjoint_empty_left _, fun _ => rfl, ?_⟩
    · rwa [free] at meaning
    · rw [track_failed rfl rfl]
      exact h
  | true =>
    obtain ⟨accounts, apart⟩ := h.handRun fits (meaning.mp free)
    refine ⟨_, _, rfl, ?_, apart, nofun, ?_⟩
    · rwa [free] at meaning
    · rw [track_handed rfl]
      exact accounts

end

theorem linearAllocate_run {start : Nat}
    (run : region.linearAllocate n = .ok (some start, region')) :
    (∃ b ∈ region.freeBlocks.blocks, b.lower = start ∧ start + n ≤ b.upper) ∧
      region' = { region with
        freeBlocks := region.freeBlocks.remove ⟨start, start + n⟩
        used := add32 region.used n } := by
  obtain ⟨_, _, run⟩ := bind_eq_ok.mp run
  split at run
  · cases run
  · next b found =>
      cases run
      have hb := List.mem_of_find?_eq_some found
      have long := List.find?_some found
      have pos := (region.freeBlocks.apart.bounds hb).2
      simp only [Block.length, ge_iff_le, decide_eq_true_eq] at long
      exact ⟨⟨b, hb, rfl, by omega⟩, rfl⟩

theorem first_of_find {blocks : List Block} {r : Block → Block → Prop} {b c : Block}
    (found : (blocks.find? fun interval => interval.length ≥ n) = some b)
    (ordered : blocks.Pairwise r) (hc : c ∈ blocks) (long : n ≤ c.upper - c.lower) :
    c = b ∨ r b c := by
  obtain ⟨-, before, after, rfl, earlier⟩ := List.find?_eq_some_iff_append.mp found
  rcases List.mem_append.mp hc with early | late
  · simpa [Block.length, Nat.not_le_of_lt, long] using earlier c early
  · rcases List.mem_cons.mp late with rfl | late
    · exact .inl rfl
    · exact .inr ((List.pairwise_cons.mp (List.pairwise_append.mp ordered).2.1).1 c late)

section

variable (h : Accounts base size region taken) (fits : size < 0x100000000)
include h fits

theorem Accounts.linearAllocate (positive : 0 < n) :
    (Op.linearAllocate n).Works base size region taken := by
  unfold Op.Works Op.answer MemoryRegionInfo.linearAllocate
  rw [assert_pos h.unlocked]
  simp only [ok_bind, pure_eq_ok]
  cases found : region.freeBlocks.blocks.find? fun interval => interval.length ≥ n with
  | none =>
    refine ⟨_, _, rfl, ?_, Finset.disjoint_empty_left _, fun _ => rfl, ?_⟩
    · intro start free
      obtain ⟨b, hb, low, high⟩ := (IntervalSet.fits_iff positive).mp free
      have small := List.find?_eq_none.mp found b hb
      simp only [Block.length, ge_iff_le, decide_eq_true_eq] at small
      omega
    · rw [track_failed rfl rfl]
      exact h
  | some b =>
    have hb : b ∈ region.freeBlocks.blocks := List.mem_of_find?_eq_some found
    have long := List.find?_some found
    simp only [Block.length, ge_iff_le, decide_eq_true_eq] at long
    have free : Pool.Fits region.freeBlocks.toFinset n b.lower :=
      (IntervalSet.fits_iff positive).mpr ⟨b, hb, le_refl _, by omega⟩
    obtain ⟨accounts, apart⟩ := h.handRun fits free
    refine ⟨_, _, rfl, ⟨free, ?_⟩, apart, (by rintro ⟨⟩), ?_⟩
    · intro other fit
      obtain ⟨c, hc, low, high⟩ := (IntervalSet.fits_iff positive).mp fit
      have ordered := region.freeBlocks.apart.pairwise
      rcases first_of_find found ordered hc (by omega) with rfl | behind <;> omega
    · rw [track_handed rfl]
      exact accounts

theorem Accounts.rLinearAllocate (positive : 0 < n) :
    (Op.rLinearAllocate n).Works base size region taken := by
  unfold Op.Works Op.answer MemoryRegionInfo.rLinearAllocate
  rw [assert_pos h.unlocked]
  simp only [ok_bind, pure_eq_ok]
  cases found : region.freeBlocks.blocks.reverse.find? fun interval => interval.length ≥ n with
  | none =>
    refine ⟨_, _, rfl, ?_, Finset.disjoint_empty_left _, fun _ => rfl, ?_⟩
    · intro start free
      obtain ⟨b, hb, low, high⟩ := (IntervalSet.fits_iff positive).mp free
      have small := List.find?_eq_none.mp found b (List.mem_reverse.mpr hb)
      simp only [Block.length, ge_iff_le, decide_eq_true_eq] at small
      omega
    · rw [track_failed rfl rfl]
      exact h
  | some b =>
    have hb : b ∈ region.freeBlocks.blocks :=
      List.mem_reverse.mp (List.mem_of_find?_eq_some found)
    have long := List.find?_some found
    simp only [Block.length, ge_iff_le, decide_eq_true_eq] at long
    have top : b.upper - n + n = b.upper := by omega
    have free : Pool.Fits region.freeBlocks.toFinset n (b.upper - n) :=
      (IntervalSet.fits_iff positive).mpr ⟨b, hb, by omega, by omega⟩
    obtain ⟨accounts, apart⟩ := h.handRun fits free
    rw [top] at accounts apart
    refine ⟨_, _, rfl, ⟨free, ?_⟩, ?_, (by rintro ⟨⟩), ?_⟩
    · intro other fit
      obtain ⟨c, hc, low, high⟩ := (IntervalSet.fits_iff positive).mp fit
      have ordered := List.pairwise_reverse.mpr region.freeBlocks.apart.pairwise
      rw [top]
      rcases first_of_find found ordered (List.mem_reverse.mpr hc) (by omega) with
        rfl | before <;> omega
    · simp only [Op.bytes, top]
      exact apart
    · rw [track_handed rfl]
      simp only [Op.bytes, top]
      exact accounts

theorem Accounts.giveBack (small : offset + n < 0x100000000)
    (owned : Finset.Ico offset (offset + n) ⊆ taken) :
    (Op.free offset n).Works base size region taken := by
  have notFree : ∀ a, offset ≤ a → a < offset + n → a ∉ region.freeBlocks := by
    intro a low high free
    have mem := IntervalSet.mem_toFinset.mpr free
    rw [h.free, Finset.mem_sdiff] at mem
    exact mem.2 (owned (Finset.mem_Ico.mpr ⟨low, high⟩))
  have missed : region.freeBlocks.intersects ⟨offset, offset + n⟩ = false := by
    apply Bool.eq_false_iff.mpr
    intro meets
    obtain ⟨a, has, free⟩ := IntervalSet.intersects_iff.mp meets
    exact notFree a has.1 has.2 free
  have fewer := Finset.card_le_card owned
  have bound := Finset.card_le_card h.within
  rw [Nat.card_Ico] at fewer bound
  unfold Op.Works Op.answer MemoryRegionInfo.free
  simp only [h.unlocked, Bool.false_eq_true, if_false, add32_eq small, missed, assert_pos, ok_bind,
    pure_eq_ok]
  refine ⟨_, _, rfl, trivial, Finset.disjoint_empty_left _, fun none => none.elim, ?_⟩
  unfold Op.track
  rw [show Op.bytes (.free offset n) .freed = ∅ from rfl, Finset.union_empty]
  refine ⟨h.base_eq, h.size_eq, rfl, Finset.sdiff_subset.trans h.within, ?_, ?_⟩
  · ext a
    have free := congrArg (a ∈ ·) h.free
    simp only [IntervalSet.mem_toFinset, Finset.mem_sdiff, eq_iff_iff] at free
    simp only [IntervalSet.mem_toFinset, IntervalSet.mem_add, Finset.mem_sdiff, Op.returned,
      Finset.mem_Ico, Block.Has, free]
    constructor
    · rintro (inside | ⟨inside, out⟩)
      · have mem := owned (Finset.mem_Ico.mpr inside)
        exact ⟨Finset.mem_Ico.mp (h.within mem), fun kept => kept.2 inside⟩
      · exact ⟨inside, fun kept => out kept.1⟩
    · rintro ⟨inside, left⟩
      by_cases given : offset ≤ a ∧ a < offset + n
      · exact Or.inl given
      · exact Or.inr ⟨inside, fun mem => left ⟨mem, given⟩⟩
  · rw [h.used, Op.returned, Finset.card_sdiff_of_subset owned, Nat.card_Ico,
      Nat.add_sub_cancel_left, sub32_eq (by omega) (by omega)]

theorem Accounts.free_ok (small : offset + n < 0x100000000)
    (owned : Finset.Ico offset (offset + n) ⊆ taken) :
    ∃ region', region.free offset n = .ok region' ∧
      Accounts base size region' (taken \ Finset.Ico offset (offset + n)) := by
  obtain ⟨reply, region', run, _, _, _, next⟩ := h.giveBack fits small owned
  obtain ⟨_, run, same⟩ := bind_eq_ok.mp run
  cases same
  rw [Op.track, show Op.bytes (.free offset n) .freed = ∅ from rfl, Finset.union_empty] at next
  exact ⟨region', run, next⟩

theorem Accounts.works (op : Op) (legal : op.Legal taken) : op.Works base size region taken := by
  cases op with
  | heapAllocate n => exact h.heapAllocate fits legal
  | linearAllocateAt offset n => exact h.linearAllocateAt fits legal.1 legal.2
  | linearAllocate n => exact h.linearAllocate fits legal
  | rLinearAllocate n => exact h.rLinearAllocate fits legal
  | free offset n => exact h.giveBack fits legal.2.1 legal.2.2

end

theorem reset_accounts {old : MemoryRegionInfo} (fits : base + size < 0x100000000)
    (run : old.reset base size = .ok region) : Accounts base size region ∅ := by
  obtain ⟨_, unlocked, run⟩ := bind_eq_ok.mp run
  cases run
  refine ⟨rfl, rfl, assert_eq_ok.mp unlocked, Finset.empty_subset _, ?_, rfl⟩
  ext a
  rw [IntervalSet.mem_toFinset, IntervalSet.mem_add, add32_eq fits, Finset.sdiff_empty,
    Finset.mem_Ico]
  exact or_iff_left (IntervalSet.not_mem_empty a)

/-- A region after `Reset(base, size)` and any legal calls, with the bytes handed out by them
and not given back. -/
abbrev Managed (base size : Nat) :=
  Runs.Reachable (fun s : MemoryRegionInfo × Finset Nat =>
      (∃ old : MemoryRegionInfo, old.reset base size = .ok s.1) ∧ s.2 = ∅)
    (fun s op s' => ∃ reply, Op.answer s.1 op = .ok (reply, s'.1) ∧ s'.2 = op.track s.2 reply)
    (fun s op => op.Legal s.2)

theorem Managed.accounts {s : MemoryRegionInfo × Finset Nat} (h : Managed base size s)
    (fits : base + size < 0x100000000) : Accounts base size s.1 s.2 := by
  apply h.invariant
  · rintro s ⟨⟨old, run⟩, none⟩
    rw [none]
    exact reset_accounts fits run
  · rintro s op s' accounts legal ⟨reply, run, track⟩
    obtain ⟨reply', region', run', _, _, _, next⟩ := accounts.works (by omega) op legal
    cases run.symm.trans run'
    rw [track]
    exact next

/-- The region is a correct allocator: its free bytes are the bytes not handed out, the counter
counts the others, and every legal call returns what it means. -/
theorem region_allocates {s : MemoryRegionInfo × Finset Nat} (h : Managed base size s)
    (fits : base + size < 0x100000000) : s.1.used + total s.1.freeBlocks.blocks = size ∧
      (∀ a, a ∈ s.1.freeBlocks ↔ (base ≤ a ∧ a < base + size) ∧ a ∉ s.2) ∧
      ∀ op : Op, op.Legal s.2 → ∃ reply region', op.answer s.1 = .ok (reply, region') ∧
        op.Means s.1.freeBlocks.toFinset reply ∧ Disjoint (op.bytes reply) s.2 ∧
        (reply.Failed → region' = s.1) := by
  have accounts := h.accounts fits
  refine ⟨accounts.card, ?_, ?_⟩
  · intro a
    rw [← IntervalSet.mem_toFinset, accounts.free, Finset.mem_sdiff, Finset.mem_Ico]
  · intro op legal
    obtain ⟨reply, region', run, means, apart, failed, _⟩ :=
      accounts.works (Nat.lt_of_le_of_lt (Nat.le_add_left _ _) fits) op legal
    exact ⟨reply, region', run, means, apart, failed⟩

/-- A region of three bytes from 16 on. -/
theorem region_allocates_reset :
    ∃ reply region', Op.answer
      { base := 16, size := 3, used := 0, freeBlocks := IntervalSet.empty.add ⟨16, 19⟩ }
      (.heapAllocate 2) = .ok (reply, region') ∧
      Op.Means (IntervalSet.empty.add ⟨16, 19⟩).toFinset (.heapAllocate 2) reply := by
  have managed : Managed 16 3
      ({ base := 16, size := 3, used := 0, freeBlocks := IntervalSet.empty.add ⟨16, 19⟩ }, ∅) :=
    .start ⟨⟨{ base := 0, size := 0, used := 0, freeBlocks := .empty }, rfl⟩, rfl⟩
  obtain ⟨_, _, works⟩ := region_allocates managed (by decide)
  obtain ⟨reply, region', run, means, _, _⟩ := works (.heapAllocate 2) (show 0 < 2 by decide)
  exact ⟨reply, region', run, means⟩

end MemoryRegionInfo
end EmuThreeDS
