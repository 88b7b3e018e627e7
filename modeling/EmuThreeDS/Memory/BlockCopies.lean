import EmuThreeDS.Memory.Blocks

/-!
# What block accesses read and write

The bytes of a block one by one: what a block read gives is what is seen at the addresses, and a
block write changes what is seen of the bytes it is given, and nothing else.
-/
namespace EmuThreeDS

open Layout GuestMemory

variable {pluginFb : Nat} {r : Rasterizer} {t : PageTable} {m m' : GuestMemory} {loc : HostLoc}
  {vaddr size k n : Nat} {data : List UInt8}

def hostAt (pluginFb : Nat) (t : PageTable) (vaddr : Nat) : Option HostLoc :=
  match backing pluginFb t vaddr with
  | .ok b => b.target
  | .error _ => none

def seenAt (pluginFb : Nat) (t : PageTable) (m : GuestMemory) (vaddr : Nat) : UInt8 :=
  match hostAt pluginFb t vaddr with
  | some loc => m.visible loc
  | none => 0

/-- The address can be accessed, and of a byte of plain memory the rasterizer holds nothing
newer. -/
def Settled (pluginFb : Nat) (t : PageTable) (m : GuestMemory) (vaddr : Nat) : Prop :=
  ∃ b, backing pluginFb t vaddr = .ok b ∧ ∀ loc, b = .plain loc → Free m loc 1

abbrev Settles (m m' : GuestMemory) : Prop := Cleared (fun _ => False) (fun _ => False) m m'

theorem free_of_ones (free : ∀ j < n, Free m (loc.plus j) 1) : Free m loc n :=
  fun j below => free j below 0 Nat.one_pos

theorem Settled.shrunk (h : Settled pluginFb t m vaddr)
    (shrunk : ∀ p, m.held p = none → m'.held p = none) : Settled pluginFb t m' vaddr := by
  obtain ⟨b, at_vaddr, free⟩ := h
  exact ⟨b, at_vaddr, fun loc plain j below p at_j => shrunk p (free loc plain j below p at_j)⟩

variable {j : Nat} {b : Backing}

theorem page_part (fits : vaddr % pageSize + n ≤ pageSize) (below : j < n) :
    (vaddr + j) / pageSize = vaddr / pageSize ∧ (vaddr + j) % pageSize = vaddr % pageSize + j := by
  unfold pageSize at *
  omega

def Backing.plus : Backing → Nat → Backing
  | .nothing, _ => .nothing
  | .plain loc, j => .plain (loc.plus j)
  | .cached loc, j => .cached (loc.plus j)

theorem backing_plus (word : pluginFb < 0x100000000) {b' : Backing}
    (at_vaddr : backing pluginFb t vaddr = .ok b) (behind : backing pluginFb t (vaddr + j) = .ok b')
    (fits : vaddr % pageSize + n ≤ pageSize) (below : j < n) : b' = b.plus j := by
  obtain ⟨page, offset⟩ := page_part fits below
  unfold backing at at_vaddr behind
  rw [page, offset] at behind
  cases type : t.attributes (vaddr / pageSize) with
  | unmapped =>
    rw [type] at at_vaddr behind
    cases at_vaddr
    cases behind
    rfl
  | memory =>
    rw [type] at at_vaddr behind
    cases pointer : t.pointers (vaddr / pageSize) with
    | none =>
      rw [pointer] at at_vaddr
      cases at_vaddr
    | some pagePointer =>
      rw [pointer] at at_vaddr behind
      cases at_vaddr
      cases behind
      rw [Backing.plus, HostLoc.plus_plus]
  | rasterizerCachedMemory =>
    rw [type] at at_vaddr behind
    obtain ⟨loc, pointer, rfl⟩ := map_eq_ok.mp at_vaddr
    obtain ⟨loc', pointer', rfl⟩ := map_eq_ok.mp behind
    obtain ⟨region, member, inside, places⟩ := pointer_region word pointer
    obtain ⟨other, member', inside', places'⟩ := pointer_region word pointer'
    obtain rfl := regions_apart (j := j) member member' inside inside' (by omega)
    have here := places j inside'.2
    have there := places' 0 inside'.2
    rw [HostLoc.plus_zero] at there
    rw [Backing.plus, paddrOf_inj there here]

theorem hostAt_eq (at_vaddr : backing pluginFb t vaddr = .ok b) :
    hostAt pluginFb t vaddr = b.target := by
  rw [hostAt, at_vaddr]

theorem Backing.target_plus (b : Backing) (j : Nat) :
    (b.plus j).target = b.target.map (·.plus j) := by
  cases b <;> rfl

structure Part (pluginFb : Nat) (t : PageTable) (m : GuestMemory) (vaddr n : Nat) (b : Backing) :
    Prop where
  backs : backing pluginFb t vaddr = .ok b
  host : ∀ j < n, hostAt pluginFb t (vaddr + j) = b.target.map (·.plus j)
  free : ∀ loc, b = .plain loc → Free m loc n
  covers : ∀ loc, b = .cached loc → Covers pluginFb vaddr n loc

theorem part_of_settled (word : pluginFb < 0x100000000) (some : 0 < n)
    (fits : vaddr % pageSize + n ≤ pageSize) (settled : ∀ j < n, Settled pluginFb t m (vaddr + j)) :
    ∃ b, Part pluginFb t m vaddr n b := by
  obtain ⟨b, at_vaddr, -⟩ := settled 0 some
  rw [Nat.add_zero] at at_vaddr
  have behind : ∀ j < n, backing pluginFb t (vaddr + j) = .ok (b.plus j) := by
    intro j below
    obtain ⟨b', at_j, -⟩ := settled j below
    rw [at_j, backing_plus word at_vaddr at_j fits below]
  refine ⟨b, at_vaddr, ?_, ?_, ?_⟩
  · intro j below
    rw [hostAt_eq (behind j below), Backing.target_plus]
  · rintro loc rfl
    apply free_of_ones
    intro j below
    obtain ⟨b', at_j, free⟩ := settled j below
    obtain rfl := Except.ok.inj (at_j.symm.trans (behind j below))
    exact free _ rfl
  · rintro loc rfl
    apply covers_rest word at_vaddr
    unfold pageRest
    omega

theorem Part.seen (part : Part pluginFb t m vaddr n b) (below : j < n) :
    seenAt pluginFb t m (vaddr + j) =
      match b.target with
      | some loc => m.visible (loc.plus j)
      | none => 0 := by
  unfold seenAt
  rw [part.host j below]
  cases b.target <;> rfl

theorem readPiece_seen (word : pluginFb < 0x100000000) (some : 0 < n)
    (fits : vaddr % pageSize + n ≤ pageSize) (settled : ∀ j < n, Settled pluginFb t m (vaddr + j)) :
    ∃ m', readPiece pluginFb r t m vaddr n =
      .ok ((List.range n).map fun j => seenAt pluginFb t m (vaddr + j), m') ∧ Settles m m' := by
  obtain ⟨b, part⟩ := part_of_settled word some fits settled
  rw [readPiece_eq, part.backs]
  have bytes : ∀ seen : Nat → UInt8, (∀ j < n, seenAt pluginFb t m (vaddr + j) = seen j) →
      (List.range n).map (fun j => seenAt pluginFb t m (vaddr + j)) = (List.range n).map seen :=
    fun seen same => List.map_congr_left fun j inside => same j (List.mem_range.mp inside)
  cases b with
  | nothing =>
    refine ⟨m, ?_, .refl m⟩
    rw [bytes (fun _ => 0) fun j below => part.seen below]
    simp [readBacked]
  | plain loc =>
    refine ⟨m, ?_, .refl m⟩
    rw [bytes (fun j => m.visible (loc.plus j)) fun j below => part.seen below]
    exact congrArg (fun bytes => Except.ok (bytes, m)) (load_free (part.free loc rfl))
  | cached loc =>
    refine ⟨_, ?_, (flushVirtual_cleared r pluginFb m vaddr n).mono (fun _ no => no)
      fun _ no => no.elim⟩
    rw [bytes (fun j => m.visible (loc.plus j)) fun j below => part.seen below]
    exact congrArg (fun bytes => Except.ok (bytes, _)) (load_cached (part.covers loc rfl))

theorem readTurn_seen (word : pluginFb < 0x100000000)
    (settled : ∀ j < size, Settled pluginFb t m (vaddr + j)) (k n : Nat)
    (s : List UInt8 × GuestMemory) (positive : 0 < n)
    (fits : (vaddr + k) % pageSize + n ≤ pageSize) (within : k + n ≤ size)
    (before : s.1 = (List.range k).map (fun j => seenAt pluginFb t m (vaddr + j)) ∧ Settles m s.2) :
    ∃ s', readTurn pluginFb r t (vaddr + k) n s = .ok s' ∧
      s'.1 = (List.range (k + n)).map (fun j => seenAt pluginFb t m (vaddr + j)) ∧
      Settles m s'.2 := by
  obtain ⟨bytes, m₁⟩ := s
  obtain ⟨rfl, settles⟩ := before
  have seen : ∀ v, seenAt pluginFb t m₁ v = seenAt pluginFb t m v := by
    intro v
    unfold seenAt
    rw [visible_same settles]
  have still : ∀ j < n, Settled pluginFb t m₁ (vaddr + k + j) := by
    intro j below
    rw [Nat.add_assoc]
    exact (settled (k + j) (by omega)).shrunk settles.shrunk
  obtain ⟨m₂, piece, after⟩ := readPiece_seen (r := r) word positive fits still
  refine ⟨_, by rw [readTurn, piece]; rfl, ?_, ?_⟩
  · rw [List.range_add, List.map_append, List.map_map]
    refine congrArg _ (List.map_congr_left ?_)
    intro j _
    rw [seen, Nat.add_assoc]
    rfl
  · exact (settles.trans after).mono (fun _ no => no) fun _ no => no.elim

theorem readBlockImpl_seen (word : pluginFb < 0x100000000) (whole : vaddr + size ≤ 0x100000000)
    (settled : ∀ j < size, Settled pluginFb t m (vaddr + j)) :
    ∃ m', readBlockImpl pluginFb r t m vaddr size =
      .ok ((List.range size).map fun j => seenAt pluginFb t m (vaddr + j), m') ∧ Settles m m' := by
  have loop := blockLoop_returns
    (fun k (s : List UInt8 × GuestMemory) =>
      s.1 = (List.range k).map (fun j => seenAt pluginFb t m (vaddr + j)) ∧ Settles m s.2)
    whole (s := ([], m)) ⟨rfl, .refl m⟩ (readTurn_seen (r := r) word settled)
  obtain ⟨s, run, bytes, settles⟩ := loop
  exact ⟨s.2, by rw [readBlockImpl, run, ← bytes], settles⟩

/-- Some bytes of a block are written, and nothing else that is seen changes. `place` says where
the bytes of the block are, `byte` what they are to be. -/
structure Written (place : Nat → Option HostLoc) (byte : Nat → UInt8) (low high : Nat)
    (m m' : GuestMemory) : Prop where
  seen : ∀ x, (∀ j, low ≤ j → j < high → place j ≠ some x) → m'.visible x = m.visible x
  wrote : ∀ j x, low ≤ j → j < high → place j = some x → m'.visible x = byte j
  shrunk : ∀ p, m.held p = none → m'.held p = none

namespace Written

variable {place : Nat → Option HostLoc} {byte : Nat → UInt8} {low mid high : Nat}
  {m'' : GuestMemory}

theorem refl (m : GuestMemory) : Written place byte low low m m :=
  ⟨fun _ _ => rfl, fun _ _ _ _ _ => by omega, fun _ free => free⟩

theorem trans (h : Written place byte low mid m m') (h' : Written place byte mid high m' m'')
    (order : low ≤ mid) (order' : mid ≤ high)
    (own : ∀ i j x, i < mid → mid ≤ j → j < high → low ≤ i → place i = some x →
      place j ≠ some x) : Written place byte low high m m'' := by
  refine ⟨?_, ?_, fun p free => h'.shrunk p (h.shrunk p free)⟩
  · intro x off
    rw [h'.seen x fun j from_mid below => off j (by omega) below,
      h.seen x fun j from_low below => off j from_low (by omega)]
  · intro j x from_low below at_j
    by_cases first : j < mid
    · rw [h'.seen x fun i from_mid below' => own j i x first from_mid below' from_low at_j]
      exact h.wrote j x from_low first at_j
    · exact h'.wrote j x (by omega) below at_j

theorem congr {byte' : Nat → UInt8} (h : Written place byte low high m m')
    (same : ∀ j, low ≤ j → j < high → byte j = byte' j) : Written place byte' low high m m' :=
  ⟨h.seen, fun j x from_low below at_j =>
    (h.wrote j x from_low below at_j).trans (same j from_low below), h.shrunk⟩

end Written

section

variable {dest : Nat} {byte : Nat → UInt8}

def places (pluginFb : Nat) (t : PageTable) (dest j : Nat) : Option HostLoc :=
  hostAt pluginFb t (dest + j)

theorem written_of_overwrite {place : Nat → Option HostLoc}
    (host : ∀ j < n, place (k + j) = some (loc.plus j)) (length : data.length = n)
    (same : ∀ j (below : j < data.length), data[j] = byte (k + j))
    (now : m'.visible = overwrite m.visible loc data)
    (shrunk : ∀ p, m.held p = none → m'.held p = none) : Written place byte k (k + n) m m' := by
  subst length
  refine ⟨?_, ?_, shrunk⟩
  · intro x off
    rw [now]
    apply overwrite_off
    rintro j below rfl
    exact off (k + j) (by omega) (by omega) (host j below)
  · intro i x from_k below at_i
    obtain ⟨j, rfl⟩ := Nat.exists_eq_add_of_le from_k
    have inside : j < data.length := by omega
    obtain rfl := Option.some.inj ((host j inside).symm.trans at_i)
    rw [now, overwrite_at inside, same j inside]

theorem writePiece_written (word : pluginFb < 0x100000000) (some : 0 < n)
    (fits : (dest + k) % pageSize + n ≤ pageSize)
    (settled : ∀ j < n, Settled pluginFb t m (dest + k + j)) (length : data.length = n)
    (same : ∀ j (below : j < data.length), data[j] = byte (k + j)) :
    ∃ m', writePiece pluginFb r t m (dest + k) data = .ok m' ∧
      Written (places pluginFb t dest) byte k (k + n) m m' := by
  obtain ⟨b, part⟩ := part_of_settled word some fits settled
  have host : ∀ j < n, places pluginFb t dest (k + j) = b.target.map (·.plus j) := by
    intro j below
    rw [places, ← Nat.add_assoc, part.host j below]
  rw [writePiece_eq, part.backs]
  cases b with
  | nothing =>
    refine ⟨m, rfl, fun _ _ => rfl, ?_, fun _ free => free⟩
    intro i x from_k below at_i
    obtain ⟨j, rfl⟩ := Nat.exists_eq_add_of_le from_k
    rw [host j (by omega)] at at_i
    cases at_i
  | plain loc =>
    refine ⟨_, rfl, written_of_overwrite host length same ?_ fun _ free => free⟩
    exact store_free (length ▸ part.free loc rfl)
  | cached loc =>
    refine ⟨_, rfl, written_of_overwrite host length same ?_ ?_⟩
    · exact store_cached (length ▸ part.covers loc rfl)
    · exact (invalidateVirtual_cleared r pluginFb m _ _).shrunk

theorem writePieceFrom_eq {src : HostLoc} (part : Part pluginFb t m vaddr n b)
    (free : Free m src n) (apart : ∀ i < n, ∀ j < n, b.target.map (·.plus j) ≠ some (src.plus i)) :
    writePieceFrom pluginFb r t m vaddr src n =
      writePiece pluginFb r t m vaddr (loadSeen m.visible src n) := by
  rw [writePieceFrom_backed, writePiece_eq, part.backs]
  refine congrArg Except.ok ?_
  cases b with
  | nothing => rfl
  | plain loc =>
    unfold writeBackedFrom writeBacked
    rw [load_free free]
  | cached loc =>
    have dropped := invalidateVirtual_cleared r pluginFb m vaddr n
    have same : (rasterizerFlushVirtualRegion (invalidateRegion r) pluginFb m vaddr n).load src n =
        loadSeen m.visible src n := by
      rw [← load_free free]
      apply List.map_congr_left
      intro i inside
      apply dropped.bytes
      · intro p at_i reached
        obtain ⟨j, below, at_j⟩ := (part.covers loc rfl).2 p reached
        exact apart i (List.mem_range.mp inside) j below (congrArg some (paddrOf_inj at_j at_i))
      · exact free i (List.mem_range.mp inside)
    unfold writeBackedFrom writeBacked
    dsimp only
    rw [length_loadSeen, same]

def OwnPlaces (place : Nat → Option HostLoc) (size : Nat) : Prop :=
  ∀ i < size, ∀ j < size, ∀ x, place i = some x → place j = some x → i = j

theorem Written.next {place : Nat → Option HostLoc} {m₀ : GuestMemory} {low : Nat}
    (h : Written place byte low k m₀ m) (h' : Written place byte k (k + n) m m')
    (own : OwnPlaces place size) (within : k + n ≤ size) (order : low ≤ k) :
    Written place byte low (k + n) m₀ m' := by
  apply h.trans h' order (Nat.le_add_right _ _)
  intro i j x first from_k below _ at_i at_j
  have same := own i (by omega) j (by omega) x at_i at_j
  omega

theorem zeroBlock_written (word : pluginFb < 0x100000000) (whole : dest + size ≤ 0x100000000)
    (settled : ∀ j < size, Settled pluginFb t m (dest + j))
    (own : OwnPlaces (places pluginFb t dest) size) (within : k + n ≤ size) :
    ∃ m', zeroBlock pluginFb r t m (dest + k) n = .ok m' ∧
      Written (places pluginFb t dest) (fun _ => 0) k (k + n) m m' := by
  apply blockLoop_returns (fun i m' => Written (places pluginFb t dest) (fun _ => 0) k (k + i) m m')
    (by omega) (.refl m)
  intro i a m₁ positive fits inside before
  rw [zeroPiece_eq]
  rw [Nat.add_assoc dest] at fits ⊢
  have still : ∀ j < a, Settled pluginFb t m₁ (dest + (k + i) + j) := by
    intro j below
    rw [Nat.add_assoc dest]
    exact (settled (k + i + j) (by omega)).shrunk before.shrunk
  have step : ∃ m₂, writePiece pluginFb r t m₁ (dest + (k + i)) (List.replicate a 0) = .ok m₂ ∧
      Written (places pluginFb t dest) (fun _ => 0) (k + i) (k + i + a) m₁ m₂ :=
    writePiece_written word positive fits still List.length_replicate
      fun _ _ => List.getElem_replicate ..
  obtain ⟨m₂, piece, after⟩ := step
  refine ⟨m₂, piece, ?_⟩
  rw [← Nat.add_assoc k]
  exact before.next after own (by omega) (Nat.le_add_right _ _)

structure SourceBytes (pluginFb : Nat) (t : PageTable) (m : GuestMemory) (dest size : Nat)
    (byte : Nat → UInt8) (src : HostLoc) (k n : Nat) : Prop where
  free : Free m src n
  apart : ∀ i < n, ∀ j < size, places pluginFb t dest j ≠ some (src.plus i)
  bytes : ∀ i < n, byte (k + i) = m.visible (src.plus i)

theorem writeTurnFrom_written {src : HostLoc} (word : pluginFb < 0x100000000)
    (settled : ∀ j < size, Settled pluginFb t m (dest + j))
    (own : OwnPlaces (places pluginFb t dest) size) (within : k + n ≤ size)
    (source : SourceBytes pluginFb t m dest size byte src k n) (i a : Nat) (s : HostLoc × GuestMemory)
    (positive : 0 < a) (fits : (dest + k + i) % pageSize + a ≤ pageSize) (inside : i + a ≤ n)
    (before : s.1 = src.plus i ∧ Written (places pluginFb t dest) byte k (k + i) m s.2) :
    ∃ s', writeTurnFrom pluginFb r t (dest + k + i) a s = .ok s' ∧ s'.1 = src.plus (i + a) ∧
      Written (places pluginFb t dest) byte k (k + (i + a)) m s'.2 := by
  obtain ⟨_, m₁⟩ := s
  obtain ⟨rfl, before⟩ := before
  rw [Nat.add_assoc dest] at fits ⊢
  have still : ∀ j < a, Settled pluginFb t m₁ (dest + (k + i) + j) := by
    intro j below
    rw [Nat.add_assoc dest]
    exact (settled (k + i + j) (by omega)).shrunk before.shrunk
  obtain ⟨b, part⟩ := part_of_settled word positive fits still
  have free : Free m₁ (src.plus i) a := by
    intro j below p at_j
    rw [HostLoc.plus_plus] at at_j
    exact before.shrunk p (source.free (i + j) (by omega) p at_j)
  have apart : ∀ i' < a, ∀ j < a, b.target.map (·.plus j) ≠ some ((src.plus i).plus i') := by
    intro i' below j below'
    rw [← part.host j below', HostLoc.plus_plus, Nat.add_assoc dest]
    exact source.apart (i + i') (by omega) (k + i + j) (by omega)
  have bytes : ∀ j (below : j < (loadSeen m₁.visible (src.plus i) a).length),
      (loadSeen m₁.visible (src.plus i) a)[j] = byte (k + i + j) := by
    intro j below
    rw [length_loadSeen] at below
    have at_j := source.bytes (i + j) (by omega)
    rw [← before.seen (src.plus (i + j)) fun j' _ below' =>
      source.apart (i + j) (by omega) j' (by omega)] at at_j
    rw [Nat.add_assoc k, at_j]
    simp [loadSeen, HostLoc.plus_plus]
  obtain ⟨m₂, piece, after⟩ := writePiece_written (r := r) word positive fits still
    length_loadSeen bytes
  refine ⟨(src.plus (i + a), m₂), ?_, rfl, ?_⟩
  · rw [writeTurnFrom, writePieceFrom_eq part free apart, piece, ← HostLoc.plus_plus]
    rfl
  · rw [← Nat.add_assoc k]
    exact before.next after own (by omega) (Nat.le_add_right _ _)

theorem writeBlockFrom_written {src : HostLoc} (word : pluginFb < 0x100000000)
    (whole : dest + size ≤ 0x100000000) (settled : ∀ j < size, Settled pluginFb t m (dest + j))
    (own : OwnPlaces (places pluginFb t dest) size) (within : k + n ≤ size)
    (source : SourceBytes pluginFb t m dest size byte src k n) :
    ∃ m', writeBlockFrom pluginFb r t m (dest + k) src n = .ok m' ∧
      Written (places pluginFb t dest) byte k (k + n) m m' := by
  have loop := blockLoop_returns
    (fun i (s : HostLoc × GuestMemory) => s.1 = src.plus i ∧
      Written (places pluginFb t dest) byte k (k + i) m s.2)
    (show dest + k + n ≤ 0x100000000 by omega) (s := (src, m)) ⟨rfl, .refl m⟩
    (writeTurnFrom_written (r := r) word settled own within source)
  obtain ⟨s, run, -, written⟩ := loop
  exact ⟨s.2, by rw [writeBlockFrom, run]; rfl, written⟩

end

section

variable {srcTable destTable : PageTable} {src dest : Nat}

/-- What `CopyBlock` asks of the two ranges: they are accessible and do not wrap, the destination
has its own bytes throughout, and none of the source's. -/
structure Copyable (pluginFb : Nat) (srcTable destTable : PageTable) (m : GuestMemory)
    (src dest size : Nat) : Prop where
  source : ∀ j < size, Settled pluginFb srcTable m (src + j)
  target : ∀ j < size, Settled pluginFb destTable m (dest + j)
  own : OwnPlaces (places pluginFb destTable dest) size
  apart : ∀ i < size, ∀ j < size, ∀ x, hostAt pluginFb srcTable (src + i) = some x →
    places pluginFb destTable dest j ≠ some x

def shown (pluginFb : Nat) (srcTable : PageTable) (m : GuestMemory) (src j : Nat) : UInt8 :=
  seenAt pluginFb srcTable m (src + j)

theorem Copyable.sourceOf (copyable : Copyable pluginFb srcTable destTable m src dest size)
    (part : Part pluginFb srcTable m (src + k) n b) (at_loc : b.target = some loc)
    (same : m'.visible = m.visible) (free : Free m' loc n) (within : k + n ≤ size) :
    SourceBytes pluginFb destTable m' dest size (shown pluginFb srcTable m src) loc k n := by
  refine ⟨free, ?_, ?_⟩
  · intro i below j below'
    apply copyable.apart (k + i) (by omega) j below'
    rw [← Nat.add_assoc, part.host i below, at_loc]
    rfl
  · intro i below
    rw [shown, ← Nat.add_assoc, part.seen below, at_loc, same]

theorem copyPiece_written (word : pluginFb < 0x100000000) (whole : dest + size ≤ 0x100000000)
    (copyable : Copyable pluginFb srcTable destTable m src dest size) (positive : 0 < n)
    (fits : (src + k) % pageSize + n ≤ pageSize) (within : k + n ≤ size) :
    ∃ m', copyPiece pluginFb r srcTable destTable m (dest + k) (src + k) n = .ok m' ∧
      Written (places pluginFb destTable dest) (shown pluginFb srcTable m src) k (k + n) m m' := by
  have settled : ∀ j < n, Settled pluginFb srcTable m (src + k + j) := by
    intro j below
    rw [Nat.add_assoc]
    exact copyable.source (k + j) (by omega)
  obtain ⟨b, part⟩ := part_of_settled word positive fits settled
  rw [copyPiece_eq, part.backs]
  cases b with
  | nothing =>
    obtain ⟨m', run, written⟩ := zeroBlock_written (r := r) word whole copyable.target
      copyable.own within
    refine ⟨m', run, written.congr ?_⟩
    intro i from_k below
    obtain ⟨j, rfl⟩ := Nat.exists_eq_add_of_le from_k
    rw [shown, ← Nat.add_assoc, part.seen (by omega)]
    rfl
  | plain loc =>
    exact writeBlockFrom_written word whole copyable.target copyable.own within
      (copyable.sourceOf part rfl rfl (part.free loc rfl) within)
  | cached loc =>
    have flushed := flushVirtual_cleared r pluginFb m (src + k) n
    have free := (part.covers loc rfl).free flushed
    have target : ∀ j < size, Settled pluginFb destTable
        (rasterizerFlushVirtualRegion (flushRegion r) pluginFb m (src + k) n) (dest + j) :=
      fun j below => (copyable.target j below).shrunk flushed.shrunk
    obtain ⟨m', run, written⟩ := writeBlockFrom_written (r := r) word whole target copyable.own
      within (copyable.sourceOf part rfl (visible_same flushed) free within)
    refine ⟨m', run, ?_, written.wrote, fun p none => written.shrunk p (flushed.shrunk p none)⟩
    intro x off
    rw [written.seen x off, visible_same flushed]

theorem Copyable.written (copyable : Copyable pluginFb srcTable destTable m src dest size)
    {byte : Nat → UInt8} (written : Written (places pluginFb destTable dest) byte 0 k m m')
    (within : k ≤ size) : Copyable pluginFb srcTable destTable m' src dest size ∧
      ∀ j < size, shown pluginFb srcTable m' src j = shown pluginFb srcTable m src j := by
  refine ⟨⟨?_, ?_, copyable.own, copyable.apart⟩, ?_⟩
  · exact fun j below => (copyable.source j below).shrunk written.shrunk
  · exact fun j below => (copyable.target j below).shrunk written.shrunk
  · intro j below
    unfold shown seenAt
    cases at_j : hostAt pluginFb srcTable (src + j) with
    | none => rfl
    | some x =>
      exact written.seen x fun i _ below' => copyable.apart j below i (by omega) x at_j

theorem copyTurn_written (word : pluginFb < 0x100000000) (whole : dest + size ≤ 0x100000000)
    (copyable : Copyable pluginFb srcTable destTable m src dest size) (i a : Nat)
    (s : Nat × GuestMemory) (positive : 0 < a) (fits : (src + i) % pageSize + a ≤ pageSize)
    (inside : i + a ≤ size) (before : s.1 = (dest + i) % 0x100000000 ∧
      Written (places pluginFb destTable dest) (shown pluginFb srcTable m src) 0 i m s.2) :
    ∃ s', copyTurn pluginFb r srcTable destTable (src + i) a s = .ok s' ∧
      s'.1 = (dest + (i + a)) % 0x100000000 ∧
      Written (places pluginFb destTable dest) (shown pluginFb srcTable m src) 0 (i + a) m s'.2 := by
  obtain ⟨_, m₁⟩ := s
  obtain ⟨rfl, before⟩ := before
  obtain ⟨still, same⟩ := copyable.written before (by omega)
  obtain ⟨m₂, piece, after⟩ := copyPiece_written (r := r) word whole still positive fits inside
  have low : (dest + i) % 0x100000000 = dest + i := Nat.mod_eq_of_lt (by omega)
  refine ⟨_, by rw [copyTurn, low, piece]; rfl, ?_, ?_⟩
  · unfold add32
    omega
  · exact before.next (after.congr fun j _ below => same j (by omega)) copyable.own inside
      (Nat.zero_le _)

theorem copyBlock_written (word : pluginFb < 0x100000000) (whole : dest + size ≤ 0x100000000)
    (whole' : src + size ≤ 0x100000000) (low : dest < 0x100000000)
    (copyable : Copyable pluginFb srcTable destTable m src dest size) :
    ∃ m', copyBlock pluginFb r srcTable destTable m dest src size = .ok m' ∧
      Written (places pluginFb destTable dest) (shown pluginFb srcTable m src) 0 size m m' := by
  have loop := blockLoop_returns
    (fun i (s : Nat × GuestMemory) => s.1 = (dest + i) % 0x100000000 ∧
      Written (places pluginFb destTable dest) (shown pluginFb srcTable m src) 0 i m s.2)
    whole' (s := (dest, m)) ⟨(Nat.mod_eq_of_lt low).symm, .refl m⟩
    (copyTurn_written (r := r) word whole copyable)
  obtain ⟨s, run, -, written⟩ := loop
  exact ⟨s.2, by rw [copyBlock, run]; rfl, written⟩

end

end EmuThreeDS
