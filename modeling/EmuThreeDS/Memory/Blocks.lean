import EmuThreeDS.Memory.TableRuns

/-!
# Block accesses

`ReadBlock`, `WriteBlock`, `ZeroBlock` and `CopyBlock`, for any start and any size, and
`OutputDebugString`, which reads a block of the guest's choice. The page index is as wide as a
pointer and counts on behind the last address; an entry behind the last one of the page table is
not there to be looked up. The tables are those at the start of the access.
-/
namespace EmuThreeDS

open Layout GuestMemory PageTables

/-- The loop of a block access. The page index and the page offset are those of `vaddr`, and the
turn gets `current_vaddr` and `copy_amount`. -/
def blockLoop {σ : Type} (turn : Nat → Nat → σ → Exec σ) (vaddr remaining : Nat) (s : σ) : Exec σ :=
  if _ : 0 < remaining then
    if vaddr / pageSize < pageTableNumEntries then do
      let s ← turn vaddr (copyAmount vaddr remaining) s
      blockLoop turn (nextPage vaddr) (remaining - copyAmount vaddr remaining) s
    else .error .undefinedBehaviour
  else .ok s
termination_by remaining
decreasing_by
  have := copyAmount_pos vaddr ‹0 < remaining›
  omega

section

variable (pluginFb : Nat) (r : Rasterizer) (t : PageTable) (vaddr amount : Nat) (m : GuestMemory)

/-- A turn adds to what `dest_buffer` has got. -/
def readTurn (s : List UInt8 × GuestMemory) :
    Exec (List UInt8 × GuestMemory) := do
  let (bytes, m) ← readPiece pluginFb r t s.2 vaddr amount
  return (s.1 ++ bytes, m)

def readBlockImpl (srcAddr size : Nat) : Exec (List UInt8 × GuestMemory) :=
  blockLoop (readTurn pluginFb r t) srcAddr size ([], m)

/-- A turn takes from the front of `src_buffer`. -/
def writeTurn (s : List UInt8 × GuestMemory) :
    Exec (List UInt8 × GuestMemory) := do
  let m ← writePiece pluginFb r t s.2 vaddr (s.1.take amount)
  return (s.1.drop amount, m)

/-- From a buffer that is no memory of the guest. -/
def writeBlockImpl (destAddr : Nat) (data : List UInt8) : Exec GuestMemory :=
  Prod.snd <$> blockLoop (writeTurn pluginFb r t) destAddr data.length (data, m)

/-- One turn of `WriteBlockImpl` from memory of the guest, which is read when it is copied. -/
def writePieceFrom (vaddr : Nat) (src : HostLoc) (size : Nat) :
    Exec GuestMemory :=
  match t.attributes (vaddr / pageSize) with
  | .unmapped => .ok m
  | .memory =>
    match t.pointers (vaddr / pageSize) with
    | some pointer => .ok (m.store (pointer.plus (vaddr % pageSize)) (m.load src size))
    | none => .error .undefinedBehaviour
  | .rasterizerCachedMemory => do
    let m := rasterizerFlushVirtualRegion (invalidateRegion r) pluginFb m vaddr size
    let pointer ← getPointerForRasterizerCache pluginFb vaddr
    return m.store pointer (m.load src size)

def writeTurnFrom (s : HostLoc × GuestMemory) :
    Exec (HostLoc × GuestMemory) := do
  let m ← writePieceFrom pluginFb r t s.2 vaddr s.1 amount
  return (s.1.plus amount, m)

def writeBlockFrom (destAddr : Nat) (src : HostLoc) (size : Nat) :
    Exec GuestMemory :=
  Prod.snd <$> blockLoop (writeTurnFrom pluginFb r t) destAddr size (src, m)

def zeroPiece (vaddr size : Nat) : Exec GuestMemory :=
  match t.attributes (vaddr / pageSize) with
  | .unmapped => .ok m
  | .memory =>
    match t.pointers (vaddr / pageSize) with
    | some pointer => .ok (m.store (pointer.plus (vaddr % pageSize)) (List.replicate size 0))
    | none => .error .undefinedBehaviour
  | .rasterizerCachedMemory => do
    let m := rasterizerFlushVirtualRegion (invalidateRegion r) pluginFb m vaddr size
    let pointer ← getPointerForRasterizerCache pluginFb vaddr
    return m.store pointer (List.replicate size 0)

def zeroBlock (destAddr size : Nat) : Exec GuestMemory :=
  blockLoop (fun vaddr amount m => zeroPiece pluginFb r t m vaddr amount) destAddr size m

/-- One turn of the loop of `CopyBlock`: `size` bytes of the source page of `vaddr`. -/
def copyPiece (destTable : PageTable) (m : GuestMemory) (destAddr vaddr size : Nat) :
    Exec GuestMemory :=
  match t.attributes (vaddr / pageSize) with
  | .unmapped => zeroBlock pluginFb r destTable m destAddr size
  | .memory =>
    match t.pointers (vaddr / pageSize) with
    | some pointer =>
      writeBlockFrom pluginFb r destTable m destAddr (pointer.plus (vaddr % pageSize)) size
    | none => .error .undefinedBehaviour
  | .rasterizerCachedMemory => do
    let m := rasterizerFlushVirtualRegion (flushRegion r) pluginFb m vaddr size
    let pointer ← getPointerForRasterizerCache pluginFb vaddr
    writeBlockFrom pluginFb r destTable m destAddr pointer size

/-- `dest_addr` is a word and wraps. -/
def copyTurn (destTable : PageTable) (vaddr amount : Nat) (s : Nat × GuestMemory) :
    Exec (Nat × GuestMemory) := do
  let m ← copyPiece pluginFb r t destTable s.2 s.1 vaddr amount
  return (add32 s.1 amount, m)

/-- `t` is the table of the source process. -/
def copyBlock (destTable : PageTable) (m : GuestMemory) (destAddr srcAddr size : Nat) :
    Exec GuestMemory :=
  Prod.snd <$> blockLoop (copyTurn pluginFb r t destTable) srcAddr size (destAddr, m)

end

def PageTable.isValidVirtualAddress (t : PageTable) (vaddr : Nat) : Bool :=
  (t.pointers (vaddr / pageSize)).isSome ||
    t.attributes (vaddr / pageSize) = .rasterizerCachedMemory

/-- What `OutputDebugString` comes to. -/
inductive DebugOutput where
  | invalidAddress
  | hioRequest (address : Nat)
  | invalidLength
  | text (string : List UInt8)

/-- `len` is signed. -/
def outputDebugString (pluginFb : Nat) (r : Rasterizer) (t : PageTable) (m : GuestMemory)
    (address : Nat) (len : Int) : Exec (DebugOutput × GuestMemory) :=
  if t.isValidVirtualAddress address = false then .ok (.invalidAddress, m)
  else if len = 0 then .ok (.hioRequest address, m)
  else if len < 0 then .ok (.invalidLength, m)
  else do
    let (string, m) ← readBlockImpl pluginFb r t m address len.toNat
    return (.text string, m)

section

variable {pluginFb : Nat} {r : Rasterizer} {t srcTable destTable : PageTable} {m : GuestMemory}
  {vaddr dest n : Nat}

theorem zeroPiece_eq : zeroPiece pluginFb r t m vaddr n =
    writePiece pluginFb r t m vaddr (List.replicate n 0) := by
  have size : (List.replicate n (0 : UInt8)).length = n := List.length_replicate
  unfold zeroPiece writePiece
  cases t.attributes (vaddr / pageSize) with
  | unmapped => rfl
  | memory => cases t.pointers (vaddr / pageSize) <;> rfl
  | rasterizerCachedMemory => simp only [size]

def writeBackedFrom (pluginFb : Nat) (r : Rasterizer) (m : GuestMemory) (vaddr : Nat)
    (src : HostLoc) (size : Nat) : Backing → GuestMemory
  | .nothing => m
  | .plain loc => m.store loc (m.load src size)
  | .cached loc =>
    let m := rasterizerFlushVirtualRegion (invalidateRegion r) pluginFb m vaddr size
    m.store loc (m.load src size)

theorem writePieceFrom_backed {src : HostLoc} : writePieceFrom pluginFb r t m vaddr src n =
    writeBackedFrom pluginFb r m vaddr src n <$> backing pluginFb t vaddr := by
  unfold writePieceFrom backing
  cases t.attributes (vaddr / pageSize) with
  | unmapped => rfl
  | memory => cases t.pointers (vaddr / pageSize) <;> rfl
  | rasterizerCachedMemory => cases getPointerForRasterizerCache pluginFb vaddr <;> rfl

def copyBacked (pluginFb : Nat) (r : Rasterizer) (destTable : PageTable) (m : GuestMemory)
    (dest vaddr size : Nat) : Backing → Exec GuestMemory
  | .nothing => zeroBlock pluginFb r destTable m dest size
  | .plain loc => writeBlockFrom pluginFb r destTable m dest loc size
  | .cached loc =>
    writeBlockFrom pluginFb r destTable
      (rasterizerFlushVirtualRegion (flushRegion r) pluginFb m vaddr size) dest loc size

theorem copyPiece_eq : copyPiece pluginFb r srcTable destTable m dest vaddr n =
    backing pluginFb srcTable vaddr >>= copyBacked pluginFb r destTable m dest vaddr n := by
  unfold copyPiece backing
  cases srcTable.attributes (vaddr / pageSize) with
  | unmapped => rfl
  | memory => cases srcTable.pointers (vaddr / pageSize) <;> rfl
  | rasterizerCachedMemory => cases getPointerForRasterizerCache pluginFb vaddr <;> rfl

end

section

variable {σ : Type} {bad : Fault → Prop} {turn : Nat → Nat → σ → Exec σ} {s : σ}
  {vaddr remaining : Nat}

theorem blockLoop_nil : blockLoop turn vaddr 0 s = .ok s := by
  rw [blockLoop, dif_neg (Nat.lt_irrefl _)]

theorem copyAmount_le : copyAmount vaddr remaining ≤ remaining := Nat.min_le_right _ _

theorem nextPage_copyAmount (more : copyAmount vaddr remaining < remaining) :
    nextPage vaddr = vaddr + copyAmount vaddr remaining := by
  rw [nextPage_eq]
  unfold copyAmount at more ⊢
  unfold pageRest
  omega

theorem blockLoop_meets {P : Nat → σ → Prop} {size : Nat} (whole : vaddr + size ≤ 0x100000000)
    (turns : ∀ k s, k < size → P k s →
      Meets bad (turn (vaddr + k) (copyAmount (vaddr + k) (size - k)) s)
        (P (k + copyAmount (vaddr + k) (size - k)))) {k : Nat} (done : k ≤ size) (before : P k s) :
    Meets bad (blockLoop turn (vaddr + k) (size - k) s) (P size) := by
  induction left : size - k using Nat.strong_induction_on generalizing k s with
  | _ n ih =>
    subst left
    by_cases more : k < size
    · have positive := copyAmount_pos (vaddr + k) (Nat.sub_pos_of_lt more)
      have fits := @copyAmount_le (vaddr + k) (size - k)
      have inside : (vaddr + k) / pageSize < pageTableNumEntries := by
        unfold pageSize pageTableNumEntries
        omega
      rw [blockLoop, dif_pos (Nat.sub_pos_of_lt more), if_pos inside]
      apply meets_bind (turns k s more before)
      intro s after
      have rest : size - k - copyAmount (vaddr + k) (size - k) =
          size - (k + copyAmount (vaddr + k) (size - k)) := by omega
      by_cases ends : copyAmount (vaddr + k) (size - k) < size - k
      · rw [nextPage_copyAmount ends, Nat.add_assoc, rest]
        exact ih _ (by omega) (by omega) after rfl
      · have last : k + copyAmount (vaddr + k) (size - k) = size := by omega
        rw [rest, last, Nat.sub_self, blockLoop_nil]
        rw [last] at after
        exact after
    · have last : k = size := by omega
      subst last
      rw [Nat.sub_self, blockLoop_nil]
      exact before

theorem turn_part (vaddr : Nat) {k size : Nat} (more : k < size) :
    0 < copyAmount (vaddr + k) (size - k) ∧
      (vaddr + k) % pageSize + copyAmount (vaddr + k) (size - k) ≤ pageSize ∧
      k + copyAmount (vaddr + k) (size - k) ≤ size := by
  unfold copyAmount pageSize
  omega

theorem blockLoop_returns {size : Nat} (P : Nat → σ → Prop)
    (whole : vaddr + size ≤ 0x100000000) (start : P 0 s)
    (turns : ∀ k n s, 0 < n → (vaddr + k) % pageSize + n ≤ pageSize → k + n ≤ size → P k s →
      ∃ s', turn (vaddr + k) n s = .ok s' ∧ P (k + n) s') :
    ∃ s', blockLoop turn vaddr size s = .ok s' ∧ P size s' := by
  have run : Meets (fun _ => True) (blockLoop turn (vaddr + 0) (size - 0) s) (P size) := by
    apply blockLoop_meets whole _ (Nat.zero_le _) start
    intro k s more before
    obtain ⟨positive, fits, within⟩ := turn_part vaddr more
    obtain ⟨s', step, after⟩ := turns k _ s positive fits within before
    rw [step]
    exact after
  cases out : blockLoop turn vaddr size s with
  | error fault => exact absurd trivial (run.error out)
  | ok s' => exact ⟨s', rfl, run.ok out⟩

/-- A run that comes to an end, or else leaves the page table. -/
abbrev EndsOrLeaves {α : Type} (x : Exec α) (Q : α → Prop) : Prop :=
  Meets (· ≠ .undefinedBehaviour) x Q

theorem blockLoop_leaves
    (turns : ∀ vaddr amount s, EndsOrLeaves (turn vaddr amount s) fun _ => True)
    (some : 0 < remaining) (leaves : 0x100000000 < vaddr + remaining) :
    blockLoop turn vaddr remaining s = .error .undefinedBehaviour := by
  induction left : remaining using Nat.strong_induction_on generalizing vaddr s remaining with
  | _ n ih =>
    subst left
    rw [blockLoop]
    split_ifs with inside
    · have positive := copyAmount_pos vaddr some
      have behind : copyAmount vaddr remaining < remaining := by
        unfold copyAmount pageSize at *
        unfold pageTableNumEntries at inside
        omega
      have goesOn := nextPage_copyAmount behind
      cases run : turn vaddr (copyAmount vaddr remaining) s with
      | error fault =>
        have only := (turns _ _ _).error run
        rw [not_not.mp only]
        rfl
      | ok s => exact ih _ (by omega) (by omega) (by omega) rfl
    · rfl

end

section

end

end EmuThreeDS
