import EmuThreeDS.Memory.Blocks

/-!
# How far block accesses go

Over the page tables of a run every page can be accessed, so that a block access stops only where
it leaves the table: when the range goes on behind the last address, and for `CopyBlock` also
when the destination wraps in the middle of a source page.
-/
namespace EmuThreeDS

open Layout

namespace PageTables

variable {marker : Nat → Bool} {t : PageTable} {pluginFb : Nat} {s : PageTables}

structure Admits (good : Nat → PageType → Prop) : Prop where
  unmapped : ∀ page, good page .unmapped
  mark : ∀ page, cacheable (page * pageSize) → good page .memory → good page .rasterizerCachedMemory
  unmark : ∀ page, good page .rasterizerCachedMemory → good page .memory

def AllGood (good : Nat → PageType → Prop) (s : PageTables) : Prop :=
  ∀ t ∈ s.list, ∀ page, good page (t.attributes page)

section

variable {good : Nat → PageType → Prop}

variable {page vaddr n : Nat} {type : PageType}

theorem good_set {pointer : Option HostLoc}
    (h : ∀ other, good other (t.attributes other)) (fits : good page type) :
    ∀ other, good other ((t.set page type pointer).attributes other) := by
  intro other
  by_cases same : other = page
  · subst same
    rwa [PageTable.set_attributes_same]
  · rw [PageTable.set_attributes_other same]
    exact h other

theorem mapPages_good {memory : MemoryRef} {base size : Nat}
    (admits : Admits good) (h : ∀ page, good page (t.attributes page))
    (mapped : ∀ page, base ≤ page → page < base + size → good page type) :
    Meets (fun _ => False) (mapPages marker type t base memory size) fun t =>
      ∀ page, good page (t.attributes page) := by
  induction size generalizing t base memory with
  | zero => exact meets_ok h
  | succ size ih =>
    apply meets_assert nofun
    intro _
    have here := mapped base (Nat.le_refl _) (by omega)
    have marked : ∀ page, good page ((if type = .memory ∧ isCached marker (base * pageSize) then
        t.set base .rasterizerCachedMemory none
      else t.set base type memory.getPtr).attributes page) := by
      split_ifs with cached
      · obtain ⟨rfl, cached⟩ := cached
        exact good_set h (admits.mark base (Bool.and_eq_true_iff.mp cached).1 here)
      · exact good_set h here
    have rest : ∀ page, base + 1 ≤ page → page < base + 1 + size → good page type :=
      fun page from_base below => mapped page (by omega) (by omega)
    apply meets_ite
    · intro _
      apply meets_bind advance_isSome
      intro after _
      exact ih marked rest
    · intro _
      exact ih marked rest

theorem cacheable_physical {paddr : Nat} (member : vaddr ∈ physicalToVirtual pluginFb paddr) :
    cacheable (vaddr / pageSize * pageSize) := by
  unfold physicalToVirtual at member
  unfold cacheable
  rw [decide_eq_true_eq]
  unfold vramPaddr vramPaddrEnd plugin3gxFbSize fcramPaddr fcramPaddrEnd fcramN3dsPaddrEnd
    add32 at member
  unfold vramVaddr linearHeapVaddr newLinearHeapVaddr plugin3gxFbVaddr at *
  unfold vramVaddrEnd linearHeapVaddrEnd newLinearHeapVaddrEnd plugin3gxFbVaddrEnd pageSize
  split_ifs at member <;>
    simp only [List.mem_cons, List.not_mem_nil, or_false] at member <;> omega

theorem markTable_good {cached : Bool} (admits : Admits good)
    (cacheable : cacheable (vaddr / pageSize * pageSize))
    (h : ∀ page, good page (t.attributes page)) :
    Meets (fun _ => False) (markTable pluginFb cached vaddr t) fun t =>
      ∀ page, good page (t.attributes page) := by
  unfold markTable
  dsimp only
  split
  · exact meets_ok h
  · rename_i type
    refine meets_ok (good_set h (admits.mark _ cacheable ?_))
    rw [← type]
    exact h _
  · rename_i type
    apply meets_bind (meets_of_ok fun _ _ => trivial)
    intro pointer _
    refine meets_ok (good_set h (admits.unmark _ ?_))
    rw [← type]
    exact h _
  · exact meets_error not_false

def MapsGood (good : Nat → PageType → Prop) : Call → Prop
  | .mapMemoryRegion _ base size _ =>
    ∀ page, base / pageSize ≤ page → page < base / pageSize + size / pageSize → good page .memory
  | _ => True

theorem step_good {call : Call} (admits : Admits good) (h : s.AllGood good)
    (maps : MapsGood good call) : Meets (fun _ => False) (s.step call) (AllGood good) := by
  apply step_all h admits.unmapped
  · rintro i base size target rfl t h
    exact mapPages_good admits h maps
  · intro t base n h
    exact mapPages_good admits h fun page _ _ => admits.unmapped page
  · intro pluginFb cached paddr vaddr member t h
    exact markTable_good admits (cacheable_physical member) h

end

theorem admits_cacheable :
    Admits fun page type => type = .rasterizerCachedMemory → cacheable (page * pageSize) :=
  ⟨fun _ => nofun, fun _ cacheable _ _ => cacheable, fun _ _ => nofun⟩

theorem Reachable.cached_cacheable (reachable : s.Reachable) (member : t ∈ s.list)
    (cached : t.attributes page = .rasterizerCachedMemory) : cacheable (page * pageSize) := by
  have all : s.AllGood fun page type =>
      type = .rasterizerCachedMemory → cacheable (page * pageSize) := by
    apply Runs.Reachable.invariant reachable
    · exact nofun
    · intro s call s' h _ run
      refine (step_good admits_cacheable h ?_).ok run
      cases call with
      | mapMemoryRegion => exact fun _ _ _ => nofun
      | _ => trivial
  exact all t member page cached

/-- The framebuffer of the plugin is in FCRAM. -/
def PluginLoaded (pluginFb : Nat) : Prop :=
  fcramPaddr ≤ pluginFb ∧ pluginFb + plugin3gxFbSize ≤ fcramPaddr + fcramSize

/-- So it is if any page of it is cached. -/
def Plugged (pluginFb : Nat) (t : PageTable) : Prop :=
  ∀ vaddr, plugin3gxFbVaddr ≤ vaddr → vaddr < plugin3gxFbVaddrEnd →
    t.attributes (vaddr / pageSize) = .rasterizerCachedMemory → PluginLoaded pluginFb

def Backs (pluginFb : Nat) (t : PageTable) : Prop :=
  ∀ vaddr, ∃ b, EmuThreeDS.backing pluginFb t vaddr = .ok b

theorem pointer_of_cacheable (known : cacheable (vaddr / pageSize * pageSize))
    (plugin : plugin3gxFbVaddr ≤ vaddr → vaddr < plugin3gxFbVaddrEnd → PluginLoaded pluginFb) :
    ∃ loc, getPointerForRasterizerCache pluginFb vaddr = .ok loc := by
  unfold getPointerForRasterizerCache
  split_ifs with linear new atVram inPlugin
  · exact ⟨_, rfl⟩
  · exact ⟨_, rfl⟩
  · exact ⟨_, rfl⟩
  · have loaded := plugin inPlugin.1 inPlugin.2
    have valid : sub32 (add32 (vaddr - plugin3gxFbVaddr) pluginFb) fcramPaddr ≤ fcramSize := by
      unfold PluginLoaded fcramPaddr plugin3gxFbSize fcramSize at loaded
      unfold plugin3gxFbVaddrEnd at inPlugin
      unfold sub32 add32 plugin3gxFbVaddr fcramPaddr fcramSize
      omega
    dsimp only
    rw [assert_pos valid]
    exact ⟨_, rfl⟩
  · simp only [cacheable, decide_eq_true_eq] at known
    unfold vramVaddrEnd linearHeapVaddrEnd newLinearHeapVaddrEnd plugin3gxFbVaddrEnd at *
    unfold pageSize at known
    omega

theorem Reachable.backs (reachable : s.Reachable) (member : t ∈ s.list)
    (plugged : Plugged pluginFb t) : Backs pluginFb t := by
  intro vaddr
  have typed := reachable.allTyped t member (vaddr / pageSize)
  unfold EmuThreeDS.backing
  cases type : t.attributes (vaddr / pageSize) with
  | unmapped => exact ⟨_, rfl⟩
  | memory =>
    obtain ⟨pointer, at_page⟩ := Option.isSome_iff_exists.mp (typed.mpr type)
    rw [at_page]
    exact ⟨_, rfl⟩
  | rasterizerCachedMemory =>
    obtain ⟨loc, pointer⟩ := pointer_of_cacheable (reachable.cached_cacheable member type)
      fun low high => plugged vaddr low high type
    rw [pointer]
    exact ⟨_, rfl⟩

end PageTables

open PageTables

variable {pluginFb : Nat} {r : Rasterizer} {t destTable : PageTable} {m : GuestMemory}
  {start dest size : Nat}

/-- No entry behind the last one is looked up. -/
def StaysInTable {α : Type} (x : Exec α) : Prop := x ≠ .error .undefinedBehaviour

theorem staysInTable_error {fault : Fault} :
    StaysInTable (.error fault : Exec α) ↔ fault ≠ .undefinedBehaviour := by
  unfold StaysInTable
  rw [ne_eq, Except.error.injEq]

instance {α : Type} : (x : Exec α) → Decidable (StaysInTable x)
  | .ok _ => .isTrue nofun
  | .error _ => decidable_of_iff _ staysInTable_error.symm

/-- The range ends with the last address at most. -/
def InTable (start size : Nat) : Prop := size = 0 ∨ start + size ≤ 0x100000000

theorem staysInTable_of_ok {x : Exec α} (run : ∃ a, x = .ok a) : StaysInTable x := by
  obtain ⟨a, rfl⟩ := run
  exact nofun

theorem staysInTable_map {β : Type} {x : Exec α} {f : α → β} :
    StaysInTable (f <$> x) ↔ StaysInTable x := by
  cases x with
  | ok a => exact iff_of_true nofun nofun
  | error fault => exact (staysInTable_error (α := β)).trans staysInTable_error.symm

section

variable {σ : Type} {turn : Nat → Nat → σ → Exec σ} {s : σ}

theorem blockLoop_ends (turns : ∀ vaddr n s, ∃ s', turn vaddr n s = .ok s')
    (inside : InTable start size) : ∃ s', blockLoop turn start size s = .ok s' := by
  rcases inside with rfl | whole
  · exact ⟨s, blockLoop_nil⟩
  · obtain ⟨s', run, -⟩ := blockLoop_returns (fun _ _ => True) whole trivial
      fun k n s _ _ _ _ => (turns (start + k) n s).imp fun _ run => ⟨run, trivial⟩
    exact ⟨s', run⟩

/-- A loop whose turns return stays in the table just if the range does. -/
theorem blockLoop_stays_iff (turns : ∀ vaddr n s, ∃ s', turn vaddr n s = .ok s') :
    StaysInTable (blockLoop turn start size s) ↔ InTable start size := by
  constructor
  · intro stays
    by_contra outside
    obtain ⟨positive, leaves⟩ := not_or.mp outside
    apply stays
    apply blockLoop_leaves _ (by omega) (by omega)
    intro vaddr n s
    obtain ⟨s', step⟩ := turns vaddr n s
    rw [step]
    trivial
  · exact fun inside => staysInTable_of_ok (blockLoop_ends turns inside)

end

section

variable (backs : Backs pluginFb t)
include backs

theorem readTurn_ends (vaddr n : Nat) (s : List UInt8 × GuestMemory) :
    ∃ s', readTurn pluginFb r t vaddr n s = .ok s' := by
  obtain ⟨b, at_vaddr⟩ := backs vaddr
  rw [readTurn, readPiece_eq, at_vaddr]
  exact ⟨_, rfl⟩

theorem writePiece_ends (m : GuestMemory) (vaddr : Nat) (data : List UInt8) :
    ∃ m', writePiece pluginFb r t m vaddr data = .ok m' := by
  obtain ⟨b, at_vaddr⟩ := backs vaddr
  rw [writePiece_eq, at_vaddr]
  exact ⟨_, rfl⟩

theorem writeTurn_ends (vaddr n : Nat) (s : List UInt8 × GuestMemory) :
    ∃ s', writeTurn pluginFb r t vaddr n s = .ok s' := by
  obtain ⟨m', run⟩ := writePiece_ends (r := r) backs s.2 vaddr (s.1.take n)
  rw [writeTurn, run]
  exact ⟨_, rfl⟩

theorem writeTurnFrom_ends (vaddr n : Nat) (s : HostLoc × GuestMemory) :
    ∃ s', writeTurnFrom pluginFb r t vaddr n s = .ok s' := by
  obtain ⟨b, at_vaddr⟩ := backs vaddr
  rw [writeTurnFrom, writePieceFrom_backed, at_vaddr]
  exact ⟨_, rfl⟩

theorem zeroPiece_ends (vaddr n : Nat) (m : GuestMemory) :
    ∃ m', zeroPiece pluginFb r t m vaddr n = .ok m' := by
  rw [zeroPiece_eq]
  exact writePiece_ends backs m vaddr _

end

section

variable (backs : Backs pluginFb t) (backs' : Backs pluginFb destTable)
include backs'

theorem copyBacked_ends (b : Backing) (vaddr : Nat) (inside : InTable dest n) :
    ∃ m', copyBacked pluginFb r destTable m dest vaddr n b = .ok m' := by
  have writes : ∀ src m, ∃ m', writeBlockFrom pluginFb r destTable m dest src n = .ok m' := by
    intro src m
    obtain ⟨s, run⟩ := blockLoop_ends (s := (src, m)) (writeTurnFrom_ends (r := r) backs') inside
    exact ⟨s.2, by rw [writeBlockFrom, run]; rfl⟩
  cases b with
  | nothing => exact blockLoop_ends (zeroPiece_ends backs') inside
  | plain loc => exact writes loc m
  | cached loc => exact writes loc _

theorem copyBacked_leaves (b : Backing) (outside : ¬ InTable dest n) :
    copyBacked pluginFb r destTable m dest vaddr n b = .error .undefinedBehaviour := by
  have writes : ∀ src m,
      writeBlockFrom pluginFb r destTable m dest src n = .error .undefinedBehaviour := by
    intro src m
    by_contra stays
    exact outside ((blockLoop_stays_iff (writeTurnFrom_ends backs')).mp (staysInTable_map.mp stays))
  cases b with
  | nothing =>
    by_contra stays
    exact outside ((blockLoop_stays_iff (zeroPiece_ends backs')).mp stays)
  | plain loc => exact writes loc m
  | cached loc => exact writes loc _

include backs

theorem copyTurn_ends (vaddr : Nat) {s : Nat × GuestMemory} (inside : InTable s.1 n) :
    ∃ m', copyTurn pluginFb r t destTable vaddr n s = .ok (add32 s.1 n, m') := by
  obtain ⟨b, at_vaddr⟩ := backs vaddr
  obtain ⟨m', run⟩ := copyBacked_ends (r := r) (m := s.2) backs' b vaddr inside
  rw [copyTurn, copyPiece_eq, at_vaddr, ok_bind, run]
  exact ⟨m', rfl⟩

theorem copyTurn_leaves {s : Nat × GuestMemory} (outside : ¬ InTable s.1 n) :
    copyTurn pluginFb r t destTable vaddr n s = .error .undefinedBehaviour := by
  obtain ⟨b, at_vaddr⟩ := backs vaddr
  rw [copyTurn, copyPiece_eq, at_vaddr, ok_bind, copyBacked_leaves backs' b outside]
  rfl

/-- The ranges of a copy that stays in the tables: the destination wraps, if it does, where a
source page ends. -/
def CopyInTable (start dest size : Nat) : Prop :=
  size = 0 ∨ start + size ≤ 0x100000000 ∧
    (dest + size ≤ 0x100000000 ∨ start % pageSize = dest % pageSize)

theorem copyLoop_ends (low : dest < 0x100000000) (inside : CopyInTable start dest size) :
    ∃ s, blockLoop (copyTurn pluginFb r t destTable) start size (dest, m) = .ok s := by
  rcases inside with rfl | ⟨whole, fits⟩
  · exact ⟨_, blockLoop_nil⟩
  · have turns : ∀ k n (s : Nat × GuestMemory), 0 < n → (start + k) % pageSize + n ≤ pageSize →
        k + n ≤ size → s.1 = (dest + k) % 0x100000000 →
        ∃ s', copyTurn pluginFb r t destTable (start + k) n s = .ok s' ∧
          s'.1 = (dest + (k + n)) % 0x100000000 := by
      rintro k n ⟨_, m⟩ positive on_page within rfl
      have inside : InTable ((dest + k) % 0x100000000) n := by
        unfold pageSize at *
        right
        omega
      obtain ⟨m', step⟩ := copyTurn_ends (r := r) (s := (_, m)) backs backs' _ inside
      refine ⟨_, step, ?_⟩
      unfold add32
      omega
    obtain ⟨s', run, -⟩ := blockLoop_returns (s := (dest, m)) _ whole
      (Nat.mod_eq_of_lt low).symm turns
    exact ⟨s', run⟩

theorem copyTurn_endsOrLeaves (vaddr n : Nat) (s : Nat × GuestMemory) :
    EndsOrLeaves (copyTurn pluginFb r t destTable vaddr n s) fun s' => InTable s.1 n ∧
      s'.1 = add32 s.1 n := by
  by_cases inside : InTable s.1 n
  · obtain ⟨m', step⟩ := copyTurn_ends (r := r) backs backs' vaddr inside
    rw [step]
    exact ⟨inside, rfl⟩
  · rw [copyTurn_leaves backs backs' inside]
    exact not_not.mpr rfl

/-- A destination that wraps in the middle of a source page is not come behind. -/
theorem copyLoop_wraps (low : dest < 0x100000000) (whole : start + size ≤ 0x100000000)
    (wraps : 0x100000000 < dest + size) (crooked : start % pageSize ≠ dest % pageSize) :
    EndsOrLeaves (blockLoop (copyTurn pluginFb r t destTable) (start + 0) (size - 0) (dest, m))
      fun s => s.1 = dest + size ∧ dest + size < 0x100000000 := by
  apply blockLoop_meets (P := fun k (s : Nat × GuestMemory) => s.1 = dest + k ∧ dest + k < 0x100000000)
    whole _ (Nat.zero_le _) ⟨rfl, low⟩
  rintro k ⟨_, m⟩ more ⟨rfl, below⟩
  refine (copyTurn_endsOrLeaves backs backs' (start + k) _ (dest + k, m)).mono ?_
  rintro ⟨_, m'⟩ ⟨inside, rfl⟩
  have short : dest + k + copyAmount (start + k) (size - k) ≤ 0x100000000 := by
    rcases inside with none | fits
    · omega
    · exact fits
  have not_end : dest + k + copyAmount (start + k) (size - k) ≠ 0x100000000 := by
    unfold copyAmount pageSize at *
    omega
  unfold add32
  omega

theorem copyLoop_leaves (low : dest < 0x100000000) (outside : ¬ CopyInTable start dest size) :
    blockLoop (copyTurn pluginFb r t destTable) start size (dest, m) =
      .error .undefinedBehaviour := by
  obtain ⟨positive, outside⟩ := not_or.mp outside
  by_cases whole : start + size ≤ 0x100000000
  · obtain ⟨wraps, crooked⟩ := not_or.mp fun fits => outside ⟨whole, fits⟩
    have run := copyLoop_wraps (r := r) (m := m) backs backs' low whole (by omega) crooked
    cases out : blockLoop (copyTurn pluginFb r t destTable) start size (dest, m) with
    | error fault => rw [not_not.mp (run.error out)]
    | ok s => exact absurd (run.ok out).2 (by omega)
  · exact blockLoop_leaves (fun vaddr n s => (copyTurn_endsOrLeaves backs backs' vaddr n s).mono
      fun _ _ => trivial) (by omega) (by omega)

end

namespace PageTables

def MappedLow (s : PageTables) (call : Call) : Prop :=
  Mapped s call ∧ ∀ i base size target, call = .mapMemoryRegion i base size target →
    base + size ≤ VMManager.maxAddress

/-- The tables that the address spaces of processes build. -/
abbrev ProcessReachable : PageTables → Prop :=
  Runs.Reachable (· = initial) (fun s call s' => s.step call = .ok s') MappedLow

variable {s : PageTables}

theorem ProcessReachable.reachable (reachable : s.ProcessReachable) : s.Reachable :=
  reachable.mono fun _ _ mapped => mapped.1

theorem ProcessReachable.low (reachable : s.ProcessReachable) (member : t ∈ s.list)
    (mapped : t.attributes page ≠ .unmapped) : page < VMManager.maxAddress / pageSize := by
  have all : s.AllGood fun page type => type ≠ .unmapped → page < VMManager.maxAddress / pageSize := by
    apply Runs.Reachable.invariant reachable
    · exact nofun
    · intro s call s' h mapped run
      refine (step_good ⟨fun _ no => absurd rfl no, fun _ _ low _ => low nofun,
        fun _ low _ => low nofun⟩ h ?_).ok run
      cases call with
      | mapMemoryRegion i base size target =>
        intro page _ below _
        have fits := mapped.2 i base size target rfl
        unfold pageSize at *
        omega
      | _ => trivial
  exact all t member page mapped

end PageTables

theorem outputDebugString_stays {s : PageTables} (reachable : s.ProcessReachable)
    (member : t ∈ s.list) (plugged : Plugged pluginFb t) (r : Rasterizer) (m : GuestMemory)
    (address : Nat) {len : Int} (word : len < 0x80000000) :
    StaysInTable (outputDebugString pluginFb r t m address len) := by
  have backs := reachable.reachable.backs member plugged
  unfold outputDebugString
  split_ifs with invalid none negative
  · exact nofun
  · exact nofun
  · exact nofun
  · have mapped : t.attributes (address / pageSize) ≠ .unmapped := by
      intro unmapped
      apply invalid
      have typed := reachable.reachable.allTyped t member (address / pageSize)
      unfold PageTable.isValidVirtualAddress
      rw [unmapped] at typed ⊢
      rw [Bool.eq_false_iff.mpr fun some => absurd (typed.mp some) nofun]
      rfl
    have low := reachable.low member mapped
    have inside : InTable address len.toNat := by
      unfold VMManager.maxAddress pageSize at low
      right
      omega
    obtain ⟨s', run⟩ := blockLoop_ends (s := ([], m)) (readTurn_ends (r := r) backs) inside
    rw [readBlockImpl, run]
    exact nofun

end EmuThreeDS
