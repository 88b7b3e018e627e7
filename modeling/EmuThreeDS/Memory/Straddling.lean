import EmuThreeDS.Memory.AccessAgreement

/-!
# Accesses across a page boundary

When a single access that goes on to the next page does what the block access does: the page
behind is the one behind in host memory, and where only one of the two pages is cached, the
rasterizer can hold nothing of the second.
-/
namespace EmuThreeDS

open Layout GuestMemory PageTables

def Holdable (pluginFb : Nat) (marker : Nat → Bool) (paddr : Nat) : Prop :=
  ∀ vaddr ∈ physicalToVirtual pluginFb paddr, isCached marker vaddr

def HeldMarked (pluginFb : Nat) (marker : Nat → Bool) (m : GuestMemory) : Prop :=
  ∀ paddr, m.held paddr ≠ none → Holdable pluginFb marker paddr

/-- A single access of `size` bytes reads and writes what the block access does. -/
structure Agrees (pluginFb : Nat) (t : PageTable) (marker : Nat → Bool) (vaddr size : Nat) :
    Prop where
  reads : ∀ r m, HeldMarked pluginFb marker m →
    (·.1) <$> read pluginFb r t m vaddr size =
      (fun answer => leValue answer.1) <$> readBlock pluginFb r t m vaddr size
  writes : ∀ r m, HeldMarked pluginFb marker m → ∀ value,
    visible <$> write pluginFb r t m vaddr size value =
      visible <$> writeBlock pluginFb r t m vaddr (leBytes size value)

/-- The part of an access on the second page is none that the rasterizer can hold. -/
def NeverHeld (pluginFb : Nat) (marker : Nat → Bool) (vaddr size : Nat) : Prop :=
  ∀ paddr, Reached pluginFb (nextPage vaddr) (size - pageRest vaddr) paddr →
    ¬ Holdable pluginFb marker paddr

/-- The second page goes on where the first one ends. An access that is not possible at all
does not come to the second page. -/
def Joined (pluginFb : Nat) (t : PageTable) (marker : Nat → Bool) (vaddr size : Nat) : Prop :=
  match backing pluginFb t vaddr, backing pluginFb t (nextPage vaddr) with
  | .error _, _ => True
  | .ok .nothing, .ok .nothing => True
  | .ok (.plain loc), .ok (.plain next) => next = loc.plus (pageRest vaddr)
  | .ok (.cached loc), .ok (.cached next) => next = loc.plus (pageRest vaddr)
  | .ok (.plain loc), .ok (.cached next) =>
    next = loc.plus (pageRest vaddr) ∧ NeverHeld pluginFb marker vaddr size
  | .ok (.cached loc), .ok (.plain next) =>
    next = loc.plus (pageRest vaddr) ∧ NeverHeld pluginFb marker vaddr size
  | _, _ => False

variable {pluginFb : Nat} {r : Rasterizer} {t : PageTable} {marker : Nat → Bool} {m : GuestMemory}
  {loc : HostLoc} {vaddr size k n : Nat}

theorem unasked_next {op : GuestMemory → Nat → Nat → GuestMemory}
    (unasked : ¬ Asked pluginFb (nextPage vaddr)) (near : n ≤ pageSize) :
    rasterizerFlushVirtualRegion op pluginFb m vaddr (pageRest vaddr + n) =
      rasterizerFlushVirtualRegion op pluginFb m vaddr (pageRest vaddr) := by
  have start := nextPage_mod vaddr
  rw [nextPage_eq] at start unasked
  have positive := pageRest_pos vaddr
  have part : pageRest vaddr = pageSize - vaddr % pageSize := rfl
  apply List.foldl_ext
  intro m region member
  obtain ⟨low, high⟩ := region_aligned member
  have outside : ¬ (region.1 ≤ vaddr + pageRest vaddr ∧ vaddr + pageRest vaddr < region.2.1) :=
    fun inside => unasked ⟨region, member, inside⟩
  have order : region.1 < region.2.1 := by
    rcases mem_checkedRegions.mp member with rfl | rfl | rfl | ⟨-, rfl⟩ <;> dsimp only <;> decide
  unfold pageSize at *
  by_cases inside : region.1 ≤ vaddr ∧ vaddr < region.2.1
  · have same : min (vaddr + (pageRest vaddr + n)) region.2.1 =
        min (vaddr + pageRest vaddr) region.2.1 := by omega
    unfold checkRegion
    rw [if_neg (by omega), if_neg (by omega), same]
  · unfold checkRegion
    rw [if_pos (by omega), if_pos (by omega)]

section

variable {j : Nat}

theorem page_of_rest (below : j < pageRest vaddr) : (vaddr + j) / pageSize = vaddr / pageSize := by
  unfold pageRest pageSize at *
  omega

theorem page_of_next (below : j < pageSize) :
    (nextPage vaddr + j) / pageSize = nextPage vaddr / pageSize := by
  unfold nextPage pageSize at *
  omega

variable (word : pluginFb < 0x100000000)
  (at_vaddr : backing pluginFb t vaddr = .ok (.cached loc))
include word at_vaddr

theorem asked_of_cached :
    getPointerForRasterizerCache pluginFb vaddr = .ok loc ∧ Asked pluginFb vaddr := by
  unfold backing at at_vaddr
  split at at_vaddr
  · cases at_vaddr
  · split at at_vaddr <;> cases at_vaddr
  · obtain ⟨same, pointer, equal⟩ := map_eq_ok.mp at_vaddr
    cases equal
    obtain ⟨region, member, inside, _⟩ := pointer_region word pointer
    exact ⟨pointer, region, member, inside⟩

theorem covers_rest (fits : k ≤ pageRest vaddr) : Covers pluginFb vaddr k loc := by
  obtain ⟨pointer, asked⟩ := asked_of_cached word at_vaddr
  have rest : pageRest vaddr ≤ pageSize := Nat.sub_le _ _
  refine covers_of_pointer word pointer (by omega) ?_
  intro j below
  exact asked_page asked (page_of_rest (by omega))

theorem covers_both (asked' : Asked pluginFb (nextPage vaddr)) (fits : n ≤ pageSize) :
    Covers pluginFb vaddr (pageRest vaddr + n) loc := by
  obtain ⟨pointer, asked⟩ := asked_of_cached word at_vaddr
  have rest : pageRest vaddr ≤ pageSize := Nat.sub_le _ _
  refine covers_of_pointer word pointer (by omega) ?_
  intro j below
  by_cases first : j < pageRest vaddr
  · exact asked_page asked (page_of_rest first)
  · have place : vaddr + j = nextPage vaddr + (j - pageRest vaddr) := by
      rw [nextPage_eq]
      omega
    rw [place]
    exact asked_page asked' (page_of_next (by omega))

theorem covers_second (asked : Asked pluginFb (nextPage vaddr)) (fits : n ≤ pageSize) :
    Covers pluginFb (nextPage vaddr) n (loc.plus (pageRest vaddr)) := by
  have both := covers_both word at_vaddr asked fits
  have whole := nextPage_eq vaddr
  constructor
  · intro j below
    obtain ⟨p, at_j, -⟩ := both.1 (pageRest vaddr + j) (by omega)
    refine ⟨p, by rwa [HostLoc.plus_plus], ?_⟩
    obtain ⟨region, member, inside, places⟩ := pointer_region word (asked_of_cached word at_vaddr).1
    obtain ⟨other, member', inside'⟩ := asked_page asked (page_of_next (j := j) (by omega))
    have place : vaddr + (pageRest vaddr + j) = nextPage vaddr + j := by omega
    have rest : pageRest vaddr ≤ pageSize := Nat.sub_le _ _
    obtain rfl := regions_apart (j := pageRest vaddr + j) member member' inside
      (place ▸ inside') (by omega)
    refine ⟨other, member, nextPage vaddr + j, inside'.1, inside'.2, by omega, by omega, ?_⟩
    have there := places (pageRest vaddr + j) (place ▸ inside'.2)
    rw [at_j, place] at there
    exact Option.some.inj there
  · rintro p ⟨region, member, v, low, high, start, below, rfl⟩
    obtain ⟨j, inside, at_j⟩ := both.2 _ ⟨region, member, v, low, high, by omega, by omega, rfl⟩
    obtain ⟨region', member', inside', places⟩ :=
      pointer_region word (asked_of_cached word at_vaddr).1
    have rest : pageRest vaddr ≤ pageSize := Nat.sub_le _ _
    have place : vaddr + (v - vaddr) = v := by omega
    obtain rfl := regions_apart (j := v - vaddr) member' member inside'
      (by rw [place]; exact ⟨low, high⟩) (by omega)
    have there := places (v - vaddr) (by omega)
    rw [place] at there
    have same := HostLoc.plus_inj (paddrOf_inj at_j there)
    refine ⟨j - pageRest vaddr, by omega, ?_⟩
    rw [HostLoc.plus_plus]
    have back : pageRest vaddr + (j - pageRest vaddr) = j := by omega
    rwa [back]

end

theorem covers_next (word : pluginFb < 0x100000000)
    (at_next : backing pluginFb t (nextPage vaddr) = .ok (.cached loc)) (fits : n ≤ pageSize) :
    Covers pluginFb (nextPage vaddr) n loc := by
  apply covers_rest word at_next
  unfold pageRest
  rw [nextPage_mod]
  exact fits

/-- A part that can never be held is not held. -/
theorem free_of_neverHeld (marked : HeldMarked pluginFb marker m)
    (never : NeverHeld pluginFb marker vaddr (pageRest vaddr + n))
    (covers : Covers pluginFb (nextPage vaddr) n loc) : Free m loc n := by
  intro j below p at_j
  obtain ⟨q, at_q, reached⟩ := covers.1 j below
  obtain rfl := Option.some.inj (at_q.symm.trans at_j)
  by_contra held
  rw [NeverHeld, Nat.add_sub_cancel_left] at never
  exact never q reached (marked q held)

section

def readTurns (pluginFb : Nat) (r : Rasterizer) (m : GuestMemory) (vaddr n : Nat)
    (first second : Backing) : List UInt8 :=
  let start := readBacked pluginFb r m vaddr (pageRest vaddr) first
  start.1 ++ (readBacked pluginFb r start.2 (nextPage vaddr) n second).1

section

variable (word : pluginFb < 0x100000000) (fits : n ≤ pageSize)
include word fits

theorem reads_plain_cached
    (at_next : backing pluginFb t (nextPage vaddr) = .ok (.cached (loc.plus (pageRest vaddr))))
    (never : NeverHeld pluginFb marker vaddr (pageRest vaddr + n))
    (marked : HeldMarked pluginFb marker m) :
    (readBacked pluginFb r m vaddr (pageRest vaddr + n) (.plain loc)).1 =
      readTurns pluginFb r m vaddr n (.plain loc) (.cached (loc.plus (pageRest vaddr))) := by
  have covers := covers_next word at_next fits
  have free := free_of_neverHeld marked never covers
  simp only [readBacked, readTurns]
  rw [load_cached covers, ← load_free free]
  exact loadSeen_append m.bytes loc _ _

theorem reads_cached_cached (at_vaddr : backing pluginFb t vaddr = .ok (.cached loc))
    (at_next : backing pluginFb t (nextPage vaddr) = .ok (.cached (loc.plus (pageRest vaddr)))) :
    (readBacked pluginFb r m vaddr (pageRest vaddr + n) (.cached loc)).1 =
      readTurns pluginFb r m vaddr n (.cached loc) (.cached (loc.plus (pageRest vaddr))) := by
  have asked := (asked_of_cached word at_next).2
  have flushed := flushVirtual_cleared r pluginFb m vaddr (pageRest vaddr)
  simp only [readBacked, readTurns]
  rw [load_cached (covers_both word at_vaddr asked fits),
    load_cached (covers_rest word at_vaddr (Nat.le_refl _)),
    load_cached (covers_next word at_next fits), visible_same flushed]
  exact loadSeen_append m.visible loc _ _

theorem reads_cached_plain (at_vaddr : backing pluginFb t vaddr = .ok (.cached loc))
    (never : NeverHeld pluginFb marker vaddr (pageRest vaddr + n))
    (marked : HeldMarked pluginFb marker m) :
    (readBacked pluginFb r m vaddr (pageRest vaddr + n) (.cached loc)).1 =
      readTurns pluginFb r m vaddr n (.cached loc) (.plain (loc.plus (pageRest vaddr))) := by
  have flushed := flushVirtual_cleared r pluginFb m vaddr (pageRest vaddr)
  simp only [readBacked, readTurns]
  by_cases asked : Asked pluginFb (nextPage vaddr)
  · have free := free_of_neverHeld marked never (covers_second word at_vaddr asked fits)
    rw [load_cached (covers_both word at_vaddr asked fits),
      load_cached (covers_rest word at_vaddr (Nat.le_refl _)), load_free (free.cleared flushed),
      visible_same flushed]
    exact loadSeen_append m.visible loc _ _
  · rw [unasked_next asked fits]
    exact loadSeen_append _ loc _ _

end

end

section

variable {data more : List UInt8}

def writeTurns (pluginFb : Nat) (r : Rasterizer) (m : GuestMemory) (vaddr : Nat)
    (data more : List UInt8) (first second : Backing) : HostLoc → UInt8 :=
  (writeBacked pluginFb r (writeBacked pluginFb r m vaddr data first) (nextPage vaddr) more
    second).visible

section

variable (word : pluginFb < 0x100000000) (fits : more.length ≤ pageSize)
  (first : data.length = pageRest vaddr)
include word fits first

theorem writes_plain_cached
    (at_next : backing pluginFb t (nextPage vaddr) = .ok (.cached (loc.plus (pageRest vaddr))))
    (never : NeverHeld pluginFb marker vaddr (pageRest vaddr + more.length))
    (marked : HeldMarked pluginFb marker m) :
    (writeBacked pluginFb r m vaddr (data ++ more) (.plain loc)).visible =
      writeTurns pluginFb r m vaddr data more (.plain loc)
        (.cached (loc.plus (pageRest vaddr))) := by
  have covers := covers_next word at_next fits
  have free : Free (m.store loc data) (loc.plus (pageRest vaddr)) more.length :=
    free_of_neverHeld marked never covers
  simp only [writeBacked, writeTurns]
  rw [store_cached covers, store_append, first, store_free free]

theorem writes_cached_cached (at_vaddr : backing pluginFb t vaddr = .ok (.cached loc))
    (at_next : backing pluginFb t (nextPage vaddr) = .ok (.cached (loc.plus (pageRest vaddr)))) :
    (writeBacked pluginFb r m vaddr (data ++ more) (.cached loc)).visible =
      writeTurns pluginFb r m vaddr data more (.cached loc)
        (.cached (loc.plus (pageRest vaddr))) := by
  have asked := (asked_of_cached word at_next).2
  have both := covers_both word at_vaddr asked fits
  have rest := covers_rest word at_vaddr (Nat.le_of_eq first)
  rw [← first, ← List.length_append] at both
  simp only [writeBacked, writeTurns]
  rw [store_cached both, store_cached (covers_next word at_next fits), store_cached rest, ← first]
  exact overwrite_append

theorem writes_cached_plain (at_vaddr : backing pluginFb t vaddr = .ok (.cached loc))
    (never : NeverHeld pluginFb marker vaddr (pageRest vaddr + more.length))
    (marked : HeldMarked pluginFb marker m) :
    (writeBacked pluginFb r m vaddr (data ++ more) (.cached loc)).visible =
      writeTurns pluginFb r m vaddr data more (.cached loc)
        (.plain (loc.plus (pageRest vaddr))) := by
  have dropped := invalidateVirtual_cleared r pluginFb m vaddr data.length
  simp only [writeBacked, writeTurns]
  by_cases asked : Asked pluginFb (nextPage vaddr)
  · have free := free_of_neverHeld marked never (covers_second word at_vaddr asked fits)
    have both := covers_both word at_vaddr asked fits
    have rest := covers_rest word at_vaddr (Nat.le_of_eq first)
    rw [← first, ← List.length_append] at both
    have after : Free ((rasterizerFlushVirtualRegion (invalidateRegion r) pluginFb m vaddr
        data.length).store loc data) (loc.plus (pageRest vaddr)) more.length := by
      intro j below p at_j
      exact free.cleared dropped j below p at_j
    rw [store_cached both, store_free after, store_cached rest, ← first]
    exact overwrite_append
  · rw [List.length_append, first, unasked_next asked fits,
      store_append, first]

end

end

section

variable {first second : Backing} (at_vaddr : backing pluginFb t vaddr = .ok first)
include at_vaddr

section

variable (at_next : backing pluginFb t (nextPage vaddr) = .ok second)
include at_next

theorem readBlock_backed (goesOn : pageRest vaddr < pageRest vaddr + n)
    (ends : pageRest vaddr + n ≤ pageSize) :
    (fun answer => leValue answer.1) <$> readBlock pluginFb r t m vaddr (pageRest vaddr + n) =
      .ok (leValue (readTurns pluginFb r m vaddr n first second)) := by
  rw [readBlock_two goesOn ends, readPiece_eq, at_vaddr, Nat.add_sub_cancel_left]
  simp only [readPiece_eq, at_next]
  rfl

theorem writeBlock_backed {data more : List UInt8} (some : 0 < more.length)
    (ends : data.length + more.length ≤ pageSize) (rest : data.length = pageRest vaddr) :
    visible <$> writeBlock pluginFb r t m vaddr (data ++ more) =
      .ok (writeTurns pluginFb r m vaddr data more first second) := by
  have length : (data ++ more).length = data.length + more.length := List.length_append
  rw [writeBlock_two (by omega) (by omega), ← rest, List.take_left, List.drop_left,
    writePiece_eq, at_vaddr]
  simp only [writePiece_eq, at_next]
  rfl

end

variable (typed : t.WellTyped)
include typed

theorem read_backed : (·.1) <$> read pluginFb r t m vaddr size =
      .ok (leValue (readBacked pluginFb r m vaddr size first).1) := by
  rw [read_eq typed, readPiece_eq, at_vaddr]
  rfl

theorem write_backed {value : Nat} :
    visible <$> write pluginFb r t m vaddr size value =
      .ok (writeBacked pluginFb r m vaddr (leBytes size value) first).visible := by
  rw [write_eq typed, writePiece_eq, at_vaddr]
  rfl

theorem agrees_of_backed (some : 0 < n) (ends : pageRest vaddr + n ≤ pageSize)
    (at_next : backing pluginFb t (nextPage vaddr) = .ok second)
    (reads : ∀ r m, HeldMarked pluginFb marker m →
      (readBacked pluginFb r m vaddr (pageRest vaddr + n) first).1 =
        readTurns pluginFb r m vaddr n first second)
    (writes : ∀ r m, HeldMarked pluginFb marker m → ∀ data more : List UInt8,
      data.length = pageRest vaddr → more.length = n →
        (writeBacked pluginFb r m vaddr (data ++ more) first).visible =
          writeTurns pluginFb r m vaddr data more first second) :
    Agrees pluginFb t marker vaddr (pageRest vaddr + n) := by
  constructor
  · intro r m marked
    rw [read_backed at_vaddr typed, readBlock_backed at_vaddr at_next (by omega) ends,
      reads r m marked]
  · intro r m marked value
    rw [write_backed at_vaddr typed]
    obtain ⟨data, more, whole, rest, behind⟩ : ∃ data more,
        leBytes (pageRest vaddr + n) value = data ++ more ∧ data.length = pageRest vaddr ∧
          more.length = n :=
      ⟨_, _, (List.take_append_drop (pageRest vaddr) _).symm, by simp, by simp⟩
    rw [whole, writeBlock_backed at_vaddr at_next (by omega) (by omega) rest,
      writes r m marked data more rest behind]

end

theorem agrees_of_joined (word : pluginFb < 0x100000000) (typed : t.WellTyped) (some : 0 < n)
    (ends : pageRest vaddr + n ≤ pageSize)
    (joined : Joined pluginFb t marker vaddr (pageRest vaddr + n)) :
    Agrees pluginFb t marker vaddr (pageRest vaddr + n) := by
  have fits : n ≤ pageSize := by omega
  unfold Joined at joined
  cases at_vaddr : backing pluginFb t vaddr with
  | error e =>
    constructor
    · intro r m _
      rw [read_eq typed, readBlock_two (by omega) ends, readPiece_eq, readPiece_eq, at_vaddr]
      rfl
    · intro r m _ value
      have length : (leBytes (pageRest vaddr + n) value).length = pageRest vaddr + n :=
        length_leBytes _ _
      rw [write_eq typed, writeBlock_two (by omega) (by omega), writePiece_eq, writePiece_eq,
        at_vaddr]
      rfl
  | ok first =>
    rw [at_vaddr] at joined
    cases at_next : backing pluginFb t (nextPage vaddr) with
    | error e =>
      rw [at_next] at joined
      cases first <;> exact joined.elim
    | ok second =>
      rw [at_next] at joined
      apply agrees_of_backed at_vaddr typed some ends at_next
      · intro r m marked
        cases first with
        | nothing =>
          cases second with
          | nothing => exact List.replicate_add _ _ _
          | plain next | cached next => exact joined.elim
        | plain loc =>
          cases second with
          | nothing => exact joined.elim
          | plain next =>
            rw [joined]
            exact loadSeen_append m.bytes loc _ _
          | cached next =>
            obtain ⟨rfl, never⟩ := joined
            exact reads_plain_cached word fits at_next never marked
        | cached loc =>
          cases second with
          | nothing => exact joined.elim
          | plain next =>
            obtain ⟨rfl, never⟩ := joined
            exact reads_cached_plain word fits at_vaddr never marked
          | cached next =>
            rw [joined] at at_next ⊢
            exact reads_cached_cached word fits at_vaddr at_next
      · intro r m marked data more rest behind
        subst behind
        cases first with
        | nothing =>
          cases second with
          | nothing => rfl
          | plain next | cached next => exact joined.elim
        | plain loc =>
          cases second with
          | nothing => exact joined.elim
          | plain next =>
            rw [joined, ← rest]
            exact congrArg visible (store_append more)
          | cached next =>
            obtain ⟨rfl, never⟩ := joined
            exact writes_plain_cached word fits rest at_next never marked
        | cached loc =>
          cases second with
          | nothing => exact joined.elim
          | plain next =>
            obtain ⟨rfl, never⟩ := joined
            exact writes_cached_plain word fits rest at_vaddr never marked
          | cached next =>
            rw [joined] at at_next ⊢
            exact writes_cached_cached word fits rest at_vaddr at_next

def exactRasterizer : Rasterizer := ⟨fun _ _ _ _ => false⟩

section

variable {first second : Backing}

theorem flushRegion_exact {size : Nat} (at_x : paddrOf x = some p)
    (outside : ¬ inRegion start size p) :
    (flushRegion exactRasterizer m start size).bytes x = m.bytes x := by
  unfold flushRegion writeBack
  simp [at_x, outside, exactRasterizer]

theorem flushVirtual_exact {size : Nat} (at_x : paddrOf x = some p)
    (outside : ¬ Reached pluginFb start size p) :
    (rasterizerFlushVirtualRegion (flushRegion exactRasterizer) pluginFb m start size).bytes x =
      m.bytes x := by
  unfold Reached at outside
  unfold rasterizerFlushVirtualRegion
  generalize checkedRegions pluginFb = regions at outside
  induction regions generalizing m with
  | nil => rfl
  | cons region regions ih =>
    rw [List.foldl_cons, ih]
    · unfold checkRegion
      split_ifs with apart
      · rfl
      · apply flushRegion_exact at_x
        intro inside
        simp only [inRegion, decide_eq_true_eq] at inside
        exact outside ⟨region, List.mem_cons_self .., region.1 + (p - region.2.2), by omega,
          by omega, by omega, by omega, by omega⟩
    · rintro ⟨other, member, reached⟩
      exact outside ⟨other, List.mem_cons_of_mem _ member, reached⟩

def Backing.target : Backing → Option HostLoc
  | .nothing => none
  | .plain loc => some loc
  | .cached loc => some loc

theorem getElem?_loadSeen {seen : HostLoc → UInt8} (below : j < size) :
    (loadSeen seen loc size)[j]? = some (seen (loc.plus j)) := by
  simp [loadSeen, below]

theorem readBacked_bytes (none_held : ∀ p, m.held p = none) (b : Backing) (below : j < size) :
    (readBacked pluginFb r m vaddr size b).1[j]? =
      some (b.target.elim 0 fun loc => m.bytes (loc.plus j)) := by
  cases b with
  | nothing => exact List.getElem?_replicate_of_lt below
  | plain loc => exact getElem?_loadSeen below
  | cached loc =>
    have flushed := flushVirtual_cleared r pluginFb m vaddr size
    have same := flushed.bytes (x := loc.plus j) (fun _ _ no => no) fun p _ => none_held p
    have shown : ((rasterizerFlushVirtualRegion (flushRegion r) pluginFb m vaddr size).load loc
        size)[j]? = _ := getElem?_loadSeen below
    rw [same] at shown
    exact shown

theorem readBacked_after (none_held : ∀ p, m.held p = none) (b : Backing) :
    (∀ p, (readBacked pluginFb r m vaddr size b).2.held p = none) ∧
      (readBacked pluginFb r m vaddr size b).2.bytes = m.bytes := by
  cases b with
  | nothing | plain loc => exact ⟨none_held, rfl⟩
  | cached loc =>
    have flushed := flushVirtual_cleared r pluginFb m vaddr size
    refine ⟨fun p => flushed.shrunk p (none_held p), ?_⟩
    funext x
    exact flushed.bytes (fun _ _ no => no) fun p _ => none_held p

theorem length_readBacked {b : Backing} :
    (readBacked pluginFb r m vaddr size b).1.length = size := by
  cases b with
  | nothing => exact List.length_replicate
  | plain loc | cached loc => exact length_loadSeen

section

variable (typed : t.WellTyped) (positive : 0 < n) (ends : pageRest vaddr + n ≤ pageSize)
  (at_vaddr : backing pluginFb t vaddr = .ok first)
  (agrees : Agrees pluginFb t marker vaddr (pageRest vaddr + n))
include typed positive ends at_vaddr agrees

theorem behind_of_agrees (marked : HeldMarked pluginFb marker m) (r : Rasterizer) :
    ∃ second, backing pluginFb t (nextPage vaddr) = .ok second ∧ ∀ j < n,
      (readBacked pluginFb r m vaddr (pageRest vaddr + n) first).1[pageRest vaddr + j]? =
        (readBacked pluginFb r (readBacked pluginFb r m vaddr (pageRest vaddr) first).2
          (nextPage vaddr) n second).1[j]? := by
  have same := agrees.reads r m marked
  rw [read_backed at_vaddr typed] at same
  cases at_next : backing pluginFb t (nextPage vaddr) with
  | error e =>
    rw [readBlock_two (by omega) ends, readPiece_eq, at_vaddr] at same
    simp only [readPiece_eq, at_next] at same
    cases same
  | ok second =>
    rw [readBlock_backed at_vaddr at_next (by omega) ends] at same
    have lists := leValue_inj (by simp [readTurns, length_readBacked]) (Except.ok.inj same)
    refine ⟨second, rfl, ?_⟩
    intro j below
    rw [lists, readTurns, List.getElem?_append_right (by rw [length_readBacked]; omega),
      length_readBacked, Nat.add_sub_cancel_left]

theorem behind_bytes (bytes : HostLoc → UInt8) :
    ∃ second, backing pluginFb t (nextPage vaddr) = .ok second ∧
      first.target.elim 0 (fun loc => bytes (loc.plus (pageRest vaddr))) =
        second.target.elim 0 bytes := by
  have none_held : ∀ p, (⟨bytes, fun _ => none⟩ : GuestMemory).held p = none := fun _ => rfl
  obtain ⟨second, at_next, same⟩ := behind_of_agrees typed positive ends at_vaddr agrees
    (fun p held => absurd (none_held p) held) exactRasterizer
  refine ⟨second, at_next, ?_⟩
  have here := same 0 positive
  obtain ⟨still, kept⟩ := readBacked_after none_held first
  rw [readBacked_bytes none_held first (by omega), readBacked_bytes still second positive, kept]
    at here
  exact Option.some.inj here

theorem target_of_agrees :
    ∃ second, backing pluginFb t (nextPage vaddr) = .ok second ∧
      second.target = first.target.map fun loc => loc.plus (pageRest vaddr) := by
  cases target : first.target with
  | none =>
    obtain ⟨second, at_next, same⟩ :=
      behind_bytes typed positive ends at_vaddr agrees fun _ => 1
    refine ⟨second, at_next, ?_⟩
    rw [target] at same
    cases there : second.target with
    | none => rfl
    | some next =>
      rw [there] at same
      have ones : (0 : UInt8) = 1 := same
      exact absurd ones (by decide)
  | some loc =>
    obtain ⟨second, at_next, same⟩ := behind_bytes typed positive ends at_vaddr agrees
      fun x => if x = loc.plus (pageRest vaddr) then 1 else 0
    refine ⟨second, at_next, ?_⟩
    rw [target] at same
    simp only [Option.elim, if_true] at same
    cases there : second.target with
    | none =>
      rw [there] at same
      have zeros : (1 : UInt8) = 0 := same
      exact absurd zeros (by decide)
    | some next =>
      rw [there] at same
      simp only at same
      split_ifs at same with equal
      · rw [equal]
        rfl
      · exact absurd same (by decide)

end

def holding (paddr : Nat) : GuestMemory :=
  ⟨fun _ => 0, fun other => if other = paddr then some 1 else none⟩

theorem holding_marked (holdable : Holdable pluginFb marker paddr) :
    HeldMarked pluginFb marker (holding paddr) := by
  intro other held
  unfold holding at held
  dsimp only at held
  split_ifs at held with same
  · rw [same]
    exact holdable
  · exact absurd rfl held

theorem holding_visible (at_x : paddrOf x = some paddr) :
    (holding paddr).visible x = 1 := visible_held at_x (if_pos rfl)

section

variable (word : pluginFb < 0x100000000) (typed : t.WellTyped) (positive : 0 < n)
  (ends : pageRest vaddr + n ≤ pageSize)
include word typed positive ends

theorem never_plain_cached (at_vaddr : backing pluginFb t vaddr = .ok (.plain loc))
    (at_next : backing pluginFb t (nextPage vaddr) = .ok (.cached (loc.plus (pageRest vaddr))))
    (agrees : Agrees pluginFb t marker vaddr (pageRest vaddr + n)) :
    NeverHeld pluginFb marker vaddr (pageRest vaddr + n) := by
  intro paddr reached holdable
  rw [Nat.add_sub_cancel_left] at reached
  obtain ⟨second, at_next', same⟩ := behind_of_agrees typed positive ends at_vaddr agrees
    (holding_marked holdable) exactRasterizer
  obtain rfl := Except.ok.inj (at_next.symm.trans at_next')
  have covers := covers_next word at_next (by omega : n ≤ pageSize)
  obtain ⟨j, below, at_j⟩ := covers.2 paddr reached
  have here := same j below
  simp only [readBacked] at here
  rw [load_cached covers, getElem?_loadSeen below, holding_visible at_j] at here
  have shown : ((holding paddr).load loc (pageRest vaddr + n))[pageRest vaddr + j]? = some 0 :=
    getElem?_loadSeen (by omega)
  rw [shown] at here
  exact absurd here (by decide)

theorem never_cached_plain (at_vaddr : backing pluginFb t vaddr = .ok (.cached loc))
    (at_next : backing pluginFb t (nextPage vaddr) = .ok (.plain (loc.plus (pageRest vaddr))))
    (agrees : Agrees pluginFb t marker vaddr (pageRest vaddr + n)) :
    NeverHeld pluginFb marker vaddr (pageRest vaddr + n) := by
  intro paddr reached holdable
  rw [Nat.add_sub_cancel_left] at reached
  obtain ⟨second, at_next', same⟩ := behind_of_agrees typed positive ends at_vaddr agrees
    (holding_marked holdable) exactRasterizer
  obtain rfl := Except.ok.inj (at_next.symm.trans at_next')
  have fits : n ≤ pageSize := by omega
  have rest : pageRest vaddr ≤ pageSize := Nat.sub_le _ _
  -- the next page is asked for, and so is all of the access
  have asked : Asked pluginFb (nextPage vaddr) := by
    obtain ⟨region, member, v, low, high, start, below, -⟩ := reached
    have near := @page_of_next vaddr (v - nextPage vaddr) (by omega)
    have place : nextPage vaddr + (v - nextPage vaddr) = v := by omega
    rw [place] at near
    exact asked_page ⟨region, member, low, high⟩ near.symm
  have both := covers_both word at_vaddr asked fits
  obtain ⟨j, below, at_j⟩ := (covers_second word at_vaddr asked fits).2 paddr reached
  have here := same j below
  simp only [readBacked] at here
  rw [load_cached both, getElem?_loadSeen (by omega), ← HostLoc.plus_plus, holding_visible at_j]
    at here
  have apart : ¬ Reached pluginFb vaddr (pageRest vaddr) paddr := by
    intro first
    obtain ⟨i, before, at_i⟩ := (covers_rest word at_vaddr (Nat.le_refl _)).2 paddr first
    rw [HostLoc.plus_plus] at at_j
    have equal := HostLoc.plus_inj (paddrOf_inj at_i at_j)
    omega
  have shown : ((rasterizerFlushVirtualRegion (flushRegion exactRasterizer) pluginFb
      (holding paddr) vaddr (pageRest vaddr)).load (loc.plus (pageRest vaddr)) n)[j]? =
        some ((holding paddr).bytes ((loc.plus (pageRest vaddr)).plus j)) := by
    rw [← flushVirtual_exact at_j apart]
    exact getElem?_loadSeen below
  rw [shown] at here
  have same_byte : (1 : UInt8) = 0 := Option.some.inj here
  exact absurd same_byte (by decide)

theorem joined_of_agrees (agrees : Agrees pluginFb t marker vaddr (pageRest vaddr + n)) :
    Joined pluginFb t marker vaddr (pageRest vaddr + n) := by
  unfold Joined
  cases at_vaddr : backing pluginFb t vaddr with
  | error e => trivial
  | ok first =>
    obtain ⟨second, at_next, target⟩ := target_of_agrees typed positive ends at_vaddr agrees
    rw [at_next]
    cases first with
    | nothing =>
      cases second with
      | nothing => trivial
      | plain next | cached next => cases target
    | plain loc =>
      cases second with
      | nothing => cases target
      | plain next => exact Option.some.inj target
      | cached next =>
        obtain rfl : next = loc.plus (pageRest vaddr) := Option.some.inj target
        exact ⟨rfl, never_plain_cached word typed positive ends at_vaddr at_next agrees⟩
    | cached loc =>
      cases second with
      | nothing => cases target
      | plain next =>
        obtain rfl : next = loc.plus (pageRest vaddr) := Option.some.inj target
        exact ⟨rfl, never_cached_plain word typed positive ends at_vaddr at_next agrees⟩
      | cached next => exact Option.some.inj target

end

end

end EmuThreeDS
