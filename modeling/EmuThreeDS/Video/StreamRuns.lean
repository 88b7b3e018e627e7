import EmuThreeDS.Video.StreamBuffer
import Mathlib.Data.Nat.Basic

/-!
# Mapped ranges are free

The watches of one earlier cycle are enough: every cycle has a commit, and its tick is not before
those of the cycles before it.
-/
namespace EmuThreeDS.Vulkan

def Committed.watch (c : Committed) : Watch := ⟨c.tick, c.stop⟩

section

variable {value alignment k : Nat}

/-- Aligning does not wrap: the next multiple of a power of two is at most `2 ^ 63`. -/
theorem alignUp_bounds (h : value < 2 ^ 63) (hk : k < 64) :
    value ≤ alignUp value (2 ^ k) ∧ alignUp value (2 ^ k) ≤ 2 ^ 63 := by
  unfold alignUp
  split_ifs with aligned
  · omega
  obtain ⟨m, split⟩ := Nat.pow_dvd_pow 2 (Nat.le_of_lt_succ hk)
  have whole := Nat.div_add_mod value (2 ^ k)
  have below : value / 2 ^ k < m := Nat.div_lt_of_lt_mul (split ▸ h)
  have next : value - value % 2 ^ k + 2 ^ k = 2 ^ k * (value / 2 ^ k + 1) := by
    rw [Nat.mul_succ]
    omega
  have top : 2 ^ k * (value / 2 ^ k + 1) ≤ 2 ^ 63 := by
    rw [split]
    exact Nat.mul_le_mul_left _ below
  omega

theorem aligned_bounds {b : StreamBuffer} (h : b.offset < 2 ^ 63)
    (power : alignment = 0 ∨ ∃ k < 64, alignment = 2 ^ k) :
    b.offset ≤ b.aligned alignment ∧ b.aligned alignment ≤ 2 ^ 63 := by
  unfold StreamBuffer.aligned
  rcases power with rfl | ⟨k, hk, rfl⟩
  · rw [if_neg (Nat.lt_irrefl 0)]
    omega
  · rw [if_pos (Nat.two_pow_pos k)]
    exact alignUp_bounds h hk

theorem aligned_zero {b : StreamBuffer} (h : b.offset = 0) : b.aligned alignment = 0 := by
  unfold StreamBuffer.aligned
  rw [h]
  split_ifs
  · rw [alignUp, if_pos (Nat.zero_mod _)]
  · rfl

end

/-- The previous watches are those of `last`, and the ones before the cursor were waited for. -/
structure Watching (last : List Committed) (b : StreamBuffer) (scheduler : Scheduler) : Prop where
  watches : b.previousWatches.take last.length = last.map Committed.watch
  cursor : b.waitCursor ≤ last.length
  waited : ∀ c ∈ last.take b.waitCursor, c.tick ∈ scheduler.waited
  bound : b.waitBound = ((last.take b.waitCursor).getLast?.map Committed.stop).getD 0

section

variable {last : List Committed} {b : StreamBuffer} {scheduler : Scheduler}

theorem Watching.next (h : Watching last b scheduler) {c : Committed}
    (here : last[b.waitCursor]? = some c) : Watching last
      { b with waitBound := c.stop, waitCursor := b.waitCursor + 1 } (scheduler.wait c.tick) := by
  have inside := (List.getElem?_eq_some_iff.mp here).1
  have grown : last.take (b.waitCursor + 1) = last.take b.waitCursor ++ [c] := by
    rw [List.take_add_one, here]
    rfl
  refine ⟨h.watches, inside, fun d member => ?_, ?_⟩
  · rw [grown, List.mem_append, List.mem_singleton] at member
    rcases member with before | rfl
    · exact List.mem_cons_of_mem _ (h.waited d before)
    · exact List.mem_cons_self
  · rw [grown, List.getLast?_append]
    rfl

structure Waits (b b' : StreamBuffer) (scheduler scheduler' : Scheduler) : Prop where
  buffer : b' = { b with waitBound := b'.waitBound, waitCursor := b'.waitCursor }
  tick : scheduler.currentTick ≤ scheduler'.currentTick
  waited : scheduler.waited ⊆ scheduler'.waited

theorem Waits.refl (b : StreamBuffer) (scheduler : Scheduler) : Waits b b scheduler scheduler :=
  ⟨rfl, Nat.le_refl _, fun _ => id⟩

theorem waitLoop_returns {requested left : Nat} (h : Watching last b scheduler)
    (all : left = last.length - b.waitCursor) :
    ∃ b' scheduler', StreamBuffer.waitLoop requested left b scheduler = .ok (b', scheduler') ∧
      Watching last b' scheduler' ∧ Waits b b' scheduler scheduler' ∧
      (requested ≤ b'.waitBound ∨ b'.waitCursor = last.length) := by
  induction left generalizing b scheduler with
  | zero =>
    have done := h.cursor
    exact ⟨b, scheduler, rfl, h, .refl _ _, .inr (by omega)⟩
  | succ left ih =>
    by_cases more : requested > b.waitBound
    · have inside : b.waitCursor < last.length := by omega
      have here : last[b.waitCursor]? = some last[b.waitCursor] :=
        List.getElem?_eq_getElem inside
      have watch : b.previousWatches[b.waitCursor]? = some (last[b.waitCursor].watch) := by
        rw [← List.getElem?_take_of_lt inside, h.watches, List.getElem?_map, here]
        rfl
      have next := h.next here
      obtain ⟨b', scheduler', run, watching, waits, ends⟩ := ih next (by
        dsimp only
        omega)
      refine ⟨b', scheduler', ?_, watching, ⟨waits.buffer, ?_, fun t earlier => ?_⟩, ends⟩
      · rw [StreamBuffer.waitLoop, if_pos more, watch]
        exact run
      · have later := waits.tick
        simp only [Scheduler.wait] at later
        split_ifs at later
        · omega
        · exact later
      · exact waits.waited (List.mem_cons_of_mem _ earlier)
    · refine ⟨b, scheduler, ?_, h, .refl _ _, .inl (Nat.not_lt.mp more)⟩
      rw [StreamBuffer.waitLoop, if_neg more]

end

namespace Stream

structure Held (s : Stream) : Prop where
  size : s.buffer.streamBufferSize < 2 ^ 63
  inside : s.buffer.offset ≤ s.buffer.streamBufferSize
  room : s.mapped = true → s.buffer.offset + s.buffer.mappedSize ≤ s.buffer.streamBufferSize
  cursor : s.buffer.currentWatchCursor = s.now.length
  watches : s.buffer.currentWatches.take s.now.length = s.now.map Committed.watch
  below : ∀ c ∈ s.now, c.stop ≤ s.buffer.offset
  begun : s.now = [] → s.mapped = false → s.buffer.offset = 0
  ordered : ∀ cycle ∈ s.now :: s.past, cycle.Pairwise fun c d => c.stop ≤ d.start
  used : ∀ cycle ∈ s.past, cycle ≠ []
  ticks : (s.now :: s.past).Pairwise fun later earlier =>
    ∀ c ∈ later, ∀ d ∈ earlier, d.tick ≤ c.tick
  current : ∀ cycle ∈ s.now :: s.past, ∀ c ∈ cycle, c.tick ≤ s.scheduler.currentTick
  mark : s.buffer.invalidationMark = s.past.head?.map List.length
  watching : ∀ last ∈ s.past.head?, Watching last s.buffer s.scheduler

variable {s : Stream}

theorem Starts.held (h : Starts s) : Held s := by
  obtain ⟨size, tick, small, rfl⟩ := h
  exact {
    size := small
    inside := Nat.zero_le _
    room := nofun
    cursor := rfl
    watches := rfl
    below := nofun
    begun := fun _ _ => rfl
    ordered := by simp
    used := nofun
    ticks := List.pairwise_singleton _ _
    current := by simp
    mark := rfl
    watching := nofun }

theorem Held.wait (held : Held s) (requested : Nat) :
    ∃ b scheduler, s.buffer.waitPendingOperations s.scheduler requested = .ok (b, scheduler) ∧
      Waits s.buffer b s.scheduler scheduler ∧ Held { s with buffer := b, scheduler } ∧
      ∀ cycle ∈ s.past, ∀ c ∈ cycle, c.start < requested → ∃ w ∈ scheduler.waited, c.tick ≤ w := by
  obtain ⟨b, scheduler, now, past, mapped⟩ := s
  cases past with
  | nil =>
    have mark : b.invalidationMark = none := held.mark
    refine ⟨b, scheduler, ?_, .refl _ _, held, nofun⟩
    rw [StreamBuffer.waitPendingOperations, mark]
  | cons last older =>
    have mark : b.invalidationMark = some last.length := held.mark
    have watching : Watching last b scheduler := held.watching last rfl
    obtain ⟨b', scheduler', run, watching', waits, ends⟩ :=
      @waitLoop_returns _ _ _ requested _ watching rfl
    have run' : b.waitPendingOperations scheduler requested = .ok (b', scheduler') := by
      rw [StreamBuffer.waitPendingOperations, mark]
      exact run
    have same := waits.buffer
    refine ⟨b', scheduler', run', waits, ?_, ?_⟩
    · rw [same]
      exact { held with
        current := fun cycle member c hc =>
          Nat.le_trans (held.current cycle member c hc) waits.tick
        watching := fun cycle member => by
          cases member
          rw [← same]
          exact watching' }
    · have reached (low : 0 < requested) (i : Nat) (hi : i < last.length)
          (begins : last[i].start < requested) : last[i] ∈ last.take b'.waitCursor := by
        rcases ends with bound | done
        · by_contra beyond
          have later : b'.waitCursor ≤ i := by
            by_contra before
            exact beyond (List.mem_take_iff_getElem.mpr ⟨i, by omega, rfl⟩)
          rcases Nat.eq_zero_or_pos b'.waitCursor with none | pos
          · have zero := watching'.bound
            rw [none] at zero
            have zero : b'.waitBound = 0 := zero
            omega
          · have stop : b'.waitBound = last[b'.waitCursor - 1].stop := by
              rw [watching'.bound, List.getLast?_take, if_neg (by omega),
                List.getElem?_eq_getElem (by omega)]
              rfl
            have apart := List.pairwise_iff_getElem.mp (held.ordered last (by simp))
              (b'.waitCursor - 1) i (by omega) hi (by omega)
            omega
        · rw [done, List.take_length]
          exact List.getElem_mem hi
      rintro cycle member c hc begins
      rcases List.mem_cons.mp member with rfl | member
      · obtain ⟨i, hi, rfl⟩ := List.getElem_of_mem hc
        exact ⟨_, watching'.waited _ (reached (by omega) i hi begins), Nat.le_refl _⟩
      · have some_used := List.length_pos_iff.mpr (held.used last List.mem_cons_self)
        have ticks := (List.pairwise_cons.mp (List.pairwise_cons.mp held.ticks).2).1 cycle member
        have first : last[0] ∈ last.take b'.waitCursor := by
          rcases Nat.eq_zero_or_pos b'.waitCursor with none | pos
          · rcases ends with bound | done
            · have zero := watching'.bound
              rw [none] at zero
              have zero : b'.waitBound = 0 := zero
              omega
            · omega
          · exact List.mem_take_iff_getElem.mpr ⟨0, by omega, rfl⟩
        exact ⟨_, watching'.waited _ first, ticks _ (List.getElem_mem some_used) c hc⟩

theorem Held.mapped (held : Held s) {size : Nat}
    (fits : s.buffer.offset + size ≤ s.buffer.streamBufferSize) :
    ∃ b scheduler, s.buffer.waitPendingOperations s.scheduler (s.buffer.offset + size) =
        .ok (b, scheduler) ∧
      Held { s with buffer := b, scheduler } ∧ Safe { s with buffer := b, scheduler } size := by
  obtain ⟨b, scheduler, run, waits, held', free⟩ := held.wait (s.buffer.offset + size)
  have offset : b.offset = s.buffer.offset := by rw [waits.buffer]
  have total : b.streamBufferSize = s.buffer.streamBufferSize := by rw [waits.buffer]
  refine ⟨b, scheduler, run, held', ?_, ?_, ?_⟩
  · show b.offset + size ≤ b.streamBufferSize
    omega
  · rintro c hc ⟨x, _, before, after, _⟩
    have below : c.stop ≤ b.offset := held'.below c hc
    have after : b.offset ≤ x := after
    omega
  · rintro cycle member c hc ⟨x, after, _, _, before⟩ tick early
    have before : x < b.offset + size := before
    obtain ⟨w, waited, late⟩ := free cycle member c hc (by omega)
    exact ⟨w, waited, Nat.le_trans early late⟩

/-- The state after the wrap of `Map`. -/
theorem Held.invalidate (held : Held s) (used : s.now ≠ []) {size : Nat}
    (fits : size ≤ s.buffer.streamBufferSize) : Held { s with
      buffer := { s.buffer with mappedSize := size, offset := 0 }.invalidate
      now := []
      past := s.now :: s.past
      mapped := true } where
  size := held.size
  inside := Nat.zero_le _
  room _ := (Nat.zero_add size).symm ▸ fits
  cursor := rfl
  watches := rfl
  below := nofun
  begun _ := nofun
  ordered := by
    intro cycle member
    rcases List.mem_cons.mp member with rfl | member
    · exact List.Pairwise.nil
    · exact held.ordered cycle member
  used cycle member := by
    rcases List.mem_cons.mp member with rfl | member
    · exact used
    · exact held.used cycle member
  ticks := List.pairwise_cons.mpr ⟨fun _ _ => nofun, held.ticks⟩
  current cycle member := by
    rcases List.mem_cons.mp member with rfl | member
    · exact nofun
    · exact held.current cycle member
  mark := congrArg some held.cursor
  watching last member := by
    cases member
    exact ⟨held.watches, Nat.zero_le _, nofun, rfl⟩

section

variable {b : StreamBuffer} {scheduler : Scheduler} {size alignment : Nat}

theorem map_wraps (fits : size ≤ b.streamBufferSize)
    (beyond : add64 (b.aligned alignment) size > b.streamBufferSize) :
    b.map scheduler size alignment =
      StreamBuffer.mapHere (StreamBuffer.invalidate { b with
        mappedSize := size, offset := b.aligned alignment }) scheduler size true := by
  rw [StreamBuffer.map, assert_pos fits]
  exact if_pos beyond

theorem map_stays (fits : size ≤ b.streamBufferSize)
    (within : ¬ add64 (b.aligned alignment) size > b.streamBufferSize) :
    b.map scheduler size alignment =
      StreamBuffer.mapHere { b with mappedSize := size, offset := b.aligned alignment }
        scheduler size false := by
  rw [StreamBuffer.map, assert_pos fits]
  exact if_neg within

end

theorem Held.map (held : Held s) {size alignment : Nat}
    (allowed : s.Allowed (.map size alignment)) :
    ∃ s', s.run (.map size alignment) = .ok s' ∧ Held s' ∧ Safe s' size := by
  obtain ⟨unmapped, fits, power⟩ := allowed
  have small := held.size
  have inside := held.inside
  have offset_small : s.buffer.offset < 2 ^ 63 := by omega
  obtain ⟨low, high⟩ := aligned_bounds offset_small power
  have exact_sum : add64 (s.buffer.aligned alignment) size = s.buffer.aligned alignment + size :=
    Nat.mod_eq_of_lt (by omega)
  by_cases beyond : s.buffer.aligned alignment + size > s.buffer.streamBufferSize
  · -- An empty cycle begins at 0, where every size fits.
    have used : s.now ≠ [] := by
      intro empty
      have zero : s.buffer.aligned alignment = 0 := aligned_zero (held.begun empty unmapped)
      omega
    have whole : 0 + size ≤ s.buffer.streamBufferSize := by omega
    obtain ⟨b, scheduler, run, held', safe⟩ := (held.invalidate used fits).mapped whole
    have start : add64 0 size = 0 + size := Nat.mod_eq_of_lt (by omega)
    refine ⟨_, ?_, held', safe⟩
    rw [Stream.run, map_wraps fits (exact_sum ▸ beyond)]
    have mapped : StreamBuffer.mapHere (StreamBuffer.invalidate { s.buffer with
        mappedSize := size, offset := s.buffer.aligned alignment }) s.scheduler size true =
        .ok (true, b, scheduler) := by
      have wait : StreamBuffer.waitPendingOperations (StreamBuffer.invalidate { s.buffer with
          mappedSize := size, offset := s.buffer.aligned alignment }) s.scheduler
          (add64 0 size) = .ok (b, scheduler) := by
        rw [start]
        exact run
      exact bind_eq_ok.mpr ⟨_, wait, rfl⟩
    exact bind_eq_ok.mpr ⟨_, mapped, rfl⟩
  · have within := Nat.not_lt.mp beyond
    have held' : Held { s with
        buffer := { s.buffer with mappedSize := size, offset := s.buffer.aligned alignment }
        mapped := true } :=
      { held with
        inside := Nat.le_trans (Nat.le_add_right _ _) within
        room := fun _ => within
        below := fun c hc => Nat.le_trans (held.below c hc) low
        begun := fun _ => nofun
        watching := fun last member => by
          obtain ⟨watches, cursor, waited, bound⟩ := held.watching last member
          exact ⟨watches, cursor, waited, bound⟩ }
    obtain ⟨b, scheduler, run, held'', safe⟩ := held'.mapped within
    refine ⟨_, ?_, held'', safe⟩
    rw [Stream.run, map_stays fits (exact_sum ▸ beyond)]
    have mapped : StreamBuffer.mapHere { s.buffer with
        mappedSize := size, offset := s.buffer.aligned alignment } s.scheduler size false =
        .ok (false, b, scheduler) := by
      unfold StreamBuffer.mapHere
      rw [exact_sum]
      exact bind_eq_ok.mpr ⟨_, run, rfl⟩
    exact bind_eq_ok.mpr ⟨_, mapped, rfl⟩

theorem length_reserve (watches : List Watch) (growSize : Nat) :
    (StreamBuffer.reserveWatches watches growSize).length = watches.length + growSize := by
  rw [StreamBuffer.reserveWatches, List.length_append, List.length_replicate]

theorem Held.commit (held : Held s) {size : Nat}
    (allowed : s.Allowed (.commit size)) : ∃ s', s.run (.commit size) = .ok s' ∧ Held s' := by
  obtain ⟨mapped, fits⟩ := allowed
  have small := held.size
  have room := held.room mapped
  have cursor := held.cursor
  have exact_sum : add64 s.buffer.offset size = s.buffer.offset + size :=
    Nat.mod_eq_of_lt (by omega)
  set watches := if s.buffer.currentWatchCursor + 1 ≥ s.buffer.currentWatches.length then
    StreamBuffer.reserveWatches s.buffer.currentWatches watchesReserveChunk
    else s.buffer.currentWatches with watches_def
  have before : s.now.length ≤ s.buffer.currentWatches.length := by
    have lengths := congrArg List.length held.watches
    rw [List.length_take, List.length_map] at lengths
    omega
  have kept : watches.take s.now.length = s.now.map Committed.watch := by
    rw [← held.watches, watches_def]
    split_ifs
    · rw [StreamBuffer.reserveWatches, List.take_append_of_le_length before]
    · rfl
  have enough : s.buffer.currentWatchCursor < watches.length := by
    rw [watches_def]
    split_ifs with grown
    · rw [length_reserve, watchesReserveChunk]
      omega
    · omega
  set range : Committed := ⟨s.buffer.offset, s.buffer.offset + size, s.scheduler.currentTick⟩
    with range_def
  refine ⟨{ s with
    buffer := { s.buffer with
      offset := s.buffer.offset + size
      currentWatches := watches.set s.buffer.currentWatchCursor range.watch
      currentWatchCursor := s.buffer.currentWatchCursor + 1 }
    mapped := false
    now := s.now ++ [range] }, ?_, ?_⟩
  · rw [Stream.run, StreamBuffer.commit, assert_pos fits]
    simp only [← watches_def, enough, if_true, exact_sum, pure_eq_ok, ok_bind]
    rfl
  · exact {
      size := small
      inside := by
        show s.buffer.offset + size ≤ s.buffer.streamBufferSize
        omega
      room := nofun
      cursor := by
        rw [List.length_append, cursor]
        rfl
      watches := by
        rw [List.length_append, List.length_singleton, List.take_add_one, List.map_append, cursor,
          List.take_set_of_le (Nat.le_refl _), kept,
          List.getElem?_set_self (by rw [← cursor]; exact enough)]
        rfl
      below := fun c hc => by
        rcases List.mem_append.mp hc with hc | hc
        · exact Nat.le_trans (held.below c hc) (Nat.le_add_right _ _)
        · cases List.mem_singleton.mp hc
          exact Nat.le_refl _
      begun := fun empty => absurd empty (by simp)
      ordered := fun cycle member => by
        rcases List.mem_cons.mp member with rfl | member
        · rw [List.pairwise_append]
          refine ⟨held.ordered _ List.mem_cons_self, List.pairwise_singleton _ _,
            fun c hc d hd => ?_⟩
          cases List.mem_singleton.mp hd
          exact held.below c hc
        · exact held.ordered cycle (List.mem_cons_of_mem _ member)
      used := held.used
      ticks := by
        have ticks := List.pairwise_cons.mp held.ticks
        refine List.pairwise_cons.mpr ⟨fun cycle member c hc d hd => ?_, ticks.2⟩
        rcases List.mem_append.mp hc with hc | hc
        · exact ticks.1 cycle member c hc d hd
        · cases List.mem_singleton.mp hc
          exact held.current cycle (List.mem_cons_of_mem _ member) d hd
      current := fun cycle member c hc => by
        rcases List.mem_cons.mp member with rfl | member
        · rcases List.mem_append.mp hc with hc | hc
          · exact held.current _ List.mem_cons_self c hc
          · cases List.mem_singleton.mp hc
            exact Nat.le_refl _
        · exact held.current cycle (List.mem_cons_of_mem _ member) c hc
      mark := held.mark
      watching := fun last member => by
        obtain ⟨watches, cursor, waited, bound⟩ := held.watching last member
        exact ⟨watches, cursor, waited, bound⟩ }

theorem Held.advance (held : Held s) {tick : Nat}
    (allowed : s.Allowed (.advance tick)) : ∃ s', s.run (.advance tick) = .ok s' ∧ Held s' :=
  ⟨_, rfl, { held with
    current := fun cycle member c hc => Nat.le_trans (held.current cycle member c hc) allowed
    watching := fun last member => by
      obtain ⟨watches, cursor, waited, bound⟩ := held.watching last member
      exact ⟨watches, cursor, waited, bound⟩ }⟩

theorem Reachable.held (h : Reachable s) : Held s :=
  h.invariant (fun _ => Starts.held) fun s call s' held allowed run => by
    cases call with
    | map size alignment =>
      obtain ⟨t, run', held', _⟩ := held.map allowed
      cases run.symm.trans run'
      exact held'
    | commit size =>
      obtain ⟨t, run', held'⟩ := held.commit allowed
      cases run.symm.trans run'
      exact held'
    | advance tick =>
      obtain ⟨t, run', held'⟩ := held.advance allowed
      cases run.symm.trans run'
      exact held'

/-- In every run, `Map` returns a range that the GPU does not use any more. -/
theorem mapped_range_is_free {s : Stream} (h : Reachable s) {size alignment : Nat}
    (allowed : s.Allowed (.map size alignment)) :
    ∃ s', s.run (.map size alignment) = .ok s' ∧ Safe s' size := by
  obtain ⟨s', run, _, safe⟩ := h.held.map allowed
  exact ⟨s', run, safe⟩

def sixteenBytes : Stream :=
  { buffer := { streamBufferSize := 16 }, scheduler := { currentTick := 1 } }

/-- Twelve of sixteen bytes were committed in tick 1, and it is tick 2. -/
def twelveCommitted : Stream :=
  { sixteenBytes with
    buffer := { sixteenBytes.buffer with
      offset := 12, mappedSize := 12, currentWatchCursor := 1
      currentWatches := (List.replicate watchesInitialReserve {}).set 0 ⟨1, 12⟩ }
    scheduler := { currentTick := 2 }
    now := [⟨0, 12, 1⟩] }

theorem twelveCommitted_run : Reachable twelveCommitted := by
  have start : Reachable sixteenBytes := .start ⟨16, 1, by decide, rfl⟩
  have mapped : Reachable { sixteenBytes with
      buffer := { sixteenBytes.buffer with mappedSize := 12 }, mapped := true } :=
    start.step (a := Call.map 12 4) ⟨rfl, by decide, .inr ⟨2, by decide, rfl⟩⟩ rfl
  have committed : Reachable { twelveCommitted with scheduler := { currentTick := 1 } } :=
    mapped.step (a := Call.commit 12) ⟨rfl, Nat.le_refl 12⟩ (by
      have room : ¬ watchesInitialReserve ≤ 1 := by decide
      have first : 0 < watchesInitialReserve := by decide
      simp [run, StreamBuffer.commit, sixteenBytes, twelveCommitted, add64, room, first])
  exact committed.step (a := Call.advance 2) (show 1 ≤ 2 by decide) rfl

/-- The next eight bytes are at the start again, after the wait for tick 1. -/
theorem mapped_range_is_free_wrapped : ∃ s', twelveCommitted.run (.map 8 4) = .ok s' ∧
    s'.past = [[⟨0, 12, 1⟩]] ∧ s'.buffer.offset = 0 ∧ s'.Passed 1 := by
  obtain ⟨s', run, safe⟩ := @mapped_range_is_free _ twelveCommitted_run 8 4
    ⟨rfl, by decide, .inr ⟨2, by decide, rfl⟩⟩
  have value : (fun s : Stream => (s.past, s.buffer.offset)) <$> twelveCommitted.run (.map 8 4) =
      .ok ([[⟨0, 12, 1⟩]], 0) := rfl
  rw [run] at value
  obtain ⟨past, offset⟩ := Prod.mk.inj (Except.ok.inj value)
  have last : [⟨0, 12, 1⟩] ∈ s'.past := by
    rw [past]
    exact List.mem_cons_self
  have shares : Shares ⟨0, 12, 1⟩ s'.buffer.offset 8 := ⟨0, by rw [offset]; decide⟩
  exact ⟨s', run, past, offset, safe.passed _ last _ List.mem_cons_self shares 1 (Nat.le_refl 1)⟩

end Stream

end EmuThreeDS.Vulkan
