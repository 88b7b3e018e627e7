import EmuThreeDS.Kernel.MovedHandles

/-!
# Handles that are moved to an HLE service

The service gets the objects, in the order of the words. Again only the bare kind of a move closes
a handle of the client.
-/
namespace EmuThreeDS
open ForwardLoop IPC HandleTable

namespace HLE

variable {O M : Type} {sys : MemorySystem M} {call : RequestCall O} {t : HLERequest O M}
  {descriptor handle i lo n size : Nat} {o : O}

abbrev table (t : HLERequest O M) : HandleTable O := t.process.handleTable

def ClientNames (t : HLERequest O M) (handle : Nat) (object : O) : Prop :=
  handle ≠ currentThread ∧ handle ≠ currentProcess ∧ Names (table t) handle object

/-- The `n` words from `place` on are closed for the client, and the service has the objects. -/
def Moved (t u : HLERequest O M) (place n : Nat) : Prop :=
  ∀ k < n, ∀ o, ClientNames t (t.clientBuf (place + k)) o →
    (table u).isValid (t.clientBuf (place + k)) = false ∧
      u.requestHandles[u.cmdBuf (place + k)]? = some (some o)

/-- What a step may do to the client's table, the handles of the request and the words. -/
structure Effect (descriptor handle i : Nat) (t u : HLERequest O M) : Prop where
  table : table u = table t ∨ descriptor = DescriptorType.moveHandle.value ∧
    table u = ((table t).close handle).2
  appended : ∃ added, u.requestHandles = t.requestHandles ++ added
  words : ∀ k, k ≠ i → u.cmdBuf k = t.cmdBuf k
  client : u.clientBuf = t.clientBuf

theorem clientObject_effect : Effect descriptor handle i t
      (outcome (clientObject call descriptor handle) t).2 ∧
    (outcome (clientObject call descriptor handle) t).2.requestHandles = t.requestHandles := by
  have unchanged : Effect descriptor handle i t t :=
    ⟨.inl rfl, ⟨[], (List.append_nil _).symm⟩, fun _ _ => rfl, rfl⟩
  unfold clientObject
  by_cases zero : handle = 0
  · rw [if_neg (not_not.mpr zero)]
    exact ⟨unchanged, rfl⟩
  rw [if_pos zero, outcome_bind_ok outcome_get]
  by_cases known :
      ((table t).getGeneric handle call.currentThread call.currentProcess).isSome = true
  · rw [outcome_bind_ok (outcome_assert known)]
    by_cases bare : descriptor = DescriptorType.moveHandle.value
    · have closed : outcome (closeMoved descriptor handle) t = (.ok (), { t with
          process := { t.process with handleTable := ((table t).close handle).2 } }) := by
        rw [closeMoved, outcome_bind_ok outcome_get, if_pos bare]
        rfl
      rw [outcome_bind_ok closed]
      exact ⟨⟨.inr ⟨bare, rfl⟩, ⟨[], (List.append_nil _).symm⟩, fun _ _ => rfl, rfl⟩, rfl⟩
    · have open_left : outcome (closeMoved descriptor handle) t = (.ok (), t) := by
        rw [closeMoved, outcome_bind_ok outcome_get, if_neg bare]
        rfl
      rw [outcome_bind_ok open_left]
      exact ⟨unchanged, rfl⟩
  · have failed : outcome (MonadExcept.ofExcept (assert .commandBuffer
        (((table t).getGeneric handle call.currentThread call.currentProcess).isSome = true)) :
          HLE O M Unit) t = (.error (.assertion .commandBuffer), t) := by
      rw [outcome_ofExcept, assert, if_neg known]
    rw [outcome_bind_error failed]
    exact ⟨unchanged, rfl⟩

theorem populateHandle_effect :
    Effect descriptor (t.clientBuf i) i t (outcome (populateHandle call descriptor i) t).2 := by
  have read : outcome (readClient i) t =
      (.ok (t.clientBuf i), { t with touched := i :: t.touched }) := rfl
  obtain ⟨effect, same⟩ := @clientObject_effect O M call { t with touched := i :: t.touched }
    descriptor (t.clientBuf i) i
  unfold populateHandle
  rw [outcome_bind_ok read, outcome_bind]
  generalize outcome (clientObject call descriptor (t.clientBuf i))
    { t with touched := i :: t.touched } = result at effect same
  rcases result with ⟨e | object, u⟩
  · exact ⟨effect.table, effect.appended, effect.words, effect.client⟩
  · refine ⟨effect.table, ⟨[object], ?_⟩, fun k other => ?_, effect.client⟩
    · show u.requestHandles ++ [object] = _
      rw [show u.requestHandles = t.requestHandles from same]
    · exact (Function.update_of_ne other ..).trans (effect.words k other)

theorem populateHandle_moves (names : ClientNames t (t.clientBuf i) o) (sound : Sound (table t)) :
    ∃ u, outcome (populateHandle call DescriptorType.moveHandle.value i) t = (.ok (), u) ∧
      table u = ((table t).close (t.clientBuf i)).2 ∧
      u.requestHandles[u.cmdBuf i]? = some (some o) := by
  obtain ⟨thread, owner, names⟩ := names
  have object := getGeneric_of_names names thread owner call.currentThread call.currentProcess
  have read : outcome (readClient i) t =
      (.ok (t.clientBuf i), { t with touched := i :: t.touched }) := rfl
  have closed : outcome (clientObject call DescriptorType.moveHandle.value (t.clientBuf i))
      { t with touched := i :: t.touched } = (.ok (some o), { t with
        touched := i :: t.touched
        process := { t.process with handleTable := ((table t).close (t.clientBuf i)).2 } }) := by
    unfold clientObject
    rw [if_pos (names.ne_zero sound), outcome_bind_ok outcome_get]
    dsimp only
    rw [object]
    rfl
  refine ⟨_, (outcome_bind_ok read).trans (outcome_bind_ok closed), rfl, ?_⟩
  show (t.requestHandles ++ [some o])[Function.update t.cmdBuf i t.requestHandles.length i]? = _
  rw [Function.update_self, List.getElem?_concat_length]

/-- Handles are closed only by a bare descriptor, and the rest of the request only grows. -/
structure Effects (descriptor i n : Nat) (t u : HLERequest O M) : Prop where
  sound : Sound (table t) → Sound (table u)
  kept : ∀ x o, Names (table t) x o → Names (table u) x o ∨
    descriptor = DescriptorType.moveHandle.value ∧ ∃ k < n, Alike x (t.clientBuf (i + k))
  former : ∀ x o, Names (table u) x o → Names (table t) x o
  appended : ∃ added, u.requestHandles = t.requestHandles ++ added
  words : ∀ k < i, u.cmdBuf k = t.cmdBuf k
  client : u.clientBuf = t.clientBuf

theorem Effects.refl : Effects descriptor i n t t where
  sound := id
  kept _ _ := .inl
  former _ _ := id
  appended := ⟨[], (List.append_nil _).symm⟩
  words _ _ := rfl
  client := rfl

theorem Effect.effects {u : HLERequest O M} (h : Effect descriptor (t.clientBuf i) i t u) :
    Effects descriptor i (n + 1) t u where
  sound sound := by
    rcases h.table with same | ⟨_, closed⟩
    · rwa [same]
    · rw [closed]
      exact sound.close _
  kept x o names := by
    rcases h.table with same | ⟨bare, closed⟩
    · rw [same]
      exact .inl names
    · rw [closed, names_close]
      by_cases alike : Alike x (t.clientBuf i)
      · exact .inr ⟨bare, 0, n.succ_pos, alike⟩
      · exact .inl ⟨names, alike⟩
  former x o names := by
    rcases h.table with same | ⟨_, closed⟩
    · rwa [same] at names
    · rw [closed] at names
      exact (names_close.mp names).1
  appended := h.appended
  words k before := h.words k (by omega)
  client := h.client

theorem populateHandles_effects :
    Effects descriptor i n t (outcome (populateHandles call descriptor n i) t).2 := by
  induction n generalizing i t with
  | zero => exact .refl
  | succ n ih =>
    have first := @populateHandle_effect O M call t descriptor i
    rw [populateHandles, outcome_bind]
    generalize outcome (populateHandle call descriptor i) t = result at first
    rcases result with ⟨e | done, u⟩
    · exact first.effects
    have whole : Effects descriptor i (n + 1) t u := first.effects
    have rest := ih (i := i + 1) (t := u)
    obtain ⟨added, appended⟩ := whole.appended
    obtain ⟨more, appended'⟩ := rest.appended
    refine ⟨fun sound => rest.sound (whole.sound sound), fun x o names => ?_,
      fun x o names => whole.former x o (rest.former x o names),
      ⟨added ++ more, ?_⟩, fun k before => ?_, rest.client.trans whole.client⟩
    · rcases whole.kept x o names with names | closed
      · refine (rest.kept x o names).imp_right ?_
        rintro ⟨bare, k, below, alike⟩
        rw [whole.client, Nat.add_right_comm] at alike
        exact ⟨bare, k + 1, by omega, alike⟩
      · exact .inr closed
    · rw [← List.append_assoc, ← appended]
      exact appended'
    · exact (rest.words k (by omega)).trans (whole.words k before)

structure HandleTurn (t u : HLERequest O M) (place n descriptor : Nat) : Prop where
  kept : ∀ x o, Names (table t) x o → Names (table u) x o ∨
    descriptor = DescriptorType.moveHandle.value ∧ ∃ k < n, Alike x (t.clientBuf (place + k))
  former : ∀ x o, Names (table u) x o → Names (table t) x o
  copied : getDescriptorType descriptor = .copyHandle → ∀ k < n, ∀ o,
    ClientNames t (t.clientBuf (place + k)) o → ClientNames u (t.clientBuf (place + k)) o
  moved : getDescriptorType descriptor = .moveHandle → (Moved t u place n ↔
    (∀ k < n, ∀ o, ¬ ClientNames t (t.clientBuf (place + k)) o) ∨
      descriptor = DescriptorType.moveHandle.value)

theorem handleTurn_of_populate (sound : Sound (table t)) :
    HandleTurn t (outcome (populateHandles call descriptor (handleNumberFromDesc descriptor) i) t).2
      i (handleNumberFromDesc descriptor) descriptor := by
  have effects := @populateHandles_effects O M call t descriptor i (handleNumberFromDesc descriptor)
  have stays : descriptor ≠ DescriptorType.moveHandle.value → ∀ x o, Names (table t) x o →
      Names (table (outcome (populateHandles call descriptor (handleNumberFromDesc descriptor) i)
        t).2) x o :=
    fun other x o names => (effects.kept x o names).resolve_right fun both => other both.1
  refine ⟨effects.kept, effects.former, fun type k below o names => ?_, fun type => ?_⟩
  · refine ⟨names.1, names.2.1, stays ?_ _ o names.2.2⟩
    rintro rfl
    cases type
  · by_cases bare : descriptor = DescriptorType.moveHandle.value
    · refine iff_of_true ?_ (.inr bare)
      subst bare
      intro k below o names
      obtain rfl : k = 0 := Nat.lt_one_iff.mp below
      obtain ⟨u, run, closed, received⟩ := @populateHandle_moves O M call t i o names sound
      have all : outcome (populateHandles call DescriptorType.moveHandle.value
          (handleNumberFromDesc DescriptorType.moveHandle.value) i) t = (.ok (), u) :=
        outcome_bind_ok run
      rw [all]
      exact ⟨closed ▸ close_invalid, received⟩
    · rw [or_iff_left bare]
      constructor
      · intro moved k below o names
        have closed := (moved k below o names).1
        rw [(stays bare _ o names.2.2).1] at closed
        cases closed
      · intro none k below o names
        exact absurd names (none k below o)

theorem populateOperands_handles (handles : Handles descriptor) :
    (populateOperands sys call size descriptor i : HLE O M (ResultVal Nat)) = do
      MonadExcept.ofExcept (assert .commandBuffer (i + handleNumberFromDesc descriptor ≤ size))
      populateHandles call descriptor (handleNumberFromDesc descriptor) i
      return .ok (i + handleNumberFromDesc descriptor) := by
  unfold populateOperands
  rcases handles with type | type <;> rw [type]

theorem populate_turn (handles : Handles (t.clientBuf i))
    (fits : i + 1 + handleNumberFromDesc (t.clientBuf i) ≤ size) :
    (outcome (populateDescriptor sys call size i) t).2 =
        (outcome (populateHandles call (t.clientBuf i) (handleNumberFromDesc (t.clientBuf i))
          (i + 1)) { t with
            touched := i :: i :: t.touched
            cmdBuf := Function.update t.cmdBuf i (t.clientBuf i) }).2 ∧
      ∀ next, (outcome (populateDescriptor sys call size i) t).1 = .ok (.ok next) →
        next = i + 1 + handleNumberFromDesc (t.clientBuf i) := by
  rw [outcome_populateDescriptor, populateOperands_handles handles,
    outcome_bind_ok (outcome_assert fits), outcome_bind]
  rcases outcome (populateHandles call (t.clientBuf i) _ (i + 1)) _ with ⟨e | done, u⟩
  · exact ⟨rfl, nofun⟩
  · refine ⟨rfl, fun next run => ?_⟩
    cases run
    rfl

def view (lo : Nat) (t : HLERequest O M) : HandleTable O × List (Option O) × (Nat → Nat) :=
  (table t, t.requestHandles, fun k => if k < lo then t.cmdBuf k else 0)

theorem leaves_writeCommand {value : Nat} (h : lo ≤ i) :
    Leaves (view lo) (writeCommand i value : HLE O M Unit) := by
  refine leaves_modify fun s => Prod.ext rfl (Prod.ext rfl (funext fun k => ?_))
  by_cases below : k < lo
  · have other : k ≠ i := by omega
    show (if k < lo then Function.update s.cmdBuf i value k else 0) = if k < lo then _ else _
    rw [Function.update_of_ne other]
  · show (if k < lo then _ else 0) = if k < lo then _ else 0
    rw [if_neg below, if_neg below]

theorem leaves_readClient : Leaves (view lo) (readClient i : HLE O M Nat) := fun _ => rfl

theorem leaves_recordWords : Leaves (view lo) (recordWords call size : HLE O M Unit) :=
  leaves_ite (fun _ => rfl) (leaves_pure _)

theorem leaves_readBlock {process address : Nat} :
    Leaves (view lo) (readBlock sys process address size : HLE O M (List UInt8)) := by
  refine leaves_bind leaves_get fun s => leaves_bind (leaves_ofExcept _) fun result => ?_
  exact leaves_bind (fun _ => rfl) fun _ => leaves_pure _

theorem leaves_populateOperands (h : lo ≤ i) (other : ¬ Handles descriptor) :
    Leaves (view lo) (populateOperands sys call size descriptor i : HLE O M (ResultVal Nat)) := by
  unfold populateOperands
  cases type : getDescriptorType descriptor with
  | copyHandle => exact absurd (.inl type) other
  | moveHandle => exact absurd (.inr type) other
  | callingPid =>
    refine leaves_bind leaves_get fun _ => leaves_bind (leaves_writeCommand h) fun _ => ?_
    exact leaves_pure _
  | staticBuffer =>
    refine leaves_bind leaves_readClient fun _ => leaves_bind ?_ fun _ => leaves_pure _
    refine leaves_bind leaves_readBlock fun _ => leaves_bind (fun _ => rfl) fun _ => ?_
    exact leaves_writeCommand h
  | mappedBuffer =>
    refine leaves_bind leaves_readClient fun _ => leaves_bind ?_ fun _ => leaves_pure _
    refine leaves_bind leaves_get fun _ => leaves_bind (fun _ => rfl) fun _ => ?_
    exact leaves_writeCommand h
  | pxiBuffer | unnamed => exact leaves_pure _

theorem keeps_turn {Seen : HandleTable O × List (Option O) × (Nat → Nat) → Prop} (later : lo ≤ i)
    (many : ∀ descriptor, Keeps (fun t => Seen (view lo t)) (populateHandles call descriptor
      (handleNumberFromDesc descriptor) (i + 1) : HLE O M Unit)) :
    Keeps (fun t => Seen (view lo t)) (populateDescriptor sys call size i) := by
  refine keeps_bind (leaves_readClient.keeps Seen) fun descriptor => ?_
  refine keeps_bind ((leaves_writeCommand later).keeps Seen) fun _ => ?_
  by_cases handles : Handles descriptor
  · rw [populateOperands_handles handles]
    exact keeps_bind (keeps_ofExcept _) fun _ => keeps_bind (many descriptor) fun _ => keeps_pure _
  · exact (leaves_populateOperands (by omega) handles).keeps Seen

theorem keeps_sound : Keeps (fun t => Sound (table t)) (populateDescriptor sys call size i :
    HLE O M (ResultVal Nat)) := by
  refine @keeps_turn O M sys call i 0 size (fun seen => Sound seen.1) (Nat.zero_le i) ?_
  intro descriptor t sound
  exact populateHandles_effects.sound sound

section

variable {x k id : Nat}

/-- The handle `x` is closed for the client, and the word `k` is the place of the object. -/
structure Settled (x k id : Nat) (o : O)
    (seen : HandleTable O × List (Option O) × (Nat → Nat)) : Prop where
  closed : seen.1.isValid x = false
  received : seen.2.1[id]? = some (some o)
  placed : seen.2.2 k = id

theorem settled_view (below : k < lo) : Settled x k id o (view lo t) ↔
    (table t).isValid x = false ∧ t.requestHandles[id]? = some (some o) ∧ t.cmdBuf k = id := by
  have seen : (view lo t).2.2 k = t.cmdBuf k := if_pos below
  exact ⟨fun h => ⟨h.closed, h.received, seen ▸ h.placed⟩,
    fun ⟨closed, received, placed⟩ => ⟨closed, received, seen.trans placed⟩⟩

theorem keeps_settled (below : k < lo) (later : lo ≤ i) :
    Keeps (fun t => Settled x k id o (view lo t)) (populateDescriptor sys call size i) := by
  refine keeps_turn later ?_
  intro descriptor t settled
  obtain ⟨closed, received, same⟩ := (settled_view below).mp settled
  have effects := @populateHandles_effects O M call t descriptor (i + 1)
    (handleNumberFromDesc descriptor)
  refine (settled_view below).mpr ⟨?_, ?_, (effects.words k (by omega)).trans same⟩
  · exact invalid_of_former (effects.former x) closed
  · obtain ⟨added, appended⟩ := effects.appended
    rw [appended, List.getElem?_append_left (List.getElem?_eq_some_iff.mp received).1]
    exact received

theorem settled_final {s u : HLERequest O M} {first j : Nat} (below : k < lo)
    (visits : Visits (populateDescriptor sys call size) size first s j u) (inside : j < size)
    (later : ∀ next, (outcome (populateDescriptor sys call size j) u).1 = .ok (.ok next) →
      lo ≤ next)
    (settled : Settled x k id o (view lo (outcome (populateDescriptor sys call size j) u).2)) :
    Settled x k id o (view lo (outcome (populateStarted sys call first size) s).2) := by
  have looped : Settled x k id o (view lo (outcome (loop .outOfFuel
      (populateDescriptor sys call size) size (size + 1) first) s).2) :=
    visits.final forward_populateDescriptor inside
      (fun next run i after => keeps_settled below ((later next run).trans after)) settled
      (by omega)
  unfold populateStarted
  rw [outcome_bind]
  generalize outcome (loop Fault.outOfFuel (populateDescriptor sys call size) size (size + 1)
    first) s = result at looped
  rcases result with ⟨e | answer, v⟩
  · exact looped
  · exact (leaves_bind leaves_recordWords fun _ => leaves_pure answer).keeps
      (Settled x k id o) v looped

end
section

variable {s : HLERequest O M} {first j : Nat}

theorem leaves_startPopulate : Leaves table (startPopulate call : HLE O M (Nat × Nat)) := by
  refine leaves_bind (fun _ => rfl) fun _ => leaves_bind (leaves_ofExcept _) fun sizes => ?_
  refine leaves_bind (fun _ => rfl) fun _ => leaves_bind (fun _ => rfl) fun _ => ?_
  exact leaves_bind (leaves_ite (fun _ => rfl) (leaves_pure _)) fun _ => leaves_pure _

theorem populate_turn_other (other : ¬ (Handles (t.clientBuf j) ∧
      j + 1 + handleNumberFromDesc (t.clientBuf j) ≤ size)) :
    table (outcome (populateDescriptor sys call size j) t).2 = table t := by
  rw [outcome_populateDescriptor]
  by_cases handles : Handles (t.clientBuf j)
  · rw [populateOperands_handles handles, assert, if_neg fun fits => other ⟨handles, fits⟩]
    rfl
  · exact congrArg Prod.fst (leaves_populateOperands (Nat.zero_le _) handles _)

theorem moved_final (visits : Visits (populateDescriptor sys call size) size first s j t)
    (inside : j < size) (handles : Handles (t.clientBuf j))
    (fits : j + 1 + handleNumberFromDesc (t.clientBuf j) ≤ size)
    (moved : Moved t (outcome (populateDescriptor sys call size j) t).2 (j + 1)
      (handleNumberFromDesc (t.clientBuf j))) :
    Moved t (outcome (populateStarted sys call first size) s).2 (j + 1)
      (handleNumberFromDesc (t.clientBuf j)) := by
  intro k below o names
  obtain ⟨closed, received⟩ := moved k below o names
  have before : j + 1 + k < j + 1 + handleNumberFromDesc (t.clientBuf j) := by omega
  obtain ⟨closed', received', same⟩ := (settled_view before).mp (settled_final before visits inside
    (fun next run => le_of_eq ((populate_turn handles fits).2 next run).symm)
    ((settled_view before).mpr ⟨closed, received, rfl⟩))
  exact ⟨closed', same ▸ received'⟩

theorem handleTurn_of_turn (sound : Sound (table t)) (handles : Handles (t.clientBuf j))
    (fits : j + 1 + handleNumberFromDesc (t.clientBuf j) ≤ size) :
    HandleTurn t (outcome (populateDescriptor sys call size j) t).2 (j + 1)
      (handleNumberFromDesc (t.clientBuf j)) (t.clientBuf j) := by
  rw [(populate_turn handles fits).1]
  have turn := @handleTurn_of_populate O M call { t with
    touched := j :: j :: t.touched
    cmdBuf := Function.update t.cmdBuf j (t.clientBuf j) } (t.clientBuf j) (j + 1) sound
  exact ⟨turn.kept, turn.former, turn.copied, turn.moved⟩

end
end HLE

/-- For every turn of a command that comes to it: where its handles fit, a move leaves them closed
and passes their objects on just if the descriptor is the bare kind of a move and the target has
room, or names nothing; a copy closes nothing; and no turn does anything else to a table. -/
theorem handles_moved_iff {O M : Type} (sys : MemorySystem M) :
    (∀ (call : TranslateCall O) (s s' : Translation O M) (first size j : Nat)
        (t : Translation O M), (∀ p, Built (Translate.table s p)) →
      outcome (Translate.loadCommand sys call) s = (.ok (first, size), s') →
      Visits (Translate.translateDescriptor sys call size) size first s' j t → j < size →
      if (getDescriptorType (t.cmdBuf j) = .copyHandle ∨
          getDescriptorType (t.cmdBuf j) = .moveHandle) ∧
            j + 1 + handleNumberFromDesc (t.cmdBuf j) ≤ size then
        ∃ u, outcome (Translate.translateDescriptor sys call size j) t =
            (.ok (.ok (j + 1 + handleNumberFromDesc (t.cmdBuf j))), u) ∧
          Translate.HandleTurn call t u (j + 1) (handleNumberFromDesc (t.cmdBuf j)) (t.cmdBuf j) ∧
          (call.srcProcess ≠ call.dstProcess →
            Translate.Moved call t u (j + 1) (handleNumberFromDesc (t.cmdBuf j)) →
            Translate.Moved call t (outcome (Translate.translateCommandBuffer sys call) s).2
              (j + 1) (handleNumberFromDesc (t.cmdBuf j)))
      else Translate.table (outcome (Translate.translateDescriptor sys call size j) t).2 =
        Translate.table t) ∧ (∀ (call : RequestCall O) (s s' : HLERequest O M) (first size j : Nat)
        (t : HLERequest O M), Built (HLE.table s) →
      outcome (HLE.startPopulate call) s = (.ok (first, size), s') →
      Visits (HLE.populateDescriptor sys call size) size first s' j t → j < size →
      if (getDescriptorType (t.clientBuf j) = .copyHandle ∨
          getDescriptorType (t.clientBuf j) = .moveHandle) ∧
            j + 1 + handleNumberFromDesc (t.clientBuf j) ≤ size then
        HLE.HandleTurn t (outcome (HLE.populateDescriptor sys call size j) t).2 (j + 1)
          (handleNumberFromDesc (t.clientBuf j)) (t.clientBuf j) ∧
        (HLE.Moved t (outcome (HLE.populateDescriptor sys call size j) t).2 (j + 1)
            (handleNumberFromDesc (t.clientBuf j)) →
          HLE.Moved t (outcome (HLE.populateFromIncomingCommandBuffer sys call) s).2 (j + 1)
            (handleNumberFromDesc (t.clientBuf j)))
      else HLE.table (outcome (HLE.populateDescriptor sys call size j) t).2 = HLE.table t) := by
  constructor
  · intro call s s' first size j t built loaded visits inside
    have same : Translate.table s' = Translate.table s := by
      have left := @Translate.leaves_loadCommand O M sys call s
      rw [loaded] at left
      exact congrArg Prod.fst left
    have start : ∀ p, Sound (Translate.table s' p) := fun p => same ▸ (built p).sound
    have sound := visits.keeps (fun _ => Translate.keeps_sound) start
    split_ifs with turn
    · obtain ⟨handles, fits⟩ := turn
      obtain ⟨u, run, operands⟩ := Translate.turn_handles sound handles fits
      have effect := @Translate.handleTurn_of_run O M call { t with touched := j :: t.touched }
        (t.cmdBuf j) (j + 1) u sound operands
      refine ⟨u, run, ⟨effect.changes, effect.copied, effect.moved⟩, fun apart moved => ?_⟩
      rw [Translate.translateCommandBuffer, outcome_bind_ok loaded]
      exact Translate.moved_final apart visits inside run effect.changes.sound moved
    · exact Translate.turn_other turn
  · intro call s s' first size j t built loaded visits inside
    have same : HLE.table s' = HLE.table s := by
      have left := @HLE.leaves_startPopulate O M call s
      rwa [loaded] at left
    have start : Sound (HLE.table s') := same ▸ built.sound
    have sound := visits.keeps (fun _ => HLE.keeps_sound) start
    split_ifs with turn
    · obtain ⟨handles, fits⟩ := turn
      refine ⟨HLE.handleTurn_of_turn sound handles fits, fun moved => ?_⟩
      rw [HLE.populateFromIncomingCommandBuffer, outcome_bind_ok loaded]
      exact HLE.moved_final visits inside handles fits moved
    · exact HLE.populate_turn_other turn

def twoIssued : HandleTable Unit := ((new.create ()).2.create ()).2

def commandWith (words : List Nat) : Translation Unit (List UInt8) :=
  { commandAt words with
    processes := fun p =>
      if p = 0 then { someProcess 0 with handleTable := twoIssued } else someProcess p }

theorem commandWith_built (words : List Nat) (p : Nat) :
    Built (Translate.table (commandWith words) p) := by
  by_cases first : p = 0
  · subst first
    exact ⟨_, .step (a := Call.create ())
      (.step (a := Call.create ()) (.start rfl) trivial rfl) trivial rfl⟩
  · have unused : Translate.table (commandWith words) p = new :=
      congrArg IpcProcess.handleTable (if_neg first)
    rw [unused]
    exact ⟨[], .start rfl⟩

/-- One handle is moved. -/
theorem handles_moved_bare : ∃ t, outcome (Translate.loadCommand flatMemory someCall)
      (commandWith [2, 0x10, 1]) = (.ok (1, 3), t) ∧
    Translate.Moved someCall t (outcome (Translate.translateCommandBuffer flatMemory someCall)
      (commandWith [2, 0x10, 1])).2 2 1 := by
  have loaded : outcome (Translate.loadCommand flatMemory someCall) (commandWith [2, 0x10, 1]) =
      (.ok (1, 3), _) := rfl
  refine ⟨_, loaded, ?_⟩
  have turn := (handles_moved_iff flatMemory).1 someCall _ _ 1 3 1 _
    (commandWith_built [2, 0x10, 1]) loaded .here (by decide)
  obtain ⟨u, _, effect, final⟩ := turn
  refine final (by decide) ((effect.moved rfl).mpr (.inr ⟨rfl, ?_⟩))
  rw [Translate.Room]
  decide +kernel

/-- A move of two handles leaves both open. -/
theorem handles_moved_fails : ∃ t, outcome (Translate.loadCommand flatMemory someCall)
      (commandWith [3, 0x04000010, 1, 0x8002]) = (.ok (1, 4), t) ∧
    getDescriptorType (t.cmdBuf 1) = .moveHandle ∧ handleNumberFromDesc (t.cmdBuf 1) = 2 ∧
    (∀ k < 2, (Translate.table (outcome (Translate.translateCommandBuffer flatMemory someCall)
      (commandWith [3, 0x04000010, 1, 0x8002])).2 someCall.srcProcess).isValid
        (t.cmdBuf (2 + k)) = true) ∧
    ¬ Translate.Moved someCall t (outcome (Translate.translateCommandBuffer flatMemory someCall)
      (commandWith [3, 0x04000010, 1, 0x8002])).2 2 2 := by
  have loaded : outcome (Translate.loadCommand flatMemory someCall)
      (commandWith [3, 0x04000010, 1, 0x8002]) = (.ok (1, 4), _) := rfl
  refine ⟨_, loaded, by decide +kernel, by decide +kernel, by decide +kernel, fun moved => ?_⟩
  have closed := (moved 0 (by decide) () ⟨by decide +kernel, by decide +kernel, rfl, rfl⟩).1
  revert closed
  decide +kernel

end EmuThreeDS
