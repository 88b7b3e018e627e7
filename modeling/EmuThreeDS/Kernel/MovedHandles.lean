import EmuThreeDS.Kernel.CommandBounds
import EmuThreeDS.Kernel.IssuedHandles

/-!
# Handles that are copied and moved

A turn with a handle descriptor closes handles of the source and creates handles in the target.
Only a descriptor that is the bare kind of a move closes anything, so a move of several handles
leaves all of them open.
-/
namespace EmuThreeDS
open ForwardLoop IPC HandleTable

/-- Words that are followed by handles. -/
abbrev IPC.Handles (descriptor : Nat) : Prop :=
  getDescriptorType descriptor = .copyHandle ∨ getDescriptorType descriptor = .moveHandle

theorem HandleTable.Names.ne_zero {O : Type} {t : HandleTable O} {handle : Nat} {o : O}
    (names : Names t handle o) (sound : Sound t) : handle ≠ 0 := by
  rintro rfl
  have valid := names.1
  rw [sound.zero_invalid] at valid
  cases valid

theorem HandleTable.invalid_of_former {O : Type} {t u : HandleTable O} {handle : Nat}
    (former : ∀ o, Names u handle o → Names t handle o) (closed : t.isValid handle = false) :
    u.isValid handle = false := by
  apply eq_false_of_ne_true
  intro valid
  obtain ⟨o, names⟩ := valid_iff_names.mp valid
  rw [(former o names).1] at closed
  cases closed

namespace Translate

variable {O M : Type} {sys : MemorySystem M} {call : TranslateCall O} {t : Translation O M}
  {descriptor handle process i lo n : Nat}

def table (t : Translation O M) (process : Nat) : HandleTable O :=
  (t.processes process).handleTable

def operandObject (call : TranslateCall O) (table : HandleTable O) (handle : Nat) : Option O :=
  if handle = currentThread then some call.srcThread
  else if handle = currentProcess then some call.srcProcessObject
  else if handle ≠ 0 then table.getGeneric handle call.currentThread call.currentProcess
  else none

def Closing (descriptor handle : Nat) : Prop :=
  descriptor = DescriptorType.moveHandle.value ∧ handle ≠ currentThread ∧
    handle ≠ currentProcess ∧ handle ≠ 0

instance : Decidable (Closing descriptor handle) := by
  unfold Closing
  infer_instance

def closedTables (call : TranslateCall O) (tables : Nat → HandleTable O)
    (descriptor handle : Nat) : Nat → HandleTable O :=
  if Closing descriptor handle then
    Function.update tables call.srcProcess ((tables call.srcProcess).close handle).2
  else tables

def afterHandle (call : TranslateCall O) (tables : Nat → HandleTable O)
    (descriptor handle : Nat) : (Nat → HandleTable O) × Nat :=
  let closed := closedTables call tables descriptor handle
  match operandObject call (tables call.srcProcess) handle with
  | none => (closed, 0)
  | some object =>
    (Function.update closed call.dstProcess ((closed call.dstProcess).create object).2,
      match ((closed call.dstProcess).create object).1 with
      | .ok handle => handle
      | .error _ => 0)

theorem table_setHandleTable {value : HandleTable O} :
    table (outcome (setHandleTable process value : Translate O M Unit) t).2 =
      Function.update (table t) process value := by
  funext p
  show (Function.update t.processes process _ p).handleTable = _
  by_cases same : p = process
  · subst same
    rw [Function.update_self, Function.update_self]
  · rw [Function.update_of_ne same, Function.update_of_ne same]
    rfl

theorem closedTables_closing {tables : Nat → HandleTable O} (h : Closing descriptor handle) :
    closedTables call tables descriptor handle =
      Function.update tables call.srcProcess ((tables call.srcProcess).close handle).2 := if_pos h

theorem closedTables_open {tables : Nat → HandleTable O} (h : ¬ Closing descriptor handle) :
    closedTables call tables descriptor handle = tables := if_neg h

theorem outcome_sourceObject : ∃ u, outcome (sourceObject call descriptor handle) t =
      (.ok (operandObject call (table t call.srcProcess) handle), u) ∧
    table u = closedTables call (table t) descriptor handle ∧ u.cmdBuf = t.cmdBuf := by
  unfold sourceObject operandObject
  by_cases thread : handle = currentThread
  · rw [if_pos thread, if_pos thread, closedTables_open fun closing => closing.2.1 thread]
    exact ⟨t, rfl, rfl, rfl⟩
  rw [if_neg thread, if_neg thread]
  by_cases owner : handle = currentProcess
  · rw [if_pos owner, if_pos owner, closedTables_open fun closing => closing.2.2.1 owner]
    exact ⟨t, rfl, rfl, rfl⟩
  rw [if_neg owner, if_neg owner]
  by_cases zero : handle = 0
  · rw [if_neg (not_not.mpr zero), if_neg (not_not.mpr zero),
      closedTables_open fun closing => closing.2.2.2 zero]
    exact ⟨t, rfl, rfl, rfl⟩
  rw [if_pos zero, if_pos zero]
  by_cases bare : descriptor = DescriptorType.moveHandle.value
  · rw [closedTables_closing ⟨bare, thread, owner, zero⟩]
    refine ⟨_, ?_, table_setHandleTable, rfl⟩
    unfold closeMoved
    rw [if_pos bare]
    rfl
  · rw [closedTables_open fun closing => bare closing.1]
    refine ⟨t, ?_, rfl, rfl⟩
    unfold closeMoved
    rw [if_neg bare]
    rfl

theorem outcome_translateHandle : ∃ u, outcome (translateHandle call descriptor i) t = (.ok (), u) ∧
    table u = (afterHandle call (table t) descriptor (t.cmdBuf i)).1 ∧
    u.cmdBuf = Function.update t.cmdBuf i
      (afterHandle call (table t) descriptor (t.cmdBuf i)).2 := by
  have read : outcome (readWord i) t = (.ok (t.cmdBuf i), { t with touched := i :: t.touched }) :=
    rfl
  obtain ⟨u, run, tables, words⟩ :=
    @outcome_sourceObject O M call { t with touched := i :: t.touched } descriptor (t.cmdBuf i)
  have same : table { t with touched := i :: t.touched } = table t := rfl
  rw [same] at run tables
  unfold translateHandle afterHandle
  rw [outcome_bind_ok read, outcome_bind_ok run]
  cases operandObject call (table t call.srcProcess) (t.cmdBuf i) with
  | none =>
    refine ⟨_, rfl, tables, ?_⟩
    rw [← show u.cmdBuf = t.cmdBuf from words]
  | some object =>
    have created : table (outcome (create call.dstProcess object) u).2 =
        Function.update (table u) call.dstProcess
          ((table u call.dstProcess).create object).2 := table_setHandleTable
    refine ⟨_, rfl, ?_, ?_⟩
    · rw [tables] at created
      exact created
    · rw [← tables, ← show u.cmdBuf = t.cmdBuf from words]
      rfl

section

variable {tables : Nat → HandleTable O} {x : Nat} {o : O}

theorem names_closedTables : Names (closedTables call tables descriptor handle process) x o ↔
    Names (tables process) x o ∧
      ¬ (process = call.srcProcess ∧ Closing descriptor handle ∧ Alike x handle) := by
  by_cases closing : Closing descriptor handle
  · rw [closedTables_closing closing]
    by_cases source : process = call.srcProcess
    · subst source
      rw [Function.update_self, names_close]
      exact and_congr_right fun _ => not_congr ⟨fun alike => ⟨rfl, closing, alike⟩, (·.2.2)⟩
    · rw [Function.update_of_ne source]
      exact (and_iff_left fun both => source both.1).symm
  · rw [closedTables_open closing]
    exact (and_iff_left fun both => closing both.2.1).symm

theorem sound_closedTables (sound : ∀ p, Sound (tables p)) (process : Nat) :
    Sound (closedTables call tables descriptor handle process) := by
  by_cases closing : Closing descriptor handle
  · rw [closedTables_closing closing]
    by_cases source : process = call.srcProcess
    · subst source
      rw [Function.update_self]
      exact (sound call.srcProcess).close handle
    · rw [Function.update_of_ne source]
      exact sound process
  · rw [closedTables_open closing]
    exact sound process

structure Changes (call : TranslateCall O) (before after : Nat → HandleTable O)
    (closes issues : Nat → Prop) : Prop where
  sound : ∀ process, Sound (after process)
  others : ∀ process, process ≠ call.srcProcess → process ≠ call.dstProcess →
    after process = before process
  kept : ∀ process x o, Names (before process) x o →
    Names (after process) x o ∨ process = call.srcProcess ∧ closes x
  issued : ∀ process x o, Names (after process) x o →
    Names (before process) x o ∨ process = call.dstProcess ∧ issues x

theorem closedTables_others (source : process ≠ call.srcProcess) :
    closedTables call tables descriptor handle process = tables process := by
  by_cases closing : Closing descriptor handle
  · rw [closedTables_closing closing, Function.update_of_ne source]
  · rw [closedTables_open closing]

theorem afterHandle_changes (sound : ∀ p, Sound (tables p)) :
    Changes call tables (afterHandle call tables descriptor handle).1
      (fun x => Closing descriptor handle ∧ Alike x handle)
      (fun x => Alike x (afterHandle call tables descriptor handle).2) := by
  have closedSound := @sound_closedTables O call descriptor handle tables sound
  have kept : ∀ process x o, Names (tables process) x o →
      Names (closedTables call tables descriptor handle process) x o ∨
        process = call.srcProcess ∧ Closing descriptor handle ∧ Alike x handle := by
    intro process x o names
    by_cases closed : process = call.srcProcess ∧ Closing descriptor handle ∧ Alike x handle
    · exact .inr closed
    · exact .inl (names_closedTables.mpr ⟨names, closed⟩)
  unfold afterHandle
  cases operandObject call (tables call.srcProcess) handle with
  | none =>
    exact ⟨closedSound, fun _ source _ => closedTables_others source, kept,
      fun _ _ _ names => .inl (names_closedTables.mp names).1⟩
  | some object =>
    refine ⟨fun process => ?_, fun process source target => ?_, fun process x o names => ?_,
      fun process x o names => ?_⟩
    · dsimp only
      by_cases target : process = call.dstProcess
      · subst target
        rw [Function.update_self]
        exact (closedSound call.dstProcess).create object
      · rw [Function.update_of_ne target]
        exact closedSound process
    · exact (Function.update_of_ne target ..).trans (closedTables_others source)
    · refine (kept process x o names).imp_left fun names => ?_
      by_cases target : process = call.dstProcess
      · subst target
        dsimp only
        rw [Function.update_self]
        exact ((closedSound call.dstProcess).names_create object).mpr (.inl names)
      · dsimp only
        rwa [Function.update_of_ne target]
    · dsimp only at names ⊢
      by_cases target : process = call.dstProcess
      · subst target
        rw [Function.update_self] at names
        rcases ((closedSound call.dstProcess).names_create object).mp names with old | new
        · exact .inl (names_closedTables.mp old).1
        · obtain ⟨issued, same, alike, _⟩ := new
          rw [same]
          exact .inr ⟨rfl, alike⟩
      · rw [Function.update_of_ne target] at names
        exact .inl (names_closedTables.mp names).1

end

variable {before after : Nat → HandleTable O} {closes issues closes' issues' : Nat → Prop}
  {address permissions numPages pageStart sourceAddress : Nat}

theorem Changes.trans {middle : Nat → HandleTable O}
    (first : Changes call before middle closes issues)
    (second : Changes call middle after closes' issues') :
    Changes call before after (fun x => closes x ∨ closes' x) (fun x => issues x ∨ issues' x) where
  sound := second.sound
  others process source target :=
    (second.others process source target).trans (first.others process source target)
  kept process x o names := by
    rcases first.kept process x o names with names | ⟨source, closed⟩
    · rcases second.kept process x o names with names | ⟨source, closed⟩
      · exact .inl names
      · exact .inr ⟨source, .inr closed⟩
    · exact .inr ⟨source, .inl closed⟩
  issued process x o names := by
    rcases second.issued process x o names with names | ⟨target, issued⟩
    · rcases first.issued process x o names with names | ⟨target, issued⟩
      · exact .inl names
      · exact .inr ⟨target, .inl issued⟩
    · exact .inr ⟨target, .inr issued⟩

theorem Changes.mono (h : Changes call before after closes issues) (imp : ∀ x, closes x → closes' x)
    (imp' : ∀ x, issues x → issues' x) : Changes call before after closes' issues' where
  sound := h.sound
  others := h.others
  kept process x o names := (h.kept process x o names).imp_right (And.imp_right (imp x))
  issued process x o names := (h.issued process x o names).imp_right (And.imp_right (imp' x))

theorem Changes.refl {tables : Nat → HandleTable O} (sound : ∀ p, Sound (tables p)) :
    Changes call tables tables (fun _ => False) (fun _ => False) where
  sound := sound
  others _ _ _ := rfl
  kept _ _ _ := .inl
  issued _ _ _ := .inl

theorem outcome_translateHandles (sound : ∀ p, Sound (table t p)) :
    ∃ u, outcome (translateHandles call descriptor n i) t = (.ok (), u) ∧
      Changes call (table t) (table u)
        (fun x => ∃ k < n, Closing descriptor (t.cmdBuf (i + k)) ∧ Alike x (t.cmdBuf (i + k)))
        (fun x => ∃ k < n, Alike x (u.cmdBuf (i + k))) ∧
      ∀ k, k < i ∨ i + n ≤ k → u.cmdBuf k = t.cmdBuf k := by
  induction n generalizing i t with
  | zero =>
    exact ⟨t, rfl, (Changes.refl sound).mono (fun _ => False.elim) fun _ => False.elim,
      fun _ _ => rfl⟩
  | succ n ih =>
    obtain ⟨u, run, tables, words⟩ := @outcome_translateHandle O M call t descriptor i
    have first := @afterHandle_changes O call descriptor (t.cmdBuf i) (table t) sound
    rw [← tables] at first
    obtain ⟨v, run', second, rest⟩ := ih (i := i + 1) first.sound
    refine ⟨v, (outcome_bind_ok run).trans run', (first.trans second).mono ?_ ?_, ?_⟩
    · rintro x (⟨closing, alike⟩ | ⟨k, below, closing, alike⟩)
      · exact ⟨0, n.succ_pos, closing, alike⟩
      · rw [words, Function.update_of_ne (by omega), Nat.add_right_comm] at *
        exact ⟨k + 1, by omega, closing, alike⟩
    · rintro x (alike | ⟨k, below, alike⟩)
      · refine ⟨0, n.succ_pos, ?_⟩
        rw [rest _ (by omega), words, Nat.add_zero, Function.update_self]
        exact alike
      · refine ⟨k + 1, by omega, ?_⟩
        rwa [Nat.add_right_comm] at alike
    · intro k outside
      rw [rest k (by omega), words, Function.update_of_ne (by omega)]

def SourceNames (call : TranslateCall O) (t : Translation O M) (handle : Nat) (object : O) : Prop :=
  handle ≠ currentThread ∧ handle ≠ currentProcess ∧ Names (table t call.srcProcess) handle object

/-- The `n` words from `place` on are closed in the source, and name the objects in the target. -/
def Moved (call : TranslateCall O) (t u : Translation O M) (place n : Nat) : Prop :=
  ∀ k < n, ∀ o, SourceNames call t (t.cmdBuf (place + k)) o →
    (table u call.srcProcess).isValid (t.cmdBuf (place + k)) = false ∧
      Names (table u call.dstProcess) (u.cmdBuf (place + k)) o

/-- The target can take a handle. Within one process the slot that was closed is used again, and
the handle should not be the same again. -/
def Room (call : TranslateCall O) (t : Translation O M) (handle : Nat) : Prop :=
  if call.srcProcess = call.dstProcess then
    (table t call.srcProcess).nextGeneration ≠ getGeneration handle
  else (table t call.dstProcess).nextFreeSlot < maxCount

section

variable {o : O} {place size : Nat}

theorem operandObject_of_names (names : SourceNames call t handle o)
    (sound : Sound (table t call.srcProcess)) :
    operandObject call (table t call.srcProcess) handle = some o := by
  obtain ⟨thread, owner, names⟩ := names
  rw [operandObject, if_neg thread, if_neg owner, if_pos (names.ne_zero sound)]
  exact getGeneric_of_names names thread owner _ _

theorem closing_of_names (names : SourceNames call t handle o)
    (sound : Sound (table t call.srcProcess)) : Closing DescriptorType.moveHandle.value handle :=
  ⟨rfl, names.1, names.2.1, names.2.2.ne_zero sound⟩

/-- The one handle of a bare descriptor is moved just if there is room for it. -/
theorem move_iff_room (names : SourceNames call t handle o) (sound : ∀ p, Sound (table t p)) :
    (((afterHandle call (table t) DescriptorType.moveHandle.value handle).1
        call.srcProcess).isValid handle = false ∧
      Names ((afterHandle call (table t) DescriptorType.moveHandle.value handle).1 call.dstProcess)
        (afterHandle call (table t) DescriptorType.moveHandle.value handle).2 o) ↔
      Room call t handle := by
  have object := operandObject_of_names names (sound _)
  have closing := closing_of_names names (sound _)
  unfold afterHandle Room
  rw [object, closedTables_closing closing]
  dsimp only
  by_cases same : call.srcProcess = call.dstProcess
  · rw [if_pos same, ← same, Function.update_self, Function.update_self]
    have closedSound := (sound call.srcProcess).close handle
    have closed := close_ok names.2.2.1
    have below : getSlot handle < maxCount := (names_iff.mp names.2.2).1
    have bounded : (table t call.srcProcess).nextGeneration < 0x8000 := by
      obtain ⟨_, _, tracks⟩ := sound call.srcProcess
      exact tracks.bounded
    have issued : (((table t call.srcProcess).close handle).2.create o).1 =
        .ok ((table t call.srcProcess).nextGeneration ||| (getSlot handle <<< 15)) := by
      rw [closed, create_ok (not_le.mpr below)]
    rw [issued]
    refine (and_iff_left (closedSound.names_created issued)).trans ?_
    rw [← Bool.not_eq_true, valid_iff_names]
    refine not_congr ⟨?_, fun generation => ?_⟩
    · rintro ⟨p, again⟩
      rcases (closedSound.names_create o).mp again with old | ⟨issued', same', alike, _⟩
      · exact absurd ⟨rfl, rfl⟩ (names_close.mp old).2
      · cases issued.symm.trans same'
        rw [alike.2, generation_handle _ bounded]
    · refine ⟨o, (closedSound.names_created issued).alike ⟨slot_handle below bounded, ?_⟩⟩
      rw [generation_handle _ bounded, generation]
  · rw [if_neg same, Function.update_of_ne same, Function.update_self,
      Function.update_of_ne (Ne.symm same), Function.update_self]
    refine (and_iff_right close_invalid).trans ?_
    have issues : (∃ handle, ((table t call.dstProcess).create o).1 = .ok handle) ↔
        (table t call.dstProcess).nextFreeSlot < maxCount := create_issues_iff
    rw [← issues]
    constructor
    · intro named
      cases result : ((table t call.dstProcess).create o).1 with
      | ok handle => exact ⟨handle, rfl⟩
      | error e =>
        rw [result] at named
        exact absurd rfl (named.ne_zero ((sound call.dstProcess).create o))
    · rintro ⟨issued, result⟩
      rw [result]
      exact (sound call.dstProcess).names_created result

theorem translateOperands_handles (handles : Handles descriptor) :
    (translateOperands sys call size descriptor i : Translate O M (ResultVal Nat)) =
      if i + handleNumberFromDesc descriptor > size then return .error .commandTooLarge
      else do
        translateHandles call descriptor (handleNumberFromDesc descriptor) i
        return .ok (i + handleNumberFromDesc descriptor) := by
  unfold translateOperands
  rcases handles with type | type <;> rw [type]

theorem turn_handles (sound : ∀ p, Sound (table t p)) (handles : Handles (t.cmdBuf i))
    (fits : i + 1 + handleNumberFromDesc (t.cmdBuf i) ≤ size) :
    ∃ u, outcome (translateDescriptor sys call size i) t =
        (.ok (.ok (i + 1 + handleNumberFromDesc (t.cmdBuf i))), u) ∧
      outcome (translateHandles call (t.cmdBuf i) (handleNumberFromDesc (t.cmdBuf i)) (i + 1))
        { t with touched := i :: t.touched } = (.ok (), u) := by
  obtain ⟨u, run, _⟩ := @outcome_translateHandles O M call { t with touched := i :: t.touched }
    (t.cmdBuf i) (i + 1) (handleNumberFromDesc (t.cmdBuf i)) sound
  refine ⟨u, ?_, run⟩
  rw [outcome_translateDescriptor, translateOperands_handles handles, if_neg (not_lt.mpr fits),
    outcome_bind_ok run]
  rfl

structure HandleTurn (call : TranslateCall O) (t u : Translation O M) (place n : Nat)
    (descriptor : Nat) : Prop where
  changes : Changes call (table t) (table u)
    (fun x => ∃ k < n, descriptor = DescriptorType.moveHandle.value ∧
      Alike x (t.cmdBuf (place + k)))
    (fun x => ∃ k < n, Alike x (u.cmdBuf (place + k)))
  copied : getDescriptorType descriptor = .copyHandle → ∀ k < n, ∀ o,
    SourceNames call t (t.cmdBuf (place + k)) o → SourceNames call u (t.cmdBuf (place + k)) o
  moved : getDescriptorType descriptor = .moveHandle → (Moved call t u place n ↔
    (∀ k < n, ∀ o, ¬ SourceNames call t (t.cmdBuf (place + k)) o) ∨
      descriptor = DescriptorType.moveHandle.value ∧ Room call t (t.cmdBuf place))

theorem moveHandle_number : handleNumberFromDesc DescriptorType.moveHandle.value = 1 := rfl

theorem handleTurn_of_run {u : Translation O M} (sound : ∀ p, Sound (table t p))
    (run : outcome (translateHandles call descriptor (handleNumberFromDesc descriptor) i) t =
      (.ok (), u)) : HandleTurn call t u i (handleNumberFromDesc descriptor) descriptor := by
  obtain ⟨v, run', changes, words⟩ :=
    @outcome_translateHandles O M call t descriptor i (handleNumberFromDesc descriptor) sound
  obtain rfl : u = v := congrArg Prod.snd (run.symm.trans run')
  -- a word of the source stays valid where nothing is closed
  have stays : descriptor ≠ DescriptorType.moveHandle.value →
      ∀ x o, Names (table t call.srcProcess) x o → Names (table u call.srcProcess) x o := by
    intro other x o names
    exact (changes.kept call.srcProcess x o names).resolve_right
      fun ⟨_, _, _, closing, _⟩ => other closing.1
  refine ⟨changes.mono ?_ fun _ => id, fun type k below o names => ?_, fun type => ?_⟩
  · rintro x ⟨k, below, closing, alike⟩
    exact ⟨k, below, closing.1, alike⟩
  · refine ⟨names.1, names.2.1, stays ?_ _ o names.2.2⟩
    rintro rfl
    cases type
  · by_cases bare : descriptor = DescriptorType.moveHandle.value
    · subst bare
      rw [moveHandle_number] at run ⊢
      obtain ⟨w, step, tables, cmdBuf⟩ :=
        @outcome_translateHandle O M call t DescriptorType.moveHandle.value i
      obtain rfl : u = w := congrArg Prod.snd (run.symm.trans (outcome_bind_ok step))
      have received : u.cmdBuf i =
          (afterHandle call (table t) DescriptorType.moveHandle.value (t.cmdBuf i)).2 := by
        rw [cmdBuf, Function.update_self]
      by_cases named : ∃ o, SourceNames call t (t.cmdBuf i) o
      · obtain ⟨o, names⟩ := named
        have move := move_iff_room names sound
        rw [← tables, ← received] at move
        constructor
        · intro moved
          exact .inr ⟨rfl, move.mp (moved 0 Nat.one_pos o names)⟩
        · rintro (none | ⟨_, room⟩)
          · exact absurd names (none 0 Nat.one_pos o)
          · intro k below p names'
            obtain rfl : k = 0 := by omega
            obtain rfl := names.2.2.unique names'.2.2
            exact move.mpr room
      · have none : ∀ k < 1, ∀ o, ¬ SourceNames call t (t.cmdBuf (i + k)) o := by
          intro k below o names
          obtain rfl : k = 0 := by omega
          exact named ⟨o, names⟩
        exact iff_of_true (fun k below o names => absurd names (none k below o)) (.inl none)
    · rw [or_iff_left fun both => bare both.1]
      constructor
      · intro moved k below o names
        have closed := (moved k below o names).1
        rw [(stays bare _ o names.2.2).1] at closed
        cases closed
      · intro none k below o names
        exact absurd names (none k below o)

end

def view (lo : Nat) (t : Translation O M) : (Nat → HandleTable O) × (Nat → Nat) :=
  (table t, fun k => if k < lo then t.cmdBuf k else 0)

theorem leaves_readWord : Leaves (view lo) (readWord i : Translate O M Nat) := fun _ => rfl

theorem leaves_writeWord {value : Nat} (h : lo ≤ i) :
    Leaves (view lo) (writeWord i value : Translate O M Unit) := by
  refine leaves_modify fun s => Prod.ext rfl (funext fun k => ?_)
  by_cases below : k < lo
  · have other : k ≠ i := by omega
    show (if k < lo then Function.update s.cmdBuf i value k else 0) = if k < lo then _ else _
    rw [Function.update_of_ne other]
  · show (if k < lo then _ else 0) = if k < lo then _ else 0
    rw [if_neg below, if_neg below]

theorem leaves_touchWords : Leaves (view lo) (touchWords n : Translate O M Unit) := fun _ => rfl

theorem Spares.leaves {α : Type} {x : Translate O M α} (h : Spares x) : Leaves (view lo) x :=
  Leaves.map h fun kept => (kept.2.1, fun k => if k < lo then kept.2.2 k else 0)

theorem leaves_sendMappedBuffer {size pageOffset : Nat}
    (h : lo ≤ i) : Leaves (view lo) (sendMappedBuffer sys call permissions size sourceAddress
      pageOffset numPages i : Translate O M Unit) := by
  refine leaves_bind spares_makeBuffer.leaves fun _ =>
    leaves_bind spares_mapToIpcBase.leaves fun _ => ?_
  refine leaves_bind spares_makeBuffer.leaves fun _ => leaves_bind spares_readBlock.leaves fun _ => ?_
  refine leaves_bind leaves_get fun _ => leaves_bind spares_setMemory.leaves fun _ => ?_
  refine leaves_bind spares_mapToIpcBase.leaves fun result => ?_
  cases result with
  | error e => exact leaves_throw _
  | ok targetAddress =>
    refine leaves_bind (leaves_writeWord h) fun _ => leaves_bind spares_mapToIpcBase.leaves fun _ => ?_
    exact fun _ => rfl

theorem leaves_translateOperands {size : Nat} (h : lo ≤ i) (other : ¬ Handles descriptor) :
    Leaves (view lo) (translateOperands sys call size descriptor i :
      Translate O M (ResultVal Nat)) := by
  unfold translateOperands
  cases type : getDescriptorType descriptor with
  | copyHandle => exact absurd (.inl type) other
  | moveHandle => exact absurd (.inr type) other
  | callingPid =>
    exact leaves_bind leaves_get fun _ => leaves_bind (leaves_writeWord h) fun _ => leaves_pure _
  | staticBuffer =>
    refine leaves_bind leaves_readWord fun _ => leaves_bind ?_ fun _ => leaves_pure _
    refine leaves_bind spares_readBlock.leaves fun _ => leaves_bind spares_readBlock.leaves fun _ => ?_
    refine leaves_bind (leaves_ofExcept _) fun _ => ?_
    exact leaves_bind spares_writeBlock.leaves fun _ => leaves_writeWord h
  | mappedBuffer =>
    refine leaves_bind leaves_readWord fun _ => leaves_bind ?_ fun _ => leaves_pure _
    refine leaves_ite (leaves_writeWord h) (leaves_bind (leaves_ofExcept _) fun _ => ?_)
    exact leaves_ite spares_returnMappedBuffer.leaves (leaves_sendMappedBuffer h)
  | pxiBuffer | unnamed => exact leaves_pure _

/-- The handle `x` is closed in the source, and the word `k` names the object in the target. -/
structure Settled (call : TranslateCall O) (x k word : Nat) (o : O)
    (seen : (Nat → HandleTable O) × (Nat → Nat)) : Prop where
  sound : ∀ process, Sound (seen.1 process)
  closed : (seen.1 call.srcProcess).isValid x = false
  placed : seen.2 k = word
  named : Names (seen.1 call.dstProcess) word o

section

variable {x k word size : Nat} {o : O}

theorem settled_view (below : k < lo) : Settled call x k word o (view lo t) ↔
    (∀ p, Sound (table t p)) ∧ (table t call.srcProcess).isValid x = false ∧
      t.cmdBuf k = word ∧ Names (table t call.dstProcess) word o := by
  have seen : (view lo t).2 k = t.cmdBuf k := if_pos below
  exact ⟨fun h => ⟨h.sound, h.closed, seen ▸ h.placed, h.named⟩,
    fun ⟨sound, closed, placed, named⟩ => ⟨sound, closed, seen.trans placed, named⟩⟩

theorem keeps_turn {Seen : (Nat → HandleTable O) × (Nat → Nat) → Prop} (later : lo ≤ i)
    (many : ∀ descriptor, Keeps (fun t => Seen (view lo t)) (translateHandles call descriptor
      (handleNumberFromDesc descriptor) (i + 1) : Translate O M Unit)) :
    Keeps (fun t => Seen (view lo t)) (translateDescriptor sys call size i) := by
  refine keeps_bind (leaves_readWord.keeps Seen) fun descriptor => ?_
  by_cases handles : Handles descriptor
  · rw [translateOperands_handles handles]
    split_ifs
    · exact keeps_pure _
    · exact keeps_bind (many descriptor) fun _ => keeps_pure _
  · exact (leaves_translateOperands (by omega) handles).keeps Seen

theorem keeps_sound : Keeps (fun t => ∀ p, Sound (table t p)) (translateDescriptor sys call size i :
    Translate O M (ResultVal Nat)) := by
  refine @keeps_turn O M sys call i 0 size (fun seen => ∀ p, Sound (seen.1 p)) (Nat.zero_le i) ?_
  intro descriptor t sound
  obtain ⟨u, run, changes, _⟩ := @outcome_translateHandles O M call t descriptor (i + 1)
    (handleNumberFromDesc descriptor) sound
  rw [run]
  exact changes.sound

theorem keeps_settled (apart : call.srcProcess ≠ call.dstProcess) (below : k < lo)
    (later : lo ≤ i) : Keeps (fun t => Settled call x k word o (view lo t))
      (translateDescriptor sys call size i) := by
  refine keeps_turn later ?_
  intro descriptor t settled
  obtain ⟨sound, closed, same, named⟩ := (settled_view below).mp settled
  obtain ⟨u, run, changes, words⟩ := @outcome_translateHandles O M call t descriptor (i + 1)
    (handleNumberFromDesc descriptor) sound
  rw [run]
  refine (settled_view below).mpr ⟨changes.sound, ?_, ?_, ?_⟩
  · exact invalid_of_former (fun p names => (changes.issued _ x p names).resolve_right
      fun both => apart both.1) closed
  · exact (words k (.inl (by omega))).trans same
  · exact (changes.kept _ word o named).resolve_right fun both => apart both.1.symm

theorem leaves_recordWords : Leaves (view lo) (recordWords call size : Translate O M Unit) :=
  leaves_ite leaves_touchWords (leaves_pure _)

variable {s u : Translation O M} {first j : Nat}

theorem settled_final (apart : call.srcProcess ≠ call.dstProcess) (below : k < lo)
    (visits : Visits (translateDescriptor sys call size) size first s j u) (inside : j < size)
    (later : ∀ next, (outcome (translateDescriptor sys call size j) u).1 = .ok (.ok next) →
      lo ≤ next) (settled : Settled call x k word o
      (view lo (outcome (translateDescriptor sys call size j) u).2)) :
    Settled call x k word o (view lo (outcome (translateLoaded sys call first size) s).2) := by
  have looped : Settled call x k word o (view lo (outcome (loop .outOfFuel
      (translateDescriptor sys call size) size (size + 1) first) s).2) :=
    visits.final forward_translateDescriptor inside
      (fun next run i after => keeps_settled apart below ((later next run).trans after)) settled
      (by omega)
  unfold translateLoaded
  rw [outcome_bind]
  generalize outcome (loop Fault.outOfFuel (translateDescriptor sys call size) size (size + 1)
    first) s = result at looped
  rcases result with ⟨e | answer, v⟩
  · exact looped
  · refine Leaves.keeps ?_ (Settled call x k word o) v looped
    cases answer with
    | error e => exact leaves_pure _
    | ok done =>
      refine leaves_bind leaves_recordWords fun _ => leaves_bind leaves_touchWords fun _ => ?_
      refine leaves_bind leaves_get fun _ => leaves_bind spares_writeBlock.leaves fun _ => leaves_pure _

end
section

variable {s : Translation O M} {first size j : Nat}

theorem leaves_loadCommand :
    Leaves (view 0) (loadCommand sys call : Translate O M (Nat × Nat)) := by
  have copied : ∀ t u : Translation O M, table t = table u → view 0 t = view 0 u := by
    intro t u same
    refine Prod.ext same (funext fun k => ?_)
    show (if k < 0 then t.cmdBuf k else 0) = if k < 0 then u.cmdBuf k else 0
    rw [if_neg (Nat.not_lt_zero k), if_neg (Nat.not_lt_zero k)]
  refine leaves_bind spares_readBlock.leaves fun _ => leaves_bind ?_ fun _ => leaves_pure _
  refine leaves_bind (leaves_ofExcept _) fun _ => leaves_bind spares_readBlock.leaves fun _ => ?_
  refine leaves_bind leaves_touchWords fun _ => leaves_bind ?_ fun _ => leaves_recordWords
  exact leaves_modify fun t => copied _ t rfl

theorem turn_other (other : ¬ (Handles (t.cmdBuf j) ∧
      j + 1 + handleNumberFromDesc (t.cmdBuf j) ≤ size)) :
    table (outcome (translateDescriptor sys call size j) t).2 = table t := by
  rw [outcome_translateDescriptor]
  by_cases handles : Handles (t.cmdBuf j)
  · rw [translateOperands_handles handles, if_pos (not_le.mp fun fits => other ⟨handles, fits⟩)]
    rfl
  · exact congrArg Prod.fst (leaves_translateOperands (Nat.zero_le _) handles _)

theorem moved_final (apart : call.srcProcess ≠ call.dstProcess)
    (visits : Visits (translateDescriptor sys call size) size first s j t) (inside : j < size)
    {u : Translation O M} (run : outcome (translateDescriptor sys call size j) t =
      (.ok (.ok (j + 1 + n)), u)) (soundAfter : ∀ p, Sound (table u p))
    (moved : Moved call t u (j + 1) n) :
    Moved call t (outcome (translateLoaded sys call first size) s).2 (j + 1) n := by
  intro k below o names
  obtain ⟨closed, named⟩ := moved k below o names
  have before : j + 1 + k < j + 1 + n := by omega
  have settled : Settled call (t.cmdBuf (j + 1 + k)) (j + 1 + k) (u.cmdBuf (j + 1 + k)) o
      (view (j + 1 + n) (outcome (translateDescriptor sys call size j) t).2) := by
    rw [run]
    exact (settled_view before).mpr ⟨soundAfter, closed, rfl, named⟩
  have later : ∀ next, (outcome (translateDescriptor sys call size j) t).1 = .ok (.ok next) →
      j + 1 + n ≤ next := by
    intro next same
    rw [run] at same
    cases same
    exact Nat.le_refl _
  obtain ⟨_, closed', same, named'⟩ :=
    (settled_view before).mp (settled_final apart before visits inside later settled)
  exact ⟨closed', same ▸ named'⟩

end
end Translate
end EmuThreeDS
