import EmuThreeDS.Kernel.FreeAreas
import EmuThreeDS.Kernel.HLERequests

/-!
# The words a translation touches

Only the handles of a descriptor are known to be there before they are read. A descriptor with
one operand that is the last word of the command has its operand behind the command.
-/
namespace EmuThreeDS
open ForwardLoop IPC

theorem yields_place {σ : Type} {i n : Nat} (further : i ≤ n) :
    Yields (fun answer => ∀ next, answer = .ok next → i ≤ next)
      (return .ok n : Op Fault σ (ResultVal Nat)) := by
  refine yields_pure fun next same => ?_
  cases same
  exact further

theorem outcome_assert {σ : Type} {s : σ} {site : Site} {p : Prop} [Decidable p] (holds : p) :
    outcome (MonadExcept.ofExcept (assert site p) : Op Fault σ Unit) s = (.ok (), s) := by
  rw [outcome_ofExcept, assert_pos holds]

namespace Translate

variable {O M : Type} {sys : MemorySystem M} {call : TranslateCall O} {P : Nat → Prop}
  {process handle address size descriptor i n : Nat} {object : O}

abbrev Touches (P : Nat → Prop) {α : Type} (x : Translate O M α) : Prop :=
  Logs Translation.touched P x

theorem touches_readWord (h : P i) : Touches P (readWord i : Translate O M Nat) :=
  logs_one (fun _ => rfl) h

variable {value sourceAddress permissions numPages : Nat}

theorem touches_writeWord (h : P i) : Touches P (writeWord i value : Translate O M Unit) :=
  logs_one (fun _ => rfl) h

theorem touches_touchWords (h : ∀ k < n, P k) : Touches P (touchWords n : Translate O M Unit) :=
  fun _ => ⟨List.range n, rfl, fun k hk => h k (List.mem_range.mp hk)⟩

/-- What neither the words nor the handles have to do with. -/
def Spares {α : Type} (x : Translate O M α) : Prop :=
  Leaves (fun t => (t.touched, fun p => (t.processes p).handleTable, t.cmdBuf)) x

theorem Spares.touches {α : Type} {x : Translate O M α} (h : Spares x) : Touches P x :=
  (Leaves.map h Prod.fst).logs

theorem spares_setMemory {memory : M} : Spares (setMemory memory : Translate O M Unit) :=
  fun _ => rfl

theorem spares_setVmManager {vm : VMManager} :
    Spares (setVmManager process vm : Translate O M Unit) := by
  refine leaves_modify fun s => Prod.ext rfl (Prod.ext (funext fun p => ?_) rfl)
  show (Function.update s.processes process _ p).handleTable = _
  by_cases same : p = process
  · subst same
    rw [Function.update_self]
  · rw [Function.update_of_ne same]

theorem spares_readBlock :
    Spares (readBlock sys process address size : Translate O M (List UInt8)) := by
  refine leaves_bind leaves_get fun s => leaves_bind (leaves_ofExcept _) fun result => ?_
  exact leaves_bind spares_setMemory fun _ => leaves_pure _

theorem spares_writeBlock {data : List UInt8} :
    Spares (writeBlock sys process address data : Translate O M Unit) := by
  refine leaves_bind leaves_get fun s => leaves_bind (leaves_ofExcept _) fun memory => ?_
  exact spares_setMemory

theorem touches_setHandleTable {table : HandleTable O} :
    Touches P (setHandleTable process table : Translate O M Unit) :=
  logs_modify fun _ => rfl

theorem touches_close : Touches P (close process handle : Translate O M Unit) :=
  logs_bind logs_get fun _ => touches_setHandleTable

theorem touches_create : Touches P (create process object : Translate O M (ResultVal Nat)) :=
  logs_bind logs_get fun _ => logs_bind touches_setHandleTable fun _ => logs_pure _

theorem touches_getGeneric :
    Touches P (getGeneric call process handle : Translate O M (Option O)) :=
  logs_bind logs_get fun _ => logs_pure _

theorem touches_sourceObject :
    Touches P (sourceObject call descriptor handle : Translate O M (Option O)) := by
  refine logs_ite (fun _ => logs_pure _) fun _ => logs_ite (fun _ => logs_pure _) fun _ =>
    logs_ite (fun _ => ?_) fun _ => logs_pure _
  refine logs_bind touches_getGeneric fun object => logs_bind ?_ fun _ => logs_pure _
  exact logs_ite (fun _ => touches_close) fun _ => logs_pure _

theorem touches_translateHandle (h : P i) :
    Touches P (translateHandle call descriptor i : Translate O M Unit) := by
  refine logs_bind (touches_readWord h) fun handle => logs_bind touches_sourceObject fun object => ?_
  cases object with
  | none => exact touches_writeWord h
  | some object => exact logs_bind touches_create fun _ => touches_writeWord h

theorem touches_translateHandles (h : ∀ k, i ≤ k → k < i + n → P k) :
    Touches P (translateHandles call descriptor n i : Translate O M Unit) := by
  induction n generalizing i with
  | zero => exact logs_pure _
  | succ n ih =>
    refine logs_bind (touches_translateHandle (h i (Nat.le_refl i) (by omega))) fun _ => ?_
    exact ih fun k low high => h k (by omega) (by omega)

theorem spares_copyBack {found : MappedBufferContext} :
    Spares (copyBack sys call permissions size found : Translate O M Unit) := by
  refine leaves_ite (leaves_bind leaves_get fun s => ?_) (leaves_pure _)
  exact leaves_bind (leaves_ofExcept _) fun memory => spares_setMemory

variable {pageStart : Nat}

theorem spares_unmapBuffer :
    Spares (unmapBuffer call pageStart numPages : Translate O M Unit) := by
  refine leaves_bind leaves_get fun s => leaves_bind (leaves_ofExcept _) fun prevVma => ?_
  refine leaves_bind (leaves_ofExcept _) fun nextVma => leaves_bind (leaves_ofExcept _) fun _ => ?_
  refine leaves_bind (leaves_ofExcept _) fun unmapped => ?_
  exact leaves_bind spares_setVmManager fun _ => leaves_ofExcept _

theorem spares_returnMappedBuffer :
    Spares (returnMappedBuffer sys call permissions size sourceAddress pageStart numPages :
      Translate O M Unit) := by
  refine leaves_bind leaves_get fun s => ?_
  split
  · exact leaves_throw _
  · refine leaves_bind spares_copyBack fun _ => leaves_bind spares_unmapBuffer fun _ => ?_
    exact fun _ => rfl

theorem spares_mapToIpcBase {memory : BackingMem} {state : MemoryState} :
    Spares (mapToIpcBase process memory state : Translate O M (ResultVal Nat)) := by
  refine leaves_bind leaves_get fun _ => leaves_bind (leaves_ofExcept _) fun _ => ?_
  exact leaves_bind spares_setVmManager fun _ => leaves_pure _

theorem spares_makeBuffer : Spares (makeBuffer sys size : Translate O M BackingMem) :=
  leaves_bind leaves_get fun _ => leaves_bind spares_setMemory fun _ => leaves_pure _

theorem touches_sendMappedBuffer {pageOffset : Nat} (h : P i) :
    Touches P (sendMappedBuffer sys call permissions size sourceAddress pageOffset numPages i :
      Translate O M Unit) := by
  refine logs_bind spares_makeBuffer.touches fun _ => logs_bind spares_mapToIpcBase.touches fun _ => ?_
  refine logs_bind spares_makeBuffer.touches fun _ => logs_bind spares_readBlock.touches fun _ => ?_
  refine logs_bind logs_get fun _ => logs_bind spares_setMemory.touches fun _ => ?_
  refine logs_bind spares_mapToIpcBase.touches fun result => ?_
  cases result with
  | error e => exact logs_throw _
  | ok targetAddress =>
    refine logs_bind (touches_writeWord h) fun _ => logs_bind spares_mapToIpcBase.touches fun _ => ?_
    exact logs_modify fun _ => rfl

theorem touches_translateStaticBuffer (h : P i) :
    Touches P (translateStaticBuffer sys call descriptor sourceAddress i : Translate O M Unit) := by
  refine logs_bind spares_readBlock.touches fun _ => logs_bind spares_readBlock.touches fun _ => ?_
  refine logs_bind (logs_ofExcept _) fun _ => ?_
  exact logs_bind spares_writeBlock.touches fun _ => touches_writeWord h

theorem touches_translateMappedBuffer (h : P i) :
    Touches P (translateMappedBuffer sys call descriptor sourceAddress i : Translate O M Unit) := by
  refine logs_ite (fun _ => touches_writeWord h) fun _ => logs_bind (logs_ofExcept _) fun _ => ?_
  exact logs_ite (fun _ => spares_returnMappedBuffer.touches) fun _ => touches_sendMappedBuffer h

end Translate

def IPC.DescriptorType.HasOperand : DescriptorType → Prop
  | .callingPid | .staticBuffer | .mappedBuffer => True
  | _ => False

namespace Translate

variable {O M : Type} {sys : MemorySystem M} {call : TranslateCall O} {P : Nat → Prop}
  {descriptor i size : Nat}

theorem touches_translateOperands (handles : ∀ k, i ≤ k → k < size → P k)
    (one : (getDescriptorType descriptor).HasOperand → P i) :
    Touches P (translateOperands sys call size descriptor i : Translate O M (ResultVal Nat)) := by
  unfold translateOperands
  cases type : getDescriptorType descriptor with
  | copyHandle | moveHandle =>
    refine logs_ite (fun _ => logs_pure _) fun fits => logs_bind ?_ fun _ => logs_pure _
    exact touches_translateHandles fun k low high => handles k low (by omega)
  | callingPid =>
    have one := one (by rw [type]; trivial)
    exact logs_bind logs_get fun _ => logs_bind (touches_writeWord one) fun _ => logs_pure _
  | staticBuffer =>
    have one := one (by rw [type]; trivial)
    refine logs_bind (touches_readWord one) fun _ => ?_
    exact logs_bind (touches_translateStaticBuffer one) fun _ => logs_pure _
  | mappedBuffer =>
    have one := one (by rw [type]; trivial)
    refine logs_bind (touches_readWord one) fun _ => ?_
    exact logs_bind (touches_translateMappedBuffer one) fun _ => logs_pure _
  | pxiBuffer | unnamed => exact logs_pure _

theorem enters_readWord : Enters Translation.touched i (readWord i : Translate O M Nat) :=
  fun _ => List.mem_cons_self

theorem enters_translateOperands (one : (getDescriptorType descriptor).HasOperand) :
    Enters Translation.touched i (translateOperands sys call size descriptor i :
      Translate O M (ResultVal Nat)) := by
  unfold translateOperands
  cases type : getDescriptorType descriptor with
  | callingPid => exact fun _ => List.mem_cons_self
  | staticBuffer =>
    refine enters_bind (P := fun _ => True) enters_readWord fun _ => ?_
    exact logs_bind (touches_translateStaticBuffer True.intro) fun _ => logs_pure _
  | mappedBuffer =>
    refine enters_bind (P := fun _ => True) enters_readWord fun _ => ?_
    exact logs_bind (touches_translateMappedBuffer True.intro) fun _ => logs_pure _
  | copyHandle | moveHandle | pxiBuffer | unnamed =>
    rw [type] at one
    exact one.elim

theorem translateOperands_forward : Yields (fun answer => ∀ next, answer = .ok next → i ≤ next)
    (translateOperands sys call size descriptor i : Translate O M (ResultVal Nat)) := by
  have ahead := fun n => yields_place (σ := Translation O M) (Nat.le_add_right i n)
  unfold translateOperands
  cases type : getDescriptorType descriptor with
  | copyHandle | moveHandle =>
    exact yields_ite (yields_pure fun _ => nofun) (yields_bind fun _ => ahead _)
  | callingPid | staticBuffer | mappedBuffer =>
    exact yields_bind fun _ => yields_bind fun _ => ahead 1
  | pxiBuffer | unnamed => exact ahead 0

theorem forward_translateDescriptor : Forward (translateDescriptor sys call size :
    Nat → Translate O M (ResultVal Nat)) :=
  fun _ => yields_bind fun _ => translateOperands_forward

end Translate

/-- Every word touched so far is one of the command. -/
abbrev Within (size : Nat) (touched : List Nat) : Prop := ∀ k ∈ touched, k < size

def Overruns (size descriptor i : Nat) : Prop :=
  i + 1 = size ∧ (getDescriptorType descriptor).HasOperand

/-- The operands stay within the command unless the one they need is missing. -/
theorem within_of_operands {σ α : Type} {log : σ → List Nat} {x : Op Fault σ α} {t : σ}
    {size descriptor i : Nat} (inside : i < size)
    (touches : ∀ {P : Nat → Prop}, (∀ k, i + 1 ≤ k → k < size → P k) →
      ((getDescriptorType descriptor).HasOperand → P (i + 1)) → Logs log P x)
    (enters : (getDescriptorType descriptor).HasOperand → Enters log (i + 1) x) :
    Within size (log (outcome x t).2) ↔ Within size (log t) ∧ ¬ Overruns size descriptor i := by
  have any : Logs log (fun _ => True) x := touches (fun _ _ _ => True.intro) fun _ => True.intro
  refine good_log_iff size _ (fun fine => ?_) ?_ any (Nat.lt_irrefl size)
  · refine touches (fun _ _ below => below) fun one => ?_
    by_contra last
    exact fine ⟨by omega, one⟩
  · rintro ⟨last, one⟩
    rw [← last]
    exact enters one

namespace Translate

variable {O M : Type} {sys : MemorySystem M} {call : TranslateCall O} {s s' : Translation O M}
  {i size untranslatedSize : Nat}

theorem outcome_translateDescriptor : outcome (translateDescriptor sys call size i) s =
    outcome (translateOperands sys call size (s.cmdBuf i) (i + 1))
      { s with touched := i :: s.touched } := outcome_bind_ok rfl

/-- A turn stays within the command unless its operand is missing. -/
theorem turn_within (inside : i < size) :
    Within size (outcome (translateDescriptor sys call size i) s).2.touched ↔
      Within size s.touched ∧ ¬ Overruns size (s.cmdBuf i) i := by
  rw [outcome_translateDescriptor]
  refine (within_of_operands inside touches_translateOperands enters_translateOperands).trans ?_
  exact and_congr_left fun _ => List.forall_mem_cons.trans (and_iff_right inside)

theorem touches_recordWords {P : Nat → Prop} (h : ∀ k < size, P k) :
    Touches P (recordWords call size : Translate O M Unit) :=
  logs_ite (fun _ => touches_touchWords h) fun _ => logs_pure _

theorem touches_loadWords {P : Nat → Prop} (h : ∀ k < size, P k) :
    Touches P (loadWords sys call size : Translate O M Unit) := by
  refine logs_bind (logs_ofExcept _) fun _ => logs_bind spares_readBlock.touches fun words => ?_
  refine logs_bind (touches_touchWords h) fun _ => logs_bind (logs_modify fun _ => rfl) fun _ => ?_
  exact touches_recordWords h

theorem loadCommand_within (start : s.touched = [])
    (loaded : outcome (loadCommand sys call) s = (.ok (untranslatedSize, size), s')) :
    Within size s'.touched := by
  obtain ⟨header, s₁, first, run⟩ := outcome_bind_eq_ok.mp loaded
  obtain ⟨_, s₂, words, run⟩ := outcome_bind_eq_ok.mp run
  cases run
  have none : ∀ k ∈ s.touched, k < 0 := by
    rw [start]
    exact List.forall_mem_nil _
  have good : Within 0 (outcome (readBlock sys call.srcProcess call.srcAddress 4) s).2.touched :=
    spares_readBlock.touches.keeps s none
  rw [first] at good
  have all : ∀ n, Within n (outcome (loadWords sys call n) s₁).2.touched := fun n =>
    (touches_loadWords fun _ below => below).keeps s₁
      fun k hk => absurd (good k hk) (Nat.not_lt_zero k)
  rw [← show _ = s' from congrArg Prod.snd words]
  exact all _

theorem translateLoaded_within : Within size
    (outcome (translateLoaded sys call untranslatedSize size) s).2.touched ↔
      Within size s.touched ∧ ∀ j t, Visits (translateDescriptor sys call size) size
        untranslatedSize s j t → j < size → ¬ Overruns size (t.cmdBuf j) j := by
  have after : ∀ P, (∀ k < size, P k) → Touches P (do
      recordWords call size
      touchWords size
      writeBlock sys call.dstProcess call.dstAddress (wordBytes (← get).cmdBuf size)
      return .ok () : Translate O M (ResultVal Unit)) := by
    intro P all
    refine logs_bind (touches_recordWords all) fun _ => ?_
    refine logs_bind (touches_touchWords all) fun _ => logs_bind logs_get fun _ => ?_
    exact logs_bind spares_writeBlock.touches fun _ => logs_pure _
  refine (good_bind_iff (fun result => Logs.keeps ?_) fun result =>
    Logs.lasts (P := fun _ => True) ?_).trans ?_
  · cases result with
    | error e => exact logs_pure _
    | ok done => exact after _ fun _ below => below
  · cases result with
    | error e => exact logs_pure _
    | ok done => exact after _ fun _ _ => True.intro
  have enough : size - untranslatedSize < size + 1 := by omega
  exact loop_good_iff (fun t : Translation O M => Within size t.touched)
    (fun j t => Overruns size (t.cmdBuf j) j) forward_translateDescriptor
    (fun _ _ => turn_within) enough

end Translate

namespace HLE

variable {O M : Type} {sys : MemorySystem M} {call : RequestCall O} {P : Nat → Prop}
  {descriptor i n size : Nat}

abbrev Touches (P : Nat → Prop) {α : Type} (x : HLE O M α) : Prop := Logs HLERequest.touched P x

theorem touches_readClient (h : P i) : Touches P (readClient i : HLE O M Nat) :=
  logs_one (fun _ => rfl) h

theorem touches_readCommand (h : P i) : Touches P (readCommand i : HLE O M Nat) :=
  logs_one (fun _ => rfl) h

theorem touches_writeClient (h : P i) : Touches P (writeClient i value : HLE O M Unit) :=
  logs_one (fun _ => rfl) h

theorem touches_writeCommand (h : P i) : Touches P (writeCommand i value : HLE O M Unit) :=
  logs_one (fun _ => rfl) h

theorem touches_touchWords (h : ∀ k < n, P k) : Touches P (touchWords n : HLE O M Unit) :=
  fun _ => ⟨List.range n, rfl, fun k hk => h k (List.mem_range.mp hk)⟩

theorem touches_recordWords (h : ∀ k < size, P k) :
    Touches P (recordWords call size : HLE O M Unit) :=
  logs_ite (fun _ => touches_touchWords h) fun _ => logs_pure _

/-- Handles are only looked at where they fit. -/
theorem touches_handles {x : HLE O M Unit}
    (fits : i + handleNumberFromDesc descriptor ≤ size → Touches P x) : Touches P (do
      MonadExcept.ofExcept (assert .commandBuffer (i + handleNumberFromDesc descriptor ≤ size))
      x
      return .ok (i + handleNumberFromDesc descriptor) : HLE O M (ResultVal Nat)) := by
  by_cases room : i + handleNumberFromDesc descriptor ≤ size
  · exact logs_bind (logs_ofExcept _) fun _ => logs_bind (fits room) fun _ => logs_pure _
  · rw [assert, if_neg room]
    exact logs_throw _

theorem touches_readBlock {process address : Nat} :
    Touches P (readBlock sys process address size : HLE O M (List UInt8)) := by
  refine logs_bind logs_get fun s => logs_bind (logs_ofExcept _) fun result => ?_
  exact logs_bind (logs_modify fun _ => rfl) fun _ => logs_pure _

theorem touches_clientObject {handle : Nat} :
    Touches P (clientObject call descriptor handle : HLE O M (Option O)) := by
  refine logs_ite (fun _ => ?_) fun _ => logs_pure _
  refine logs_bind logs_get fun _ => logs_bind (logs_ofExcept _) fun _ => ?_
  refine logs_bind (logs_bind logs_get fun _ => ?_) fun _ => logs_pure _
  exact logs_ite (fun _ => logs_modify fun _ => rfl) fun _ => logs_pure _

theorem touches_populateHandle (h : P i) :
    Touches P (populateHandle call descriptor i : HLE O M Unit) := by
  refine logs_bind (touches_readClient h) fun handle => logs_bind touches_clientObject fun _ => ?_
  refine logs_bind ?_ fun _ => touches_writeCommand h
  exact logs_bind logs_get fun _ => logs_bind (logs_modify fun _ => rfl) fun _ => logs_pure _

theorem touches_populateHandles (h : ∀ k, i ≤ k → k < i + n → P k) :
    Touches P (populateHandles call descriptor n i : HLE O M Unit) := by
  induction n generalizing i with
  | zero => exact logs_pure _
  | succ n ih =>
    refine logs_bind (touches_populateHandle (h i (Nat.le_refl i) (by omega))) fun _ => ?_
    exact ih fun k low high => h k (by omega) (by omega)

theorem touches_populateOperands (handles : ∀ k, i ≤ k → k < size → P k)
    (one : (getDescriptorType descriptor).HasOperand → P i) :
    Touches P (populateOperands sys call size descriptor i : HLE O M (ResultVal Nat)) := by
  unfold populateOperands
  cases type : getDescriptorType descriptor with
  | copyHandle | moveHandle =>
    refine touches_handles fun fits => ?_
    exact touches_populateHandles fun k low high => handles k low (by omega)
  | callingPid =>
    have one := one (by rw [type]; trivial)
    exact logs_bind logs_get fun _ => logs_bind (touches_writeCommand one) fun _ => logs_pure _
  | staticBuffer =>
    have one := one (by rw [type]; trivial)
    refine logs_bind (touches_readClient one) fun _ => logs_bind ?_ fun _ => logs_pure _
    refine logs_bind touches_readBlock fun _ => logs_bind (logs_modify fun _ => rfl) fun _ => ?_
    exact touches_writeCommand one
  | mappedBuffer =>
    have one := one (by rw [type]; trivial)
    refine logs_bind (touches_readClient one) fun _ => logs_bind ?_ fun _ => logs_pure _
    refine logs_bind logs_get fun _ => logs_bind (logs_modify fun _ => rfl) fun _ => ?_
    exact touches_writeCommand one
  | pxiBuffer | unnamed => exact logs_pure _

theorem enters_populateOperands (one : (getDescriptorType descriptor).HasOperand) :
    Enters HLERequest.touched i (populateOperands sys call size descriptor i :
      HLE O M (ResultVal Nat)) := by
  have read : Enters HLERequest.touched i (readClient i : HLE O M Nat) :=
    fun _ => List.mem_cons_self
  unfold populateOperands
  cases type : getDescriptorType descriptor with
  | callingPid => exact fun _ => List.mem_cons_self
  | staticBuffer =>
    refine enters_bind (P := fun _ => True) read fun _ => logs_bind ?_ fun _ => logs_pure _
    refine logs_bind touches_readBlock fun _ => logs_bind (logs_modify fun _ => rfl) fun _ => ?_
    exact touches_writeCommand True.intro
  | mappedBuffer =>
    refine enters_bind (P := fun _ => True) read fun _ => logs_bind ?_ fun _ => logs_pure _
    refine logs_bind logs_get fun _ => logs_bind (logs_modify fun _ => rfl) fun _ => ?_
    exact touches_writeCommand True.intro
  | copyHandle | moveHandle | pxiBuffer | unnamed =>
    rw [type] at one
    exact one.elim

theorem forward_populateDescriptor : Forward (populateDescriptor sys call size :
    Nat → HLE O M (ResultVal Nat)) := by
  intro i
  refine yields_bind fun descriptor => yields_bind fun _ => ?_
  have ahead := fun n => yields_place (σ := HLERequest O M) (Nat.le_add_right (i + 1) n)
  unfold populateOperands
  cases type : getDescriptorType descriptor with
  | copyHandle | moveHandle => exact yields_bind fun _ => yields_bind fun _ => ahead _
  | callingPid | staticBuffer | mappedBuffer =>
    exact yields_bind fun _ => yields_bind fun _ => ahead 1
  | pxiBuffer | unnamed => exact ahead 0

variable {s s' : HLERequest O M} {untranslatedSize : Nat}

theorem outcome_populateDescriptor : outcome (populateDescriptor sys call size i) s =
    outcome (populateOperands sys call size (s.clientBuf i) (i + 1)) { s with
      touched := i :: i :: s.touched
      cmdBuf := Function.update s.cmdBuf i (s.clientBuf i) } := outcome_bind_ok rfl

theorem populate_turn_within (inside : i < size) :
    Within size (outcome (populateDescriptor sys call size i) s).2.touched ↔
      Within size s.touched ∧ ¬ Overruns size (s.clientBuf i) i := by
  rw [outcome_populateDescriptor]
  refine (within_of_operands inside touches_populateOperands enters_populateOperands).trans ?_
  refine and_congr_left fun _ => List.forall_mem_cons.trans ((and_iff_right inside).trans ?_)
  exact List.forall_mem_cons.trans (and_iff_right inside)

/-- The loop stays within the command if each of its turns does; the recording behind it touches
the same words. -/
theorem loop_within {turn : Nat → HLE O M (ResultVal Nat)} (Bad : Nat → HLERequest O M → Prop)
    (forward : Forward turn) (each : ∀ i s, i < size →
      (Within size (outcome (turn i) s).2.touched ↔ Within size s.touched ∧ ¬ Bad i s)) :
    Within size (outcome (do
      let result ← loop .outOfFuel turn size (size + 1) untranslatedSize
      recordWords call size
      return result : HLE O M (ResultVal Unit)) s).2.touched ↔
      Within size s.touched ∧ ∀ j t, Visits turn size untranslatedSize s j t → j < size →
        ¬ Bad j t := by
  have after : ∀ P, (∀ k < size, P k) → ∀ result : ResultVal Unit, HLE.Touches P (do
      recordWords call size
      return result : HLE O M (ResultVal Unit)) := fun P all result =>
    logs_bind (touches_recordWords all) fun _ => logs_pure _
  refine (good_bind_iff (fun result => (after _ (fun _ below => below) result).keeps)
    fun result => (after (fun _ => True) (fun _ _ => True.intro) result).lasts).trans ?_
  have enough : size - untranslatedSize < size + 1 := by omega
  exact loop_good_iff (fun t : HLERequest O M => Within size t.touched) Bad forward each enough

theorem populateStarted_within : Within size
    (outcome (populateStarted sys call untranslatedSize size) s).2.touched ↔
      Within size s.touched ∧ ∀ j t, Visits (populateDescriptor sys call size) size
        untranslatedSize s j t → j < size → ¬ Overruns size (t.clientBuf j) j :=
  loop_within (fun j t => Overruns size (t.clientBuf j) j) forward_populateDescriptor
    fun _ _ => populate_turn_within

theorem commandSizes_eq_ok {header : Nat} : commandSizes header = .ok (untranslatedSize, size) ↔
      1 + normalParamsSize header = untranslatedSize ∧
        untranslatedSize + translateParamsSize header = size ∧ size ≤ commandBufferLength := by
  rw [commandSizes, assert]
  split_ifs with fits
  · constructor
    · intro h
      cases h
      exact ⟨rfl, rfl, fits⟩
    · rintro ⟨rfl, rfl, _⟩
      rfl
  · constructor
    · nofun
    · rintro ⟨rfl, rfl, fits'⟩
      exact absurd fits' fits

theorem start_within {header : HLE O M Nat} {copy : Nat → HLERequest O M → HLERequest O M}
    (started : outcome (startCommand call header copy) s = (.ok (untranslatedSize, size), s'))
    (first : HLE.Touches (· = 0) header) (same : ∀ n s, (copy n s).touched = s.touched)
    (start : s.touched = []) : size ≤ commandBufferLength ∧ Within size s'.touched := by
  obtain ⟨word, s₁, read, run⟩ := outcome_bind_eq_ok.mp started
  obtain ⟨⟨n, m⟩, s₂, sizes, run⟩ := outcome_bind_eq_ok.mp run
  obtain ⟨_, s₃, touched, run⟩ := outcome_bind_eq_ok.mp run
  obtain ⟨_, s₄, copied, run⟩ := outcome_bind_eq_ok.mp run
  obtain ⟨_, s₅, recorded, run⟩ := outcome_bind_eq_ok.mp run
  cases run
  rw [outcome_ofExcept] at sizes
  obtain ⟨rfl, sum, fits⟩ := commandSizes_eq_ok.mp (congrArg Prod.fst sizes)
  obtain rfl : s₁ = s₂ := congrArg Prod.snd sizes
  refine ⟨fits, ?_⟩
  obtain ⟨entries, logged, zero⟩ := first s
  have good : Within size s₁.touched := by
    rw [← show _ = s₁ from congrArg Prod.snd read, logged, start]
    intro k hk
    rw [List.append_nil] at hk
    rw [zero k hk]
    omega
  have rest : HLE.Touches (· < size) (do
      touchWords (1 + normalParamsSize word)
      modify (copy (1 + normalParamsSize word))
      recordWords call size : HLE O M Unit) :=
    logs_bind (touches_touchWords fun k below => by omega) fun _ =>
      logs_bind (logs_modify (same _)) fun _ => touches_recordWords fun _ below => below
  have all := rest.keeps s₁ good
  rw [outcome_bind_ok touched, outcome_bind_ok copied, recorded] at all
  exact all

theorem touches_outgoingHandle (h : P i) : Touches P (outgoingHandle i : HLE O M Unit) := by
  refine logs_bind (touches_readCommand h) fun id => logs_bind logs_get fun s => ?_
  rcases s.requestHandles[id]? with _ | _ | object
  · exact logs_throw _
  · exact touches_writeClient h
  · refine logs_bind logs_get fun s => ?_
    rcases s.process.handleTable.create object with ⟨e | handle, table⟩
    · exact logs_throw _
    · exact logs_bind (logs_modify fun _ => rfl) fun _ => touches_writeClient h

theorem touches_outgoingHandles (h : ∀ k, i ≤ k → k < i + n → P k) :
    Touches P (outgoingHandles n i : HLE O M Unit) := by
  induction n generalizing i with
  | zero => exact logs_pure _
  | succ n ih =>
    refine logs_bind (touches_outgoingHandle (h i (Nat.le_refl i) (by omega))) fun _ => ?_
    exact ih fun k low high => h k (by omega) (by omega)

theorem touches_outgoingMappedBuffer {id : Nat} (h : P i) :
    Touches P (outgoingMappedBuffer id i : HLE O M Unit) := by
  refine logs_bind logs_get fun s => ?_
  cases s.requestMappedBuffers[id]? with
  | none => exact logs_throw _
  | some buffer => exact touches_writeClient h

end HLE

/-- The static buffer is not too big for what the client set up, and is written there. -/
def Delivered {O M : Type} (sys : MemorySystem M) (call : RequestCall O) (descriptor : Nat)
    (s : HLERequest O M) : Prop :=
  (s.staticBuffers (staticBufferId descriptor)).length ≤
      staticBufferSize (s.clientBuf (HLE.staticBufferOffset descriptor)) ∧
    ∃ memory, sys.writeBlock s.memory call.client
      (s.clientBuf (HLE.staticBufferOffset descriptor + 1))
      (s.staticBuffers (staticBufferId descriptor)) = .ok memory

/-- The word behind the descriptor is touched on the way back. -/
def ReturnsOperand {O M : Type} (sys : MemorySystem M) (call : RequestCall O) (descriptor : Nat)
    (s : HLERequest O M) : Prop :=
  match getDescriptorType descriptor with
  | .staticBuffer => Delivered sys call descriptor s
  | .mappedBuffer => True
  | _ => False

namespace HLE

variable {O M : Type} {sys : MemorySystem M} {call : RequestCall O} {descriptor i size : Nat}
  {s : HLERequest O M} {untranslatedSize : Nat}

theorem deliverStaticBuffer_delivered (h : Delivered sys call descriptor s) :
    ∃ memory, outcome (deliverStaticBuffer sys call descriptor) s =
      (.ok (s.clientBuf (staticBufferOffset descriptor + 1)), { s with memory := memory }) := by
  obtain ⟨fits, memory, written⟩ := h
  have wrote : outcome (writeBlock sys call.client
      (s.clientBuf (staticBufferOffset descriptor + 1))
      (s.staticBuffers (staticBufferId descriptor))) s = (.ok (), { s with memory := memory }) := by
    rw [writeBlock, outcome_bind_ok outcome_get, written]
    rfl
  refine ⟨memory, (outcome_bind_ok outcome_get).trans ?_⟩
  exact (outcome_bind_ok (outcome_assert fits)).trans (outcome_bind_ok wrote)

theorem deliverStaticBuffer_undelivered (h : ¬ Delivered sys call descriptor s) :
    ∃ e, outcome (deliverStaticBuffer sys call descriptor) s = (.error e, s) := by
  by_cases fits : (s.staticBuffers (staticBufferId descriptor)).length ≤
      staticBufferSize (s.clientBuf (staticBufferOffset descriptor))
  · cases written : sys.writeBlock s.memory call.client
        (s.clientBuf (staticBufferOffset descriptor + 1))
        (s.staticBuffers (staticBufferId descriptor)) with
    | ok memory => exact absurd ⟨fits, memory, written⟩ h
    | error e =>
      refine ⟨e, (outcome_bind_ok outcome_get).trans ?_⟩
      refine (outcome_bind_ok (outcome_assert fits)).trans ?_
      refine outcome_bind_error ((outcome_bind_ok outcome_get).trans ?_)
      rw [written]
      rfl
  · refine ⟨.assertion .commandBuffer, (outcome_bind_ok outcome_get).trans ?_⟩
    refine outcome_bind_error ?_
    rw [outcome_ofExcept]
    exact congrArg (·, s) (if_neg fits)

theorem outgoingOperands_within (fits : i ≤ size) : Within size
    (outcome (outgoingOperands sys call size descriptor i) s).2.touched ↔
      Within size s.touched ∧ ¬ (i = size ∧ ReturnsOperand sys call descriptor s) := by
  have quiet : ∀ {x : HLE O M (ResultVal Nat)} {bad : Prop}, HLE.Touches (· < size) x → ¬ bad →
      (Within size (outcome x s).2.touched ↔ Within size s.touched ∧ ¬ (i = size ∧ bad)) :=
    fun inside none => inside.good_iff.trans (and_iff_left fun both => none both.2).symm
  unfold outgoingOperands ReturnsOperand
  cases getDescriptorType descriptor with
  | copyHandle | moveHandle =>
    exact quiet (touches_handles fun fits => touches_outgoingHandles fun k _ _ => by omega) id
  | callingPid | pxiBuffer | unnamed => exact quiet (logs_pure _) id
  | staticBuffer =>
    by_cases taken : Delivered sys call descriptor s
    · obtain ⟨memory, delivered⟩ := deliverStaticBuffer_delivered taken
      have written : outcome (outgoingStaticBuffer sys call descriptor i) s = _ :=
        outcome_bind_ok delivered
      rw [outcome_bind_ok written]
      refine List.forall_mem_cons.trans (and_comm.trans (and_congr_right fun _ => ?_))
      rw [and_iff_left taken]
      omega
    · obtain ⟨e, failed⟩ := deliverStaticBuffer_undelivered taken
      have failed : outcome (outgoingStaticBuffer sys call descriptor i) s = (.error e, s) :=
        outcome_bind_error failed
      rw [outcome_bind_error failed]
      exact (and_iff_left fun both => taken both.2).symm
  | mappedBuffer =>
    have any : ∀ {P : Nat → Prop}, P i → HLE.Touches P (do
        outgoingMappedBuffer (← readCommand i) i
        return .ok (i + 1) : HLE O M (ResultVal Nat)) := by
      intro P h
      refine logs_bind (touches_readCommand h) fun id => ?_
      exact logs_bind (touches_outgoingMappedBuffer h) fun _ => logs_pure _
    refine good_log_iff size _ (fun fine => ?_) ?_ (any (P := fun _ => True) True.intro)
      (Nat.lt_irrefl size)
    · exact any (Nat.lt_of_le_of_ne fits fun same => fine ⟨same, True.intro⟩)
    · rintro ⟨rfl, -⟩
      refine enters_bind (P := fun _ => True) (fun _ => List.mem_cons_self) fun id => ?_
      exact logs_bind (touches_outgoingMappedBuffer True.intro) fun _ => logs_pure _

theorem forward_outgoingDescriptor : Forward (outgoingDescriptor sys call size :
    Nat → HLE O M (ResultVal Nat)) := by
  intro i
  refine yields_bind fun descriptor => yields_bind fun _ => ?_
  have ahead := fun n => yields_place (σ := HLERequest O M) (Nat.le_add_right (i + 1) n)
  unfold outgoingOperands
  cases getDescriptorType descriptor with
  | copyHandle | moveHandle => exact yields_bind fun _ => yields_bind fun _ => ahead _
  | staticBuffer => exact yields_bind fun _ => ahead 1
  | mappedBuffer => exact yields_bind fun _ => yields_bind fun _ => ahead 1
  | callingPid | pxiBuffer | unnamed => exact ahead 0

theorem returnsOperand_copied {touched : List Nat} (inside : i < commandBufferLength) :
    ReturnsOperand sys call descriptor { s with
      touched := touched
      clientBuf := Function.update s.clientBuf i descriptor } ↔
      ReturnsOperand sys call descriptor s := by
  have first : staticBufferOffset descriptor ≠ i := by
    unfold staticBufferOffset
    omega
  have second : staticBufferOffset descriptor + 1 ≠ i := by
    unfold staticBufferOffset
    omega
  unfold ReturnsOperand Delivered
  dsimp only
  rw [Function.update_of_ne first, Function.update_of_ne second]

theorem outgoing_turn_within (short : size ≤ commandBufferLength) (inside : i < size) :
    Within size (outcome (outgoingDescriptor sys call size i) s).2.touched ↔
      Within size s.touched ∧ ¬ (i + 1 = size ∧ ReturnsOperand sys call (s.cmdBuf i) s) := by
  have start : outcome (outgoingDescriptor sys call size i) s =
      outcome (outgoingOperands sys call size (s.cmdBuf i) (i + 1)) { s with
        touched := i :: i :: s.touched
        clientBuf := Function.update s.clientBuf i (s.cmdBuf i) } := outcome_bind_ok rfl
  rw [start, outgoingOperands_within inside, returnsOperand_copied (by omega)]
  refine and_congr_left fun _ => List.forall_mem_cons.trans ((and_iff_right inside).trans ?_)
  exact List.forall_mem_cons.trans (and_iff_right inside)

theorem outgoingStarted_within (short : size ≤ commandBufferLength) : Within size
    (outcome (outgoingStarted sys call untranslatedSize size) s).2.touched ↔
      Within size s.touched ∧ ∀ j t, Visits (outgoingDescriptor sys call size) size
        untranslatedSize s j t → j < size →
          ¬ (j + 1 = size ∧ ReturnsOperand sys call (t.cmdBuf j) t) :=
  loop_within (fun j t => j + 1 = size ∧ ReturnsOperand sys call (t.cmdBuf j) t)
    forward_outgoingDescriptor fun _ _ => outgoing_turn_within short

end HLE

/-- Each translation of a command that fits stays within it just if no turn starts at its last
word with a descriptor whose operand is then used. -/
theorem translations_within_iff {O M : Type} (sys : MemorySystem M) :
    (∀ (call : TranslateCall O) (s s' : Translation O M) (first size : Nat), s.touched = [] →
      outcome (Translate.loadCommand sys call) s = (.ok (first, size), s') →
        (Within size (outcome (Translate.translateCommandBuffer sys call) s).2.touched ↔
          ∀ j t, Visits (Translate.translateDescriptor sys call size) size first s' j t →
            j < size → ¬ Overruns size (t.cmdBuf j) j)) ∧
    (∀ (call : RequestCall O) (s s' : HLERequest O M) (first size : Nat), s.touched = [] →
      outcome (HLE.startPopulate call) s = (.ok (first, size), s') →
        (Within size (outcome (HLE.populateFromIncomingCommandBuffer sys call) s).2.touched ↔
          ∀ j t, Visits (HLE.populateDescriptor sys call size) size first s' j t →
            j < size → ¬ Overruns size (t.clientBuf j) j)) ∧
    (∀ (call : RequestCall O) (s s' : HLERequest O M) (first size : Nat), s.touched = [] →
      outcome (HLE.startOutgoing call) s = (.ok (first, size), s') →
        (Within size (outcome (HLE.writeToOutgoingCommandBuffer sys call) s).2.touched ↔
          ∀ j t, Visits (HLE.outgoingDescriptor sys call size) size first s' j t →
            j < size → ¬ (j + 1 = size ∧ ReturnsOperand sys call (t.cmdBuf j) t))) := by
  refine ⟨fun call s s' first size start loaded => ?_, fun call s s' first size start loaded => ?_,
    fun call s s' first size start loaded => ?_⟩
  · rw [Translate.translateCommandBuffer, outcome_bind_ok loaded]
    exact Translate.translateLoaded_within.trans
      (and_iff_right (Translate.loadCommand_within start loaded))
  · have within := HLE.start_within loaded (HLE.touches_readClient rfl) (fun _ _ => rfl) start
    rw [HLE.populateFromIncomingCommandBuffer, outcome_bind_ok loaded]
    exact HLE.populateStarted_within.trans (and_iff_right within.2)
  · have within := HLE.start_within loaded (HLE.touches_readCommand rfl) (fun _ _ => rfl) start
    rw [HLE.writeToOutgoingCommandBuffer, outcome_bind_ok loaded]
    exact (HLE.outgoingStarted_within within.1).trans (and_iff_right within.2)

def flatMemory : MemorySystem (List UInt8) where
  readBlock memory _ address size :=
    .ok ((List.range size).map fun k => memory.getD (address + k) 0, memory)
  writeBlock memory _ address data :=
    .ok (memory.take address ++ data ++ memory.drop (address + data.length))
  copyBlock memory _ _ destAddr srcAddr size :=
    .ok (memory.take destAddr ++ (memory.drop srcAddr).take size ++ memory.drop (destAddr + size))
  makeBuffer memory _ := (0, memory)
  fillBuffer memory _ _ _ := memory

def someProcess (processId : Nat) : IpcProcess Unit where
  processId := processId
  handleTable := HandleTable.new
  vmManager := VMManager.fresh

/-- From process 0, with the command at the address 0, to process 1. -/
def someCall : TranslateCall Unit where
  srcProcess := 0
  dstProcess := 1
  srcThread := ()
  srcProcessObject := ()
  currentThread := none
  currentProcess := none
  srcAddress := 0
  dstAddress := 0x200
  reply := false
  shouldRecord := false

def commandAt (words : List Nat) : Translation Unit (List UInt8) where
  processes := someProcess
  memory := words.flatMap (leBytes 4)
  mappedBufferContext := []
  cmdBuf := fun _ => 0
  touched := []

/-- One null handle is copied. -/
theorem translations_within_iff_copyHandle : ∃ s',
    outcome (Translate.loadCommand flatMemory someCall) (commandAt [2, 0, 0]) = (.ok (1, 3), s') ∧
      (Within 3 (outcome (Translate.translateCommandBuffer flatMemory someCall)
          (commandAt [2, 0, 0])).2.touched ↔
        ∀ j t, Visits (Translate.translateDescriptor flatMemory someCall 3) 3 1 s' j t →
          j < 3 → ¬ Overruns 3 (t.cmdBuf j) j) :=
  have loaded : outcome (Translate.loadCommand flatMemory someCall) (commandAt [2, 0, 0]) =
      (.ok (1, 3), _) := rfl
  ⟨_, loaded, (translations_within_iff flatMemory).1 someCall (commandAt [2, 0, 0]) _ 1 3 rfl loaded⟩

/-- A full command whose last word asks for the process id: it is written behind the array. -/
theorem translations_within_fails : ∃ s s',
    outcome (Translate.loadCommand flatMemory someCall) s = (.ok (63, 64), s') ∧
      s.touched = [] ∧ commandBufferLength ∈
        (outcome (Translate.translateCommandBuffer flatMemory someCall) s).2.touched := by
  refine ⟨commandAt (0xF81 :: List.replicate 62 0 ++ [0x20]), _, rfl, rfl, ?_⟩
  decide +kernel

end EmuThreeDS
