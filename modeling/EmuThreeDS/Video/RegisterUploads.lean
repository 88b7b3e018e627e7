import EmuThreeDS.Video.PicaState
import Mathlib.Tactic.IntervalCases

/-!
# Packed uploads

The counters of the packed registers stay inside their buffers whatever is written, and a vector
of float uniforms lands where the index pointed to.
-/
namespace EmuThreeDS.Pica

variable {F : Type}

def Access.Inside : Access → Prop
  | .uniformWriteBuffer i => i < 4
  | .uniform i => i < 96
  | .defaultAttrWriteBuffer i => i < 3
  | .inputDefaultAttribute i => i < 16
  | .inputVertex i => i < 16
  | .lutAssertion holds => holds = true

instance (a : Access) : Decidable a.Inside := by
  cases a <;> simp only [Access.Inside] <;> infer_instance

structure RegWrite where
  id : Nat
  value : RegWord
  mask : BitVec 4

namespace PicaState

variable (float : Float24 F)

def write (s : PicaState F) (w : RegWrite) : PicaState F × List Access :=
  s.writePicaReg float w.id w.value w.mask

def writeAll (s : PicaState F) : List RegWrite → PicaState F × List Access
  | [] => (s, [])
  | w :: rest =>
    let (s, first) := s.write float w
    let (s, later) := writeAll s rest
    (s, first ++ later)

/-- `State::Reset`; the tables that it keeps are those of `s`. -/
def reset (zero : F) (s : PicaState F) : PicaState F :=
  let upload : UniformUpload F := ⟨0, fun _ => 0, fun _ => ⟨zero, zero, zero, zero⟩⟩
  { s with
    regs := fun _ => 0
    uploads := fun _ => upload
    defaultAttrCounter := 0
    defaultAttrWriteBuffer := fun _ => 0
    inputVertex := fun _ => ⟨zero, zero, zero, zero⟩
    currentAttribute := 0
    resetGeometryPipeline := false
    cmdList := ⟨0, 0, 0⟩ }

structure Counted (s : PicaState F) : Prop where
  uniforms : ∀ unit, (s.uploads unit).floatRegsCounter ≤ 3
  defaults : s.defaultAttrCounter ≤ 2
  current : s.currentAttribute ≤ 15

/-- A write that fills the buffer of a unit's uniforms finds an index that has a uniform. -/
def VectorFits (s : PicaState F) (w : RegWrite) : Prop :=
  ∀ unit, setValue unit 0 ≤ w.id → w.id ≤ setValue unit 7 →
    (s.uploads unit).completes (s.regs (uniformSetup unit)) = true →
      setupIndex (s.regs (uniformSetup unit)) < 96

def EachVectorFits (s : PicaState F) : List RegWrite → Prop
  | [] => True
  | w :: rest => s.VectorFits w ∧ EachVectorFits (s.write float w).1 rest

end PicaState

section

variable {float : Float24 F} {config : RegWord} {u : UniformUpload F} {value : RegWord}

def vectorWords (config : RegWord) : Nat := if isFloat32 config then 4 else 3

theorem vectorWords_le (config : RegWord) : vectorWords config ≤ 4 := by
  unfold vectorWords
  split_ifs <;> decide

theorem completes_iff :
    u.completes config = true ↔ vectorWords config ≤ u.floatRegsCounter + 1 := by
  unfold UniformUpload.completes vectorWords
  cases isFloat32 config <;> simp

theorem uniform_counter (h : u.floatRegsCounter ≤ 3) :
    (writeUniformFloatReg float config u value).2.1.floatRegsCounter ≤ 3 := by
  unfold writeUniformFloatReg
  split_ifs with full index
  · exact Nat.zero_le 3
  · exact Nat.zero_le 3
  · rw [completes_iff] at full
    have few := vectorWords_le config
    dsimp only
    omega

theorem uniform_inside (h : u.floatRegsCounter ≤ 3) :
    (∀ a ∈ (writeUniformFloatReg float config u value).2.2, a.Inside) ↔
      (u.completes config = true → setupIndex config < 96) := by
  have buffer : u.floatRegsCounter < 4 := Nat.lt_succ_of_le h
  unfold writeUniformFloatReg
  split_ifs with full index <;> simp [full, buffer, Access.Inside]

end

namespace PicaState

variable {float : Float24 F} {s : PicaState F}

theorem Counted.writeUniform (h : s.Counted) (unit : ShaderUnit) (value : RegWord) :
    (s.writeUniform float unit value).1.Counted := by
  refine ⟨?_, h.defaults, h.current⟩
  intro other
  by_cases same : other = unit
  · subst same
    simp only [PicaState.writeUniform, Function.update_self]
    exact uniform_counter (h.uniforms other)
  · simp only [PicaState.writeUniform, Function.update_of_ne same]
    exact h.uniforms other

theorem maxAttribute_le (s : PicaState F) : s.maxAttribute ≤ 15 :=
  Nat.le_of_lt_succ (BitField.value_lt 0 4 _)

variable (float) in
theorem writeDefaultAttribute_inside (h : s.Counted) (value : RegWord) :
    (s.writeDefaultAttribute float value).1.Counted ∧
      ∀ a ∈ (s.writeDefaultAttribute float value).2, a.Inside := by
  have buffer : Access.Inside (.defaultAttrWriteBuffer s.defaultAttrCounter) :=
    Nat.lt_succ_of_le h.defaults
  have current : Access.Inside (.inputVertex s.currentAttribute) := Nat.lt_succ_of_le h.current
  have limit := maxAttribute_le s
  unfold writeDefaultAttribute
  dsimp only
  split_ifs with short large small more
  · exact ⟨⟨h.uniforms, Nat.le_of_lt_succ short, h.current⟩, by simpa using buffer⟩
  · exact ⟨⟨h.uniforms, Nat.zero_le 2, h.current⟩, by simpa using buffer⟩
  · refine ⟨⟨h.uniforms, Nat.zero_le 2, h.current⟩, ?_⟩
    have inside : Access.Inside (.inputDefaultAttribute (s.regs defaultAttributesIndex).toNat) :=
      Nat.lt_succ_of_lt small
    simpa [buffer] using inside
  · refine ⟨⟨h.uniforms, Nat.zero_le 2, ?_⟩, by simpa [buffer] using current⟩
    exact Nat.le_trans more limit
  · exact ⟨⟨h.uniforms, Nat.zero_le 2, Nat.zero_le 15⟩, by simpa [buffer] using current⟩

theorem writeLightingLut_inside (h : s.Counted) (value : RegWord) :
    (s.writeLightingLut value).1.Counted ∧ ∀ a ∈ (s.writeLightingLut value).2, a.Inside := by
  refine ⟨⟨h.uniforms, h.defaults, h.current⟩, ?_⟩
  intro a member
  rw [List.mem_singleton.mp member]
  exact decide_eq_true (BitField.value_lt 0 8 _)

theorem writeUniform_inside (h : s.Counted) (unit : ShaderUnit) (value : RegWord) :
    (∀ a ∈ (s.writeUniform float unit value).2, a.Inside) ↔
      ((s.uploads unit).completes (s.regs (uniformSetup unit)) = true →
        setupIndex (s.regs (uniformSetup unit)) < 96) :=
  uniform_inside (h.uniforms unit)

def masked (s : PicaState F) (w : RegWrite) : PicaState F :=
  { s with regs := Function.update s.regs w.id (maskedWord (s.regs w.id) w.value w.mask) }

theorem Counted.masked (h : s.Counted) (w : RegWrite) : (s.masked w).Counted :=
  ⟨h.uniforms, h.defaults, h.current⟩

theorem write_eq (s : PicaState F) (w : RegWrite) : s.write float w = if numRegs ≤ w.id then (s, [])
    else if w.id = defaultAttributesIndex then ({ s.masked w with
        currentAttribute := 0, resetGeometryPipeline := true, defaultAttrCounter := 0 }, [])
    else if 0x233 ≤ w.id ∧ w.id ≤ 0x235 then (s.masked w).writeDefaultAttribute float w.value
    else if w.id = trigger 0 then ((s.masked w).triggerCommandBuffer 0, [])
    else if w.id = trigger 1 then ((s.masked w).triggerCommandBuffer 1, [])
    else if setValue .gs 0 ≤ w.id ∧ w.id ≤ setValue .gs 7 then
      (s.masked w).writeUniform float .gs w.value
    else if setValue .vs 0 ≤ w.id ∧ w.id ≤ setValue .vs 7 then
      (s.masked w).writeUniform float .vs w.value
    else if 0x1c8 ≤ w.id ∧ w.id ≤ 0x1cf then (s.masked w).writeLightingLut w.value
    else (s.masked w, []) := rfl

variable {w : RegWrite} {unit : ShaderUnit}

theorem masked_setup (h : w.id ≠ uniformSetup unit) :
    (s.masked w).regs (uniformSetup unit) = s.regs (uniformSetup unit) :=
  Function.update_of_ne h.symm ..

theorem setValue_bounds (unit : ShaderUnit) :
    setValue unit 0 = uniformSetup unit + 1 ∧ setValue unit 7 = uniformSetup unit + 8 :=
  ⟨rfl, rfl⟩

theorem setValue_only {id : Nat} {other : ShaderUnit} (low : setValue unit 0 ≤ id)
    (high : id ≤ setValue unit 7) (low' : setValue other 0 ≤ id) (high' : id ≤ setValue other 7) :
    other = unit := by
  cases unit <;> cases other <;> simp [setValue, uniformSetup] at * <;> omega

theorem vectorFits_setValue (low : setValue unit 0 ≤ w.id)
    (high : w.id ≤ setValue unit 7) : s.VectorFits w ↔
      ((s.uploads unit).completes (s.regs (uniformSetup unit)) = true →
        setupIndex (s.regs (uniformSetup unit)) < 96) := by
  constructor
  · intro fits
    exact fits unit low high
  · intro fits other low' high'
    rw [setValue_only low high low' high']
    exact fits

theorem vectorFits_other (h : ∀ unit, ¬ (setValue unit 0 ≤ w.id ∧ w.id ≤ setValue unit 7)) :
    s.VectorFits w :=
  fun unit low high => absurd ⟨low, high⟩ (h unit)

variable (float) in
theorem write_inside (h : s.Counted) (w : RegWrite) : (s.write float w).1.Counted ∧
    ((∀ a ∈ (s.write float w).2, a.Inside) ↔ s.VectorFits w) := by
  have counted := h.masked w
  have silent (p : s.VectorFits w) :
      (∀ a ∈ ([] : List Access), a.Inside) ↔ s.VectorFits w := iff_of_true nofun p
  have written : s.write float w = _ := write_eq s w
  generalize s.write float w = after at written ⊢
  split_ifs at written with outside index defaults first second gs vs lut
  · subst written
    refine ⟨h, silent (vectorFits_other ?_)⟩
    intro unit
    cases unit <;> simp [setValue, uniformSetup, numRegs] at outside ⊢ <;> omega
  · subst written
    refine ⟨⟨h.uniforms, Nat.zero_le 2, Nat.zero_le 15⟩, silent (vectorFits_other ?_)⟩
    intro unit
    cases unit <;> simp [setValue, uniformSetup, defaultAttributesIndex] at index ⊢ <;> omega
  · subst written
    obtain ⟨after, inside⟩ := writeDefaultAttribute_inside float counted w.value
    refine ⟨after, iff_of_true inside (vectorFits_other ?_)⟩
    intro unit
    cases unit <;> simp [setValue, uniformSetup] <;> omega
  · subst written
    refine ⟨⟨h.uniforms, h.defaults, h.current⟩, silent (vectorFits_other ?_)⟩
    intro unit
    cases unit <;> simp [setValue, uniformSetup, trigger] at first ⊢ <;> omega
  · subst written
    refine ⟨⟨h.uniforms, h.defaults, h.current⟩, silent (vectorFits_other ?_)⟩
    intro unit
    cases unit <;> simp [setValue, uniformSetup, trigger] at second ⊢ <;> omega
  · subst written
    refine ⟨counted.writeUniform .gs w.value, (writeUniform_inside counted .gs w.value).trans ?_⟩
    rw [masked_setup (by have := setValue_bounds .gs; omega), vectorFits_setValue gs.1 gs.2]
    rfl
  · subst written
    refine ⟨counted.writeUniform .vs w.value, (writeUniform_inside counted .vs w.value).trans ?_⟩
    rw [masked_setup (by have := setValue_bounds .vs; omega), vectorFits_setValue vs.1 vs.2]
    rfl
  · subst written
    obtain ⟨after, inside⟩ := writeLightingLut_inside counted w.value
    refine ⟨after, iff_of_true inside (vectorFits_other ?_)⟩
    intro unit
    cases unit <;> simp [setValue, uniformSetup] <;> omega
  · subst written
    refine ⟨counted, silent (vectorFits_other ?_)⟩
    intro unit
    cases unit <;> assumption

theorem writeAll_inside (h : s.Counted) (writes : List RegWrite) :
    (∀ a ∈ (s.writeAll float writes).2, a.Inside) ↔ s.EachVectorFits float writes := by
  induction writes generalizing s with
  | nil => exact iff_of_true nofun trivial
  | cons w rest ih =>
    obtain ⟨after, step⟩ := write_inside float h w
    simp only [writeAll, EachVectorFits, List.forall_mem_append]
    rw [step, ih after]

end PicaState

/-- A vector is what its words hold: four words of a float each, or three words that are cut into
four pieces of 24 bits. -/
def Unpacks (float : Float24 F) (words : List RegWord) (v : Vec4 F) : Prop :=
  match words with
  | [b0, b1, b2] =>
    let bits : BitVec 96 := b0 ++ b1 ++ b2
    v.w = float.fromRaw ((bits.extractLsb' 72 24).setWidth 32) ∧
      v.z = float.fromRaw ((bits.extractLsb' 48 24).setWidth 32) ∧
      v.y = float.fromRaw ((bits.extractLsb' 24 24).setWidth 32) ∧
      v.x = float.fromRaw ((bits.extractLsb' 0 24).setWidth 32)
  | [b0, b1, b2, b3] =>
    v.w = float.fromFloat32 b0 ∧ v.z = float.fromFloat32 b1 ∧ v.y = float.fromFloat32 b2 ∧
      v.x = float.fromFloat32 b3
  | _ => False

theorem unpackRaw_unpacks (float : Float24 F) (b0 b1 b2 : RegWord) :
    Unpacks float [b0, b1, b2] (unpackRaw float b0 b1 b2) := by
  refine ⟨congrArg float.fromRaw ?_, congrArg float.fromRaw ?_, congrArg float.fromRaw ?_,
    congrArg float.fromRaw ?_⟩
  all_goals
    apply BitVec.eq_of_getLsbD_eq
    intro i less
    simp only [BitVec.getLsbD_setWidth, BitVec.getLsbD_extractLsb', BitVec.getLsbD_append,
      BitVec.getLsbD_ushiftRight, BitVec.getLsbD_or, BitVec.getLsbD_and, BitVec.getLsbD_shiftLeft]
    interval_cases i <;> simp

section

variable (float : Float24 F)

def uploadAll (config : RegWord) (u : UniformUpload F) : List RegWord → RegWord × UniformUpload F
  | [] => (config, u)
  | value :: rest =>
    let (config, u, _) := writeUniformFloatReg float config u value
    uploadAll config u rest

/-- Each vector of the words finds an index that has a uniform. -/
def UploadFits (config : RegWord) (u : UniformUpload F) : List RegWord → Prop
  | [] => True
  | value :: rest =>
    (u.completes config = true → setupIndex config < 96) ∧
      UploadFits (writeUniformFloatReg float config u value).1
        (writeUniformFloatReg float config u value).2.1 rest

variable {float} {config : RegWord} {u : UniformUpload F}

theorem write_short {value : RegWord} (h : u.floatRegsCounter + 1 < vectorWords config) :
    writeUniformFloatReg float config u value = (config,
      { u with
        uniformWriteBuffer := store u.uniformWriteBuffer u.floatRegsCounter value
        floatRegsCounter := u.floatRegsCounter + 1 },
      [.uniformWriteBuffer u.floatRegsCounter]) := by
  unfold writeUniformFloatReg
  rw [if_neg (by rw [completes_iff]; omega)]

theorem write_full {value : RegWord} (h : vectorWords config ≤ u.floatRegsCounter + 1)
    (fits : setupIndex config < 96) :
    writeUniformFloatReg float config u value =
      (BitField.assign 0 7 config (setupIndex config + 1),
        { uniformWriteBuffer := store u.uniformWriteBuffer u.floatRegsCounter value
          floatRegsCounter := 0
          f := store u.f (setupIndex config) (UniformUpload.vector float { u with
            uniformWriteBuffer := store u.uniformWriteBuffer u.floatRegsCounter value
            floatRegsCounter := u.floatRegsCounter + 1 } config) },
        [.uniformWriteBuffer u.floatRegsCounter, .uniform (setupIndex config)]) := by
  unfold writeUniformFloatReg
  rw [if_pos (completes_iff.mpr h), if_neg (Nat.not_le.mpr fits)]

theorem setupIndex_next (fits : setupIndex config < 96) :
    setupIndex (BitField.assign 0 7 config (setupIndex config + 1)) = setupIndex config + 1 := by
  refine (BitField.value_assign (by decide) config _).trans (Nat.mod_eq_of_lt ?_)
  omega

theorem isFloat32_next (v : Nat) : isFloat32 (BitField.assign 0 7 config v) = isFloat32 config := by
  unfold isFloat32
  rw [BitField.value_assign_other (by decide) (by decide)]

theorem uploadAll_vector (empty : u.floatRegsCounter = 0)
    (length : words.length = vectorWords config) (fits : UploadFits float config u words) :
    setupIndex config < 96 ∧ ∃ v buffer, Unpacks float words v ∧
      uploadAll float config u words = (BitField.assign 0 7 config (setupIndex config + 1),
        ⟨0, buffer, store u.f (setupIndex config) v⟩) := by
  cases mode : isFloat32 config with
  | true =>
    have four : vectorWords config = 4 := by simp [vectorWords, mode]
    rw [four] at length
    match words, length with
    | [a, b, c, d], _ =>
      simp only [UploadFits, uploadAll, write_short, empty, four, Nat.reduceAdd, Nat.reduceLT,
        completes_iff, Nat.reduceLeDiff, and_true, true_and, false_imp_iff, le_refl,
        true_imp_iff] at fits ⊢
      refine ⟨fits, ?_⟩
      rw [write_full (by simp [four]) fits]
      refine ⟨_, _, ?_, rfl⟩
      simp only [UniformUpload.vector, mode, if_true]
      exact ⟨rfl, rfl, rfl, rfl⟩
  | false =>
    have three : vectorWords config = 3 := by simp [vectorWords, mode]
    rw [three] at length
    match words, length with
    | [a, b, c], _ =>
      simp only [UploadFits, uploadAll, write_short, empty, three, Nat.reduceAdd, Nat.reduceLT,
        completes_iff, Nat.reduceLeDiff, and_true, true_and, false_imp_iff, le_refl,
        true_imp_iff] at fits ⊢
      refine ⟨fits, ?_⟩
      rw [write_full (by simp [three]) fits]
      refine ⟨_, _, ?_, rfl⟩
      simpa [UniformUpload.vector, mode, store] using unpackRaw_unpacks float a b c

theorem uploadAll_append (first later : List RegWord) : uploadAll float config u (first ++ later) =
      uploadAll float (uploadAll float config u first).1 (uploadAll float config u first).2 later := by
  induction first generalizing config u with
  | nil => rfl
  | cons value rest ih => exact ih

theorem uploadFits_append (first later : List RegWord) :
    UploadFits float config u (first ++ later) ↔ UploadFits float config u first ∧
      UploadFits float (uploadAll float config u first).1 (uploadAll float config u first).2
        later := by
  induction first generalizing config u with
  | nil => simp only [List.nil_append, UploadFits, uploadAll, true_and]
  | cons value rest ih =>
    simp only [List.cons_append, UploadFits, ih, and_assoc]
    rfl

theorem uploadAll_few (few : u.floatRegsCounter + words.length < vectorWords config) :
    (uploadAll float config u words).2.f = u.f := by
  induction words generalizing u with
  | nil => rfl
  | cons value rest ih =>
    rw [List.length_cons] at few
    rw [uploadAll, write_short (by omega)]
    exact ih (by dsimp only; omega)

structure Lands (float : Float24 F) (config : RegWord) (u : UniformUpload F)
    (words : List RegWord) (f : Fin 96 → Vec4 F) : Prop where
  before : ∀ j : Fin 96, j.val < setupIndex config → f j = u.f j
  vector : ∀ k, (k + 1) * vectorWords config ≤ words.length →
    ∃ h : setupIndex config + k < 96,
      Unpacks float ((words.drop (k * vectorWords config)).take (vectorWords config))
        (f ⟨setupIndex config + k, h⟩)

def nextConfig (config : RegWord) : RegWord := BitField.assign 0 7 config (setupIndex config + 1)

theorem vectorWords_next : vectorWords (nextConfig config) = vectorWords config := by
  unfold vectorWords nextConfig
  rw [isFloat32_next]

theorem vectorWords_pos (config : RegWord) : 0 < vectorWords config := by
  unfold vectorWords
  split_ifs <;> decide

theorem Lands.cons {f : Fin 96 → Vec4 F} {v : Vec4 F}
    {buffer : Fin 4 → RegWord} (index : setupIndex config < 96)
    (unpacks : Unpacks float (words.take (vectorWords config)) v)
    (rest : Lands float (nextConfig config) ⟨0, buffer, store u.f (setupIndex config) v⟩
      (words.drop (vectorWords config)) f) : Lands float config u words f := by
  obtain ⟨before, vector⟩ := rest
  rw [vectorWords_next, nextConfig, setupIndex_next index] at vector
  rw [nextConfig, setupIndex_next index] at before
  constructor
  · intro j less
    rw [before j (Nat.lt_succ_of_lt less)]
    exact if_neg (Nat.ne_of_lt less)
  · intro k enough
    cases k with
    | zero =>
      have here : f ⟨setupIndex config + 0, index⟩ = v :=
        (before _ (Nat.lt_succ_self _)).trans (if_pos rfl)
      refine ⟨index, ?_⟩
      rw [here, Nat.zero_mul]
      exact unpacks
    | succ k =>
      rw [Nat.succ_mul] at enough
      obtain ⟨less, lands⟩ := vector k (by
        rw [List.length_drop]
        omega)
      have shift : setupIndex config + 1 + k = setupIndex config + (k + 1) := by omega
      refine ⟨shift ▸ less, ?_⟩
      rw [List.drop_drop, Nat.add_comm (vectorWords config), ← Nat.succ_mul] at lands
      simpa only [shift] using lands

theorem uploadAll_lands (words : List RegWord) : ∀ {config : RegWord} {u : UniformUpload F},
    u.floatRegsCounter = 0 → UploadFits float config u words →
      Lands float config u words (uploadAll float config u words).2.f := by
  induction length : words.length using Nat.strong_induction_on generalizing words with
  | _ n ih =>
    intro config u empty fits
    rcases Nat.lt_or_ge words.length (vectorWords config) with few | many
    · rw [← Nat.zero_add words.length, ← empty] at few
      refine ⟨fun j _ => congrFun (uploadAll_few few) j, ?_⟩
      intro k enough
      rw [Nat.succ_mul] at enough
      omega
    · have some := vectorWords_pos config
      have split := List.take_append_drop (vectorWords config) words
      rw [← split, uploadFits_append] at fits
      obtain ⟨fits, later⟩ := fits
      obtain ⟨index, v, buffer, unpacks, eq⟩ := uploadAll_vector empty
        (List.length_take_of_le many) fits
      rw [eq] at later
      have rest := ih (words.drop (vectorWords config)).length
        (by rw [List.length_drop]; omega) _ rfl rfl later
      have run : uploadAll float config u words = uploadAll float (nextConfig config)
          ⟨0, buffer, store u.f (setupIndex config) v⟩ (words.drop (vectorWords config)) := by
        conv_lhs => rw [← split]
        rw [uploadAll_append, eq]
        rfl
      rw [run]
      exact rest.cons index unpacks

end

structure SetValue where
  i : Fin 8
  value : RegWord
  mask : BitVec 4

def SetValue.write (unit : ShaderUnit) (w : SetValue) : RegWrite :=
  ⟨setValue unit w.i, w.value, w.mask⟩

namespace PicaState

variable {float : Float24 F} {s : PicaState F}

theorem setValue_range (unit : ShaderUnit) (w : SetValue) :
    setValue unit 0 ≤ (w.write unit).id ∧ (w.write unit).id ≤ setValue unit 7 := by
  simp only [SetValue.write, setValue]
  omega

theorem write_setValue (unit : ShaderUnit) (w : SetValue) : s.write float (w.write unit) =
    (s.masked (w.write unit)).writeUniform float unit w.value := by
  rw [write_eq]
  cases unit with
  | gs =>
    rw [if_neg, if_neg, if_neg, if_neg, if_neg, if_pos (setValue_range .gs w)]
    · rfl
    all_goals
      simp only [SetValue.write, setValue, uniformSetup, numRegs, defaultAttributesIndex, trigger]
      omega
  | vs =>
    rw [if_neg, if_neg, if_neg, if_neg, if_neg, if_neg, if_pos (setValue_range .vs w)]
    · rfl
    all_goals
      simp only [SetValue.write, setValue, uniformSetup, numRegs, defaultAttributesIndex, trigger]
      omega

variable (float) in
theorem writeAll_burst (unit : ShaderUnit) (burst : List SetValue) :
    ((s.writeAll float (burst.map (·.write unit))).1.regs (uniformSetup unit),
      (s.writeAll float (burst.map (·.write unit))).1.uploads unit) =
        uploadAll float (s.regs (uniformSetup unit)) (s.uploads unit) (burst.map (·.value)) ∧
      (s.EachVectorFits float (burst.map (·.write unit)) →
        UploadFits float (s.regs (uniformSetup unit)) (s.uploads unit) (burst.map (·.value))) := by
  induction burst generalizing s with
  | nil => exact ⟨rfl, id⟩
  | cons w rest ih =>
    obtain ⟨low, high⟩ := setValue_range unit w
    have setup : (s.masked (w.write unit)).regs (uniformSetup unit) =
        s.regs (uniformSetup unit) := by
      apply masked_setup
      rw [(setValue_bounds unit).1] at low
      omega
    obtain ⟨run, later⟩ := ih (s := (s.write float (w.write unit)).1)
    have config : (s.write float (w.write unit)).1.regs (uniformSetup unit) =
        (writeUniformFloatReg float (s.regs (uniformSetup unit)) (s.uploads unit) w.value).1 := by
      rw [write_setValue]
      simp only [writeUniform, Function.update_self, setup]
      rfl
    have upload : (s.write float (w.write unit)).1.uploads unit = (writeUniformFloatReg float
        (s.regs (uniformSetup unit)) (s.uploads unit) w.value).2.1 := by
      rw [write_setValue]
      simp only [writeUniform, Function.update_self, setup]
      rfl
    rw [config, upload] at run later
    refine ⟨run, ?_⟩
    rintro ⟨first, rest⟩
    exact ⟨(vectorFits_setValue low high).mp first, later rest⟩

theorem eachVectorFits_append (first later : List RegWrite) :
    s.EachVectorFits float (first ++ later) ↔ s.EachVectorFits float first ∧
      (s.writeAll float first).1.EachVectorFits float later := by
  induction first generalizing s with
  | nil => simp only [List.nil_append, EachVectorFits, writeAll, true_and]
  | cons w rest ih =>
    simp only [List.cons_append, EachVectorFits, ih, and_assoc]
    rfl

/-- In every burst of `set_value` writes within the run that starts with an empty buffer, the
vectors land one after another. -/
def InStep (float : Float24 F) (s : PicaState F) (writes : List RegWrite) : Prop :=
  ∀ (before : List RegWrite) (burst : List SetValue) (after : List RegWrite) (unit : ShaderUnit),
    writes = before ++ (burst.map (SetValue.write unit) ++ after) →
    let t := (s.writeAll float before).1
    (t.uploads unit).floatRegsCounter = 0 →
      Lands float (t.regs (uniformSetup unit)) (t.uploads unit) (burst.map (·.value))
        ((t.writeAll float (burst.map (SetValue.write unit))).1.uploads unit).f

def indexBehindUniforms : List RegWrite :=
  [⟨0x2c0, 96, 0xf⟩, ⟨0x2c1, 0, 0xf⟩, ⟨0x2c2, 0, 0xf⟩, ⟨0x2c3, 0, 0xf⟩]

def idleState : PicaState Nat :=
  ⟨fun _ => 0, fun _ => ⟨0, fun _ => 0, fun _ => ⟨0, 0, 0, 0⟩⟩, 0, fun _ => 0,
    fun _ => ⟨0, 0, 0, 0⟩, fun _ => ⟨0, 0, 0, 0⟩, 0, false, fun _ _ => 0, ⟨0, 0, 0⟩⟩

end PicaState
end EmuThreeDS.Pica
