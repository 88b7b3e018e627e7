import EmuThreeDS.Exec
import EmuThreeDS.Lib.BitFields

/-!
# Register writes of the PICA

`WritePicaReg` as far as it keeps counters across writes or installs a command list. The masked
word is written to every register; interrupts, shader programs and the other tables are left out,
since they neither read nor change what is here, and so are draws: the geometry pipeline changes
the float uniforms of its shader, which writes never read. A write behind the end of an array is
undefined: it changes nothing here and is reported as an access.
-/
namespace EmuThreeDS.Pica

abbrev RegWord := BitVec 32

inductive ShaderUnit where
  | vs | gs
  deriving DecidableEq

/-- `float24`, which is not a number here. -/
structure Float24 (F : Type) where
  fromRaw : RegWord → F
  fromFloat32 : RegWord → F

structure Vec4 (F : Type) where
  x : F
  y : F
  z : F
  w : F

/-- The float uniforms of a shader unit with the buffer of their upload. -/
structure UniformUpload (F : Type) where
  floatRegsCounter : Nat
  uniformWriteBuffer : Fin 4 → RegWord
  f : Fin 96 → Vec4 F

/-- `cmd_list`; the address of the head stands for the pointer, and `current` counts words. -/
structure CommandList where
  head : Nat
  current : Nat
  length : Nat

structure PicaState (F : Type) where
  regs : Nat → RegWord
  uploads : ShaderUnit → UniformUpload F
  defaultAttrCounter : Nat
  defaultAttrWriteBuffer : Fin 3 → RegWord
  inputDefaultAttributes : Fin 16 → Vec4 F
  inputVertex : Fin 16 → Vec4 F
  currentAttribute : Nat
  resetGeometryPipeline : Bool
  luts : Fin 24 → Fin 256 → RegWord
  cmdList : CommandList

/-- An element of an array that a write forms or accesses, or an assertion it makes. -/
inductive Access where
  | uniformWriteBuffer (i : Nat)
  | uniform (i : Nat)
  | defaultAttrWriteBuffer (i : Nat)
  | inputDefaultAttribute (i : Nat)
  | inputVertex (i : Nat)
  | lutAssertion (holds : Bool)

def numRegs : Nat := 0x300

/-- `uniform_setup.index` and `format`. -/
def uniformSetup : ShaderUnit → Nat
  | .gs => 0x290
  | .vs => 0x2c0

/-- `uniform_setup.set_value[i]`. -/
def setValue (unit : ShaderUnit) (i : Fin 8) : Nat := uniformSetup unit + 1 + i

/-- `vs_default_attributes_setup.index`. -/
def defaultAttributesIndex : Nat := 0x232

/-- `command_buffer.trigger[index]`. -/
def trigger (index : Fin 2) : Nat := 0x23c + index

def commandBufferSize (index : Fin 2) : Nat := 0x238 + index

def commandBufferAddr (index : Fin 2) : Nat := 0x23a + index

def maxInputAttribIndex : Nat := 0x242

def lutConfig : Nat := 0x1c5

def expandBitsToBytes (mask : BitVec 4) : RegWord :=
  [0x00000000, 0x000000ff, 0x0000ff00, 0x0000ffff, 0x00ff0000, 0x00ff00ff, 0x00ffff00, 0x00ffffff,
    0xff000000, 0xff0000ff, 0xff00ff00, 0xff00ffff, 0xffff0000, 0xffff00ff, 0xffffff00,
    0xffffffff].getD mask.toNat 0

def maskedWord (old value : RegWord) (mask : BitVec 4) : RegWord :=
  (old &&& ~~~ expandBitsToBytes mask) ||| (value &&& expandBitsToBytes mask)

def store {A : Type} {n : Nat} (xs : Fin n → A) (i : Nat) (a : A) : Fin n → A :=
  fun j => if j.val = i then a else xs j

variable {F : Type}

def unpackRaw (float : Float24 F) (b0 b1 b2 : RegWord) : Vec4 F where
  w := float.fromRaw (b0 >>> 8)
  z := float.fromRaw (((b0 &&& 0xff) <<< 16) ||| ((b1 >>> 16) &&& 0xffff))
  y := float.fromRaw (((b1 &&& 0xffff) <<< 8) ||| ((b2 >>> 24) &&& 0xff))
  x := float.fromRaw (b2 &&& 0xffffff)

section

def setupIndex (config : RegWord) : Nat := BitField.value 0 7 config

def isFloat32 (config : RegWord) : Bool := BitField.value 31 1 config == 1

def UniformUpload.completes (u : UniformUpload F) (config : RegWord) : Bool :=
  (4 ≤ u.floatRegsCounter + 1 && isFloat32 config) ||
    (3 ≤ u.floatRegsCounter + 1 && !isFloat32 config)

def UniformUpload.vector (float : Float24 F) (u : UniformUpload F) (config : RegWord) : Vec4 F :=
  if isFloat32 config then
    { w := float.fromFloat32 (u.uniformWriteBuffer 0)
      z := float.fromFloat32 (u.uniformWriteBuffer 1)
      y := float.fromFloat32 (u.uniformWriteBuffer 2)
      x := float.fromFloat32 (u.uniformWriteBuffer 3) }
  else unpackRaw float (u.uniformWriteBuffer 0) (u.uniformWriteBuffer 1) (u.uniformWriteBuffer 2)

def writeUniformFloatReg (float : Float24 F) (config : RegWord) (u : UniformUpload F)
    (value : RegWord) : RegWord × UniformUpload F × List Access :=
  let buffered := { u with
    uniformWriteBuffer := store u.uniformWriteBuffer u.floatRegsCounter value
    floatRegsCounter := u.floatRegsCounter + 1 }
  if u.completes config then
    let emptied := { buffered with floatRegsCounter := 0 }
    -- the reference is formed before the index is checked
    let accesses := [.uniformWriteBuffer u.floatRegsCounter, .uniform (setupIndex config)]
    if 96 ≤ setupIndex config then (config, emptied, accesses)
    else
      (BitField.assign 0 7 config (setupIndex config + 1),
        { emptied with f := store emptied.f (setupIndex config) (buffered.vector float config) },
        accesses)
  else (config, buffered, [.uniformWriteBuffer u.floatRegsCounter])

end

namespace PicaState

variable (float : Float24 F) (s : PicaState F)

def writeUniform (unit : ShaderUnit) (value : RegWord) : PicaState F × List Access :=
  let (config, upload, accesses) :=
    writeUniformFloatReg float (s.regs (uniformSetup unit)) (s.uploads unit) value
  ({ s with
    regs := Function.update s.regs (uniformSetup unit) config
    uploads := Function.update s.uploads unit upload }, accesses)

/-- `max_input_attrib_index`. -/
def maxAttribute : Nat := BitField.value 0 4 (s.regs maxInputAttribIndex)

def writeDefaultAttribute (value : RegWord) : PicaState F × List Access :=
  let access := Access.defaultAttrWriteBuffer s.defaultAttrCounter
  let s := { s with
    defaultAttrWriteBuffer := store s.defaultAttrWriteBuffer s.defaultAttrCounter value
    defaultAttrCounter := s.defaultAttrCounter + 1 }
  if s.defaultAttrCounter < 3 then (s, [access])
  else
    let s := { s with defaultAttrCounter := 0 }
    let index := s.regs defaultAttributesIndex
    let attr := unpackRaw float (s.defaultAttrWriteBuffer 0) (s.defaultAttrWriteBuffer 1)
      (s.defaultAttrWriteBuffer 2)
    if 16 ≤ index.toNat then (s, [access])
    else if index.toNat < 15 then
      ({ s with
        inputDefaultAttributes := store s.inputDefaultAttributes index.toNat attr
        regs := Function.update s.regs defaultAttributesIndex (index + 1) },
        [access, .inputDefaultAttribute index.toNat])
    else
      let accesses := [access, .inputVertex s.currentAttribute]
      let s := { s with inputVertex := store s.inputVertex s.currentAttribute attr }
      if s.currentAttribute < s.maxAttribute then
        ({ s with currentAttribute := s.currentAttribute + 1 }, accesses)
      else ({ s with currentAttribute := 0, resetGeometryPipeline := false }, accesses)

def triggerCommandBuffer (index : Fin 2) : PicaState F :=
  let size := 8 * BitField.value 0 20 (s.regs (commandBufferSize index))
  let addr := 8 * BitField.value 0 28 (s.regs (commandBufferAddr index)) % 0x100000000
  { s with cmdList := ⟨addr, 0, size / 4⟩ }

def writeLightingLut (value : RegWord) : PicaState F × List Access :=
  let config := s.regs lutConfig
  let index := BitField.value 0 8 config
  let type := BitField.value 8 5 config
  ({ s with
    luts := fun t => if t.val = type then store (s.luts t) index value else s.luts t
    regs := Function.update s.regs lutConfig (BitField.assign 0 8 config (index + 1)) },
    [.lutAssertion (index < 256)])

def writePicaReg (id : Nat) (value : RegWord) (mask : BitVec 4) : PicaState F × List Access :=
  if numRegs ≤ id then (s, [])
  else
    let s := { s with regs := Function.update s.regs id (maskedWord (s.regs id) value mask) }
    if id = defaultAttributesIndex then
      ({ s with currentAttribute := 0, resetGeometryPipeline := true, defaultAttrCounter := 0 }, [])
    else if 0x233 ≤ id ∧ id ≤ 0x235 then s.writeDefaultAttribute float value
    else if id = trigger 0 then (s.triggerCommandBuffer 0, [])
    else if id = trigger 1 then (s.triggerCommandBuffer 1, [])
    else if setValue .gs 0 ≤ id ∧ id ≤ setValue .gs 7 then s.writeUniform float .gs value
    else if setValue .vs 0 ≤ id ∧ id ≤ setValue .vs 7 then s.writeUniform float .vs value
    else if 0x1c8 ≤ id ∧ id ≤ 0x1cf then s.writeLightingLut value
    else (s, [])

end PicaState
end EmuThreeDS.Pica
