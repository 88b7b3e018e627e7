import EmuThreeDS.Common.Bytes
import EmuThreeDS.Exec

/-!
# Headers of loaded modules (`cro_helper.h`)

The memory of the process as bytes, and the header fields of a module (CRO) in it. The static
module (CRS) has the same header.
-/
namespace EmuThreeDS

abbrev ProcessBytes := Nat → UInt8

namespace ProcessBytes

def read32 (m : ProcessBytes) (a : Nat) : Nat := leValue [m a, m (a + 1), m (a + 2), m (a + 3)]

def write32 (m : ProcessBytes) (a value : Nat) : ProcessBytes := fun b =>
  if a ≤ b ∧ b < a + 4 then (leBytes 4 value).getD (b - a) 0 else m b

variable {m : ProcessBytes} {a b value : Nat}

theorem read32_write32 (small : value < 0x100000000) : (m.write32 a value).read32 a = value := by
  have written (i : Nat) (h : i < 4) : m.write32 a value (a + i) = (leBytes 4 value).getD i 0 := by
    rw [write32, if_pos (by omega), Nat.add_sub_cancel_left]
  have bytes : (m.write32 a value).read32 a = leValue (leBytes 4 value) := by
    have at0 := written 0 (by omega)
    rw [Nat.add_zero] at at0
    rw [read32, at0, written 1 (by omega), written 2 (by omega), written 3 (by omega)]
    rfl
  rw [bytes, leValue_leBytes]
  exact Nat.mod_eq_of_lt small

theorem write32_of_outside (outside : b < a ∨ a + 4 ≤ b) : m.write32 a value b = m b := by
  rw [write32, if_neg (by omega)]

theorem read32_write32_of_apart (apart : b + 4 ≤ a ∨ a + 4 ≤ b) :
    (m.write32 a value).read32 b = m.read32 b := by
  rw [read32, read32, write32_of_outside (by omega), write32_of_outside (by omega),
    write32_of_outside (by omega), write32_of_outside (by omega)]

end ProcessBytes

/-- The fields of a header, from `CRO_HASH_SIZE` on. -/
inductive HeaderField where
  | magic | nameOffset | nextCRO | previousCRO | fileSize | bssSize | fixedSize | unknownZero
  | unkSegmentTag | onLoadSegmentTag | onExitSegmentTag | onUnresolvedSegmentTag
  | codeOffset | codeSize | dataOffset | dataSize | moduleNameOffset | moduleNameSize
  | segmentTableOffset | segmentNum
  | exportNamedSymbolTableOffset | exportNamedSymbolNum
  | exportIndexedSymbolTableOffset | exportIndexedSymbolNum
  | exportStringsOffset | exportStringsSize | exportTreeTableOffset | exportTreeNum
  | importModuleTableOffset | importModuleNum
  | externalRelocationTableOffset | externalRelocationNum
  | importNamedSymbolTableOffset | importNamedSymbolNum
  | importIndexedSymbolTableOffset | importIndexedSymbolNum
  | importAnonymousSymbolTableOffset | importAnonymousSymbolNum
  | importStringsOffset | importStringsSize
  | staticAnonymousSymbolTableOffset | staticAnonymousSymbolNum
  | internalRelocationTableOffset | internalRelocationNum
  | staticRelocationTableOffset | staticRelocationNum
  deriving DecidableEq

def croHeaderSize : Nat := 0x138

def croHashSize : Nat := 0x80

namespace CROHelper

def fieldAddress (a : Nat) (field : HeaderField) : Nat :=
  add32 (add32 a croHashSize) (4 * field.ctorIdx)

def getField (m : ProcessBytes) (a : Nat) (field : HeaderField) : Nat :=
  m.read32 (fieldAddress a field)

def setField (m : ProcessBytes) (a : Nat) (field : HeaderField) (value : Nat) : ProcessBytes :=
  m.write32 (fieldAddress a field) value

def nextModule (m : ProcessBytes) (a : Nat) : Nat := getField m a .nextCRO

def previousModule (m : ProcessBytes) (a : Nat) : Nat := getField m a .previousCRO

def setNextModule (m : ProcessBytes) (a value : Nat) : ProcessBytes := setField m a .nextCRO value

def setPreviousModule (m : ProcessBytes) (a value : Nat) : ProcessBytes :=
  setField m a .previousCRO value

def Fits (a : Nat) : Prop := a + croHeaderSize ≤ 0x100000000

instance (a : Nat) : Decidable (Fits a) := inferInstanceAs (Decidable (_ ≤ _))

def Apart (a b : Nat) : Prop := a + croHeaderSize ≤ b ∨ b + croHeaderSize ≤ a

instance (a b : Nat) : Decidable (Apart a b) := inferInstanceAs (Decidable (_ ∨ _))

theorem Apart.symm {a b : Nat} (h : Apart a b) : Apart b a := Or.symm h

instance : Std.Symm Apart := ⟨fun _ _ => Apart.symm⟩

theorem Apart.ne {a b : Nat} (h : Apart a b) : a ≠ b := by
  unfold Apart croHeaderSize at h
  omega

theorem ctorIdx_lt (field : HeaderField) : field.ctorIdx < 46 := by
  cases field <;> decide

theorem fieldAddress_eq {a : Nat} (fits : Fits a) (field : HeaderField) :
    fieldAddress a field = a + croHashSize + 4 * field.ctorIdx := by
  have small := ctorIdx_lt field
  unfold Fits croHeaderSize at fits
  have base : add32 a croHashSize = a + croHashSize := add32_eq (by unfold croHashSize; omega)
  rw [fieldAddress, base]
  unfold croHashSize
  exact add32_eq (by omega)

section

variable {m : ProcessBytes} {a b value : Nat} {field other : HeaderField}

theorem getField_setField (small : value < 0x100000000) :
    getField (setField m a field value) a field = value :=
  ProcessBytes.read32_write32 small

theorem getField_setField_of_ne (fits : Fits a) (fitsOther : Fits b)
    (differ : a = b ∧ field ≠ other ∨ Apart a b) :
    getField (setField m a field value) b other = getField m b other := by
  have small := ctorIdx_lt field
  have small' := ctorIdx_lt other
  apply ProcessBytes.read32_write32_of_apart
  rw [fieldAddress_eq fits, fieldAddress_eq fitsOther]
  rcases differ with ⟨rfl, ne⟩ | apart
  · have index : field.ctorIdx ≠ other.ctorIdx := by
      intro same
      apply ne
      rw [← HeaderField.ofNat_ctorIdx field, ← HeaderField.ofNat_ctorIdx other, same]
    omega
  · unfold Apart croHeaderSize at apart
    omega

end

end CROHelper

end EmuThreeDS
