import EmuThreeDS.Common.Bytes
import EmuThreeDS.Lib.Blit
import Mathlib.Tactic.IntervalCases

/-!
# Colours

`color.h`: how the formats of a pixel are packed into bytes, and unpacked to four components. A
pointer to bytes is a function from their offsets.
-/
namespace EmuThreeDS

open Blit

structure Vec4 where
  r : UInt8
  g : UInt8
  b : UInt8
  a : UInt8

namespace Vec4

def asArray (color : Vec4) : List UInt8 := [color.r, color.g, color.b, color.a]

end Vec4

variable (value : UInt8)

namespace Color

def convert1To8 : UInt8 := value * 255

def convert4To8 : UInt8 := (value <<< 4) ||| value

def convert5To8 : UInt8 := (value <<< 3) ||| (value >>> 2)

def convert6To8 : UInt8 := (value <<< 2) ||| (value >>> 4)

def convert8To1 : UInt8 := value >>> 7

def convert8To4 : UInt8 := value >>> 4

def convert8To5 : UInt8 := value >>> 3

def convert8To6 : UInt8 := value >>> 2

/-- `memcpy(&pixel, bytes, sizeof(u16_le))`, and back. -/
def loadU16 (bytes : Nat → UInt8) : UInt16 := (leValue (slice bytes 0 2)).toUInt16

def storeU16 (data : UInt16) : List UInt8 := leBytes 2 data.toNat

section

variable (bytes : Nat → UInt8)

def decodeRGBA8 : Vec4 := ⟨bytes 3, bytes 2, bytes 1, bytes 0⟩

def decodeRGB8 : Vec4 := ⟨bytes 2, bytes 1, bytes 0, 255⟩

def decodeRG8 : Vec4 := ⟨bytes 1, bytes 0, 0, 255⟩

def decodeRGB565 : Vec4 :=
  let pixel := loadU16 bytes
  ⟨convert5To8 ((pixel >>> 11) &&& 0x1F).toUInt8, convert6To8 ((pixel >>> 5) &&& 0x3F).toUInt8,
    convert5To8 (pixel &&& 0x1F).toUInt8, 255⟩

def decodeRGB5A1 : Vec4 :=
  let pixel := loadU16 bytes
  ⟨convert5To8 ((pixel >>> 11) &&& 0x1F).toUInt8, convert5To8 ((pixel >>> 6) &&& 0x1F).toUInt8,
    convert5To8 ((pixel >>> 1) &&& 0x1F).toUInt8, convert1To8 (pixel &&& 0x1).toUInt8⟩

def decodeRGBA4 : Vec4 :=
  let pixel := loadU16 bytes
  ⟨convert4To8 ((pixel >>> 12) &&& 0xF).toUInt8, convert4To8 ((pixel >>> 8) &&& 0xF).toUInt8,
    convert4To8 ((pixel >>> 4) &&& 0xF).toUInt8, convert4To8 (pixel &&& 0xF).toUInt8⟩

def decodeIA8 : Vec4 := ⟨bytes 1, bytes 1, bytes 1, bytes 0⟩

def decodeI8 : Vec4 := ⟨bytes 0, bytes 0, bytes 0, 255⟩

def decodeA8 : Vec4 := ⟨0, 0, 0, bytes 0⟩

def decodeIA4 : Vec4 :=
  let i := convert4To8 ((bytes 0 &&& 0xF0) >>> 4)
  let a := convert4To8 (bytes 0 &&& 0x0F)
  ⟨i, i, i, a⟩

def decodeD24 : Nat := leValue (slice bytes 0 3)

end

section

variable (color : Vec4)

def encodeRGBA8 : List UInt8 := [color.a, color.b, color.g, color.r]

def encodeRGB8 : List UInt8 := [color.b, color.g, color.r]

def encodeRGB565 : List UInt8 :=
  storeU16 ((convert8To5 color.r).toUInt16 <<< 11 ||| (convert8To6 color.g).toUInt16 <<< 5 |||
    (convert8To5 color.b).toUInt16)

def encodeRGB5A1 : List UInt8 :=
  storeU16 ((convert8To5 color.r).toUInt16 <<< 11 ||| (convert8To5 color.g).toUInt16 <<< 6 |||
    (convert8To5 color.b).toUInt16 <<< 1 ||| (convert8To1 color.a).toUInt16)

def encodeRGBA4 : List UInt8 :=
  storeU16 ((convert8To4 color.r).toUInt16 <<< 12 ||| (convert8To4 color.g).toUInt16 <<< 8 |||
    (convert8To4 color.b).toUInt16 <<< 4 ||| (convert8To4 color.a).toUInt16)

end

theorem convert8To4_convert4To8 (v : UInt8) :
    convert8To4 (convert4To8 (v &&& 0xF)) = v &&& 0xF := by
  unfold convert8To4 convert4To8
  apply UInt8.eq_of_toBitVec_eq
  ext i hi
  interval_cases i <;> simp

theorem convert8To5_convert5To8 (v : UInt8) :
    convert8To5 (convert5To8 (v &&& 0x1F)) = v &&& 0x1F := by
  unfold convert8To5 convert5To8
  apply UInt8.eq_of_toBitVec_eq
  ext i hi
  interval_cases i <;> simp

theorem convert8To6_convert6To8 (v : UInt8) :
    convert8To6 (convert6To8 (v &&& 0x3F)) = v &&& 0x3F := by
  unfold convert8To6 convert6To8
  apply UInt8.eq_of_toBitVec_eq
  ext i hi
  interval_cases i <;> simp

theorem convert8To1_convert1To8 (v : UInt8) :
    convert8To1 (convert1To8 (v &&& 0x1)) = v &&& 0x1 := by
  have bit : v &&& 0x1 = 0 ∨ v &&& 0x1 = 1 := by
    have less : (v &&& 0x1).toNat < 2 := by
      exact Nat.lt_of_le_of_lt Nat.and_le_right (by decide)
    rcases Nat.lt_or_ge (v &&& 0x1).toNat 1 with zero | one
    · exact .inl (UInt8.toNat_inj.mp (by rw [UInt8.toNat_zero]; omega))
    · exact .inr (UInt8.toNat_inj.mp (by rw [UInt8.toNat_one]; omega))
  rcases bit with bit | bit <;> rw [bit] <;> decide

theorem storeU16_loadU16 (bytes : Nat → UInt8) : storeU16 (loadU16 bytes) = slice bytes 0 2 := by
  have value := leValue_lt (slice bytes 0 2)
  rw [length_slice] at value
  have same : (loadU16 bytes).toNat = leValue (slice bytes 0 2) := by
    exact Nat.mod_eq_of_lt value
  have again := leBytes_leValue (slice bytes 0 2)
  rw [length_slice] at again
  rw [storeU16, same, again]

section

variable (bytes : Nat → UInt8)

theorem encodeRGBA8_decodeRGBA8 : encodeRGBA8 (decodeRGBA8 bytes) = slice bytes 0 4 := rfl

theorem encodeRGB565_decodeRGB565 : encodeRGB565 (decodeRGB565 bytes) = slice bytes 0 2 := by
  rw [← storeU16_loadU16, encodeRGB565]
  congr 1
  simp only [decodeRGB565, UInt16.toUInt8_and]
  rw [show (0x1F : UInt16).toUInt8 = 0x1F from rfl, show (0x3F : UInt16).toUInt8 = 0x3F from rfl,
    convert8To5_convert5To8, convert8To6_convert6To8, convert8To5_convert5To8]
  apply UInt16.eq_of_toBitVec_eq
  ext i hi
  interval_cases i <;> simp [-UInt16.toUInt16_toUInt8]

theorem encodeRGB5A1_decodeRGB5A1 : encodeRGB5A1 (decodeRGB5A1 bytes) = slice bytes 0 2 := by
  rw [← storeU16_loadU16, encodeRGB5A1]
  congr 1
  simp only [decodeRGB5A1, UInt16.toUInt8_and]
  rw [show (0x1F : UInt16).toUInt8 = 0x1F from rfl, show (0x1 : UInt16).toUInt8 = 0x1 from rfl,
    convert8To5_convert5To8, convert8To5_convert5To8, convert8To5_convert5To8,
    convert8To1_convert1To8]
  apply UInt16.eq_of_toBitVec_eq
  ext i hi
  interval_cases i <;> simp [-UInt16.toUInt16_toUInt8]

theorem encodeRGBA4_decodeRGBA4 : encodeRGBA4 (decodeRGBA4 bytes) = slice bytes 0 2 := by
  rw [← storeU16_loadU16, encodeRGBA4]
  congr 1
  simp only [decodeRGBA4, UInt16.toUInt8_and]
  rw [show (0xF : UInt16).toUInt8 = 0xF from rfl, convert8To4_convert4To8,
    convert8To4_convert4To8, convert8To4_convert4To8, convert8To4_convert4To8]
  apply UInt16.eq_of_toBitVec_eq
  ext i hi
  interval_cases i <;> simp [-UInt16.toUInt16_toUInt8]

end

end Color
end EmuThreeDS
