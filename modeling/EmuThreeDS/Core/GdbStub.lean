import EmuThreeDS.Common.Buffers
import Mathlib.Data.Fintype.Prod
import Mathlib.Data.List.TakeWhile
import Mathlib.Data.UInt

/-!
# The gdb stub (`gdbstub.cpp`)

The commands about registers, memory and breakpoints. The client's bytes are the input; memory and
the core are what a `System` offers.
-/
namespace EmuThreeDS.GDBStub

open Blit Cells

def gdbBufferSize : Nat := 10000
def replySize : Nat := gdbBufferSize - 4
def pcRegister : Nat := 15
def cpsrRegister : Nat := 25
def d0Register : Nat := 26
def fpscrRegister : Nat := 42

@[ext] structure Context where
  cpuRegisters : Fin 16 → UInt32
  cpsr : UInt32
  fpuRegisters : Fin 32 → UInt32
  fpscr : UInt32

inductive BreakpointType where
  | none | execute | read | write | access
  deriving DecidableEq

structure Breakpoint where
  active : Bool
  addr : UInt32
  len : UInt32
  inst : List UInt8

/-- What the stub asks of the emulated system, whose state is of type `M`. -/
structure System (M : Type) where
  isValidVirtualAddress : M → UInt32 → Bool
  readBlock : M → UInt32 → (size : Nat) → Vector UInt8 size
  writeBlock : M → UInt32 → List UInt8 → M
  loadContext : M → Context → M
  clearInstructionCache : M → M
  /-- The packet that `SendSignal` puts together. -/
  signalText : M → Option Context → (signal : UInt32) → List UInt8
  short : ∀ m thread signal, (signalText m thread signal).length + 4 ≤ gdbBufferSize

/-- The statics of the stub, with the replies and the single characters that were sent. -/
structure Stub (M : Type) where
  machine : M
  currentThread : Option Context
  breakpoints : BreakpointType → UInt32 → Option Breakpoint
  replies : List (List UInt8)
  packets : List UInt8

/-- The last argument of `RegRead` and its like: `nullptr` if it is left out. -/
inductive Target where
  | null | current

section

def hexCharToValue (hex : UInt8) : UInt8 :=
  if '0'.toUInt8 ≤ hex ∧ hex ≤ '9'.toUInt8 then hex - '0'.toUInt8
  else if 'a'.toUInt8 ≤ hex ∧ hex ≤ 'f'.toUInt8 then hex - 'a'.toUInt8 + 0xA
  else if 'A'.toUInt8 ≤ hex ∧ hex ≤ 'F'.toUInt8 then hex - 'A'.toUInt8 + 0xA
  else 0

def nibbleToHex (n : UInt8) : UInt8 :=
  if n &&& 0xF < 0xA then '0'.toUInt8 + (n &&& 0xF) else 'a'.toUInt8 + (n &&& 0xF) - 0xA

def memToGdbHex (data : List UInt8) : List UInt8 :=
  data.flatMap fun byte : UInt8 => [nibbleToHex (byte >>> 4), nibbleToHex byte]

def toGdbHex (bytes value : Nat) : List UInt8 :=
  (List.range bytes).flatMap fun i =>
    [nibbleToHex (value >>> (4 * (2 * i + 1))).toUInt8, nibbleToHex (value >>> (4 * (2 * i))).toUInt8]

def intToGdbHex (v : UInt32) : List UInt8 := toGdbHex 4 v.toNat
def longToGdbHex (v : UInt64) : List UInt8 := toGdbHex 8 v.toNat

/-- A byte of `command_buffer`, which is zero behind the command. -/
def loadByte (command : List UInt8) (i : Nat) : Exec UInt8 :=
  cell gdbBufferSize (command.getD · 0) i

def pushDigit (output : UInt32) (hex : UInt8) : UInt32 :=
  output <<< 4 ||| (hexCharToValue hex).toUInt32

def hexToInt (command : List UInt8) : (src len : Nat) → (output : UInt32) → Exec UInt32
  | _, 0, output => .ok output
  | src, len + 1, output => do
    let hex ← loadByte command src
    hexToInt command (src + 1) len (pushDigit output hex)

def gdbHexToMem (command : List UInt8) : (src len : Nat) → Exec (List UInt8)
  | _, 0 => .ok []
  | src, len + 1 => do
    let high ← loadByte command src
    let low ← loadByte command (src + 1)
    let rest ← gdbHexToMem command (src + 2) len
    return (hexCharToValue high <<< 4 ||| hexCharToValue low) :: rest

def fromGdbHex (command : List UInt8) (src bytes : Nat) : Exec Nat :=
  (List.range bytes).foldlM (fun output i => do
    let high ← loadByte command (src + (2 * (bytes - i) - 2))
    let low ← loadByte command (src + (2 * (bytes - i) - 1))
    return output * 256 + (hexCharToValue high).toNat * 16 + (hexCharToValue low).toNat) 0

def gdbHexToInt (command : List UInt8) (src : Nat) : Exec UInt32 :=
  (·.toUInt32) <$> fromGdbHex command src 4

def gdbHexToLong (command : List UInt8) (src : Nat) : Exec UInt64 :=
  (·.toUInt64) <$> fromGdbHex command src 8

end

variable {M : Type}

namespace Stub

section

variable (id : Nat) (target : Target) (s : Stub M)

def thread : Target → Option Context
  | .null => none
  | .current => s.currentThread

def regRead : UInt32 :=
  match s.thread target with
  | none => 0
  | some context =>
    if inside : id ≤ pcRegister then context.cpuRegisters ⟨id, Nat.lt_succ_of_le inside⟩
    else if id = cpsrRegister then context.cpsr
    else 0

def fpuRead : UInt64 :=
  match s.thread target with
  | none => 0
  | some context =>
    if d0Register ≤ id ∧ id < fpscrRegister then
      let low := 2 * (id - d0Register)
      (context.fpuRegisters (Fin.ofNat 32 low)).toUInt64 |||
        (context.fpuRegisters (Fin.ofNat 32 (low + 1))).toUInt64 <<< 32
    else if id = fpscrRegister then context.fpscr.toUInt64
    else 0

def update (change : Context → Context) : Stub M :=
  match target with
  | .null => s
  | .current => { s with currentThread := s.currentThread.map change }

def regWrite (val : UInt32) : Stub M :=
  s.update target fun context =>
    if id ≤ pcRegister then
      { context with cpuRegisters := Function.update context.cpuRegisters (Fin.ofNat 16 id) val }
    else if id = cpsrRegister then { context with cpsr := val }
    else context

def fpuWrite (val : UInt64) : Stub M :=
  s.update target fun context =>
    if d0Register ≤ id ∧ id < fpscrRegister then
      let low := 2 * (id - d0Register)
      { context with
        fpuRegisters := Function.update
          (Function.update context.fpuRegisters (Fin.ofNat 32 low) val.toUInt32)
          (Fin.ofNat 32 (low + 1)) (val >>> 32).toUInt32 }
    else if id = fpscrRegister then { context with fpscr := val.toUInt32 }
    else context

end

/-- A reply that is too long for `command_buffer` is not sent. -/
def sendReply (reply : List UInt8) (s : Stub M) : Stub M :=
  if reply.length + 4 > gdbBufferSize then s else { s with replies := s.replies ++ [reply] }

end Stub

def text (chars : List Char) : List UInt8 := chars.map Char.toUInt8

def ok : List UInt8 := text ['O', 'K']
def e00 : List UInt8 := text ['E', '0', '0']
def e01 : List UInt8 := text ['E', '0', '1']

def cString (size : Nat) (cells : Nat → UInt8) : Exec (List UInt8) :=
  let string := (slice cells 0 size).takeWhile (· ≠ 0)
  if string.length < size then .ok string else .error .undefinedBehaviour

variable (system : System M) (command : List UInt8) (s : Stub M)

def parseId (high low : UInt8) (ends : UInt8) : Nat :=
  if low = ends then (hexCharToValue high).toNat
  else (hexCharToValue high).toNat <<< 4 ||| (hexCharToValue low).toNat

/-- The reply to `p`: an unknown register is answered with an error. -/
def registerReply (id : Nat) (s : Stub M) : List UInt8 :=
  if id ≤ pcRegister then intToGdbHex (s.regRead id .current)
  else if id = cpsrRegister then intToGdbHex (s.regRead id .current)
  else if d0Register ≤ id ∧ id < fpscrRegister then longToGdbHex (s.fpuRead id .current)
  else if id = fpscrRegister then intToGdbHex (s.fpuRead id .current).toUInt32
  else e01

def readRegister : Exec (Stub M) := do
  let id := parseId (← loadByte command 1) (← loadByte command 2) 0
  return s.sendReply (registerReply id s)

/-- The places and the digits that `ReadRegisters` writes; the pointer moves behind `r15`, behind
`cpsr` and by the size of the double registers, which are not where it was. -/
def registerFields : List (Nat × List UInt8) :=
  (List.range 16).map (fun reg => (reg * 8, intToGdbHex (s.regRead reg .current))) ++
    (16 * 8, intToGdbHex (s.regRead cpsrRegister .current)) ::
      (List.range 16).map (fun i =>
        (16 * 8 + 8 + (d0Register + i) * 16, longToGdbHex (s.fpuRead (d0Register + i) .current))) ++
      [(16 * 8 + 8 + 16 * 16, intToGdbHex (s.fpuRead fpscrRegister .current).toUInt32)]

def readRegisters : Exec (Stub M) := do
  let buffer ← fill replySize (fun field => .ok field) (registerFields s) fun _ => 0
  let reply ← cString replySize buffer
  return s.sendReply reply

/-- `LoadContext` of the selected thread. -/
def reload : Exec (Stub M) :=
  match s.currentThread with
  | none => .error .undefinedBehaviour
  | some context => .ok { s with machine := system.loadContext s.machine context }

def writeRegister : Exec (Stub M) := do
  let bare := (← loadByte command 2) = '='.toUInt8
  let start := if bare then 3 else 4
  let id := parseId (← loadByte command 1) (← loadByte command 2) '='.toUInt8
  if id ≤ pcRegister ∨ id = cpsrRegister then
    let s := s.regWrite id .current (← gdbHexToInt command start)
    return (← reload system s).sendReply ok
  else if d0Register ≤ id ∧ id < fpscrRegister then
    let s := s.fpuWrite id .current (← gdbHexToLong command start)
    return (← reload system s).sendReply ok
  else if id = fpscrRegister then
    let s := s.fpuWrite id .current (← gdbHexToInt command start).toUInt64
    return (← reload system s).sendReply ok
  else return s.sendReply e01

/-- A turn of the loop of `WriteRegisters`, which names no thread. -/
def writeNext : Nat × Stub M → Nat → Exec (Nat × Stub M)
  | (i, s), reg =>
    if reg ≤ pcRegister ∨ reg = cpsrRegister then do
      return (i + 1, s.regWrite reg .null (← gdbHexToInt command (1 + i * 8)))
    else if reg = cpsrRegister - 1 then return (i + 1, s)
    else if reg < cpsrRegister then return (i + 3, s)
    else if d0Register ≤ reg ∧ reg < fpscrRegister then do
      return (i + 2, s.fpuWrite reg .null (← gdbHexToLong command (1 + i * 16)))
    else do return (i + 1, s.fpuWrite reg .null (← gdbHexToInt command (1 + i * 8)).toUInt64)

def writeRegisters : Exec (Stub M) := do
  let (_, s) ← (List.range (fpscrRegister + 1)).foldlM (writeNext command) (0, s)
  return (← reload system s).sendReply ok

section

variable {command}

theorem loadByte_of_lt {i : Nat} (inside : i < gdbBufferSize) :
    loadByte command i = .ok (command.getD i 0) := cell_of_lt inside

theorem fromGdbHex_answers {src bytes : Nat} (inside : src + 2 * bytes ≤ gdbBufferSize) :
    Answers (fromGdbHex command src bytes) := by
  apply Returns.answers (Q := fun _ => True)
  apply returns_foldlM _ _ trivial
  intro output _ i mem
  have less := List.mem_range.mp mem
  rw [loadByte_of_lt (by omega), loadByte_of_lt (by omega)]
  exact returns_ok trivial

theorem gdbHexToInt_answers {src : Nat} (inside : src + 8 ≤ gdbBufferSize) :
    Answers (gdbHexToInt command src) := by
  obtain ⟨value, run⟩ := @fromGdbHex_answers command src 4 inside
  exact ⟨value.toUInt32, map_eq_ok.mpr ⟨value, run, rfl⟩⟩

theorem gdbHexToLong_answers {src : Nat} (inside : src + 16 ≤ gdbBufferSize) :
    Answers (gdbHexToLong command src) := by
  obtain ⟨value, run⟩ := @fromGdbHex_answers command src 8 inside
  exact ⟨value.toUInt64, map_eq_ok.mpr ⟨value, run, rfl⟩⟩

theorem writeNext_ok {i : Nat} (inside : i ≤ 600) (reg : Nat) :
    ∃ next ≤ i + 3, writeNext command (i, s) reg = .ok (next, s) := by
  have int : 1 + i * 8 + 8 ≤ gdbBufferSize := by simp only [gdbBufferSize]; omega
  have long : 1 + i * 16 + 16 ≤ gdbBufferSize := by simp only [gdbBufferSize]; omega
  obtain ⟨value, int⟩ := @gdbHexToInt_answers command _ int
  obtain ⟨wide, long⟩ := @gdbHexToLong_answers command _ long
  unfold writeNext
  dsimp only
  rw [int, long]
  split_ifs
  · exact ⟨i + 1, by omega, rfl⟩
  · exact ⟨i + 1, by omega, rfl⟩
  · exact ⟨i + 3, by omega, rfl⟩
  · exact ⟨i + 2, by omega, rfl⟩
  · exact ⟨i + 1, by omega, rfl⟩

theorem writeNext_all {i : Nat} (regs : List Nat) (inside : i + 3 * regs.length ≤ 600) :
    ∃ next, regs.foldlM (writeNext command) (i, s) = .ok (next, s) := by
  induction regs generalizing i with
  | nil => exact ⟨i, rfl⟩
  | cons reg rest ih =>
    rw [List.length_cons] at inside
    obtain ⟨next, near, step⟩ := writeNext_ok s (by omega : i ≤ 600) reg
    rw [List.foldlM_cons, step]
    exact ih (by omega)

variable {s}

theorem writeRegisters_eq {context : Context} (selected : s.currentThread = some context) :
    writeRegisters system command s =
      .ok (Stub.sendReply ok { s with machine := system.loadContext s.machine context }) := by
  obtain ⟨next, loop⟩ := writeNext_all s (List.range (fpscrRegister + 1)) (i := 0) (by decide)
  unfold writeRegisters reload
  rw [loop, ok_bind]
  dsimp only
  rw [selected]
  rfl

theorem sendReply_currentThread (reply : List UInt8) :
    (s.sendReply reply).currentThread = s.currentThread := by
  unfold Stub.sendReply
  split_ifs <;> rfl

@[simp] theorem length_toGdbHex (bytes value : Nat) : (toGdbHex bytes value).length = 2 * bytes := by
  simp [toGdbHex, List.length_flatMap, Nat.mul_comm]

theorem cString_short {size k : Nat} {cells : Nat → UInt8} (inside : k < size)
    (zero : cells k = 0) : ∃ string, string.length ≤ k ∧ cString size cells = .ok string := by
  have short : ((slice cells 0 size).takeWhile (· ≠ 0)).length ≤ k := by
    by_contra long
    have less := Nat.lt_of_not_le long
    have member := List.getElem_mem less
    rw [List.IsPrefix.getElem (List.takeWhile_prefix _) less] at member
    have nonzero := List.mem_takeWhile_imp member
    simp [slice, zero] at nonzero
  exact ⟨_, short, if_pos (Nat.lt_of_le_of_lt short inside)⟩

theorem readRegisters_short : ∃ reply, reply.length ≤ 136 ∧
    readRegisters s = .ok (s.sendReply reply) := by
  have each : ∀ field ∈ registerFields s,
      (.ok field : Exec (Nat × List UInt8)) = .ok (field.1, field.2) ∧
        field.1 + field.2.length ≤ replySize ∧ (field.1 + field.2.length ≤ 136 ∨ 136 < field.1) := by
    intro field mem
    refine ⟨rfl, ?_⟩
    simp only [registerFields, List.mem_append, List.mem_cons, List.mem_map, List.mem_range,
      List.not_mem_nil, or_false] at mem
    rcases mem with (⟨reg, less, rfl⟩ | rfl | ⟨i, less, rfl⟩) | rfl <;>
      simp only [intToGdbHex, longToGdbHex, length_toGdbHex, replySize, gdbBufferSize, d0Register] <;>
      omega
  unfold readRegisters
  rw [fill_eq (fun field : Nat × List UInt8 => field.1) (fun field => field.2)
    fun field mem => ⟨(each field mem).1, (each field mem).2.1⟩, ok_bind]
  have gap := foldl_blit_outside (fun field : Nat × List UInt8 => field.1) (fun field => field.2)
    (a := 136) (m := fun _ => (0 : UInt8)) fun field mem => by
      have apart := (each field mem).2.2
      omega
  obtain ⟨reply, short, string⟩ := cString_short (by decide : 136 < replySize) gap
  rw [string]
  exact ⟨reply, short, rfl⟩

end

inductive Register where
  | cpu (i : Fin 16) | cpsr | double (i : Fin 16) | fpscr

namespace Register

def id : Register → Nat
  | cpu i => i
  | cpsr => cpsrRegister
  | double i => d0Register + i
  | fpscr => fpscrRegister

/-- The `p` command about a register. -/
def request (r : Register) : List UInt8 :=
  ['p'.toUInt8, nibbleToHex (r.id >>> 4).toUInt8, nibbleToHex r.id.toUInt8]

end Register

def Context.double (context : Context) (i : Fin 16) : UInt64 :=
  (context.fpuRegisters (Fin.ofNat 32 (2 * i))).toUInt64 |||
    (context.fpuRegisters (Fin.ofNat 32 (2 * i + 1))).toUInt64 <<< 32

def Context.digits (context : Context) : Register → List UInt8
  | .cpu i => intToGdbHex (context.cpuRegisters i)
  | .cpsr => intToGdbHex context.cpsr
  | .double i => longToGdbHex (context.double i)
  | .fpscr => intToGdbHex context.fpscr

/-- The digits of every register are somewhere in the reply, each at a place of its own. -/
def ContainsAll (context : Context) (reply : List UInt8) : Prop :=
  ∃ place : Register → Nat,
    (∀ r, (reply.drop (place r)).take (context.digits r).length = context.digits r) ∧
    ∀ r r', r ≠ r' → place r + (context.digits r).length ≤ place r' ∨
      place r' + (context.digits r').length ≤ place r

variable {context : Context} {reply : List UInt8} {s}

theorem not_containsAll (short : reply.length < 256) : ¬ ContainsAll context reply := by
  rintro ⟨place, reads, apart⟩
  have width (i : Fin 16) : (context.digits (.double i)).length = 16 := length_toGdbHex ..
  have inside (i k : Fin 16) : place (.double i) + k < reply.length := by
    have field := congrArg List.length (reads (.double i))
    rw [List.length_take, List.length_drop, width] at field
    omega
  have places : Function.Injective
      fun pair : Fin 16 × Fin 16 => (⟨_, inside pair.1 pair.2⟩ : Fin reply.length) := by
    rintro ⟨i, k⟩ ⟨i', k'⟩ same
    have same : place (.double i) + k = place (.double i') + k' := congrArg Fin.val same
    by_cases one : i = i'
    · subst one
      exact Prod.ext rfl (Fin.ext (Nat.add_left_cancel same))
    · have apart := apart (.double i) (.double i') fun h => one (Register.double.inj h)
      rw [width, width] at apart
      omega
  have count := Fintype.card_le_of_injective _ places
  rw [Fintype.card_prod, Fintype.card_fin, Fintype.card_fin] at count
  omega

theorem parseId_digits : ∀ id < 43,
    parseId (nibbleToHex (id >>> 4).toUInt8) (nibbleToHex id.toUInt8) 0 = id := by decide

theorem registerReply_id (selected : s.currentThread = some context) (r : Register) :
    registerReply r.id s = context.digits r := by
  have thread : s.thread .current = some context := selected
  unfold registerReply Stub.regRead Stub.fpuRead
  rw [thread]
  cases r with
  | cpu i =>
    have here : (Register.cpu i).id ≤ pcRegister := Nat.le_of_lt_succ i.isLt
    dsimp only
    rw [if_pos here, dif_pos here]
    rfl
  | cpsr => rfl
  | double i =>
    have first : ¬ (Register.double i).id ≤ pcRegister := by
      simp only [Register.id, d0Register, pcRegister]
      omega
    have other : (Register.double i).id ≠ cpsrRegister := by
      simp only [Register.id, d0Register, cpsrRegister]
      omega
    have here : d0Register ≤ (Register.double i).id ∧ (Register.double i).id < fpscrRegister := by
      simp only [Register.id, d0Register, fpscrRegister]
      omega
    have place : (Register.double i).id - d0Register = i := Nat.add_sub_cancel_left ..
    dsimp only
    rw [if_neg first, if_neg other, if_pos here, if_pos here, place]
    rfl
  | fpscr =>
    have narrow : context.fpscr.toUInt64.toUInt32 = context.fpscr := UInt32.toUInt32_toUInt64 _
    exact congrArg intToGdbHex narrow

theorem Register.id_lt (r : Register) : r.id < 43 := by
  cases r <;> simp only [id, cpsrRegister, d0Register, fpscrRegister] <;> omega

theorem readRegister_request (selected : s.currentThread = some context) (r : Register) :
    readRegister r.request s = .ok (s.sendReply (context.digits r)) := by
  have number := parseId_digits r.id r.id_lt
  rw [← registerReply_id selected r]
  exact congrArg (fun id => Except.ok (s.sendReply (registerReply id s))) number

/-- The reply to `g` never has every register, and `G` changes none: whatever it carries, the
registers that are read after it are those before it. -/
theorem registers_lost {M : Type} (system : System M) (s : Stub M) (context : Context)
    (selected : s.currentThread = some context) :
    (∃ reply, readRegisters s = .ok (s.sendReply reply) ∧ ¬ ContainsAll context reply) ∧
    ∀ command, ∃ after, writeRegisters system command s = .ok after ∧
      after.currentThread = some context ∧
      ∀ r : Register, readRegister r.request after = .ok (after.sendReply (context.digits r)) := by
  constructor
  · obtain ⟨reply, short, run⟩ := readRegisters_short (s := s)
    exact ⟨reply, run, not_containsAll (by omega)⟩
  · intro command
    refine ⟨_, writeRegisters_eq system selected, ?_⟩
    have kept : (Stub.sendReply ok
        { s with machine := system.loadContext s.machine context }).currentThread = some context := by
      exact selected
    exact ⟨kept, readRegister_request kept⟩

def idle : System Unit where
  isValidVirtualAddress _ _ := true
  readBlock _ _ size := .replicate size 0
  writeBlock m _ _ := m
  loadContext m _ := m
  clearInstructionCache m := m
  signalText _ _ _ := []
  short _ _ _ := by decide

def zeros : Context := ⟨fun _ => 0, 0, fun _ => 0, 0⟩

def attached : Stub Unit := ⟨(), some zeros, fun _ _ => none, [], []⟩

theorem registers_lost_zeros :
    (∃ reply, readRegisters attached = .ok (attached.sendReply reply) ∧ ¬ ContainsAll zeros reply) ∧
    ∀ command, ∃ after, writeRegisters idle command attached = .ok after ∧
      after.currentThread = some zeros ∧
      ∀ r : Register, readRegister r.request after = .ok (after.sendReply (zeros.digits r)) :=
  registers_lost idle attached zeros rfl

/-- The reply is cut in front of `d0`, and ones that are written are zeros when they are read. -/
theorem ones_forgotten :
    (∃ reply, readRegisters attached = .ok (attached.sendReply reply) ∧ ¬ ContainsAll zeros reply) ∧
    ∃ after, writeRegisters idle ('G'.toUInt8 :: List.replicate 1184 '1'.toUInt8) attached =
        .ok after ∧
      readRegister (Register.cpu 0).request after = .ok (after.sendReply (intToGdbHex 0)) ∧
      intToGdbHex 0 ≠ List.replicate 8 '1'.toUInt8 := by
  constructor
  · obtain ⟨reply, short, run⟩ := readRegisters_short (s := attached)
    exact ⟨reply, run, not_containsAll (by omega)⟩
  · have selected : attached.currentThread = some zeros := rfl
    have kept : (attached.sendReply ok).currentThread = some zeros := sendReply_currentThread ok
    exact ⟨attached.sendReply ok, writeRegisters_eq idle selected,
      readRegister_request kept (.cpu 0), by decide⟩

end EmuThreeDS.GDBStub
