import EmuThreeDS.Core.GdbStub

/-!
# Commands of the gdb client (`gdbstub.cpp`)

What a packet of the client makes the stub read, write and reply. A separator that is not there puts
the next field behind the end of the command, with a length that wraps.
-/
namespace EmuThreeDS.GDBStub

open Blit Cells

variable {M : Type} (system : System M) (command : List UInt8) (s : Stub M)

def find (first : Nat) (c : UInt8) : Exec Nat :=
  if first ≤ command.length then .ok (first + (command.drop first).idxOf c)
  else .error .undefinedBehaviour

/-- The number between two places, whose distance is cast to `u32`. -/
def parse (first last : Nat) : Exec UInt32 :=
  hexToInt command first ((last + 2 ^ 32 - first) % 2 ^ 32) 0

def parseAddress (first : Nat) : Exec (UInt32 × Nat) := do
  let addrPos ← find command first ','.toUInt8
  let addr ← parse command first addrPos
  return (addr, addrPos + 1)

def readMemory : Exec (Stub M) := do
  let (addr, start) ← parseAddress command 1
  let len ← parse command start command.length
  let s := if (len * 2).toNat > replySize then s.sendReply e01 else s
  if system.isValidVirtualAddress s.machine addr = false then return s.sendReply e00
  else
    let reply := memToGdbHex (system.readBlock s.machine addr len.toNat).toList
    -- no digit is a zero, and one is written behind them
    if reply.length ≤ replySize ∧ (len * 2).toNat < replySize then return s.sendReply reply
    else .error .undefinedBehaviour

def writeMemory : Exec (Stub M) := do
  let (addr, start) ← parseAddress command 1
  let lenPos ← find command start ':'.toUInt8
  let len ← parse command start lenPos
  if system.isValidVirtualAddress s.machine addr = false then return s.sendReply e00
  else
    let data ← gdbHexToMem command (lenPos + 1) len.toNat
    let machine := system.clearInstructionCache (system.writeBlock s.machine addr data)
    return Stub.sendReply ok { s with machine := machine }

def breakpointType (id : UInt8) : Option BreakpointType :=
  match (hexCharToValue id).toNat with
  | 0 | 1 => some .execute
  | 2 => some .write
  | 3 => some .read
  | 4 => some .access
  | _ => none

def mapType : BreakpointType → BreakpointType
  | .execute => .execute
  | .write => .write
  | .none | .read | .access => .read

section

variable (type : BreakpointType) (addr len : UInt32)

def setMap (machine : M) (breakpoint : Option Breakpoint) : Stub M :=
  let map := Function.update (s.breakpoints (mapType type)) addr breakpoint
  { s with
    machine := machine
    breakpoints := Function.update s.breakpoints (mapType type) map }

def patch (data : List UInt8) : M :=
  if type = .execute then system.clearInstructionCache (system.writeBlock s.machine addr data)
  else s.machine

def commitBreakpoint : Stub M :=
  let inst := (system.readBlock s.machine addr 4).toList
  let machine := patch system s type addr [0x70, 0x00, 0x20, 0xe1]
  -- `insert` keeps what is there
  let there := (s.breakpoints (mapType type) addr).getD ⟨true, addr, len, inst⟩
  setMap s type addr machine (some there)

def eraseBreakpoint : Stub M :=
  match s.breakpoints (mapType type) addr with
  | none => s
  | some breakpoint =>
    setMap s type addr (patch system s type breakpoint.addr breakpoint.inst) none

end

def addBreakpoint : Exec (Stub M) := do
  match breakpointType (← loadByte command 1) with
  | none => return s.sendReply e01
  | some type =>
    let (addr, start) ← parseAddress command 3
    let len ← parse command start command.length
    if type = .access then
      let s := commitBreakpoint system s .read addr len
      return (commitBreakpoint system s .write addr len).sendReply ok
    else return (commitBreakpoint system s type addr len).sendReply ok

def removeBreakpoint : Exec (Stub M) := do
  match breakpointType (← loadByte command 1) with
  | none => return s.sendReply e01
  | some type =>
    let (addr, _) ← parseAddress command 3
    if type = .access then
      return (eraseBreakpoint system (eraseBreakpoint system s .read addr) .write addr).sendReply ok
    else return (eraseBreakpoint system s type addr).sendReply ok

/-- What `ReadCommand` leaves: the client has sent too little, there is no command, it wants a
break, or there is a command. -/
inductive Received where
  | waiting
  | nothing (packets : List UInt8)
  | interrupt
  | command (bytes : List UInt8) (packet : UInt8)
  deriving DecidableEq

def readChecksum (command : List UInt8) : List UInt8 → Exec Received
  | high :: low :: _ =>
    if hexCharToValue high <<< 4 ||| hexCharToValue low = command.sum then
      .ok (.command command '+'.toUInt8)
    else do
      -- the whole buffer is logged as a string
      let _ ← cString gdbBufferSize (command.getD · 0)
      return .nothing ['-'.toUInt8]
  | _ => .ok .waiting

def readBody (command : List UInt8) : List UInt8 → Exec Received
  | [] => .ok .waiting
  | c :: rest =>
    if c = '#'.toUInt8 then readChecksum command rest
    else if gdbBufferSize ≤ command.length then .ok (.command command '-'.toUInt8)
    else readBody (command ++ [c]) rest

/-- A call of `ReadCommand`, by the bytes that the client sends from then on. -/
def readCommand : List UInt8 → Exec Received
  | [] => .ok .waiting
  | c :: rest =>
    if c = '+'.toUInt8 then .ok (.nothing [])
    else if c = 0x03 then .ok .interrupt
    else if c ≠ '$'.toUInt8 then .ok (.nothing [])
    else readBody [] rest

/-- The commands of `HandlePacket` that are modelled. -/
inductive Handler where
  | readRegisters | writeRegisters | readRegister | writeRegister
  | readMemory | writeMemory | removeBreakpoint | addBreakpoint

def handler (command : List UInt8) : Option Handler :=
  let type := command.getD 0 0
  if type = 'g'.toUInt8 then some .readRegisters
  else if type = 'G'.toUInt8 then some .writeRegisters
  else if type = 'p'.toUInt8 then some .readRegister
  else if type = 'P'.toUInt8 then some .writeRegister
  else if type = 'm'.toUInt8 then some .readMemory
  else if type = 'M'.toUInt8 then some .writeMemory
  else if type = 'z'.toUInt8 then some .removeBreakpoint
  else if type = 'Z'.toUInt8 then some .addBreakpoint
  else none

def Handler.run : Handler → Exec (Stub M)
  | .readRegisters => GDBStub.readRegisters s
  | .writeRegisters => GDBStub.writeRegisters system command s
  | .readRegister => GDBStub.readRegister command s
  | .writeRegister => GDBStub.writeRegister system command s
  | .readMemory => GDBStub.readMemory system command s
  | .writeMemory => GDBStub.writeMemory system command s
  | .removeBreakpoint => GDBStub.removeBreakpoint system command s
  | .addBreakpoint => GDBStub.addBreakpoint system command s

/-- `HandlePacket`, with what it does for the other commands. -/
def handlePacket (others : List UInt8 → Stub M → Exec (Stub M)) (input : List UInt8) :
    Exec (Stub M) := do
  match ← readCommand input with
  | .waiting => return s
  | .nothing packets => return { s with packets := s.packets ++ packets }
  | .interrupt =>
    -- `SendReply` leaves its packet, which begins with `$`, as the command
    let stop := system.signalText s.machine s.currentThread 5
    return (s.sendReply stop).sendReply []
  | .command bytes packet =>
    let s := { s with packets := s.packets ++ [packet] }
    if bytes = [] then return s
    else match handler bytes with
      | none => others bytes s
      | some handler => handler.run system bytes s

/-- The run stays within its buffers and sends at most one reply. -/
def Stays (x : Exec (Stub M)) : Prop :=
  Returns x fun after => after.replies.length ≤ s.replies.length + 1

section

def place (first : Nat) (c : UInt8) : Nat := first + (command.drop first).idxOf c

def number (first last : Nat) : UInt32 :=
  (slice (command.getD · 0) first (last - first)).foldl pushDigit 0

end

def Handler.Fits : Handler → Prop
  | .readRegisters | .readRegister => True
  | .writeRegisters => s.currentThread.isSome
  | .writeRegister =>
    let id := parseId (command.getD 1 0) (command.getD 2 0) '='.toUInt8
    id ≤ pcRegister ∨ cpsrRegister ≤ id ∧ id ≤ fpscrRegister → s.currentThread.isSome
  | .readMemory =>
    let comma := place command 1 ','.toUInt8
    let len := number command (comma + 1) command.length
    comma < command.length ∧ (len * 2).toNat ≤ replySize ∧
      (system.isValidVirtualAddress s.machine (number command 1 comma) → len.toNat * 2 < replySize)
  | .writeMemory =>
    let comma := place command 1 ','.toUInt8
    let colon := place command (comma + 1) ':'.toUInt8
    let len := (number command (comma + 1) colon).toNat
    comma < command.length ∧ (system.isValidVirtualAddress s.machine (number command 1 comma) →
      len = 0 ∨ colon + 1 + 2 * len ≤ gdbBufferSize)
  | .removeBreakpoint => (breakpointType (command.getD 1 0)).isSome → 3 ≤ command.length
  | .addBreakpoint => (breakpointType (command.getD 1 0)).isSome →
    place command 3 ','.toUInt8 < command.length

section

variable {command} {first last n : Nat} {c : UInt8} {output : UInt32}

theorem hexToInt_of_le (inside : first + n ≤ gdbBufferSize) : hexToInt command first n output =
    .ok ((slice (command.getD · 0) first n).foldl pushDigit output) := by
  induction n generalizing first output with
  | zero => rfl
  | succ n ih =>
    rw [hexToInt, loadByte_of_lt (by omega), ok_bind, ih (by omega)]
    simp only [slice, List.range_succ_eq_map, List.map_cons, List.foldl_cons, List.map_map]
    congr 3
    funext k
    exact congrArg (command.getD · 0) (Nat.add_right_comm ..)

theorem not_answers_hexToInt (some : 0 < n) (outside : gdbBufferSize < first + n) :
    ¬ Answers (hexToInt command first n output) := by
  induction n generalizing first output with
  | zero => exact absurd some (Nat.lt_irrefl 0)
  | succ n ih =>
    by_cases inside : first < gdbBufferSize
    · rw [hexToInt, loadByte_of_lt inside]
      exact ih (by omega) (by omega)
    · rw [hexToInt, loadByte, cell, if_neg inside]
      exact not_answers_error _

theorem answers_gdbHexToMem {src : Nat} :
    Answers (gdbHexToMem command src n) ↔ n = 0 ∨ src + 2 * n ≤ gdbBufferSize := by
  induction n generalizing src with
  | zero => exact iff_of_true (answers_ok _) (.inl rfl)
  | succ n ih =>
    by_cases inside : src + 1 < gdbBufferSize
    · rw [gdbHexToMem, loadByte_of_lt (by omega), ok_bind, loadByte_of_lt inside, ok_bind,
        answers_return, ih]
      omega
    · have outside : ¬ Answers (gdbHexToMem command src (n + 1)) := by
        rintro ⟨data, run⟩
        obtain ⟨_, _, run⟩ := bind_eq_ok.mp run
        obtain ⟨low, load, _⟩ := bind_eq_ok.mp run
        unfold loadByte cell at load
        rw [if_neg inside] at load
        cases load
      exact iff_of_false outside (by omega)

theorem le_place : first ≤ place command first c := Nat.le_add_right ..

theorem place_le (inside : first ≤ command.length) : place command first c ≤ command.length := by
  have bound := List.idxOf_le_length (a := c) (l := command.drop first)
  rw [List.length_drop] at bound
  unfold place
  omega

theorem not_answers_parseAddress (outside : ¬ first ≤ command.length) :
    ¬ Answers (parseAddress command first) := by
  rw [parseAddress, find, if_neg outside]
  exact not_answers_error _

variable (within : command.length ≤ gdbBufferSize)
include within

theorem parse_of_le (order : first ≤ last) (inside : last ≤ command.length) :
    parse command first last = .ok (number command first last) := by
  have size : gdbBufferSize < 2 ^ 32 := by decide
  have distance : (last + 2 ^ 32 - first) % 2 ^ 32 = last - first := by omega
  rw [parse, distance, hexToInt_of_le (by omega)]
  rfl

theorem not_answers_parse : ¬ Answers (parse command (command.length + 1) command.length) := by
  have size : gdbBufferSize = 10000 := rfl
  have distance : (command.length + 2 ^ 32 - (command.length + 1)) % 2 ^ 32 = 2 ^ 32 - 1 := by omega
  rw [parse, distance]
  exact not_answers_hexToInt (by decide) (by omega)

theorem parseAddress_eq (inside : first ≤ command.length) : parseAddress command first =
    .ok (number command first (place command first ','.toUInt8),
      place command first ','.toUInt8 + 1) := by
  have found : find command first ','.toUInt8 = .ok (place command first ','.toUInt8) :=
    if_pos inside
  rw [parseAddress, found, ok_bind,
    parse_of_le within le_place (place_le inside)]
  rfl

end

section

variable {s} {after : Stub M} {x : Exec (Stub M)} {reply : List UInt8} {α : Type}

theorem stays_reply (same : after.replies = s.replies) : Stays s (.ok (after.sendReply reply)) := by
  apply returns_ok
  unfold Stub.sendReply
  split_ifs
  · rw [same]
    exact Nat.le_succ _
  · rw [List.length_append, same]
    exact Nat.le_refl _

theorem not_stays_bind {x : Exec α} {f : α → Exec (Stub M)} (stuck : ¬ Answers x) :
    ¬ Stays s (x >>= f) := by
  intro stays
  obtain ⟨after, run⟩ := stays.answers
  obtain ⟨a, first, _⟩ := bind_eq_ok.mp run
  exact stuck ⟨a, first⟩

theorem stays_reload (same : after.replies = s.replies) :
    Stays s (do return (← reload system after).sendReply ok) ↔ after.currentThread.isSome := by
  unfold reload
  cases after.currentThread with
  | none => exact iff_of_false (fun stays => not_answers_error _ stays.answers) nofun
  | some context => exact iff_of_true (stays_reply same) rfl

theorem replies_erase (type : BreakpointType) (addr : UInt32) :
    (eraseBreakpoint system s type addr).replies = s.replies := by
  unfold eraseBreakpoint
  cases s.breakpoints (mapType type) addr <;> rfl

theorem sendReply_replies (short : reply.length + 4 ≤ gdbBufferSize) :
    (s.sendReply reply).replies = s.replies ++ [reply] := by
  unfold Stub.sendReply
  rw [if_neg (Nat.not_lt.mpr short)]

end

section

variable {system s command}

theorem isSome_update {change : Context → Context} :
    (s.update .current change).currentThread.isSome = s.currentThread.isSome := Option.isSome_map ..

theorem stays_writeRegister : Stays s (writeRegister system command s) ↔
    Handler.Fits system command s .writeRegister := by
  have bound : gdbBufferSize = 10000 := rfl
  unfold writeRegister Handler.Fits
  dsimp only
  rw [loadByte_of_lt (by omega), loadByte_of_lt (by omega), ok_bind, ok_bind, ok_bind]
  generalize parseId (command.getD 1 0) (command.getD 2 0) '='.toUInt8 = id
  set start := if command.getD 2 0 = '='.toUInt8 then 3 else 4 with starts
  have near : start ≤ 4 := by split_ifs at starts <;> omega
  obtain ⟨value, int⟩ := @gdbHexToInt_answers command start (by omega)
  obtain ⟨wide, long⟩ := @gdbHexToLong_answers command start (by omega)
  rw [int, long]
  have registers : pcRegister = 15 ∧ cpsrRegister = 25 ∧ d0Register = 26 ∧ fpscrRegister = 42 := by
    decide
  have answered (change : Context → Context)
      (known : id ≤ pcRegister ∨ cpsrRegister ≤ id ∧ id ≤ fpscrRegister) :
      Stays s (do return (← reload system (s.update .current change)).sendReply ok) ↔
        (id ≤ pcRegister ∨ cpsrRegister ≤ id ∧ id ≤ fpscrRegister → s.currentThread.isSome) := by
    rw [forall_prop_of_true known, ← isSome_update]
    exact stays_reload system rfl
  split_ifs with cpu double status
  · exact answered _ (by omega)
  · exact answered _ (by omega)
  · exact answered _ (by omega)
  · exact iff_of_true (stays_reply rfl) fun known => absurd known (by omega)

variable (within : command.length ≤ gdbBufferSize)
include within

theorem stays_fields {first : Nat} {f : UInt32 × Nat → UInt32 → Exec (Stub M)} {P : Prop}
    (inside : first ≤ command.length)
    (later : Stays s (f (number command first (place command first ','.toUInt8),
        place command first ','.toUInt8 + 1)
      (number command (place command first ','.toUInt8 + 1) command.length)) ↔ P) :
    Stays s (do
      let fields ← parseAddress command first
      let len ← parse command fields.2 command.length
      f fields len) ↔ place command first ','.toUInt8 < command.length ∧ P := by
  rw [parseAddress_eq within inside, ok_bind]
  by_cases comma : place command first ','.toUInt8 < command.length
  · rw [parse_of_le within comma (Nat.le_refl _), ok_bind, later]
    exact (and_iff_right comma).symm
  · have ends : place command first ','.toUInt8 = command.length :=
      Nat.le_antisymm (place_le inside) (Nat.le_of_not_lt comma)
    refine iff_of_false ?_ fun h => comma h.1
    rw [ends]
    exact not_stays_bind (not_answers_parse within)

theorem stays_readMemory (nonempty : 1 ≤ command.length) :
    Stays s (readMemory system command s) ↔ Handler.Fits system command s .readMemory := by
  refine stays_fields within nonempty ?_
  generalize number command 1 (place command 1 ','.toUInt8) = addr
  generalize number command (place command 1 ','.toUInt8 + 1) command.length = len
  have size : replySize = 9996 := rfl
  have digits (data : Vector UInt8 len.toNat) :
      (memToGdbHex data.toList).length = len.toNat * 2 := by
    simp [memToGdbHex, List.length_flatMap]
  have wrapped : (len * 2).toNat = len.toNat * 2 % 2 ^ 32 := UInt32.toNat_mul ..
  dsimp only
  rw [digits]
  by_cases small : (len * 2).toNat ≤ replySize
  · rw [if_neg (Nat.not_lt.mpr small)]
    cases system.isValidVirtualAddress s.machine addr with
    | false => exact iff_of_true (stays_reply rfl) ⟨small, nofun⟩
    | true =>
      rw [if_neg nofun]
      split_ifs with room
      · exact iff_of_true (stays_reply rfl) ⟨small, fun _ => by omega⟩
      · refine iff_of_false (fun stays => not_answers_error _ stays.answers) fun h => room ?_
        have less := h.2 rfl
        omega
  · rw [if_pos (Nat.lt_of_not_le small)]
    refine iff_of_false (fun stays => ?_) fun h => small h.1
    obtain ⟨after, run, few⟩ := stays
    split_ifs at run with invalid room
    · cases run
      have two (t : Stub M) (same : t.replies = s.replies ++ [e01]) :
          (t.sendReply e00).replies = s.replies ++ [e01] ++ [e00] := by
        rw [sendReply_replies (by decide), same]
      rw [two _ (sendReply_replies (by decide))] at few
      exact absurd few (by simp)
    · omega

theorem stays_writeMemory (nonempty : 1 ≤ command.length) :
    Stays s (writeMemory system command s) ↔ Handler.Fits system command s .writeMemory := by
  unfold writeMemory Handler.Fits
  rw [parseAddress_eq within nonempty, ok_bind]
  dsimp only
  generalize number command 1 (place command 1 ','.toUInt8) = addr
  by_cases comma : place command 1 ','.toUInt8 < command.length
  · have colon : find command (place command 1 ','.toUInt8 + 1) ':'.toUInt8 =
        .ok (place command (place command 1 ','.toUInt8 + 1) ':'.toUInt8) := if_pos comma
    rw [colon, ok_bind, parse_of_le within le_place (place_le comma), ok_bind, and_iff_right comma]
    cases system.isValidVirtualAddress s.machine addr with
    | false => exact iff_of_true (stays_reply rfl) nofun
    | true =>
      rw [forall_prop_of_true rfl, ← @answers_gdbHexToMem command]
      constructor
      · intro stays
        by_contra stuck
        exact not_stays_bind stuck stays
      · rintro ⟨data, run⟩
        rw [run]
        exact stays_reply rfl
  · refine iff_of_false (not_stays_bind ?_) fun h => comma h.1
    rw [find, if_neg (Nat.not_le.mpr (Nat.lt_succ_of_le (Nat.le_of_not_lt comma)))]
    exact not_answers_error _

theorem stays_addBreakpoint (nonempty : 1 ≤ command.length) :
    Stays s (addBreakpoint system command s) ↔ Handler.Fits system command s .addBreakpoint := by
  have bound : gdbBufferSize = 10000 := rfl
  unfold addBreakpoint Handler.Fits
  rw [loadByte_of_lt (by omega), ok_bind]
  cases breakpointType (command.getD 1 0) with
  | none => exact iff_of_true (stays_reply rfl) nofun
  | some type =>
    dsimp only
    rw [forall_prop_of_true Option.isSome_some]
    by_cases long : 3 ≤ command.length
    · refine (stays_fields within long (P := True) ?_).trans (and_iff_left trivial)
      split_ifs <;> exact iff_of_true (stays_reply rfl) trivial
    · have far : ¬ place command 3 ','.toUInt8 < command.length := by
        have behind : 3 ≤ place command 3 ','.toUInt8 := le_place
        omega
      exact iff_of_false (not_stays_bind (not_answers_parseAddress long)) far

theorem stays_removeBreakpoint : Stays s (removeBreakpoint system command s) ↔
      Handler.Fits system command s .removeBreakpoint := by
  have bound : gdbBufferSize = 10000 := rfl
  unfold removeBreakpoint Handler.Fits
  rw [loadByte_of_lt (by omega), ok_bind]
  cases breakpointType (command.getD 1 0) with
  | none => exact iff_of_true (stays_reply rfl) nofun
  | some type =>
    dsimp only
    rw [forall_prop_of_true Option.isSome_some]
    by_cases long : 3 ≤ command.length
    · rw [parseAddress_eq within long]
      refine iff_of_true ?_ long
      split_ifs
      · exact stays_reply ((replies_erase system _ _).trans (replies_erase system _ _))
      · exact stays_reply (replies_erase system _ _)
    · exact iff_of_false (not_stays_bind (not_answers_parseAddress long)) long

theorem stays_run (nonempty : 1 ≤ command.length) (handler : Handler) :
    Stays s (handler.run system command s) ↔ handler.Fits system command s := by
  cases handler with
  | readRegisters =>
    obtain ⟨reply, _, run⟩ := readRegisters_short (s := s)
    refine iff_of_true ?_ trivial
    dsimp only [Handler.run]
    rw [run]
    exact stays_reply rfl
  | writeRegisters =>
    unfold Handler.run writeRegisters
    obtain ⟨next, loop⟩ := writeNext_all s (List.range (fpscrRegister + 1)) (i := 0) (by decide)
    rw [loop]
    exact stays_reload system rfl
  | readRegister =>
    exact iff_of_true (stays_reply rfl) trivial
  | writeRegister => exact stays_writeRegister
  | readMemory => exact stays_readMemory within nonempty
  | writeMemory => exact stays_writeMemory within nonempty
  | removeBreakpoint => exact stays_removeBreakpoint within
  | addBreakpoint => exact stays_addBreakpoint within nonempty

end

section

variable {command}

/-- What is logged has no end just if it fills the buffer. -/
theorem answers_cString (within : command.length ≤ gdbBufferSize) :
    Answers (cString gdbBufferSize (command.getD · 0)) ↔
      ¬ (command.length = gdbBufferSize ∧ 0 ∉ command) := by
  by_cases full : command.length = gdbBufferSize
  · have whole : slice (command.getD · 0) 0 gdbBufferSize = command := by
      apply List.ext_getElem (length_slice.trans full.symm)
      intro i _ inside
      simp [slice, inside]
    have nonzero : command.takeWhile (· ≠ 0) = command ↔ 0 ∉ command := by
      rw [List.takeWhile_eq_self_iff]
      simp only [ne_eq, decide_not, Bool.not_eq_eq_eq_not, Bool.not_true, decide_eq_false_iff_not]
      exact List.forall_mem_ne'
    unfold cString
    dsimp only
    rw [whole]
    split_ifs with short
    · refine iff_of_true (answers_ok _) fun h => ?_
      rw [nonzero.mpr h.2] at short
      omega
    · have long : command.length ≤ (command.takeWhile (· ≠ 0)).length := by omega
      exact iff_of_false (not_answers_error _)
        (not_not.mpr ⟨full, nonzero.mp ((List.takeWhile_prefix _).eq_of_length_le long)⟩)
  · have less : command.length < gdbBufferSize := by omega
    have behind : command.getD command.length 0 = 0 := by simp
    obtain ⟨string, _, run⟩ := @cString_short _ _ (command.getD · 0) less behind
    exact iff_of_true ⟨string, run⟩ fun h => full h.1

/-- What is left of a command that fills the buffer without a zero, with a wrong checksum. -/
def Unterminated (command input : List UInt8) : Prop :=
  ∃ body high low rest, input = body ++ '#'.toUInt8 :: high :: low :: rest ∧ '#'.toUInt8 ∉ body ∧
    (command ++ body).length = gdbBufferSize ∧ 0 ∉ command ++ body ∧
    hexCharToValue high <<< 4 ||| hexCharToValue low ≠ (command ++ body).sum

variable {input : List UInt8}

theorem answers_readChecksum (within : command.length ≤ gdbBufferSize) :
    Answers (readChecksum command input) ↔ ¬ Unterminated command ('#'.toUInt8 :: input) := by
  have start (body behind : List UInt8) (same : '#'.toUInt8 :: input = body ++ '#'.toUInt8 :: behind)
      (free : '#'.toUInt8 ∉ body) : body = [] ∧ input = behind := by
    cases body with
    | nil => exact ⟨rfl, (List.cons.inj same).2⟩
    | cons b rest =>
      rw [← (List.cons.inj same).1] at free
      exact absurd List.mem_cons_self free
  match input with
  | high :: low :: rest =>
    rw [readChecksum]
    split_ifs with sum
    · refine iff_of_true (answers_ok _) ?_
      rintro ⟨body, high', low', rest', same, free, _, _, wrong⟩
      obtain ⟨rfl, same⟩ := start body _ same free
      cases same
      rw [List.append_nil] at wrong
      exact wrong sum
    · rw [answers_return, answers_cString within, not_iff_not]
      constructor
      · rintro ⟨full, nonzero⟩
        have whole : command ++ [] = command := List.append_nil command
        exact ⟨[], high, low, rest, rfl, nofun, whole.symm ▸ full, whole.symm ▸ nonzero,
          whole.symm ▸ sum⟩
      · rintro ⟨body, _, _, _, same, free, full, nonzero, _⟩
        obtain ⟨rfl, _⟩ := start body _ same free
        rw [List.append_nil] at full nonzero
        exact ⟨full, nonzero⟩
  | [] | [_] =>
    refine iff_of_true (answers_ok _) ?_
    rintro ⟨body, high', low', rest', same, free, _⟩
    obtain ⟨rfl, same⟩ := start body _ same free
    cases same

theorem unterminated_cons {c : UInt8} (other : c ≠ '#'.toUInt8) :
    Unterminated command (c :: input) ↔ Unterminated (command ++ [c]) input := by
  constructor
  · rintro ⟨body, high, low, rest, whole, free, shape⟩
    cases body with
    | nil => exact absurd (List.cons.inj whole).1 other
    | cons b body =>
      obtain ⟨rfl, same⟩ := List.cons.inj whole
      rw [List.append_cons] at shape
      exact ⟨body, high, low, rest, same, fun mem => free (List.mem_cons_of_mem c mem), shape⟩
  · rintro ⟨body, high, low, rest, same, free, shape⟩
    rw [← List.append_cons] at shape
    exact ⟨c :: body, high, low, rest, congrArg (c :: ·) same,
      List.not_mem_cons_of_ne_of_not_mem (Ne.symm other) free, shape⟩

theorem answers_readBody (within : command.length ≤ gdbBufferSize) :
    Answers (readBody command input) ↔ ¬ Unterminated command input := by
  induction input generalizing command with
  | nil =>
    refine iff_of_true (answers_ok _) ?_
    rintro ⟨body, _, _, _, same, _⟩
    cases body <;> cases same
  | cons c rest ih =>
    rw [readBody]
    split_ifs with ends full
    · rw [answers_readChecksum within, ends]
    · rw [unterminated_cons ends]
      refine iff_of_true (answers_ok _) ?_
      rintro ⟨body, _, _, _, _, _, length, _⟩
      simp only [List.length_append, List.length_singleton] at length
      omega
    · rw [unterminated_cons ends]
      apply ih
      rw [List.length_append, List.length_singleton]
      omega

theorem readBody_command {received : Received}
    (within : command.length ≤ gdbBufferSize) (run : readBody command input = .ok received) :
    received ≠ .interrupt ∧
      ∀ bytes packet, received = .command bytes packet → bytes.length ≤ gdbBufferSize := by
  induction input generalizing command with
  | nil =>
    cases run
    exact ⟨nofun, nofun⟩
  | cons c rest ih =>
    rw [readBody] at run
    split_ifs at run with ends full
    · unfold readChecksum at run
      split at run
      · split_ifs at run with sum
        · cases run
          exact ⟨nofun, fun _ _ same => (Received.command.inj same).1 ▸ within⟩
        · obtain ⟨_, _, run⟩ := bind_eq_ok.mp run
          cases run
          exact ⟨nofun, nofun⟩
      · cases run
        exact ⟨nofun, nofun⟩
    · cases run
      exact ⟨nofun, fun _ _ same => (Received.command.inj same).1 ▸ within⟩
    · refine ih ?_ run
      rw [List.length_append, List.length_singleton]
      omega

end

/-- The packet has an end, it is no break, and its command keeps to the buffers. -/
def Fits (input : List UInt8) : Prop :=
  (∀ rest, input = '$'.toUInt8 :: rest → ¬ Unterminated [] rest) ∧ input.head? ≠ some 0x03 ∧
    ∀ bytes packet handler, readCommand input = .ok (.command bytes packet) → bytes ≠ [] →
      GDBStub.handler bytes = some handler → handler.Fits system bytes s

/-- A packet that is none of the other commands is handled within the buffers, with at most one
reply, just if it fits. -/
theorem handlePacket_iff {M : Type} (system : System M) (s : Stub M)
    (others : List UInt8 → Stub M → Exec (Stub M)) (input : List UInt8)
    (modelled : ∀ bytes packet, readCommand input = .ok (.command bytes packet) → bytes ≠ [] →
      (handler bytes).isSome) :
    Stays s (handlePacket system s others input) ↔ Fits system s input := by
  have nothing (packets : List UInt8) : Stays s (.ok { s with packets := s.packets ++ packets }) :=
    returns_ok (Nat.le_succ _)
  unfold handlePacket Fits
  match input with
  | [] => exact iff_of_true (returns_ok (Nat.le_succ _)) ⟨nofun, nofun, nofun⟩
  | c :: rest =>
    by_cases start : c = '$'.toUInt8
    · subst start
      have body : readCommand ('$'.toUInt8 :: rest) = readBody [] rest := rfl
      have plain : ('$'.toUInt8 :: rest).head? ≠ some 0x03 :=
        fun same => absurd (Option.some.inj same) (by decide)
      have bounded := @answers_readBody [] rest (Nat.zero_le _)
      rw [body] at modelled ⊢
      cases run : readBody [] rest with
      | error fault =>
        rw [run] at bounded
        refine iff_of_false (fun stays => not_answers_error _ stays.answers) fun h => ?_
        exact not_answers_error _ (bounded.mpr (h.1 rest rfl))
      | ok received =>
        have ends : ∀ rest', '$'.toUInt8 :: rest = '$'.toUInt8 :: rest' →
            ¬ Unterminated [] rest' := by
          rintro rest' same
          rw [← (List.cons.inj same).2]
          exact bounded.mp ⟨received, run⟩
        obtain ⟨answered, short⟩ := readBody_command (Nat.zero_le _) run
        rw [run] at modelled
        cases received with
        | waiting => exact iff_of_true (returns_ok (Nat.le_succ _)) ⟨ends, plain, nofun⟩
        | nothing packets => exact iff_of_true (nothing packets) ⟨ends, plain, nofun⟩
        | interrupt => exact absurd rfl answered
        | command bytes packet =>
          rw [ok_bind]
          dsimp only
          by_cases empty : bytes = []
          · rw [if_pos empty]
            refine iff_of_true (nothing [packet]) ⟨ends, plain, ?_⟩
            rintro _ _ _ ⟨⟩ some
            exact absurd empty some
          · obtain ⟨command, known⟩ :=
              Option.isSome_iff_exists.mp (modelled bytes packet rfl empty)
            rw [if_neg empty, known]
            change Stays { s with packets := s.packets ++ [packet] } _ ↔ _
            refine (stays_run (short bytes packet rfl) (List.length_pos_iff.mpr empty)
              command).trans ?_
            constructor
            · intro fits
              refine ⟨ends, plain, ?_⟩
              rintro _ _ other ⟨⟩ _ same
              cases known.symm.trans same
              exact fits
            · exact fun h => h.2.2 bytes packet command rfl empty known
    · have ends : ∀ rest', c :: rest = '$'.toUInt8 :: rest' → ¬ Unterminated [] rest' :=
        fun _ same => absurd (List.cons.inj same).1 start
      rw [readCommand]
      split_ifs with ack interrupt
      · refine iff_of_true (nothing []) ⟨ends, ?_, nofun⟩
        subst ack
        exact fun same => absurd (Option.some.inj same) (by decide)
      · refine iff_of_false ?_ fun h => h.2.1 (congrArg some interrupt)
        rintro ⟨after, run, few⟩
        cases run
        rw [sendReply_replies (by decide), sendReply_replies (system.short ..)] at few
        simp at few
      · exact iff_of_true (nothing []) ⟨ends, fun same => interrupt (Option.some.inj same), nofun⟩

def twoBytes : List UInt8 := text ['$', 'm', '0', ',', '2', '#', 'f', 'b']

theorem handlePacket_iff_twoBytes :
    Stays attached (handlePacket idle attached (fun _ s => .ok s) twoBytes) ↔
      Fits idle attached twoBytes :=
  handlePacket_iff idle attached (fun _ s => .ok s) twoBytes fun bytes packet run _ => by
    have received : readCommand twoBytes =
        .ok (.command (text ['m', '0', ',', '2']) '+'.toUInt8) := by decide
    cases received.symm.trans run
    decide

/-- An `m` command without a comma reads behind the buffer. -/
theorem missing_comma : ¬ Stays attached (handlePacket idle attached (fun _ s => .ok s)
      (text ['$', 'm', '0', '#', '9', 'd'])) := by
  have run : handlePacket idle attached (fun _ s => .ok s) (text ['$', 'm', '0', '#', '9', 'd']) =
      readMemory idle (text ['m', '0']) { attached with packets := [43] } := by
    have received : readCommand (text ['$', 'm', '0', '#', '9', 'd']) =
        .ok (.command (text ['m', '0']) 43) := by decide
    unfold handlePacket
    rw [received, ok_bind]
    rfl
  rw [run]
  intro stays
  have fits := (stays_readMemory (s := { attached with packets := [43] }) (by decide)
    (by decide)).mp stays
  exact absurd fits.1 (by decide)

end EmuThreeDS.GDBStub
