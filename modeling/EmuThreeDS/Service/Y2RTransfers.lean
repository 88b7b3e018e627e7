import EmuThreeDS.Service.Y2RConversion

/-!
# Units of a transfer

Where `ReceiveData` reads the samples of a strip, and `SendData` writes its pixels.
-/
namespace EmuThreeDS.Y2R

open Blit StepLoop

/-- Where a sample of `n` bytes is, of units of some samples that are so far from each other. -/
def sampleAddress (n pointer samples stride k : Nat) : Nat :=
  pointer + k / samples * stride + k % samples * n

namespace ConversionBuffer

variable (buf : ConversionBuffer)

def Divides (n amountOfData : Nat) : Prop :=
  buf.transferUnit / n ≠ 0 ∧ amountOfData % (buf.transferUnit / n) = 0

@[simp] theorem transferUnit_next : buf.next.transferUnit = buf.transferUnit := rfl

@[simp] theorem gap_next : buf.next.gap = buf.gap := rfl

@[simp] theorem transferUnit_iterate (units : Nat) :
    (next^[units] buf).transferUnit = buf.transferUnit := by
  induction units with
  | zero => rfl
  | succ units ih => rw [Function.iterate_succ_apply', transferUnit_next, ih]

@[simp] theorem gap_iterate (units : Nat) : (next^[units] buf).gap = buf.gap := by
  induction units with
  | zero => rfl
  | succ units ih => rw [Function.iterate_succ_apply', gap_next, ih]

end ConversionBuffer

section

variable {getPointer : Nat → Nat} {fuel n size output amountOfData : Nat}
  {memory data : HostMemory} {buf : ConversionBuffer}

structure Received (n pointer output amountOfData samples : Nat) (memory data : HostMemory)
    (buf : ConversionBuffer) (units : Nat) (s : ReceiveState) : Prop where
  outputAt : s.output = output + units * samples
  inputAt : s.input = pointer + units * (buf.transferUnit + buf.gap)
  bufAt : s.buf = ConversionBuffer.next^[units] buf
  left : s.amountOfData + units * samples = amountOfData
  read : ∀ k < units * samples, s.data (output + k) =
    memory (sampleAddress n pointer samples (buf.transferUnit + buf.gap) k)
  kept : ∀ a, a < output ∨ output + amountOfData ≤ a → s.data a = data a

variable {answer : HostMemory × ConversionBuffer} {k u : Nat}

theorem receiveData_inv
    (run : receiveData getPointer fuel n size memory data output buf amountOfData = .ok answer) :
    buf.Divides n amountOfData ∧ ∃ units, answer.2 = ConversionBuffer.next^[units] buf := by
  unfold receiveData at run
  dsimp only at run
  split_ifs at run with none
  · obtain ⟨_, divides, run⟩ := bind_eq_ok.mp run
    refine ⟨⟨none, assert_eq_ok.mp divides⟩, ?_⟩
    obtain ⟨t, visits, ends⟩ := visits_of_answer run
    have moved : ∃ units, t.buf = ConversionBuffer.next^[units] buf := by
      refine visits_invariant (fun t => ∃ units, t.buf = ConversionBuffer.next^[units] buf) ?_
        ⟨0, rfl⟩ visits
      rintro t u ⟨units, same⟩ next
      unfold Next ReceiveState.turn at next
      split_ifs at next
      · obtain ⟨after, -, step⟩ := bind_eq_ok.mp next
        cases step
        exact ⟨units + 1, by rw [Function.iterate_succ_apply', ← same]⟩
      · cases next
    obtain ⟨units, same⟩ := moved
    unfold ReceiveState.turn at ends
    split_ifs at ends
    · obtain ⟨after, -, step⟩ := bind_eq_ok.mp ends
      cases step
    · cases ends
      exact ⟨units, same⟩

theorem Received.turn {pointer samples units : Nat} {s : ReceiveState}
    (whole : amountOfData % samples = 0) (room : output + amountOfData ≤ size)
    (h : Received n pointer output amountOfData samples memory data buf units s)
    (more : 0 < s.amountOfData) (positive : 0 < samples) :
    ∃ t, s.turn n size samples memory = .ok (.inr t) ∧
      Received n pointer output amountOfData samples memory data buf (units + 1) t ∧
      t.amountOfData < s.amountOfData := by
  have outputAt := h.outputAt
  have left := h.left
  have next : (units + 1) * samples = units * samples + samples := Nat.succ_mul units samples
  have fits : samples ≤ s.amountOfData := by
    rw [← left, Nat.add_mul_mod_self_right] at whole
    exact Nat.le_of_dvd more (Nat.dvd_of_mod_eq_zero whole)
  have fill : Returns (Cells.fill size (fun i => .ok (s.output + i, [memory (s.input + i * n)]))
      (List.range samples) s.data) _ :=
    Cells.fill_returns (fun i => s.output + i) (fun i => [memory (s.input + i * n)])
      (fun i mem => ⟨rfl, by
        have less := List.mem_range.mp mem
        dsimp only [List.length_singleton]
        omega⟩)
      fun i _ j _ other => by
        dsimp only [List.length_singleton]
        omega
  obtain ⟨after, runs, written, kept⟩ := fill
  refine ⟨_, by unfold ReceiveState.turn; rw [if_pos more, runs]; rfl,
    ⟨?_, ?_, ?_, ?_, ?_, ?_⟩, ?_⟩
  · dsimp only
    omega
  · rw [h.inputAt, h.bufAt, ConversionBuffer.transferUnit_iterate, ConversionBuffer.gap_iterate,
      Nat.succ_mul, Nat.add_assoc]
  · rw [h.bufAt, Function.iterate_succ_apply']
  · dsimp only
    omega
  · intro k less
    dsimp only
    rcases Nat.lt_or_ge k (units * samples) with early | late
    · rw [kept _ fun i _ => .inl (by omega)]
      exact h.read k early
    · obtain ⟨i, rfl⟩ := Nat.exists_eq_add_of_le late
      have inUnit : i < samples := by omega
      have sample := List.cons.inj (written i (List.mem_range.mpr inUnit)) |>.1
      have quotient : (units * samples + i) / samples = units := by
        rw [Nat.mul_comm, Nat.mul_add_div positive, Nat.div_eq_of_lt inUnit, Nat.add_zero]
      have remainder : (units * samples + i) % samples = i := by
        rw [Nat.mul_comm, Nat.mul_add_mod, Nat.mod_eq_of_lt inUnit]
      rw [sampleAddress, quotient, remainder, ← h.inputAt, ← sample, outputAt, Nat.add_assoc]
      rfl
  · intro a outside
    dsimp only
    rw [kept a fun i mem => ?_]
    · exact h.kept a outside
    · have less := List.mem_range.mp mem
      dsimp only [List.length_singleton]
      omega
  · dsimp only
    omega

def ConversionBuffer.sample (getPointer : Nat → Nat) (n : Nat) (memory : HostMemory)
    (buf : ConversionBuffer) (k : Nat) : UInt8 :=
  memory (sampleAddress n (getPointer buf.address) (buf.transferUnit / n)
    (buf.transferUnit + buf.gap) k)

variable (getPointer memory data) in
theorem receiveData_returns (divides : buf.Divides n amountOfData)
    (room : output + amountOfData ≤ size) (enough : amountOfData < fuel) :
    Returns (receiveData getPointer fuel n size memory data output buf amountOfData) fun after =>
      (∀ k < amountOfData, after.1 (output + k) = buf.sample getPointer n memory k) ∧
      (∀ a, a < output ∨ output + amountOfData ≤ a → after.1 a = data a) ∧
      after.2 = ConversionBuffer.next^[amountOfData / (buf.transferUnit / n)] buf := by
  unfold receiveData
  dsimp only
  rw [if_neg divides.1, assert_pos divides.2, ok_bind]
  refine loop_returns _ ReceiveState.amountOfData _
    (fun s => ∃ units,
      Received n (getPointer buf.address) output amountOfData (buf.transferUnit / n) memory data buf
        units s) _
    ?_ ⟨0, ⟨by simp, by simp, rfl, by simp, by simp, fun _ _ => rfl⟩⟩ enough
  rintro s ⟨units, h⟩
  by_cases more : 0 < s.amountOfData
  · obtain ⟨t, runs, after, less⟩ := h.turn divides.2 room more (Nat.pos_of_ne_zero divides.1)
    exact .inr ⟨t, runs, ⟨units + 1, after⟩, less⟩
  · have left := h.left
    have all : units * (buf.transferUnit / n) = amountOfData := by
      rwa [Nat.eq_zero_of_not_pos more, Nat.zero_add] at left
    refine .inl ⟨(s.data, s.buf), if_neg more, ?_, h.kept, ?_⟩
    · rw [← all]
      exact h.read
    · rw [← all, Nat.mul_div_cancel _ (Nat.pos_of_ne_zero divides.1)]
      exact h.bufAt

end

def pixelBytes : OutputFormat → Nat
  | .rgba8 => 4
  | .rgb8 => 3
  | .rgb5a1 | .rgb565 => 2
  | .other => 0

@[simp] theorem length_encodePixel (outputFormat : OutputFormat) (color : Vec4) :
    (encodePixel outputFormat color).length = pixelBytes outputFormat := by
  cases outputFormat <;> rfl

def partsOf (amount size : Nat) : Nat := (amount + size - 1) / size

theorem lt_partsOf {amount size : Nat} (positive : 0 < size) :
    k < partsOf amount size ↔ k * size < amount := by
  unfold partsOf
  rw [← Nat.succ_le_iff, Nat.le_div_iff_mul_le positive, Nat.succ_mul]
  omega

theorem partsOf_mul {size : Nat} (parts : Nat) (positive : 0 < size) :
    partsOf (parts * size) size = parts := by
  rw [partsOf, Nat.add_sub_assoc positive, Nat.mul_comm, Nat.mul_add_div positive,
    Nat.div_eq_of_lt (Nat.sub_lt positive Nat.one_pos), Nat.add_zero]

theorem partsOf_zero (size : Nat) : partsOf 0 size = 0 := by
  rcases Nat.eq_zero_or_pos size with rfl | positive
  · rfl
  · exact Nat.div_eq_of_lt (by omega)

section

variable {size fuel unitEnd : Nat} {data : HostMemory} {outputFormat : OutputFormat} {alpha : UInt8}
  {s t : SendState}

def sentPixel (data : HostMemory) (outputFormat : OutputFormat) (alpha : UInt8) (k : Nat) :
    List UInt8 :=
  encodePixel outputFormat (colorVec (leValue (slice data (4 * k) 4)) alpha)

namespace SendState

variable (data outputFormat alpha s) in
def sent (k : Nat) : SendState :=
  { s with
    memory := (List.range k).foldl (fun memory i =>
      blit memory (s.output + i * pixelBytes outputFormat)
        (sentPixel data outputFormat alpha (s.input + i))) s.memory
    input := s.input + k
    output := s.output + k * pixelBytes outputFormat
    amountOfData := s.amountOfData - k }

theorem sent_zero : s.sent data outputFormat alpha 0 = s := by
  unfold sent
  simp

theorem pixel_sent : (s.sent data outputFormat alpha k).pixel size data outputFormat alpha unitEnd =
      if s.output + k * pixelBytes outputFormat < unitEnd then
        if 4 * (s.input + (k + 1)) ≤ size then .ok (.inr (s.sent data outputFormat alpha (k + 1)))
        else .error .undefinedBehaviour else .ok (.inl (s.sent data outputFormat alpha k)) := by
  unfold pixel
  by_cases more : s.output + k * pixelBytes outputFormat < unitEnd
  · rw [if_pos (show (s.sent data outputFormat alpha k).output < unitEnd from more), if_pos more]
    by_cases inside : 4 * (s.input + (k + 1)) ≤ size
    · rw [Cells.get_of_le (by unfold sent; omega), if_pos inside]
      have amount : s.amountOfData - (k : Int) - 1 = s.amountOfData - ((k + 1 : Nat) : Int) := by
        omega
      have output : s.output + k * pixelBytes outputFormat + pixelBytes outputFormat =
          s.output + (k + 1) * pixelBytes outputFormat := by
        rw [Nat.succ_mul, Nat.add_assoc]
      unfold sent
      simp only [List.range_succ, List.foldl_append, List.foldl_cons, List.foldl_nil,
        length_encodePixel, output, amount]
      rfl
    · rw [if_neg inside, Cells.get, if_neg (by unfold sent; omega), error_bind]
  · rw [if_neg more, if_neg (show ¬ (s.sent data outputFormat alpha k).output < unitEnd from more)]

section

variable {transferUnit : Nat}

theorem pixel_returns (positive : 0 < pixelBytes outputFormat)
    (room : 4 * (s.input + partsOf transferUnit (pixelBytes outputFormat)) ≤ size)
    (enough : partsOf transferUnit (pixelBytes outputFormat) < fuel) :
    loop .outOfFuel (pixel size data outputFormat alpha (s.output + transferUnit)) fuel s =
      .ok (s.sent data outputFormat alpha (partsOf transferUnit (pixelBytes outputFormat))) := by
  have ends : Returns (loop .outOfFuel
      (pixel size data outputFormat alpha (s.output + transferUnit)) fuel s)
      (· = s.sent data outputFormat alpha
        (partsOf transferUnit (pixelBytes outputFormat))) := by
    refine loop_returns _
      (fun t => partsOf transferUnit (pixelBytes outputFormat) - (t.input - s.input)) _
      (fun t => ∃ k ≤ partsOf transferUnit (pixelBytes outputFormat),
        t = s.sent data outputFormat alpha k) _ ?_ ⟨0, Nat.zero_le _, sent_zero.symm⟩ (by omega)
    rintro t ⟨k, le, rfl⟩
    rw [pixel_sent]
    by_cases more : k < partsOf transferUnit (pixelBytes outputFormat)
    · rw [if_pos (Nat.add_lt_add_left ((lt_partsOf positive).mp more) _), if_pos (by omega)]
      refine .inr ⟨_, rfl, ⟨k + 1, more, rfl⟩, ?_⟩
      unfold sent
      dsimp only
      omega
    · rw [if_neg fun less =>
        more ((lt_partsOf positive).mpr (Nat.lt_of_add_lt_add_left less))]
      refine .inl ⟨_, rfl, ?_⟩
      rw [Nat.le_antisymm le (Nat.le_of_not_lt more)]
  obtain ⟨t, runs, rfl⟩ := ends
  exact runs

theorem pixel_of_answer (run : loop .outOfFuel
      (pixel size data outputFormat alpha (s.output + transferUnit)) fuel s = .ok t) :
    t = s.sent data outputFormat alpha (partsOf transferUnit (pixelBytes outputFormat)) ∧
      (0 < transferUnit → 0 < pixelBytes outputFormat) ∧ (0 < transferUnit →
        4 * (s.input + partsOf transferUnit (pixelBytes outputFormat)) ≤ size) := by
  obtain ⟨u, visits, ends⟩ := visits_of_answer run
  have sent : ∃ k, u = s.sent data outputFormat alpha k ∧ (0 < k → 4 * (s.input + k) ≤ size) ∧
      (0 < k → (k - 1) * pixelBytes outputFormat < transferUnit) := by
    refine visits_invariant (fun u => ∃ k, u = s.sent data outputFormat alpha k ∧
      (0 < k → 4 * (s.input + k) ≤ size) ∧
      (0 < k → (k - 1) * pixelBytes outputFormat < transferUnit)) ?_
      ⟨0, sent_zero.symm, fun none => absurd none (Nat.lt_irrefl 0),
        fun none => absurd none (Nat.lt_irrefl 0)⟩ visits
    rintro u v ⟨k, rfl, -, -⟩ next
    unfold Next at next
    rw [pixel_sent] at next
    split_ifs at next with more inside
    · cases next
      exact ⟨k + 1, rfl, fun _ => inside, fun _ => Nat.lt_of_add_lt_add_left more⟩
    · cases next
  obtain ⟨k, rfl, read, before⟩ := sent
  rw [pixel_sent] at ends
  split_ifs at ends with more inside
  · cases ends
  · cases ends
    have behind : transferUnit ≤ k * pixelBytes outputFormat := by omega
    by_cases positive : 0 < pixelBytes outputFormat
    · have last : k = partsOf transferUnit (pixelBytes outputFormat) := by
        have least : ¬ k < partsOf transferUnit (pixelBytes outputFormat) := fun less =>
          Nat.not_lt_of_le behind ((lt_partsOf positive).mp less)
        rcases Nat.eq_zero_or_pos k with rfl | some_sent
        · omega
        · have reached := (lt_partsOf positive).mpr (before some_sent)
          omega
      refine ⟨by rw [last], fun _ => positive, fun some_bytes => ?_⟩
      rw [← last]
      apply read
      rw [last]
      exact (lt_partsOf positive).mpr (by omega)
    · have none : pixelBytes outputFormat = 0 := Nat.eq_zero_of_not_pos positive
      rw [none] at behind
      have empty : k = 0 := by
        omega
      have no_pixels : partsOf transferUnit (pixelBytes outputFormat) = 0 := by
        rw [partsOf, none, Nat.div_zero]
      exact ⟨by rw [no_pixels, empty], fun some_bytes => by omega, fun some_bytes => by omega⟩

end

variable (data outputFormat alpha s) in
def units (u : Nat) : SendState :=
  let bytes := pixelBytes outputFormat
  let pixels := partsOf s.buf.transferUnit bytes
  { memory := (grid pixels u).foldl (fun memory p =>
      blit memory (s.output + p.2 * (pixels * bytes + s.buf.gap) + p.1 * bytes)
        (sentPixel data outputFormat alpha (s.input + p.2 * pixels + p.1))) s.memory
    input := s.input + u * pixels
    output := s.output + u * (pixels * bytes + s.buf.gap)
    buf := ConversionBuffer.next^[u] s.buf
    amountOfData := s.amountOfData - u * pixels }

theorem units_zero : s.units data outputFormat alpha 0 = s := by
  unfold units
  simp [grid]

theorem units_succ (u : Nat) :
    { (s.units data outputFormat alpha u).sent data outputFormat alpha
        (partsOf s.buf.transferUnit (pixelBytes outputFormat)) with
      output := ((s.units data outputFormat alpha u).sent data outputFormat alpha
        (partsOf s.buf.transferUnit (pixelBytes outputFormat))).output + s.buf.gap
      buf := (s.units data outputFormat alpha u).buf.next } =
      s.units data outputFormat alpha (u + 1) := by
  have amount (pixels : Nat) : s.amountOfData - (u * pixels : Int) - pixels =
      s.amountOfData - ((u + 1 : Nat) * pixels : Int) := by
    push_cast
    ring
  have next (n : Nat) : (u + 1) * n = u * n + n := Nat.succ_mul u n
  unfold units sent
  simp only [grid_succ, List.foldl_append, List.foldl_map, Function.iterate_succ_apply', next,
    amount, Nat.add_assoc]

theorem turn_units (positive : 0 < pixelBytes outputFormat)
    (room : 4 * (s.input + (u + 1) * partsOf s.buf.transferUnit (pixelBytes outputFormat)) ≤ size)
    (enough : partsOf s.buf.transferUnit (pixelBytes outputFormat) < fuel)
    (more : (u * partsOf s.buf.transferUnit (pixelBytes outputFormat) : Int) < s.amountOfData) :
    (s.units data outputFormat alpha u).turn size data outputFormat alpha fuel =
      .ok (.inr (s.units data outputFormat alpha (u + 1))) := by
  have unit : (s.units data outputFormat alpha u).buf.transferUnit = s.buf.transferUnit :=
    s.buf.transferUnit_iterate u
  have gap : (s.units data outputFormat alpha u).buf.gap = s.buf.gap := s.buf.gap_iterate u
  have left : 0 < (s.units data outputFormat alpha u).amountOfData := Int.sub_pos_of_lt more
  rw [Nat.succ_mul u] at room
  have inside : 4 * ((s.units data outputFormat alpha u).input +
      partsOf s.buf.transferUnit (pixelBytes outputFormat)) ≤ size := by
    unfold units
    dsimp only
    omega
  unfold turn
  rw [if_pos left, unit, pixel_returns positive inside enough, ← units_succ,
    ← gap]
  rfl

theorem of_turn_units
    (next : Next (turn size data outputFormat alpha fuel) (s.units data outputFormat alpha u) t) :
    t = s.units data outputFormat alpha (u + 1) ∧
      (0 < s.buf.transferUnit → 0 < pixelBytes outputFormat ∧
        4 * (s.input + (u + 1) * partsOf s.buf.transferUnit (pixelBytes outputFormat)) ≤ size) := by
  have unit : (s.units data outputFormat alpha u).buf.transferUnit = s.buf.transferUnit :=
    s.buf.transferUnit_iterate u
  have gap : (s.units data outputFormat alpha u).buf.gap = s.buf.gap := s.buf.gap_iterate u
  unfold Next turn at next
  split_ifs at next with left
  · obtain ⟨v, pixels, step⟩ := bind_eq_ok.mp next
    rw [unit] at pixels
    obtain ⟨rfl, bytes, read⟩ := pixel_of_answer pixels
    obtain rfl := Sum.inr.inj (Except.ok.inj step)
    refine ⟨?_, fun some_bytes => ⟨bytes some_bytes, ?_⟩⟩
    · rw [← units_succ, ← gap]
      rfl
    · have inside := read some_bytes
      rw [Nat.succ_mul u, ← Nat.add_assoc]
      exact inside
  · cases next

end SendState

variable {getPointer : Nat → Nat} {memory : HostMemory} {buf : ConversionBuffer} {amountOfData : Nat}

def sendStart (getPointer : Nat → Nat) (memory : HostMemory) (buf : ConversionBuffer)
    (amountOfData : Nat) : SendState :=
  ⟨memory, 0, getPointer buf.address, buf, amountOfData⟩

def ConversionBuffer.Sends (buf : ConversionBuffer) (outputFormat : OutputFormat)
    (size amountOfData : Nat) : Prop :=
  0 < pixelBytes outputFormat ∧ 0 < buf.transferUnit ∧
    4 * (partsOf amountOfData (partsOf buf.transferUnit (pixelBytes outputFormat)) *
      partsOf buf.transferUnit (pixelBytes outputFormat)) ≤ size

theorem sendData_returns (sends : buf.Sends outputFormat size amountOfData)
    (enough : amountOfData + partsOf buf.transferUnit (pixelBytes outputFormat) < fuel) :
    sendData size data outputFormat alpha getPointer fuel memory buf amountOfData =
      .ok (((sendStart getPointer memory buf amountOfData).units data outputFormat alpha
          (partsOf amountOfData (partsOf buf.transferUnit (pixelBytes outputFormat)))).memory,
        ConversionBuffer.next^[partsOf amountOfData
          (partsOf buf.transferUnit (pixelBytes outputFormat))] buf) := by
  obtain ⟨positive, some_bytes, room⟩ := sends
  have some_pixels : 0 < partsOf buf.transferUnit (pixelBytes outputFormat) :=
    (lt_partsOf positive).mpr (by omega)
  generalize pixels_eq : partsOf buf.transferUnit (pixelBytes outputFormat) = pixels at *
  generalize start_eq : sendStart getPointer memory buf amountOfData = start
  have startBuf : start.buf = buf := by rw [← start_eq]; rfl
  have startAmount : start.amountOfData = amountOfData := by rw [← start_eq]; rfl
  have startInput : start.input = 0 := by rw [← start_eq]; rfl
  have unitPixels : partsOf start.buf.transferUnit (pixelBytes outputFormat) = pixels := by
    rw [startBuf, pixels_eq]
  have ends : Returns (loop .outOfFuel (SendState.turn size data outputFormat alpha fuel) fuel start)
      (· = ((start.units data outputFormat alpha (partsOf amountOfData pixels)).memory,
        ConversionBuffer.next^[partsOf amountOfData pixels] buf)) := by
    refine loop_returns _ (fun t => t.amountOfData.toNat) _
      (fun t => ∃ u ≤ partsOf amountOfData pixels, t = start.units data outputFormat alpha u) _ ?_
      ⟨0, Nat.zero_le _, SendState.units_zero.symm⟩ (by omega)
    rintro t ⟨u, le, rfl⟩
    have left : (start.units data outputFormat alpha u).amountOfData =
        (amountOfData : Int) - u * pixels := by
      rw [← startAmount, ← unitPixels]
      rfl
    by_cases more : u < partsOf amountOfData pixels
    · have before := (lt_partsOf some_pixels).mp more
      have whole := Nat.mul_le_mul_right pixels (show u + 1 ≤ _ from more)
      have later : (start.units data outputFormat alpha (u + 1)).amountOfData =
          (amountOfData : Int) - (u + 1 : Nat) * pixels := by
        rw [← startAmount, ← unitPixels]
        rfl
      refine .inr ⟨_, SendState.turn_units positive ?_ ?_ ?_, ⟨u + 1, more, rfl⟩, ?_⟩
      · rw [unitPixels]
        omega
      · omega
      · rw [unitPixels, startAmount]
        exact_mod_cast before
      · have next : (u + 1) * pixels = u * pixels + pixels := Nat.succ_mul u pixels
        omega
    · obtain rfl : u = partsOf amountOfData pixels := Nat.le_antisymm le (Nat.le_of_not_lt more)
      have all : amountOfData ≤ partsOf amountOfData pixels * pixels :=
        Nat.le_of_not_lt fun less => more ((lt_partsOf some_pixels).mpr less)
      refine .inl ⟨_, if_neg ?_, ?_⟩
      · omega
      · rw [← startBuf]
        rfl
  obtain ⟨result, runs, rfl⟩ := ends
  rw [← runs, ← start_eq]
  rfl

theorem sendData_inv (some_data : 0 < amountOfData)
    (run : sendData size data outputFormat alpha getPointer fuel memory buf amountOfData =
      .ok answer) : buf.Sends outputFormat size amountOfData ∧
      ∃ units, answer.2 = ConversionBuffer.next^[units] buf := by
  obtain ⟨t, visits, ends⟩ := visits_of_answer run
  have units : ∃ u, t = (sendStart getPointer memory buf amountOfData).units data outputFormat
      alpha u ∧ (0 < u → 0 < buf.transferUnit → 0 < pixelBytes outputFormat ∧
        4 * (u * partsOf buf.transferUnit (pixelBytes outputFormat)) ≤ size) := by
    refine visits_invariant (fun t => ∃ u, t = (sendStart getPointer memory buf amountOfData).units
      data outputFormat alpha u ∧ (0 < u → 0 < buf.transferUnit → 0 < pixelBytes outputFormat ∧
        4 * (u * partsOf buf.transferUnit (pixelBytes outputFormat)) ≤ size)) ?_
      ⟨0, SendState.units_zero.symm, fun none => absurd none (Nat.lt_irrefl 0)⟩ visits
    rintro t v ⟨u, rfl, -⟩ next
    obtain ⟨rfl, room⟩ := SendState.of_turn_units next
    refine ⟨u + 1, rfl, fun _ some_bytes => ?_⟩
    obtain ⟨positive, inside⟩ := room some_bytes
    exact ⟨positive, by rwa [show (sendStart getPointer memory buf amountOfData).input = 0 from rfl,
      Nat.zero_add] at inside⟩
  obtain ⟨u, rfl, room⟩ := units
  have last : (amountOfData : Int) ≤ u * partsOf buf.transferUnit (pixelBytes outputFormat) ∧
      answer.2 = ConversionBuffer.next^[u] buf := by
    unfold SendState.turn at ends
    split_ifs at ends with left
    · obtain ⟨v, -, step⟩ := bind_eq_ok.mp ends
      cases step
    · cases ends
      exact ⟨Int.le_of_sub_nonpos (Int.not_lt.mp left), rfl⟩
  obtain ⟨all, moved⟩ := last
  have some_units : 0 < u * partsOf buf.transferUnit (pixelBytes outputFormat) := by
    omega
  have some_pixels := Nat.pos_of_mul_pos_left some_units
  have some_bytes : 0 < buf.transferUnit := by
    by_contra none
    rw [Nat.eq_zero_of_not_pos none, partsOf_zero] at some_pixels
    exact Nat.lt_irrefl 0 some_pixels
  obtain ⟨positive, inside⟩ := room (Nat.pos_of_mul_pos_right some_units) some_bytes
  refine ⟨⟨positive, some_bytes,
    Nat.le_trans (Nat.mul_le_mul_left 4 (Nat.mul_le_mul_right _ ?_)) inside⟩, u, moved⟩
  refine Nat.le_of_not_lt fun less => ?_
  have before := (lt_partsOf some_pixels).mp less
  omega

section

variable {start stride bytes pixels count q r i : Nat} {p other : Nat × Nat}

def pixelAddress (start stride bytes : Nat) (p : Nat × Nat) : Nat :=
  start + p.2 * stride + p.1 * bytes

theorem pixel_lt (less : r < pixels) (inside : i < bytes) : r * bytes + i < pixels * bytes := by
  have next := Nat.mul_le_mul_right bytes (show r + 1 ≤ pixels from less)
  rw [Nat.succ_mul] at next
  omega

variable (start stride q) in
theorem sampleAddress_pixel (less : r < pixels) (inside : i < bytes) :
    sampleAddress 1 start (pixels * bytes) stride ((q * pixels + r) * bytes + i) =
      pixelAddress start stride bytes (r, q) + i := by
  have split : (q * pixels + r) * bytes + i = pixels * bytes * q + (r * bytes + i) := by ring
  have within := pixel_lt less inside
  rw [sampleAddress, split, Nat.mul_add_div (Nat.zero_lt_of_lt within), Nat.mul_add_mod,
    Nat.div_eq_of_lt within, Nat.mod_eq_of_lt within, Nat.add_zero, pixelAddress]
  dsimp only
  omega

theorem pixelAddress_next (room : pixels * bytes ≤ stride) (less : p.1 < pixels)
    (before : p.2 < other.2 ∨ p.2 = other.2 ∧ p.1 < other.1) :
    pixelAddress start stride bytes p + bytes ≤ pixelAddress start stride bytes other := by
  unfold pixelAddress
  rcases before with units | ⟨same, before⟩
  · have unit := Nat.mul_le_mul_right stride (show p.2 + 1 ≤ other.2 from units)
    have pixel := Nat.mul_le_mul_right bytes (show p.1 + 1 ≤ pixels from less)
    rw [Nat.succ_mul] at unit pixel
    omega
  · have next := Nat.mul_le_mul_right bytes (show p.1 + 1 ≤ other.1 from before)
    rw [Nat.succ_mul] at next
    rw [same]
    omega

theorem pixelAddress_apart (room : pixels * bytes ≤ stride) (mem : p ∈ grid pixels count)
    (mem' : other ∈ grid pixels count) (different : other ≠ p) :
    pixelAddress start stride bytes p + bytes ≤ pixelAddress start stride bytes other ∨
      pixelAddress start stride bytes other + bytes ≤ pixelAddress start stride bytes p := by
  have less := (mem_grid.mp mem).1
  have less' := (mem_grid.mp mem').1
  rcases Nat.lt_trichotomy p.2 other.2 with units | same | units
  · exact .inl (pixelAddress_next room less (.inl units))
  · have columns : p.1 ≠ other.1 := fun equal => different (Prod.ext equal.symm same.symm)
    rcases Nat.lt_or_gt_of_ne columns with before | behind
    · exact .inl (pixelAddress_next room less (.inr ⟨same, before⟩))
    · exact .inr (pixelAddress_next room less' (.inr ⟨same.symm, behind⟩))
  · exact .inr (pixelAddress_next room less' (.inl units))

/-- Every pixel of the units is in its place, and nothing else is written. -/
theorem foldl_blit_grid (write : Nat → List UInt8) (length : ∀ k, (write k).length = bytes)
    (some_pixels : 0 < pixels) (room : pixels * bytes ≤ stride) {after : HostMemory}
    (state : after = (grid pixels count).foldl (fun memory p =>
      blit memory (pixelAddress start stride bytes p) (write (p.2 * pixels + p.1))) memory) :
    (∀ k < count * pixels, ∀ i < bytes, (write k)[i]? =
      some (after (sampleAddress 1 start (pixels * bytes) stride (k * bytes + i)))) ∧
    ∀ a, (∀ j < count * pixels * bytes, a ≠ sampleAddress 1 start (pixels * bytes) stride j) →
      after a = memory a := by
  rw [state]
  constructor
  · intro k less i inside
    have mem : (k % pixels, k / pixels) ∈ grid pixels count :=
      mem_grid.mpr ⟨Nat.mod_lt k some_pixels, (Nat.div_lt_iff_lt_mul some_pixels).mpr less⟩
    have index : k / pixels * pixels + k % pixels = k := Nat.div_add_mod' k pixels
    have address := sampleAddress_pixel start stride (k / pixels)
      (Nat.mod_lt k some_pixels) inside
    rw [index] at address
    have written := foldl_blit_inside (m := memory) (pixelAddress start stride bytes)
      (fun p => write (p.2 * pixels + p.1)) mem
      (fun other mem' different => by
        rw [length, length]
        exact pixelAddress_apart room mem mem' different)
      (show i < (write (k / pixels * pixels + k % pixels)).length by rwa [length])
    rw [address]
    refine .trans ?_ (congrArg some written).symm
    rw [List.get_eq_getElem, ← List.getElem?_eq_getElem, index]
  · intro a outside
    apply foldl_blit_outside (pixelAddress start stride bytes)
      (fun p => write (p.2 * pixels + p.1))
    rintro ⟨r, q⟩ mem
    obtain ⟨less, units⟩ := mem_grid.mp mem
    rw [length]
    by_contra inside
    push Not at inside
    obtain ⟨from_, ends⟩ := inside
    obtain ⟨i, same⟩ := Nat.exists_eq_add_of_le from_
    have within : i < bytes := by omega
    exact outside _ (pixel_lt (pixel_lt units less) within)
      (same.trans (sampleAddress_pixel _ _ _ less within).symm)

end

/-- Where the units hold whole pixels, the bytes of the pixels are behind each other in them, and
the gaps are left as they are. -/
theorem sendData_pixels (sends : buf.Sends outputFormat size amountOfData)
    (whole : buf.transferUnit % pixelBytes outputFormat = 0)
    (units : amountOfData * pixelBytes outputFormat % buf.transferUnit = 0)
    (enough : amountOfData + partsOf buf.transferUnit (pixelBytes outputFormat) < fuel) :
    Returns (sendData size data outputFormat alpha getPointer fuel memory buf amountOfData)
      fun after => (∀ k < amountOfData, ∀ i < pixelBytes outputFormat,
          (sentPixel data outputFormat alpha k)[i]? =
            some (after.1 (sampleAddress 1 (getPointer buf.address) buf.transferUnit
              (buf.transferUnit + buf.gap) (k * pixelBytes outputFormat + i)))) ∧
        (∀ a, (∀ j < amountOfData * pixelBytes outputFormat,
          a ≠ sampleAddress 1 (getPointer buf.address) buf.transferUnit
            (buf.transferUnit + buf.gap) j) → after.1 a = memory a) ∧ after.2 =
          ConversionBuffer.next^[amountOfData * pixelBytes outputFormat / buf.transferUnit] buf := by
  obtain ⟨positive, some_bytes, -⟩ := id sends
  rw [sendData_returns sends enough]
  -- the units in pixels, and the data in units
  obtain ⟨pixels, unit_eq⟩ := Nat.dvd_of_mod_eq_zero whole
  rw [Nat.mul_comm] at unit_eq
  have some_pixels : 0 < pixels := Nat.pos_of_ne_zero fun none => by
    rw [none] at unit_eq
    omega
  have parts : partsOf buf.transferUnit (pixelBytes outputFormat) = pixels := by
    rw [unit_eq, partsOf_mul pixels positive]
  obtain ⟨count, count_eq⟩ : pixels ∣ amountOfData := by
    rw [unit_eq] at units
    exact Nat.dvd_of_mul_dvd_mul_right positive (Nat.dvd_of_mod_eq_zero units)
  obtain rfl : amountOfData = count * pixels := by rw [count_eq, Nat.mul_comm]
  have moved : count * pixels * pixelBytes outputFormat / buf.transferUnit = count := by
    rw [unit_eq, Nat.mul_assoc, Nat.mul_div_cancel _ (Nat.mul_pos some_pixels positive)]
  rw [parts, partsOf_mul count some_pixels, moved]
  have state : ((sendStart getPointer memory buf (count * pixels)).units data outputFormat alpha
      count).memory = (grid pixels count).foldl (fun memory p =>
        blit memory (pixelAddress (getPointer buf.address) (buf.transferUnit + buf.gap)
          (pixelBytes outputFormat) p)
          (sentPixel data outputFormat alpha (p.2 * pixels + p.1))) memory := by
    unfold SendState.units sendStart pixelAddress
    simp only [parts, Nat.zero_add, ← unit_eq]
  have room : pixels * pixelBytes outputFormat ≤ buf.transferUnit + buf.gap := by omega
  obtain ⟨written, others⟩ := foldl_blit_grid
    (sentPixel data outputFormat alpha) (fun k => length_encodePixel _ _) some_pixels room
    state
  rw [← unit_eq] at written others
  exact returns_ok ⟨written, others, rfl⟩

end
end EmuThreeDS.Y2R
