import Mathlib.Algebra.GroupWithZero.Nat
import Mathlib.Tactic.Common

/-!
# Runs of the emulated kernel code

A source function is total here: it returns, or it reports how the emulator went
down. A failed `ASSERT` calls `Crash()` and `exit(1)`, so no state survives it; reading
through `end()` and the like are undefined and are kept apart from the assertions.
-/
namespace EmuThreeDS

/-- The function whose assertion stopped the emulator. -/
inductive Site where
  | canBeMergedWith | mapBackingMemory | mapBackingMemoryToBase | mapMMIO | unmap | unmapRange
  | reprotect | reprotectRange | carveVMA | carveVMARange | splitVMA | reset | memoryRef
  | regionLocked | regionFree | fcramPointer | fcramOffset | memoryInit
  | heapAllocate | heapFree | linearAllocate | processMap | sharedMemoryMap
  | createSharedMemory | createSharedMemoryForApplet | unwrap
  | getMaxSliceLength
  | objectUnavailable | waitingStatus | resumeWaiting | resumeCallback | switchContext
  | setPriority | wakeUp | waitObjectIndex | session | replyAndReceive | arbiter
  | mappedBuffer | rasterizerPointer | mapPages | markRegionCached | mappedPage
  | reconfigure | geometryBackend | drawIndexed | callStack | cachedPages | surface
  | metadataTable | romFS | flushRegion | registration
  | croRegister | croUnregister | croLink | memberLoop | handleEAPoL | nextAvailableNodeId
  | shaderDecompiler | cheatLoop | associationResponse
  | beginHosting | streamBuffer | movie | commandBuffer | gspThreads | gpuRight | exitProcess
  | pixelFormat | surfaceParams | copySurface | textureCodec | lightingLut
  | performConversion | receiveData | executeEmit | plugin3GX | beacon
  deriving DecidableEq

inductive Fault where
  | assertion (site : Site)
  | undefinedBehaviour
  | uncaughtException
  | outOfFuel
  deriving DecidableEq

/-- The lengths of fixed arrays whose elements have literal indices. -/
instance neZero_two : NeZero 2 := ⟨by decide⟩
instance neZero_three : NeZero 3 := ⟨by decide⟩
instance neZero_four : NeZero 4 := ⟨by decide⟩
instance neZero_eight : NeZero 8 := ⟨by decide⟩
instance neZero_sixteen : NeZero 16 := ⟨by decide⟩
instance neZero_thirtyTwo : NeZero 32 := ⟨by decide⟩
instance neZero_byteValues : NeZero 256 := ⟨by decide⟩
instance neZero_wordValues : NeZero 4294967296 := ⟨by decide⟩

abbrev Exec := Except Fault

/-- `ASSERT(p)` in the function named by `site`. -/
def assert (site : Site) (p : Prop) [Decidable p] : Exec Unit :=
  if p then .ok () else .error (.assertion site)

variable {site : Site} {p : Prop} {e : Fault} {a b : Nat}

@[simp] theorem assert_pos [Decidable p] (h : p) : assert site p = .ok () := if_pos h

theorem assert_eq_ok [Decidable p] {u : Unit} : assert site p = .ok u ↔ p := by
  unfold assert
  split <;> simp_all

@[simp] theorem ok_bind {α β : Type} (a : α) (f : α → Exec β) :
    (Except.ok a >>= f : Exec β) = f a := rfl

@[simp] theorem error_bind {α β : Type} (e : Fault) (f : α → Exec β) :
    (Except.error e >>= f : Exec β) = .error e := rfl

@[simp] theorem pure_eq_ok {α : Type} (a : α) : (pure a : Exec α) = .ok a := rfl

theorem bind_eq_ok {α β : Type} {x : Exec α} {f : α → Exec β} {b : β} :
    (x >>= f) = .ok b ↔ ∃ a, x = .ok a ∧ f a = .ok b := by
  cases x with
  | error e | ok a => simp

theorem bind_eq_error {α β : Type} {x : Exec α} {f : α → Exec β} :
    (x >>= f) = .error e ↔ x = .error e ∨ ∃ a, x = .ok a ∧ f a = .error e := by
  cases x with
  | error e | ok a => simp

theorem map_eq_ok {α β : Type} {f : α → β} {x : Exec α} {b : β} :
    f <$> x = .ok b ↔ ∃ a, x = .ok a ∧ f a = b := by
  cases x with
  | error e | ok a => simp

/-- The run returns. -/
def Answers {α : Type} (x : Exec α) : Prop := ∃ a, x = .ok a

theorem answers_ok {α : Type} (a : α) : Answers (.ok a) := ⟨a, rfl⟩

theorem not_answers_error {α : Type} (e : Fault) : ¬ Answers (.error e : Exec α) := nofun

theorem answers_bind {α β : Type} {x : Exec α} {f : α → Exec β} :
    Answers (x >>= f) ↔ ∃ a, x = .ok a ∧ Answers (f a) := by
  constructor
  · rintro ⟨b, run⟩
    obtain ⟨a, first, later⟩ := bind_eq_ok.mp run
    exact ⟨a, first, b, later⟩
  · rintro ⟨a, first, b, later⟩
    exact ⟨b, bind_eq_ok.mpr ⟨a, first, later⟩⟩

theorem answers_then {α β : Type} {x : Exec α} {f : α → Exec β}
    (later : ∀ a, x = .ok a → Answers (f a)) : Answers (x >>= f) ↔ Answers x := by
  rw [answers_bind]
  constructor
  · rintro ⟨a, first, _⟩
    exact ⟨a, first⟩
  · rintro ⟨a, first⟩
    exact ⟨a, first, later a first⟩

theorem answers_ite {α : Type} {c P Q : Prop} [Decidable c] {x y : Exec α}
    (yes : c → (Answers x ↔ P)) (no : ¬ c → (Answers y ↔ Q)) :
    Answers (if c then x else y) ↔ if c then P else Q := by
  split_ifs with h
  · exact yes h
  · exact no h

/-- The run does not stop at an assertion of `site`. -/
def Avoids {α : Type} (site : Site) (x : Exec α) : Prop := x ≠ .error (.assertion site)

@[simp] theorem avoids_ok {α : Type} (a : α) : Avoids site (.ok a) := nofun

@[simp] theorem avoids_error {α : Type} :
    Avoids site (.error e : Exec α) ↔ e ≠ .assertion site := by
  simp [Avoids]

@[simp] theorem avoids_assert [Decidable p] {other : Site} :
    Avoids site (assert other p) ↔ (other = site → p) := by
  unfold assert Avoids
  split_ifs with h <;> simp [h]

@[simp] theorem avoids_bind_iff {α β : Type} {x : Exec α} {f : α → Exec β} :
    Avoids site (x >>= f) ↔ Avoids site x ∧ ∀ a, x = .ok a → Avoids site (f a) := by
  cases x with
  | error e | ok a => simp [Avoids]

@[simp] theorem avoids_ite_iff {α : Type} [Decidable p] {x y : Exec α} :
    Avoids site (if p then x else y) ↔ (p → Avoids site x) ∧ (¬ p → Avoids site y) := by
  split_ifs with h <;> simp [h]

theorem avoids_bind {α β : Type} {x : Exec α} {f : α → Exec β} (first : Avoids site x)
    (later : ∀ a, x = .ok a → Avoids site (f a)) : Avoids site (x >>= f) :=
  avoids_bind_iff.mpr ⟨first, later⟩

theorem avoids_ite {α : Type} [Decidable p] {x y : Exec α}
    (yes : p → Avoids site x) (no : ¬ p → Avoids site y) : Avoids site (if p then x else y) :=
  avoids_ite_iff.mpr ⟨yes, no⟩

/-- The run stops at no fault of `bad`, and what it returns satisfies `Q`. -/
def Meets {α : Type} (bad : Fault → Prop) (x : Exec α) (Q : α → Prop) : Prop :=
  match x with
  | .ok a => Q a
  | .error e => ¬ bad e

section

variable {α β : Type} {bad : Fault → Prop} {x : Exec α} {P Q : α → Prop} {R : β → Prop}

theorem meets_ok {a : α} (h : Q a) : Meets bad (.ok a) Q := h

theorem meets_error (h : ¬ bad e) : Meets bad (.error e) Q := h

theorem meets_bind {f : α → Exec β} (first : Meets bad x P)
    (later : ∀ a, P a → Meets bad (f a) R) : Meets bad (x >>= f) R := by
  cases x with
  | error e => exact first
  | ok a => exact later a first

theorem Meets.mono (h : Meets bad x P) (imp : ∀ a, P a → Q a) : Meets bad x Q := by
  cases x with
  | error e => exact h
  | ok a => exact imp a h

theorem Meets.fewer {fewer : Fault → Prop} (h : Meets bad x Q)
    (less : ∀ fault, fewer fault → bad fault) : Meets fewer x Q := by
  cases x with
  | error fault => exact fun isBad => h (less fault isBad)
  | ok a => exact h

theorem meets_assert [Decidable p] {f : Unit → Exec β}
    (holds : bad (.assertion site) → p) (later : p → Meets bad (f ()) R) :
    Meets bad (assert site p >>= f) R := by
  unfold assert
  split_ifs with h
  · exact later h
  · exact fun isBad => h (holds isBad)

theorem meets_ite [Decidable p] {y : Exec α} (yes : p → Meets bad x Q)
    (no : ¬ p → Meets bad y Q) : Meets bad (if p then x else y) Q := by
  split_ifs with h
  · exact yes h
  · exact no h

theorem Meets.ok {a : α} (h : Meets bad x Q) (run : x = .ok a) : Q a := by
  subst run
  exact h

theorem Meets.error (h : Meets bad x Q) (run : x = .error e) : ¬ bad e := by
  subst run
  exact h

theorem Meets.returns (h : Meets (fun _ => True) x Q) : ∃ a, x = .ok a ∧ Q a := by
  cases x with
  | error e => exact (h trivial).elim
  | ok a => exact ⟨a, rfl, h⟩

theorem meets_mapM {f : α → Exec β} {xs : List α} (each : ∀ a ∈ xs, Meets bad (f a) R) :
    Meets bad (xs.mapM f) fun ys => ∀ y ∈ ys, R y := by
  induction xs with
  | nil => exact meets_ok nofun
  | cons a xs ih =>
    rw [List.mapM_cons]
    apply meets_bind (each a (List.mem_cons_self ..))
    intro y holds
    apply meets_bind (ih fun b member => each b (List.mem_cons_of_mem _ member))
    intro ys rest
    exact meets_ok (List.forall_mem_cons.mpr ⟨holds, rest⟩)

theorem meets_foldlM {f : β → α → Exec β} {b : β} {xs : List α} (init : R b)
    (keep : ∀ b, R b → ∀ a ∈ xs, Meets bad (f b a) R) : Meets bad (xs.foldlM f b) R := by
  induction xs generalizing b with
  | nil => exact meets_ok init
  | cons a xs ih =>
    apply meets_bind (keep b init a (List.mem_cons_self ..))
    intro b' holds
    exact ih holds fun c h d member => keep c h d (List.mem_cons_of_mem _ member)

theorem meets_of_ok (h : ∀ a, x = .ok a → Q a) : Meets (fun _ => False) x Q := by
  cases x with
  | error e => exact id
  | ok a => exact h a rfl

end

/-- Unsigned 32-bit arithmetic on values below 2^32. -/
def add32 (a b : Nat) : Nat := (a + b) % 0x100000000

def sub32 (a b : Nat) : Nat := (a + 0x100000000 - b) % 0x100000000

def mul32 (a b : Nat) : Nat := a * b % 0x100000000

theorem add32_eq (h : a + b < 0x100000000) : add32 a b = a + b :=
  Nat.mod_eq_of_lt h

theorem sub32_eq (h : b ≤ a) (ha : a < 0x100000000) : sub32 a b = a - b := by
  unfold sub32
  omega

theorem add32_cases (ha : a < 0x100000000) (hb : b < 0x100000000) :
    add32 a b = a + b ∧ a + b < 0x100000000 ∨ add32 a b < a ∧ add32 a b < b := by
  unfold add32
  omega

theorem add32_lt (a b : Nat) : add32 a b < 0x100000000 := Nat.mod_lt _ (by decide)

end EmuThreeDS
