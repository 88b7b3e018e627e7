import EmuThreeDS.Video.PrimitiveBuffers

/-!
# The vertex cache of a draw

The loop of `trigger_draw` and `trigger_draw_indexed` with its circular cache of 32 vertices. The
memory and the registers stay as they are during the loop; the debugger's calls are left out.
What a vertex's attributes hold in memory and the vertex shader's program are parameters.
-/
namespace EmuThreeDS.Pica

abbrev vertexCacheSize : Nat := 32

structure VertexCache (α : Type) where
  valid : Fin vertexCacheSize → Bool
  ids : Fin vertexCacheSize → Fin 0x10000
  outputs : Fin vertexCacheSize → AttributeBuffer α
  pos : Fin vertexCacheSize

/-- `VertexLoader` after its setup; `fetch` reads an attribute of a vertex out of its array. -/
structure VertexLoader (α : Type) where
  numTotalAttributes : Nat
  elements : Fin 16 → Nat
  isDefault : Fin 16 → Bool
  inputDefaultAttributes : AttributeBuffer α
  fetch : Fin 16 → Fin 0x100000000 → α

structure DrawSetup (α : Type) where
  loader : VertexLoader α
  outputMask : Nat
  indexU16 : Bool
  /-- The bytes from the index array on. -/
  indexArray : Nat → Fin 0x100
  vertexOffset : Fin 0x100000000

/-- The vertex shader unit `U`: `LoadInput` and `Run`, with `registers.output` afterwards. -/
abbrev VertexShader (U α : Type) := U → AttributeBuffer α → U × AttributeBuffer α

variable {α U : Type}

namespace VertexLoader

variable (loader : VertexLoader α)

def Loads (i : Fin 16) : Prop :=
  i < loader.numTotalAttributes ∧ (loader.elements i ≠ 0 ∨ loader.isDefault i = true)

/-- The buffer is not initialised; an attribute without an array and a default stays as it is. -/
def loadVertex (vertex : Fin 0x100000000) (input : AttributeBuffer α) : AttributeBuffer α :=
  fun i =>
    if loader.numTotalAttributes ≤ i then input i
    else if loader.elements i ≠ 0 then loader.fetch i vertex
    else if loader.isDefault i then loader.inputDefaultAttributes i
    else input i

end VertexLoader

/-- The loop of `CopyRegistersToOutput` over the registers of the mask. -/
def copyRegisters (registers : AttributeBuffer α) :
    List (Fin 16) → Nat → AttributeBuffer α → AttributeBuffer α
  | [], _, buffer => buffer
  | reg :: rest, outputI, buffer =>
    copyRegisters registers rest (outputI + 1)
      (fun i => if i.val = outputI then registers reg else buffer i)

def writeOutput (mask : Nat) (registers buffer : AttributeBuffer α) : AttributeBuffer α :=
  copyRegisters registers ((List.finRange 16).filter fun reg => mask.testBit reg) 0 buffer

namespace VertexCache

variable (cache : VertexCache α)

def lookup (vertex : Fin 0x100000000) : Option (AttributeBuffer α) :=
  ((List.finRange vertexCacheSize).find? fun i =>
    cache.valid i && vertex.val == (cache.ids i).val).map cache.outputs

def insert (vertex : Fin 0x100000000) (output : AttributeBuffer α) : VertexCache α where
  valid := Function.update cache.valid cache.pos true
  ids := Function.update cache.ids cache.pos (Fin.ofNat _ vertex)
  outputs := Function.update cache.outputs cache.pos output
  pos := cache.pos + 1

end VertexCache

structure DrawState (U α : Type) where
  cache : VertexCache α
  vsOutput : AttributeBuffer α
  shaderUnit : U

inductive Submission (α : Type) where
  | index (val : Fin 0x100000000)
  | vertex (output : AttributeBuffer α)

section

variable (setup : DrawSetup α) (shader : VertexShader U α) (isIndexed : Bool)

def DrawSetup.vertexAt (index : Nat) : Fin 0x100000000 :=
  if isIndexed then
    if setup.indexU16 then
      Fin.ofNat _ ((setup.indexArray (2 * index)).val + 256 * (setup.indexArray (2 * index + 1)).val)
    else Fin.ofNat _ (setup.indexArray index).val
  else Fin.ofNat _ (index + setup.vertexOffset)

/-- Loading and shading of a vertex; `input` is what the buffer on the stack holds before. -/
def shadeVertex (s : DrawState U α) (vertex : Fin 0x100000000) (input : AttributeBuffer α) :
    DrawState U α :=
  let (unit, registers) := shader s.shaderUnit (setup.loader.loadVertex vertex input)
  { s with
    vsOutput := writeOutput setup.outputMask registers s.vsOutput
    shaderUnit := unit }

def cachedVertex (needIndex : Bool) (s : DrawState U α) (vertex : Fin 0x100000000)
    (input : AttributeBuffer α) : Submission α × DrawState U α :=
  if isIndexed && needIndex then (.index vertex, s)
  else
    match if isIndexed then s.cache.lookup vertex else none with
    | some output => (.vertex output, { s with vsOutput := output })
    | none =>
      let s := shadeVertex setup shader s vertex input
      let s := if isIndexed then { s with cache := s.cache.insert vertex s.vsOutput } else s
      (.vertex s.vsOutput, s)

variable (regs : Regs) (engine : Engine α)

def Pipeline.submit (p : Pipeline α) : Submission α → Exec (Pipeline α)
  | .index val => do return (← p.submitIndex regs engine val).1
  | .vertex output => do return (← p.submitVertex regs engine output).1

/-- The loop from `index` on: what is submitted, and the pipeline it leaves if no assertion
fails. `stack` is what the input buffer holds in each iteration. -/
def vertexLoop (stack : Nat → AttributeBuffer α) :
    Nat → Nat → Pipeline α → DrawState U α → List (Submission α) × Exec (Pipeline α)
  | 0, _, p, _ => ([], .ok p)
  | left + 1, index, p, s =>
    let (submission, s) := cachedVertex setup shader isIndexed p.needIndexInput s
      (setup.vertexAt isIndexed index) (stack index)
    match p.submit regs engine submission with
    | .error e => ([submission], .error e)
    | .ok p =>
      let (later, result) := vertexLoop stack left (index + 1) p s
      (submission :: later, result)

end

/-- The locals before the loop: no entry is valid, and the arrays are not initialised. -/
def DrawState.start (ids : Fin vertexCacheSize → Fin 0x10000)
    (outputs : Fin vertexCacheSize → AttributeBuffer α) (vsOutput : AttributeBuffer α)
    (shaderUnit : U) : DrawState U α :=
  ⟨⟨fun _ => false, ids, outputs, 0⟩, vsOutput, shaderUnit⟩

section

variable (setup : DrawSetup α) (shader : VertexShader U α)

/-- What a vertex shader puts out depends on nothing but the attributes that are loaded. -/
def OnlyLoaded : Prop :=
  ∀ unit unit' input input', (∀ i, setup.loader.Loads i → input i = input' i) →
    ∀ buffer, writeOutput setup.outputMask (shader unit input).2 buffer =
      writeOutput setup.outputMask (shader unit' input').2 buffer

theorem loadVertex_agree (loader : VertexLoader α) (vertex : Fin 0x100000000)
    (input input' : AttributeBuffer α) (i : Fin 16) (loads : loader.Loads i) :
    loader.loadVertex vertex input i = loader.loadVertex vertex input' i := by
  obtain ⟨inside, array | default⟩ := loads
  · simp only [VertexLoader.loadVertex, if_neg (Nat.not_le.mpr inside), if_pos array]
  · simp only [VertexLoader.loadVertex, if_neg (Nat.not_le.mpr inside), default, if_true]

section

variable (registers : AttributeBuffer α) (list : List (Fin 16)) (k : Nat)

theorem copyRegisters_again (buffer buffer' : AttributeBuffer α)
    (same : ∀ i, i.val < k ∨ k + list.length ≤ i.val → buffer i = buffer' i) :
    copyRegisters registers list k buffer = copyRegisters registers list k buffer' := by
  induction list generalizing k buffer buffer' with
  | nil =>
    funext i
    exact same i (Nat.lt_or_ge i.val k)
  | cons reg rest ih =>
    apply ih
    intro i outside
    split_ifs with here
    · rfl
    · apply same
      rw [List.length_cons]
      omega

theorem copyRegisters_other (buffer : AttributeBuffer α) (i : Fin 16)
    (h : i.val < k ∨ k + list.length ≤ i.val) :
    copyRegisters registers list k buffer i = buffer i := by
  induction list generalizing k buffer with
  | nil => rfl
  | cons reg rest ih =>
    rw [List.length_cons] at h
    rw [copyRegisters, ih (k + 1) _ (by omega), if_neg (by omega)]

end

theorem writeOutput_again (mask : Nat) (registers registers' buffer : AttributeBuffer α) :
    writeOutput mask registers (writeOutput mask registers' buffer) =
      writeOutput mask registers buffer := by
  apply copyRegisters_again registers
  intro i outside
  exact copyRegisters_other registers' _ 0 buffer i outside

end

section

variable {setup : DrawSetup α} {shader : VertexShader U α}

/-- `vsOutput` differs from `first` at most in what every vertex writes. -/
def Tail (setup : DrawSetup α) (first buffer : AttributeBuffer α) : Prop :=
  ∀ registers, writeOutput setup.outputMask registers buffer =
    writeOutput setup.outputMask registers first

variable {first output : AttributeBuffer α} {s t : DrawState U α} {vertex : Fin 0x100000000}

theorem tail_write {buffer : AttributeBuffer α} (tail : Tail setup first buffer)
    (registers : AttributeBuffer α) :
    Tail setup first (writeOutput setup.outputMask registers buffer) := by
  intro registers'
  rw [writeOutput_again, tail]

/-- `output` is what loading and shading `vertex` afresh puts out. -/
def Shades (setup : DrawSetup α) (shader : VertexShader U α) (first : AttributeBuffer α)
    (vertex : Fin 0x100000000) (output : AttributeBuffer α) : Prop :=
  ∀ unit input, output =
    writeOutput setup.outputMask (shader unit (setup.loader.loadVertex vertex input)).2 first

theorem shadeVertex_shades (only : OnlyLoaded setup shader) (tail : Tail setup first s.vsOutput)
    (vertex : Fin 0x100000000) (input : AttributeBuffer α) :
    Shades setup shader first vertex (shadeVertex setup shader s vertex input).vsOutput := by
  intro unit input'
  exact (tail _).trans
    (only _ _ _ _ (loadVertex_agree setup.loader vertex input input') first)

theorem Shades.unique {output' : AttributeBuffer α} (unit : U)
    (h : Shades setup shader first vertex output)
    (h' : Shades setup shader first vertex output') : output = output' :=
  (h unit first).trans (h' unit first).symm

theorem Shades.tail (unit : U) (h : Shades setup shader first vertex output) :
    Tail setup first output := by
  rw [h unit first]
  exact tail_write (fun _ => rfl) _

def Cached (setup : DrawSetup α) (shader : VertexShader U α) (first : AttributeBuffer α)
    (cache : VertexCache α) : Prop :=
  ∀ i, cache.valid i = true → ∀ vertex : Fin 0x100000000, vertex.val = (cache.ids i).val →
    Shades setup shader first vertex (cache.outputs i)

theorem Cached.lookup {cache : VertexCache α}
    (h : Cached setup shader first cache) (hit : cache.lookup vertex = some output) :
    Shades setup shader first vertex output := by
  obtain ⟨i, found, rfl⟩ := Option.map_eq_some_iff.mp hit
  have fits := List.find?_some found
  rw [Bool.and_eq_true, beq_iff_eq] at fits
  exact h i fits.1 vertex fits.2

theorem Cached.insert {cache : VertexCache α} (h : Cached setup shader first cache)
    (narrow : vertex.val < 0x10000) (shades : Shades setup shader first vertex output) :
    Cached setup shader first (cache.insert vertex output) := by
  intro i valid other same
  by_cases here : i = cache.pos
  · subst here
    simp only [VertexCache.insert, Function.update_self] at same ⊢
    have eq : other = vertex := by
      apply Fin.ext
      rw [same, Fin.val_ofNat, Nat.mod_eq_of_lt narrow]
    exact eq ▸ shades
  · simp only [VertexCache.insert, Function.update_of_ne here] at valid same ⊢
    exact h i valid other same

theorem vertexAt_narrow (setup : DrawSetup α) (index : Nat) :
    (setup.vertexAt true index).val < 0x10000 := by
  simp only [DrawSetup.vertexAt, if_true]
  split_ifs <;> rw [Fin.val_ofNat] <;> omega

structure CacheInv (setup : DrawSetup α) (shader : VertexShader U α) (first : AttributeBuffer α)
    (s : DrawState U α) : Prop where
  cached : Cached setup shader first s.cache
  tail : Tail setup first s.vsOutput

/-- What is to be submitted for a vertex that puts out `output`. -/
def submission (isIndexed needIndex : Bool) (vertex : Fin 0x100000000)
    (output : AttributeBuffer α) : Submission α :=
  if isIndexed && needIndex then .index vertex else .vertex output

theorem cachedVertex_submits (isIndexed : Bool) (only : OnlyLoaded setup shader)
    (inv : CacheInv setup shader first s) (needIndex : Bool) (index : Nat)
    (input : AttributeBuffer α) (shades : Shades setup shader first
      (setup.vertexAt isIndexed index) output) :
    (cachedVertex setup shader isIndexed needIndex s (setup.vertexAt isIndexed index) input).1 =
        submission isIndexed needIndex (setup.vertexAt isIndexed index) output ∧
      CacheInv setup shader first
        (cachedVertex setup shader isIndexed needIndex s (setup.vertexAt isIndexed index)
          input).2 := by
  generalize at_ : setup.vertexAt isIndexed index = vertex at shades
  have shaded := shadeVertex_shades only inv.tail vertex input
  unfold cachedVertex submission
  by_cases needs : (isIndexed && needIndex) = true
  · simp only [needs, if_true]
    exact ⟨trivial, inv⟩
  · simp only [needs, Bool.false_eq_true, if_false]
    cases hit : if isIndexed = true then s.cache.lookup vertex else none with
    | some held =>
      have holds : Shades setup shader first vertex held := by
        cases isIndexed with
        | true => exact inv.cached.lookup hit
        | false => cases hit
      exact ⟨congrArg _ (holds.unique s.shaderUnit shades), inv.cached,
        holds.tail s.shaderUnit⟩
    | none =>
      have same := shaded.unique s.shaderUnit shades
      cases isIndexed with
      | false => exact ⟨congrArg _ same, inv.cached, shaded.tail s.shaderUnit⟩
      | true =>
        have narrow := at_ ▸ vertexAt_narrow setup index
        exact ⟨congrArg _ same, inv.cached.insert narrow shaded, shaded.tail s.shaderUnit⟩

section

variable (regs : Regs) (engine : Engine α) (isIndexed : Bool)

/-- Each vertex of a list is submitted in its turn, with what `output` says it puts out, until an
assertion of the pipeline fails. -/
def submitEach (output : Fin 0x100000000 → AttributeBuffer α) :
    List (Fin 0x100000000) → Pipeline α → List (Submission α) × Exec (Pipeline α)
  | [], p => ([], .ok p)
  | vertex :: rest, p =>
    let here := submission isIndexed p.needIndexInput vertex (output vertex)
    match p.submit regs engine here with
    | .error e => ([here], .error e)
    | .ok p =>
      let (later, result) := submitEach output rest p
      (here :: later, result)

/-- The output of a vertex that is loaded and shaded with the unit and the input buffer given. -/
def shadeAfresh (setup : DrawSetup α) (shader : VertexShader U α) (unit : U)
    (input first : AttributeBuffer α) (vertex : Fin 0x100000000) : AttributeBuffer α :=
  writeOutput setup.outputMask (shader unit (setup.loader.loadVertex vertex input)).2 first

theorem shadeAfresh_shades (only : OnlyLoaded setup shader) (unit : U)
    (input first : AttributeBuffer α) (vertex : Fin 0x100000000) :
    Shades setup shader first vertex (shadeAfresh setup shader unit input first vertex) :=
  fun _ input' => only _ _ _ _ (loadVertex_agree setup.loader vertex input input') first

theorem vertexLoop_submits (only : OnlyLoaded setup shader) (unit : U)
    (input : AttributeBuffer α) (stack : Nat → AttributeBuffer α) (left index : Nat)
    (p : Pipeline α) (inv : CacheInv setup shader first s) :
    vertexLoop setup shader isIndexed regs engine stack left index p s =
      submitEach regs engine isIndexed (shadeAfresh setup shader unit input first)
        ((List.range' index left).map (setup.vertexAt isIndexed)) p := by
  induction left generalizing index p s with
  | zero => rfl
  | succ left ih =>
    obtain ⟨same, next⟩ := cachedVertex_submits isIndexed only inv p.needIndexInput index
      (stack index) (shadeAfresh_shades only unit input first _)
    rw [List.range'_succ, List.map_cons]
    unfold vertexLoop submitEach
    dsimp only
    rw [same]
    split
    · rfl
    · rw [ih (index + 1) _ next]

end

end

/-- A draw submits every vertex in its turn, as loading and shading it afresh puts it out. -/
theorem vertexCache_transparent (setup : DrawSetup α) (shader : VertexShader U α) (regs : Regs)
    (engine : Engine α) (only : OnlyLoaded setup shader) (isIndexed : Bool)
    (numVertices : Fin 0x100000000) (p : Pipeline α) (ids : Fin vertexCacheSize → Fin 0x10000)
    (outputs : Fin vertexCacheSize → AttributeBuffer α) (vsOutput : AttributeBuffer α)
    (shaderUnit : U) (stack : Nat → AttributeBuffer α) (unit : U) (input : AttributeBuffer α) :
    vertexLoop setup shader isIndexed regs engine stack numVertices 0 p
        (.start ids outputs vsOutput shaderUnit) =
      submitEach regs engine isIndexed (shadeAfresh setup shader unit input vsOutput)
        ((List.range numVertices).map (setup.vertexAt isIndexed)) p := by
  rw [List.range_eq_range']
  exact vertexLoop_submits regs engine isIndexed only unit input stack numVertices 0 p
    ⟨nofun, fun _ => rfl⟩

/-- A loader of one attribute, which holds the number of the vertex. -/
def numbered : DrawSetup Nat where
  loader := ⟨1, fun _ => 1, fun _ => false, fun _ => 0, fun _ vertex => vertex⟩
  outputMask := 1
  indexU16 := false
  indexArray := fun index => Fin.ofNat _ (index / 2)
  vertexOffset := 0

theorem numbered_onlyLoaded : OnlyLoaded numbered fun (_ : Unit) input => ((), input) := by
  intro _ _ input input' same buffer
  have first : input 0 = input' 0 := same 0 ⟨by decide, .inl (by decide)⟩
  have registers : (List.finRange 16).filter (fun reg => (1 : Nat).testBit reg.val) = [0] := by
    decide
  simp only [writeOutput, numbered, registers, copyRegisters, first]

/-- Vertices 0 to 3, each of them twice. -/
theorem vertexCache_transparent_numbered :
    vertexLoop numbered (fun (_ : Unit) input => ((), input)) true farPrimitive idleEngine
        (fun _ _ => 7) (8 : Fin 0x100000000) 0 emptyPipeline
        (.start (fun _ => 0) (fun _ _ => 0) (fun _ => 0) ()) =
      submitEach farPrimitive idleEngine true (fun vertex i => if i.val = 0 then vertex.val else 0)
        [0, 0, 1, 1, 2, 2, 3, 3] emptyPipeline := by
  refine (vertexCache_transparent numbered _ farPrimitive idleEngine numbered_onlyLoaded true 8
    emptyPipeline _ _ _ _ _ () fun _ => 0).trans ?_
  have same : shadeAfresh numbered (fun (_ : Unit) input => ((), input)) () (fun _ => 0)
      (fun _ => 0) = fun vertex i => if i.val = 0 then vertex.val else 0 := by
    funext vertex i
    rfl
  rw [same]
  rfl

end EmuThreeDS.Pica
