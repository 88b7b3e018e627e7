import EmuThreeDS.Exec
import Mathlib.Data.List.Basic

/-!
# Primitive assembly

`primitive_assembly.cpp`. A write behind the end of the two buffered vertices is undefined. The
log of an unknown topology is left out: the register field has four values.
-/
namespace EmuThreeDS.Pica

inductive TriangleTopology where
  | list | strip | fan | shader
  deriving DecidableEq

structure Triangle (V : Type) where
  v0 : V
  v1 : V
  v2 : V

structure PrimitiveAssembler (V : Type) where
  topology : TriangleTopology
  bufferIndex : Nat
  buffer : Fin 2 → V
  stripReady : Bool
  winding : Bool

namespace PrimitiveAssembler

variable {V : Type}

/-- `buffer[buffer_index] = vtx`. -/
def store (p : PrimitiveAssembler V) (vtx : V) : Exec (PrimitiveAssembler V) :=
  if h : p.bufferIndex < 2 then
    .ok { p with buffer := Function.update p.buffer ⟨p.bufferIndex, h⟩ vtx }
  else .error .undefinedBehaviour

def submitVertex (p : PrimitiveAssembler V) (vtx : V) :
    Exec (PrimitiveAssembler V × List (Triangle V)) :=
  match p.topology with
  | .list | .shader =>
    if p.bufferIndex < 2 then do
      let p ← p.store vtx
      return ({ p with bufferIndex := p.bufferIndex + 1 }, [])
    else
      let p := { p with bufferIndex := 0 }
      if p.topology = .shader ∧ p.winding = true then
        return ({ p with winding := false }, [⟨p.buffer 1, p.buffer 0, vtx⟩])
      else return (p, [⟨p.buffer 0, p.buffer 1, vtx⟩])
  | .strip | .fan => do
    let triangles := if p.stripReady then [⟨p.buffer 0, p.buffer 1, vtx⟩] else []
    let p ← p.store vtx
    let p := { p with stripReady := p.stripReady || p.bufferIndex == 1 }
    if p.topology = .strip then
      return ({ p with bufferIndex := if p.bufferIndex = 0 then 1 else 0 }, triangles)
    else return ({ p with bufferIndex := 1 }, triangles)

def setWinding (p : PrimitiveAssembler V) : PrimitiveAssembler V := { p with winding := true }

def reset (p : PrimitiveAssembler V) : PrimitiveAssembler V :=
  { p with bufferIndex := 0, stripReady := false, winding := false }

def reconfigure (p : PrimitiveAssembler V) (topology : TriangleTopology) : PrimitiveAssembler V :=
  { p.reset with topology }

def isEmpty (p : PrimitiveAssembler V) : Bool := p.bufferIndex == 0 && p.stripReady == false

/-- A restart: `Reconfigure` with a topology, or `Reset`. -/
def restart (p : PrimitiveAssembler V) : Option TriangleTopology → PrimitiveAssembler V
  | some topology => p.reconfigure topology
  | none => p.reset

/-- The calls between two restarts. -/
inductive Feed (V : Type) where
  | submitVertex (vtx : V)
  | setWinding

def feed (p : PrimitiveAssembler V) : Feed V → Exec (PrimitiveAssembler V × List (Triangle V))
  | .submitVertex vtx => p.submitVertex vtx
  | .setWinding => .ok (p.setWinding, [])

def feedAll (p : PrimitiveAssembler V) :
    List (Feed V) → Exec (PrimitiveAssembler V × List (Triangle V))
  | [] => .ok (p, [])
  | call :: rest => do
    let (p, first) ← p.feed call
    let (p, later) ← p.feedAll rest
    return (p, first ++ later)

/-- What was called since the last restart. -/
structure History (V : Type) where
  vertices : List V
  /-- The vertices there were at each `SetWinding`. -/
  windings : List Nat

namespace History

def empty : History V := ⟨[], []⟩

def note (h : History V) : Feed V → History V
  | .submitVertex vtx => { h with vertices := h.vertices ++ [vtx] }
  | .setWinding => { h with windings := h.windings ++ [h.vertices.length] }

/-- The triangle that is swapped has a call of `SetWinding` between its predecessor's last vertex
and its own. -/
def Wound (h : History V) (i : Nat) : Prop := ∃ m ∈ h.windings, m / 3 = i

instance (h : History V) (i : Nat) : Decidable (h.Wound i) := by
  unfold Wound
  infer_instance

end History

/-- The numbers of the vertices of the triangle `i`. -/
def corners (topology : TriangleTopology) (i : Nat) : Triangle Nat :=
  match topology with
  | .list | .shader => ⟨3 * i, 3 * i + 1, 3 * i + 2⟩
  | .strip => if i % 2 = 0 then ⟨i, i + 1, i + 2⟩ else ⟨i + 1, i, i + 2⟩
  | .fan => ⟨0, i + 1, i + 2⟩

def completed (topology : TriangleTopology) (n : Nat) : Nat :=
  match topology with
  | .list | .shader => n / 3
  | .strip | .fan => n - 2

/-- The triangle `i`, if all of its vertices are there. -/
def History.triangle (topology : TriangleTopology) (h : History V) (i : Nat) :
    Option (Triangle V) := do
  let c := corners topology i
  let a ← h.vertices[c.v0]?
  let b ← h.vertices[c.v1]?
  let last ← h.vertices[c.v2]?
  if topology = .shader ∧ h.Wound i then some ⟨b, a, last⟩ else some ⟨a, b, last⟩

def History.triangles (topology : TriangleTopology) (h : History V) : List (Triangle V) :=
  (List.range (completed topology h.vertices.length)).filterMap (h.triangle topology)

def historyOf (calls : List (Feed V)) : History V := calls.foldl History.note History.empty

/-- No vertex of the triangle `i` is among the first `n`. -/
def AllNew (topology : TriangleTopology) (n i : Nat) : Prop :=
  n ≤ (corners topology i).v0 ∧ n ≤ (corners topology i).v1 ∧ n ≤ (corners topology i).v2

theorem corners_strip (i : Nat) : corners .strip i = ⟨i + i % 2, i + 1 - i % 2, i + 2⟩ := by
  unfold corners
  rcases Nat.mod_two_eq_zero_or_one i with even | odd
  · simp [even]
  · simp [odd]

variable {i n k : Nat} {j : Fin 2} {h : History V}

theorem corners_lt {topology : TriangleTopology} (h : i < completed topology n) :
    (corners topology i).v0 < n ∧ (corners topology i).v1 < n ∧ (corners topology i).v2 < n := by
  cases topology with
  | list | shader | fan =>
    simp only [completed, corners] at h ⊢
    omega
  | strip =>
    simp only [completed, corners_strip] at h ⊢
    omega

theorem getElem?_snoc_lt {vs : List V} {v : V} (h : k < vs.length) :
    (vs ++ [v])[k]? = vs[k]? := List.getElem?_append_left h

theorem triangle_snoc {topology : TriangleTopology} {vs : List V} {windings : List Nat} {v : V}
    (h : i < completed topology vs.length) : History.triangle topology ⟨vs ++ [v], windings⟩ i =
      History.triangle topology ⟨vs, windings⟩ i := by
  obtain ⟨first, second, third⟩ := corners_lt h
  unfold History.triangle
  dsimp only
  rw [getElem?_snoc_lt first, getElem?_snoc_lt second, getElem?_snoc_lt third]
  rfl

theorem triangle_wound {topology : TriangleTopology} {vs : List V} {windings : List Nat}
    (h : i < completed topology vs.length) :
    History.triangle topology ⟨vs, windings ++ [vs.length]⟩ i =
      History.triangle topology ⟨vs, windings⟩ i := by
  unfold History.triangle
  by_cases shader : topology = .shader
  · subst shader
    have other : vs.length / 3 ≠ i := by
      simp only [completed] at h
      omega
    have same : History.Wound ⟨vs, windings ++ [vs.length]⟩ i ↔ History.Wound ⟨vs, windings⟩ i := by
      simp [History.Wound, other]
    simp only [same]
  · simp [shader]

def indexAfter (topology : TriangleTopology) (n : Nat) : Nat :=
  match topology with
  | .list | .shader => n % 3
  | .strip => n % 2
  | .fan => min n 1

def readyAfter (topology : TriangleTopology) (n : Nat) : Bool :=
  match topology with
  | .list | .shader => false
  | .strip | .fan => decide (2 ≤ n)

/-- The assembler after a history. The two buffered vertices are the first ones of the next
triangle, in its order, as far as they are there. -/
structure Holds (topology : TriangleTopology) (h : History V) (p : PrimitiveAssembler V) :
    Prop where
  kind : p.topology = topology
  bufferIndex : p.bufferIndex = indexAfter topology h.vertices.length
  stripReady : p.stripReady = readyAfter topology h.vertices.length
  first : ∀ v, h.vertices[(corners topology (completed topology h.vertices.length)).v0]? = some v →
    p.buffer 0 = v
  second : ∀ v, h.vertices[(corners topology (completed topology h.vertices.length)).v1]? = some v →
    p.buffer 1 = v
  winding : topology = .shader → (p.winding = true ↔ h.Wound (h.vertices.length / 3))
  early : ∀ m ∈ h.windings, m ≤ h.vertices.length

theorem holds_reconfigure (p : PrimitiveAssembler V) (topology : TriangleTopology) :
    Holds topology History.empty (p.reconfigure topology) where
  kind := rfl
  bufferIndex := by cases topology <;> rfl
  stripReady := by cases topology <;> rfl
  first := nofun
  second := nofun
  winding := by simp [reconfigure, reset, History.empty, History.Wound]
  early := nofun

theorem holds_restart (p : PrimitiveAssembler V) (r : Option TriangleTopology) :
    Holds (p.restart r).topology History.empty (p.restart r) := by
  cases r with
  | none => exact holds_reconfigure p p.topology
  | some topology => exact holds_reconfigure p topology

theorem store_eq {p : PrimitiveAssembler V} (h : p.bufferIndex < 2) (vtx : V) :
    p.store vtx = .ok { p with buffer := Function.update p.buffer ⟨p.bufferIndex, h⟩ vtx } :=
  dif_pos h

section

variable {topology : TriangleTopology} {vs : List V} {windings : List Nat}
  {p : PrimitiveAssembler V} {v : V}

theorem snoc_some {w : V} (h : (vs ++ [v])[k]? = some w) :
    k < vs.length ∧ vs[k]? = some w ∨ k = vs.length ∧ w = v := by
  rcases Nat.lt_trichotomy k vs.length with less | rfl | more
  · exact .inl ⟨less, (getElem?_snoc_lt less).symm.trans h⟩
  · rw [List.getElem?_concat_length] at h
    exact .inr ⟨rfl, (Option.some.inj h).symm⟩
  · rw [List.getElem?_eq_none (by rw [List.length_append]; exact more)] at h
    cases h

theorem triangles_same (h : completed topology (vs.length + 1) = completed topology vs.length) :
    History.triangles topology ⟨vs ++ [v], windings⟩ =
      History.triangles topology ⟨vs, windings⟩ := by
  unfold History.triangles
  simp only [List.length_append, List.length_singleton, h]
  apply List.filterMap_congr
  intro i member
  exact triangle_snoc (List.mem_range.mp member)

theorem triangles_next {t : Triangle V}
    (h : completed topology (vs.length + 1) = completed topology vs.length + 1)
    (last : History.triangle topology ⟨vs ++ [v], windings⟩ (completed topology vs.length) =
      some t) : History.triangles topology ⟨vs ++ [v], windings⟩ =
      History.triangles topology ⟨vs, windings⟩ ++ [t] := by
  unfold History.triangles
  simp only [List.length_append, List.length_singleton, h, List.range_succ, List.filterMap_append,
    List.filterMap_cons, last, List.filterMap_nil]
  congr 1
  apply List.filterMap_congr
  intro i member
  exact triangle_snoc (List.mem_range.mp member)

theorem triangle_last (h : Holds topology ⟨vs, windings⟩ p)
    (first : (corners topology (completed topology vs.length)).v0 < vs.length)
    (second : (corners topology (completed topology vs.length)).v1 < vs.length)
    (third : (corners topology (completed topology vs.length)).v2 = vs.length) :
    History.triangle topology ⟨vs ++ [v], windings⟩ (completed topology vs.length) =
      if topology = .shader ∧ History.Wound ⟨vs, windings⟩ (completed topology vs.length) then
        some ⟨p.buffer 1, p.buffer 0, v⟩ else some ⟨p.buffer 0, p.buffer 1, v⟩ := by
  have b0 := h.first (vs[(corners topology (completed topology vs.length)).v0])
    (List.getElem?_eq_getElem first)
  have b1 := h.second (vs[(corners topology (completed topology vs.length)).v1])
    (List.getElem?_eq_getElem second)
  unfold History.triangle
  dsimp only
  rw [getElem?_snoc_lt first, getElem?_snoc_lt second, third, List.getElem?_concat_length,
    List.getElem?_eq_getElem first, List.getElem?_eq_getElem second, ← b0, ← b1]
  rfl

theorem submit_early (either : p.topology = .list ∨ p.topology = .shader)
    (room : p.bufferIndex < 2) : p.submitVertex v = .ok
      ({ p with
        buffer := Function.update p.buffer ⟨p.bufferIndex, room⟩ v
        bufferIndex := p.bufferIndex + 1 }, []) := by
  unfold submitVertex
  rcases either with ht | ht <;>
    simp only [ht, room, if_true, store_eq room, ok_bind, pure_eq_ok]

theorem submit_last (either : p.topology = .list ∨ p.topology = .shader)
    (full : ¬ p.bufferIndex < 2) : p.submitVertex v = .ok
      (if p.topology = .shader ∧ p.winding = true then
        ({ p with bufferIndex := 0, winding := false }, [⟨p.buffer 1, p.buffer 0, v⟩])
      else ({ p with bufferIndex := 0 }, [⟨p.buffer 0, p.buffer 1, v⟩])) := by
  unfold submitVertex
  rcases either with ht | ht <;> simp only [ht, full, if_false, pure_eq_ok] <;> split_ifs <;> rfl

theorem submit_strip (ht : p.topology = .strip) (room : p.bufferIndex < 2) :
    p.submitVertex v = .ok
      ({ p with
        buffer := Function.update p.buffer ⟨p.bufferIndex, room⟩ v
        stripReady := p.stripReady || p.bufferIndex == 1
        bufferIndex := if p.bufferIndex = 0 then 1 else 0 },
      if p.stripReady then [⟨p.buffer 0, p.buffer 1, v⟩] else []) := by
  unfold submitVertex
  simp only [ht, store_eq room, ok_bind, pure_eq_ok, if_true]

theorem submit_fan (ht : p.topology = .fan) (room : p.bufferIndex < 2) :
    p.submitVertex v = .ok
      ({ p with
        buffer := Function.update p.buffer ⟨p.bufferIndex, room⟩ v
        stripReady := p.stripReady || p.bufferIndex == 1
        bufferIndex := 1 },
      if p.stripReady then [⟨p.buffer 0, p.buffer 1, v⟩] else []) := by
  unfold submitVertex
  simp only [ht, store_eq room, ok_bind, pure_eq_ok]
  rfl

def Follows (topology : TriangleTopology) (before after : History V)
    (r : PrimitiveAssembler V × List (Triangle V)) : Prop :=
  Holds topology after r.1 ∧
    History.triangles topology after = History.triangles topology before ++ r.2

theorem update_here (room : p.bufferIndex < 2) (h : p.bufferIndex = j) :
    Function.update p.buffer ⟨p.bufferIndex, room⟩ v j = v := by
  rw [show (⟨p.bufferIndex, room⟩ : Fin 2) = j from Fin.ext h, Function.update_self]

theorem update_other (room : p.bufferIndex < 2) (h : p.bufferIndex ≠ j) :
    Function.update p.buffer ⟨p.bufferIndex, room⟩ v j = p.buffer j :=
  Function.update_of_ne (fun eq => h (by rw [eq])) ..

theorem early_snoc (h : Holds topology ⟨vs, windings⟩ p) :
    ∀ m ∈ windings, m ≤ (vs ++ [v]).length := by
  intro m member
  have early : m ≤ vs.length := h.early m member
  rw [List.length_append]
  exact Nat.le_add_right_of_le early

theorem holds_between (either : topology = .list ∨ topology = .shader) (whole : vs.length % 3 = 0)
    (early : ∀ m ∈ windings, m < vs.length) (same : p.topology = topology)
    (index : p.bufferIndex = 0) (ready : p.stripReady = false)
    (winding : topology = .shader → p.winding = false) : Holds topology ⟨vs, windings⟩ p := by
  have none (k : Nat) (w : V) (late : vs.length ≤ k) : ¬ vs[k]? = some w := by
    rw [List.getElem?_eq_none late]
    exact nofun
  refine ⟨same, ?_, ?_, ?_, ?_, ?_, fun m member => Nat.le_of_lt (early m member)⟩
  · rcases either with rfl | rfl <;> exact index.trans whole.symm
  · rcases either with rfl | rfl <;> exact ready
  · intro w found
    refine absurd found (none _ _ ?_)
    rcases either with rfl | rfl <;> simp only [corners, completed] <;> omega
  · intro w found
    refine absurd found (none _ _ ?_)
    rcases either with rfl | rfl <;> simp only [corners, completed] <;> omega
  · intro shader
    rw [winding shader]
    constructor
    · exact nofun
    · rintro ⟨m, member, eq⟩
      have before := early m member
      dsimp only at eq
      omega

theorem list_follows (either : topology = .list ∨ topology = .shader)
    (h : Holds topology ⟨vs, windings⟩ p) : ∃ r, p.submitVertex v = .ok r ∧
      Follows topology ⟨vs, windings⟩ ⟨vs ++ [v], windings⟩ r := by
  have hc : ∀ i, corners topology i = ⟨3 * i, 3 * i + 1, 3 * i + 2⟩ := by
    rcases either with rfl | rfl <;> exact fun i => rfl
  have hn : ∀ n, completed topology n = n / 3 := by
    rcases either with rfl | rfl <;> exact fun n => rfl
  have index : p.bufferIndex = vs.length % 3 := by
    rcases either with rfl | rfl <;> exact h.bufferIndex
  have ready : p.stripReady = false := by
    rcases either with rfl | rfl <;> exact h.stripReady
  have kind : p.topology = .list ∨ p.topology = .shader := h.kind ▸ either
  have len : (vs ++ [v]).length = vs.length + 1 := by simp
  have h1 := h.first
  have h2 := h.second
  simp only [hn, hc] at h1 h2
  by_cases room : p.bufferIndex < 2
  · have same : (vs.length + 1) / 3 = vs.length / 3 := by omega
    refine ⟨_, submit_early kind room, ⟨h.kind, ?_, ?_, ?_, ?_, ?_, early_snoc h⟩, ?_⟩
    · rcases either with rfl | rfl <;> simp only [len, index, indexAfter] <;> omega
    · rcases either with rfl | rfl <;> exact ready
    · intro w found
      simp only [len, hn, hc, same] at found
      rcases snoc_some found with ⟨before, old⟩ | ⟨here, rfl⟩
      · exact (update_other room (j := 0) (by omega)).trans (h1 w old)
      · exact update_here room (by omega)
    · intro w found
      simp only [len, hn, hc, same] at found
      rcases snoc_some found with ⟨before, old⟩ | ⟨here, rfl⟩
      · omega
      · exact update_here room (by omega)
    · intro shader
      simp only [len, same]
      exact h.winding shader
    · rw [List.append_nil]
      exact triangles_same (by simp only [hn, same])
  · have next : (vs.length + 1) / 3 = vs.length / 3 + 1 := by omega
    have last := triangle_last (v := v) h (by simp only [hn, hc]; omega)
      (by simp only [hn, hc]; omega) (by simp only [hn, hc]; omega)
    have grows (t : Triangle V) := @triangles_next V topology vs windings v t (by simp only [hn, next])
    rw [hn] at last grows
    have early : ∀ m ∈ windings, m < (vs ++ [v]).length := by
      intro m member
      rw [len]
      exact Nat.lt_succ_of_le (h.early m member)
    have whole : (vs ++ [v]).length % 3 = 0 := by omega
    refine ⟨_, submit_last kind room, ?_⟩
    rw [h.kind]
    by_cases wound : topology = .shader ∧ p.winding = true
    · have same : topology = .shader ∧ History.Wound ⟨vs, windings⟩ (vs.length / 3) :=
        ⟨wound.1, (h.winding wound.1).mp wound.2⟩
      rw [if_pos wound]
      exact ⟨holds_between either whole early rfl rfl ready fun _ => rfl,
        grows _ (last.trans (if_pos same))⟩
    · have same : ¬ (topology = .shader ∧ History.Wound ⟨vs, windings⟩ (vs.length / 3)) :=
        fun both => wound ⟨both.1, (h.winding both.1).mpr both.2⟩
      rw [if_neg wound]
      refine ⟨holds_between either whole early rfl rfl ready ?_,
        grows _ (last.trans (if_neg same))⟩
      intro shader
      exact Bool.eq_false_iff.mpr fun winding => wound ⟨shader, winding⟩

theorem strip_follows (h : Holds .strip ⟨vs, windings⟩ p) : ∃ r, p.submitVertex v = .ok r ∧
    Follows .strip ⟨vs, windings⟩ ⟨vs ++ [v], windings⟩ r := by
  have index : p.bufferIndex = vs.length % 2 := h.bufferIndex
  have ready : p.stripReady = decide (2 ≤ vs.length) := h.stripReady
  have room : p.bufferIndex < 2 := by omega
  have len : (vs ++ [v]).length = vs.length + 1 := by simp
  have h1 := h.first
  have h2 := h.second
  simp only [completed, corners_strip] at h1 h2
  refine ⟨_, submit_strip h.kind room, ⟨h.kind, ?_, ?_, ?_, ?_, nofun, early_snoc h⟩, ?_⟩
  · simp only [len, index, indexAfter]
    split_ifs <;> omega
  · simp only [len, index, ready, readyAfter]
    rw [Bool.eq_iff_iff]
    simp only [Bool.or_eq_true, decide_eq_true_eq, beq_iff_eq]
    omega
  · intro w found
    simp only [len, completed, corners_strip] at found
    rcases snoc_some found with ⟨before, old⟩ | ⟨here, rfl⟩
    · refine (update_other room (j := 0) (by omega)).trans (h1 w (old ▸ ?_))
      congr 1
      omega
    · exact update_here room (by omega)
  · intro w found
    simp only [len, completed, corners_strip] at found
    rcases snoc_some found with ⟨before, old⟩ | ⟨here, rfl⟩
    · refine (update_other room (j := 1) (by omega)).trans (h2 w (old ▸ ?_))
      congr 1
      omega
    · exact update_here room (by omega)
  · dsimp only
    by_cases two : 2 ≤ vs.length
    · rw [ready, if_pos (decide_eq_true two)]
      refine triangles_next (by simp only [completed]; omega) ((triangle_last h ?_ ?_ ?_).trans
        (if_neg nofun)) <;> simp only [completed, corners_strip] <;> omega
    · rw [ready, if_neg (by rw [decide_eq_true_eq]; exact two), List.append_nil]
      exact triangles_same (by simp only [completed]; omega)

theorem fan_follows (h : Holds .fan ⟨vs, windings⟩ p) : ∃ r, p.submitVertex v = .ok r ∧
    Follows .fan ⟨vs, windings⟩ ⟨vs ++ [v], windings⟩ r := by
  have index : p.bufferIndex = min vs.length 1 := h.bufferIndex
  have ready : p.stripReady = decide (2 ≤ vs.length) := h.stripReady
  have room : p.bufferIndex < 2 := by omega
  have len : (vs ++ [v]).length = vs.length + 1 := by simp
  have h1 := h.first
  refine ⟨_, submit_fan h.kind room, ⟨h.kind, ?_, ?_, ?_, ?_, nofun, early_snoc h⟩, ?_⟩
  · simp only [len, indexAfter]
    omega
  · simp only [len, index, ready, readyAfter]
    rw [Bool.eq_iff_iff]
    simp only [Bool.or_eq_true, decide_eq_true_eq, beq_iff_eq]
    omega
  · intro w found
    simp only [len, completed, corners] at found
    rcases snoc_some found with ⟨before, old⟩ | ⟨here, rfl⟩
    · exact (update_other room (j := 0) (by omega)).trans (h1 w old)
    · exact update_here room (by omega)
  · intro w found
    simp only [len, completed, corners] at found
    rcases snoc_some found with ⟨before, old⟩ | ⟨here, rfl⟩
    · omega
    · exact update_here room (by omega)
  · by_cases two : 2 ≤ vs.length
    · rw [ready, if_pos (decide_eq_true two)]
      refine triangles_next (by simp only [completed]; omega) ((triangle_last h ?_ ?_ ?_).trans
        (if_neg nofun)) <;> simp only [completed, corners] <;> omega
    · rw [ready, if_neg (by rw [decide_eq_true_eq]; exact two), List.append_nil]
      exact triangles_same (by simp only [completed]; omega)

theorem feed_follows (holds : Holds topology h p) (call : Feed V) :
    ∃ r, p.feed call = .ok r ∧ Follows topology h (h.note call) r := by
  cases call with
  | submitVertex v =>
    cases topology with
    | list => exact list_follows (.inl rfl) holds
    | strip => exact strip_follows holds
    | fan => exact fan_follows holds
    | shader => exact list_follows (.inr rfl) holds
  | setWinding =>
    refine ⟨_, rfl, ⟨holds.kind, holds.bufferIndex, holds.stripReady, holds.first,
      holds.second, ?_, ?_⟩, ?_⟩
    · simp [setWinding, History.note, History.Wound]
    · intro m member
      rcases List.mem_append.mp member with old | new
      · exact holds.early m old
      · exact Nat.le_of_eq (List.mem_singleton.mp new)
    · rw [List.append_nil]
      apply List.filterMap_congr
      intro i member
      exact triangle_wound (List.mem_range.mp member)

theorem feedAll_follows (holds : Holds topology h p) (calls : List (Feed V)) :
    ∃ r, p.feedAll calls = .ok r ∧ Follows topology h (calls.foldl History.note h) r := by
  induction calls generalizing h p with
  | nil => exact ⟨_, rfl, holds, (List.append_nil _).symm⟩
  | cons call rest ih =>
    obtain ⟨⟨q, first⟩, step, after, emitted⟩ := feed_follows holds call
    obtain ⟨⟨r, later⟩, run, final, all⟩ := ih after
    refine ⟨(r, first ++ later), ?_, final, ?_⟩
    · simp only [feedAll, step, run, ok_bind, pure_eq_ok]
    · rw [List.foldl_cons, all, emitted, List.append_assoc]

end

theorem filterMap_range {f : Nat → Option (Triangle V)} (all : ∀ i < n, (f i).isSome = true) :
    ((List.range n).filterMap f).length = n ∧ ∀ i < n, ((List.range n).filterMap f)[i]? = f i := by
  induction n with
  | zero => exact ⟨rfl, nofun⟩
  | succ n ih =>
    obtain ⟨length, each⟩ := ih fun i less => all i (Nat.lt_succ_of_lt less)
    obtain ⟨t, last⟩ := Option.isSome_iff_exists.mp (all n (Nat.lt_succ_self n))
    rw [List.range_succ, List.filterMap_append]
    simp only [List.filterMap_cons, last, List.filterMap_nil]
    refine ⟨by rw [List.length_append, length, List.length_singleton], ?_⟩
    intro i less
    rcases Nat.lt_succ_iff_lt_or_eq.mp less with before | rfl
    · rw [List.getElem?_append_left (by omega)]
      exact each i before
    · rw [List.getElem?_append_right (by omega), length, Nat.sub_self, last]
      rfl

theorem triangles_empty (topology : TriangleTopology) :
    (History.empty : History V).triangles topology = [] := by
  cases topology <;> simp [History.triangles, History.empty, completed]

theorem triangle_some {topology : TriangleTopology}
    (less : i < completed topology h.vertices.length) :
    ∃ a b c, h.vertices[(corners topology i).v0]? = some a ∧
      h.vertices[(corners topology i).v1]? = some b ∧
      h.vertices[(corners topology i).v2]? = some c ∧ h.triangle topology i =
        some (if topology = .shader ∧ h.Wound i then ⟨b, a, c⟩ else ⟨a, b, c⟩) := by
  obtain ⟨first, second, third⟩ := corners_lt less
  refine ⟨_, _, _, List.getElem?_eq_getElem first, List.getElem?_eq_getElem second,
    List.getElem?_eq_getElem third, ?_⟩
  unfold History.triangle
  dsimp only
  rw [List.getElem?_eq_getElem first, List.getElem?_eq_getElem second,
    List.getElem?_eq_getElem third]
  split_ifs <;> rfl

theorem isEmpty_iff {topology : TriangleTopology} {p : PrimitiveAssembler V}
    (holds : Holds topology h p) : p.isEmpty = true ↔
      AllNew topology h.vertices.length (completed topology h.vertices.length) := by
  have index := holds.bufferIndex
  have ready := holds.stripReady
  unfold isEmpty AllNew
  cases topology with
  | list | shader =>
    simp only [corners, completed, indexAfter, readyAfter] at index ready ⊢
    rw [ready, Bool.and_eq_true, beq_iff_eq]
    simp only [beq_self_eq_true, and_true]
    omega
  | strip =>
    simp only [corners_strip, completed, indexAfter, readyAfter] at index ready ⊢
    rw [ready, Bool.and_eq_true, beq_iff_eq, beq_iff_eq, decide_eq_false_iff_not]
    omega
  | fan =>
    simp only [corners, completed, indexAfter, readyAfter] at index ready ⊢
    rw [ready, Bool.and_eq_true, beq_iff_eq, beq_iff_eq, decide_eq_false_iff_not]
    omega

/-- After a restart the triangles are exactly those that the vertices submitted since then
complete, and the assembler is empty when the next one has none of them. -/
theorem assembles_exactly (p : PrimitiveAssembler V) (r : Option TriangleTopology)
    (calls : List (Feed V)) :
    ∃ q emitted, (p.restart r).feedAll calls = .ok (q, emitted) ∧
      emitted.length = completed (p.restart r).topology (historyOf calls).vertices.length ∧
      (∀ i < emitted.length, ∃ a b c,
        (historyOf calls).vertices[(corners (p.restart r).topology i).v0]? = some a ∧
        (historyOf calls).vertices[(corners (p.restart r).topology i).v1]? = some b ∧
        (historyOf calls).vertices[(corners (p.restart r).topology i).v2]? = some c ∧
        emitted[i]? = some (if (p.restart r).topology = .shader ∧ (historyOf calls).Wound i then
          ⟨b, a, c⟩ else ⟨a, b, c⟩)) ∧ (q.isEmpty = true ↔
        AllNew (p.restart r).topology (historyOf calls).vertices.length emitted.length) := by
  obtain ⟨⟨q, emitted⟩, run, holds, all⟩ := feedAll_follows (holds_restart p r) calls
  have same : emitted = (historyOf calls).triangles (p.restart r).topology := by
    rw [triangles_empty] at all
    exact all.symm
  obtain ⟨length, each⟩ := filterMap_range
    (f := (historyOf calls).triangle (p.restart r).topology)
    (n := completed (p.restart r).topology (historyOf calls).vertices.length) (by
      intro i less
      obtain ⟨a, b, c, _, _, _, eq⟩ := triangle_some less
      rw [eq]
      rfl)
  have count : emitted.length =
      completed (p.restart r).topology (historyOf calls).vertices.length := same ▸ length
  refine ⟨q, emitted, run, count, ?_, ?_⟩
  · intro i less
    rw [count] at less
    obtain ⟨a, b, c, first, second, third, eq⟩ := triangle_some less
    refine ⟨a, b, c, first, second, third, ?_⟩
    rw [← eq, same]
    exact each i less
  · rw [count]
    exact isEmpty_iff holds

end PrimitiveAssembler
end EmuThreeDS.Pica
