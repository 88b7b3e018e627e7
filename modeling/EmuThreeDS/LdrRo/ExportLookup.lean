import EmuThreeDS.LdrRo.Rebase
import Mathlib.Data.Fintype.Card

/-!
# Lookup of exported symbols (`CROHelper::FindExportNamedSymbol`)

The links of the export tree are followed down to an end mark. A rebased module has its links
below `ExportTreeNum`, but nothing says that they come to an end.
-/
namespace EmuThreeDS.Rebasing

open Linking (Child ExportTreeEntry)

/-- The method returns `r` with no error and leaves the memory as `m'`. -/
def Returns {α : Type} (x : Method α) (m : ProcessBytes) (r : α) (m' : ProcessBytes) : Prop :=
  x.run.run m = .ok (.ok r, m')

section

variable {α β : Type} {m m' : ProcessBytes}

@[simp] theorem returns_pure {a r : α} : Returns (pure a) m r m' ↔ a = r ∧ m = m' := by
  constructor
  · rintro ⟨⟩
    exact ⟨rfl, rfl⟩
  · rintro ⟨rfl, rfl⟩
    rfl

@[simp] theorem returns_get {r : ProcessBytes} : Returns get m r m' ↔ m = r ∧ m = m' := by
  constructor
  · rintro ⟨⟩
    exact ⟨rfl, rfl⟩
  · rintro ⟨rfl, rfl⟩
    rfl

@[simp] theorem not_returns_fault {e : Fault} {r : α} :
    ¬ Returns (fault e : Method α) m r m' := nofun

@[simp] theorem returns_bind {x : Method α} {f : α → Method β} {r : β} :
    Returns (x >>= f) m r m' ↔ ∃ a n, Returns x m a n ∧ Returns (f a) n r m' := by
  unfold Returns
  rw [ExceptT.run_bind, StateT.run_bind, bind_eq_ok]
  constructor
  · rintro ⟨⟨a | a, n⟩, first, later⟩
    · cases later
    · exact ⟨a, n, first, later⟩
  · rintro ⟨a, n, first, later⟩
    exact ⟨(.ok a, n), first, later⟩

end

section

variable (m : ProcessBytes) (a : Nat) (name : List UInt8)

def treeEntry (index : Nat) : ExportTreeEntry := entryAt ExportTreeEntry m a .exportTree index

def linkAt : Nat → Child
  | 0 => (treeEntry m a 0).left
  | turn + 1 => (treeEntry m a (linkAt turn).nextIndex).child name

def visited : Nat → Child → List Nat
  | 0, _ => []
  | fuel + 1, next => next.nextIndex ::
    if next.isEnd then [] else visited fuel ((treeEntry m a next.nextIndex).child name)

def exportedName (index : Nat) : List UInt8 :=
  readCString m (entryAt ExportNamedSymbolEntry m a .exportNamedSymbol index).nameOffset
    (CROHelper.getField m a .exportStringsSize)

def exportedAddress (index : Nat) : Nat :=
  segmentTagToAddress m a
    (entryAt ExportNamedSymbolEntry m a .exportNamedSymbol index).symbolPosition

/-- The exports below a link: an end mark leads to one of them, and at another entry all of them
that have the tested bit are on the right and all others on the left. -/
inductive Patricia : Child → (Nat → Prop) → Prop
  | leaf {next : Child} (isEnd : next.isEnd = true) :
      Patricia next (· = (treeEntry m a next.nextIndex).exportTableIndex)
  | node {next : Child} {left right : Nat → Prop} (inner : next.isEnd = false)
      (lefts : Patricia (treeEntry m a next.nextIndex).left left)
      (rights : Patricia (treeEntry m a next.nextIndex).right right)
      (clear : ∀ i, left i → (treeEntry m a next.nextIndex).child (exportedName m a i) =
        (treeEntry m a next.nextIndex).left)
      (set : ∀ i, right i → (treeEntry m a next.nextIndex).child (exportedName m a i) =
        (treeEntry m a next.nextIndex).right) :
      Patricia next fun i => left i ∨ right i

/-- What is returned is the address of an export of that name or 0, and it is the former if the
tree is the Patricia tree of some exports with the name among them. -/
structure Found (result : Nat) : Prop where
  sound : result ≠ 0 → ∃ i < CROHelper.getField m a .exportNamedSymbolNum,
    exportedName m a i = name ∧ result = exportedAddress m a i
  complete : ∀ exports, CROHelper.getField m a .exportTreeNum ≠ 0 →
    Patricia m a (treeEntry m a 0).left exports → ∀ i, exports i →
      i < CROHelper.getField m a .exportNamedSymbolNum → exportedName m a i = name →
        result = exportedAddress m a i

def Finds : Prop := ∃ fuel result, Returns (findExportNamedSymbol fuel a name) m result m ∧
  (CROHelper.getField m a .exportTreeNum ≠ 0 →
    ∀ i ∈ visited m a name fuel (treeEntry m a 0).left,
      i < CROHelper.getField m a .exportTreeNum) ∧
  Found m a name result

/-- The path of the name comes to an end mark in as many turns as the tree has entries, and stays
in the tree. -/
def Ends : Prop := CROHelper.getField m a .exportTreeNum = 0 ∨
  ∃ last ≤ CROHelper.getField m a .exportTreeNum, (linkAt m a name last).isEnd = true ∧
    ∀ turn ≤ last, (linkAt m a name turn).nextIndex < CROHelper.getField m a .exportTreeNum

end

variable {m m₀ m₁ : ProcessBytes} {a : Nat} {name : List UInt8}

section

theorem linkAt_congr {i j : Nat} (same : (linkAt m a name i).nextIndex =
    (linkAt m a name j).nextIndex) (n : Nat) :
    linkAt m a name (i + 1 + n) = linkAt m a name (j + 1 + n) := by
  induction n with
  | zero =>
    change (treeEntry m a (linkAt m a name i).nextIndex).child name =
      (treeEntry m a (linkAt m a name j).nextIndex).child name
    rw [same]
  | succ n ih =>
    change (treeEntry m a (linkAt m a name (i + 1 + n)).nextIndex).child name =
      (treeEntry m a (linkAt m a name (j + 1 + n)).nextIndex).child name
    rw [ih]

theorem first_end_le {last num : Nat} (isEnd : (linkAt m a name last).isEnd = true)
    (first : ∀ turn < last, (linkAt m a name turn).isEnd = false)
    (inside : ∀ turn ≤ last, (linkAt m a name turn).nextIndex < num) : last ≤ num := by
  let entry : Fin last → Fin num := fun turn =>
    ⟨(linkAt m a name turn).nextIndex, inside turn turn.isLt.le⟩
  have apart : ∀ i j : Nat, i < j → j < last →
      (linkAt m a name i).nextIndex ≠ (linkAt m a name j).nextIndex := by
    intro i j less below same
    have again := linkAt_congr same (last - (j + 1))
    rw [Nat.add_sub_cancel' below] at again
    have early := first (i + 1 + (last - (j + 1))) (by omega)
    rw [again, isEnd] at early
    exact nomatch early
  have injective : Function.Injective entry := by
    intro i j same
    have same' := congrArg Fin.val same
    apply Fin.ext
    rcases Nat.lt_trichotomy i j with less | equal | less
    · exact absurd same' (apart i j less j.isLt)
    · exact equal
    · exact absurd same'.symm (apart j i less i.isLt)
  simpa using Fintype.card_le_of_injective entry injective

theorem searchTree_path {n turn fuel : Nat} (isEnd : (linkAt m a name (turn + n)).isEnd = true)
    (first : ∀ i < n, (linkAt m a name (turn + i)).isEnd = false) (enough : n < fuel) :
    Returns (searchTree m a name fuel (linkAt m a name turn)) m₀
      (treeEntry m a (linkAt m a name (turn + n)).nextIndex).exportTableIndex m₀ ∧
    visited m a name fuel (linkAt m a name turn) =
      (List.range (n + 1)).map fun i => (linkAt m a name (turn + i)).nextIndex := by
  induction n generalizing turn fuel with
  | zero =>
    obtain ⟨fuel, rfl⟩ := Nat.exists_eq_add_of_lt enough
    rw [searchTree, visited]
    rw [Nat.add_zero] at isEnd ⊢
    simp only [isEnd, if_true]
    exact ⟨returns_pure.mpr ⟨rfl, rfl⟩, rfl⟩
  | succ n ih =>
    obtain ⟨fuel, rfl⟩ : ∃ f, fuel = f + 1 := ⟨fuel - 1, by omega⟩
    have next : turn + (n + 1) = turn + 1 + n := by omega
    have inner : (linkAt m a name turn).isEnd = false := first 0 n.succ_pos
    rw [next] at isEnd ⊢
    have later : ∀ i < n, (linkAt m a name (turn + 1 + i)).isEnd = false := by
      intro i less
      rw [Nat.add_right_comm]
      exact first (i + 1) (by omega)
    obtain ⟨run, reads⟩ := ih isEnd later (show n < fuel by omega)
    rw [searchTree, visited]
    simp only [inner, Bool.false_eq_true, if_false]
    refine ⟨run, ?_⟩
    rw [List.range_succ_eq_map, List.map_cons, List.map_map]
    refine congrArg _ (reads.trans (List.map_congr_left fun i _ => ?_))
    exact congrArg (fun turn => (linkAt m a name turn).nextIndex) (by omega)

theorem searchTree_stuck {turn fuel : Nat}
    (inner : ∀ i < fuel, (linkAt m a name (turn + i)).isEnd = false) {found : Nat} :
    ¬ Returns (searchTree m a name fuel (linkAt m a name turn)) m₀ found m₁ := by
  induction fuel generalizing turn with
  | zero => exact not_returns_fault
  | succ fuel ih =>
    have here : (linkAt m a name turn).isEnd = false := inner 0 fuel.succ_pos
    rw [searchTree]
    simp only [here, Bool.false_eq_true, if_false]
    have later : ∀ i < fuel, (linkAt m a name (turn + 1 + i)).isEnd = false := by
      intro i less
      rw [Nat.add_right_comm]
      exact inner (i + 1) (by omega)
    exact ih later

theorem patricia_search {next : Child} {exports : Nat → Prop} (tree : Patricia m a next exports)
    {i : Nat} (among : exports i) {fuel found : Nat}
    (run : Returns (searchTree m a (exportedName m a i) fuel next) m₀ found m₁) : found = i := by
  induction tree generalizing fuel with
  | leaf isEnd =>
    cases fuel with
    | zero => exact absurd run not_returns_fault
    | succ fuel =>
      rw [searchTree] at run
      simp only [isEnd, if_true] at run
      obtain ⟨rfl, _⟩ := returns_pure.mp run
      exact among.symm
  | node inner lefts rights clear set left right =>
    cases fuel with
    | zero => exact absurd run not_returns_fault
    | succ fuel =>
      rw [searchTree] at run
      simp only [inner, Bool.false_eq_true, if_false] at run
      rcases among with among | among
      · exact left among (clear i among ▸ run)
      · exact right among (set i among ▸ run)

end

theorem exists_first_end {last : Nat} (isEnd : (linkAt m a name last).isEnd = true) :
    ∃ first ≤ last, (linkAt m a name first).isEnd = true ∧
      ∀ turn < first, (linkAt m a name turn).isEnd = false := by
  have some_end : ∃ turn, (linkAt m a name turn).isEnd = true := ⟨last, isEnd⟩
  refine ⟨Nat.find some_end, Nat.find_min' some_end isEnd, Nat.find_spec some_end, ?_⟩
  intro turn less
  exact Bool.eq_false_iff.mpr (Nat.find_min some_end less)

def resultOf (m : ProcessBytes) (a : Nat) (name : List UInt8) (found : Nat) : Nat :=
  if found ≥ CROHelper.getField m a .exportNamedSymbolNum then 0
  else if exportedName m a found ≠ name then 0 else exportedAddress m a found

theorem returns_lookup {fuel result : Nat} (tree : CROHelper.getField m a .exportTreeNum ≠ 0) :
    Returns (findExportNamedSymbol fuel a name) m result m₁ ↔
      ∃ found, Returns (searchTree m a name fuel (treeEntry m a 0).left) m found m₁ ∧
        resultOf m a name found = result := by
  have rest : ∀ found n, Returns
      (if found ≥ CROHelper.getField m a .exportNamedSymbolNum then pure 0
      else if exportedName m a found ≠ name then pure 0
        else pure (exportedAddress m a found) : Method Nat) n result m₁ ↔
      resultOf m a name found = result ∧ n = m₁ := by
    intro found n
    unfold resultOf
    split_ifs <;> exact returns_pure
  unfold findExportNamedSymbol
  rw [returns_bind]
  constructor
  · rintro ⟨n, n', first, run⟩
    obtain ⟨rfl, rfl⟩ := returns_get.mp first
    rw [if_neg tree] at run
    obtain ⟨found, n, search, later⟩ := returns_bind.mp run
    obtain ⟨same, rfl⟩ := (rest found n).mp later
    exact ⟨found, search, same⟩
  · rintro ⟨found, search, same⟩
    refine ⟨m, m, returns_get.mpr ⟨rfl, rfl⟩, ?_⟩
    rw [if_neg tree]
    exact returns_bind.mpr ⟨found, m₁, search, (rest found m₁).mpr ⟨same, rfl⟩⟩

theorem resultOf_found {found : Nat} (search : ∀ i exports,
    Patricia m a (treeEntry m a 0).left exports → exports i → exportedName m a i = name →
      found = i) : Found m a name (resultOf m a name found) where
  sound := by
    unfold resultOf
    split_ifs with outside other
    · exact fun none => absurd rfl none
    · exact fun none => absurd rfl none
    · exact fun _ => ⟨found, Nat.lt_of_not_le outside, Classical.not_not.mp other, rfl⟩
  complete := by
    intro exports _ tree i among inside named
    obtain rfl := search i exports tree among named
    unfold resultOf
    rw [if_neg (Nat.not_le_of_lt inside), if_neg (not_not_intro named)]

/-- A lookup returns, and with what the exports say, exactly if the path of the name comes to an
end in the tree; it then does so within as many turns as the tree has entries. -/
theorem finds_iff : Finds m a name ↔ Ends m a name := by
  by_cases empty : CROHelper.getField m a .exportTreeNum = 0
  · refine iff_of_true ?_ (.inl empty)
    have run : Returns (findExportNamedSymbol 0 a name) m 0 m := by
      refine returns_bind.mpr ⟨m, m, returns_get.mpr ⟨rfl, rfl⟩, ?_⟩
      rw [if_pos empty]
      exact returns_pure.mpr ⟨rfl, rfl⟩
    exact ⟨0, 0, run, fun tree => absurd empty tree,
      ⟨fun none => absurd rfl none, fun _ tree => absurd empty tree⟩⟩
  · constructor
    · rintro ⟨fuel, result, run, inside, _⟩
      have reads := inside empty
      obtain ⟨found, search, _⟩ := (returns_lookup empty).mp run
      have ends : ∃ turn < fuel, (linkAt m a name turn).isEnd = true := by
        by_contra none
        refine @searchTree_stuck m m m a name 0 fuel ?_ found search
        intro i less
        rw [Nat.zero_add]
        exact Bool.eq_false_iff.mpr fun isEnd => none ⟨i, less, isEnd⟩
      obtain ⟨last, less, isEnd⟩ := ends
      obtain ⟨first, before, isEnd, inner⟩ := exists_first_end isEnd
      have path := @searchTree_path m m a name first 0 fuel (by rwa [Nat.zero_add])
        (fun i less => by rw [Nat.zero_add]; exact inner i less) (by omega)
      have within : ∀ turn ≤ first,
          (linkAt m a name turn).nextIndex < CROHelper.getField m a .exportTreeNum := by
        intro turn most
        apply reads
        change _ ∈ visited m a name fuel (linkAt m a name 0)
        rw [path.2]
        exact List.mem_map.mpr ⟨turn, List.mem_range.mpr (by omega), by rw [Nat.zero_add]⟩
      exact .inr ⟨first, first_end_le isEnd inner within, isEnd, within⟩
    · rintro (none | ⟨last, _, isEnd, within⟩)
      · exact absurd none empty
      · obtain ⟨first, before, isEnd, inner⟩ := exists_first_end isEnd
        obtain ⟨run, reads⟩ := @searchTree_path m m a name first 0 (first + 1)
          (by rwa [Nat.zero_add]) (fun i less => by rw [Nat.zero_add]; exact inner i less)
          (Nat.lt_succ_self first)
        refine ⟨first + 1, _, (returns_lookup empty).mpr ⟨_, run, rfl⟩, fun _ i mem => ?_,
          resultOf_found fun i exports tree among named => ?_⟩
        · change i ∈ visited m a name _ (linkAt m a name 0) at mem
          rw [reads] at mem
          obtain ⟨turn, most, rfl⟩ := List.mem_map.mp mem
          rw [Nat.zero_add]
          exact within turn (by rw [List.mem_range] at most; omega)
        · subst named
          exact patricia_search tree among run

def selfLinked : ProcessBytes :=
  let fields : List (HeaderField × Nat) :=
    [(.magic, magicCRO0), (.fileSize, 0x14C), (.exportTreeNum, 1)] ++
      tables.map fun table => (table.offsetField,
        if table ∈ [.code, .moduleName, .segment, .exportNamedSymbol, .exportTree] then 0x138
        else 0x14C)
  fields.foldl (fun m field => CROHelper.setField m 0x1000 field.1 field.2)
    fun b => if b = 0x1145 then 1 else 0

def SelfLinked (m : ProcessBytes) : Prop := CROHelper.getField m 0x1000 .exportTreeNum ≠ 0 ∧
  treeEntry m 0x1000 0 = ⟨0, ⟨0, false⟩, ⟨0, false⟩, 0⟩

instance : DecidablePred SelfLinked := fun _ => inferInstanceAs (Decidable (_ ∧ _))

/-- The method returns without an error, and `P` is true after it. -/
def leads (x : Method Unit) (m : ProcessBytes) (P : ProcessBytes → Prop) [DecidablePred P] : Bool :=
  match x.run.run m with
  | .ok (.ok (), m) => decide (P m)
  | _ => false

theorem exists_of_leads {x : Method Unit} {P : ProcessBytes → Prop} [DecidablePred P]
    (run : leads x m P = true) : ∃ m', Returns x m () m' ∧ P m' := by
  unfold leads at run
  split at run
  · exact ⟨_, ‹_›, of_decide_eq_true run⟩
  · exact nomatch run

theorem selfLinked_rebased : ∃ m,
    Returns (rebase 1 0x1000 0 0x14C ⟨0, 0, 0, 0⟩ false) selfLinked () m ∧ SelfLinked m :=
  exists_of_leads (by decide +kernel)

/-- `Rebase` accepts a module in which no lookup comes to an end. -/
theorem rebase_accepts_cycle : ¬ ∀ (fuel a crs croSize : Nat) (buffers : Buffers)
    (m m' : ProcessBytes) (name : List UInt8),
      Returns (rebase fuel a crs croSize buffers false) m () m' → Finds m' a name := by
  intro all
  obtain ⟨m, accepted, tree, root⟩ := selfLinked_rebased
  obtain ⟨fuel, result, run, _⟩ := all _ _ _ _ _ _ _ [] accepted
  have cycle : ∀ turn, linkAt m 0x1000 [] turn = ⟨0, false⟩ := by
    intro turn
    induction turn with
    | zero => exact congrArg ExportTreeEntry.left root
    | succ turn ih =>
      rw [linkAt, ih, root]
      rfl
  obtain ⟨found, search, _⟩ := (returns_lookup tree).mp run
  exact @searchTree_stuck m m m 0x1000 [] 0 fuel (fun i _ => by rw [cycle]) found search

end EmuThreeDS.Rebasing
