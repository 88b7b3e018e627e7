import Mathlib.Order.WithBot
import Mathlib.Tactic.Common

/-!
# Binary heaps in an array

The heap with the least key at the front. A position past the end has the key `⊤`, so that
the order of a heap is a statement about all positions, and a missing child never wins.
-/
namespace BinaryHeap

def parent (i : Nat) : Nat := (i - 1) / 2

section

variable {γ : Type} [LinearOrder γ] {f : Nat → γ} {first i j : Nat}

/-- The children of the positions from `first` on are not below their parents. -/
def OrderedFrom (first : Nat) (f : Nat → γ) : Prop :=
  ∀ c, 0 < c → first ≤ parent c → f (parent c) ≤ f c

/-- The order but for the children of `i`, which are not below the parent of `i`. -/
structure Sinking (first i : Nat) (f : Nat → γ) : Prop where
  reached : first ≤ i
  others : ∀ c, 0 < c → first ≤ parent c → parent c ≠ i → f (parent c) ≤ f c
  grand : ∀ c, 0 < c → parent c = i → 0 < i → first ≤ parent i → f (parent i) ≤ f c

/-- The order but for `i` and its parent; the children of `i` are not below that parent. -/
structure Rising (i : Nat) (f : Nat → γ) : Prop where
  others : ∀ c, 0 < c → c ≠ i → f (parent c) ≤ f c
  grand : ∀ c, 0 < c → parent c = i → 0 < i → f (parent i) ≤ f c

def exchange (f : Nat → γ) (i j : Nat) : Nat → γ :=
  fun c => f (if c = i then j else if c = j then i else c)

theorem Sinking.of_ordered (h : OrderedFrom (i + 1) f) : Sinking i i f where
  reached := le_refl i
  others := by
    intro c positive from_ other
    exact h c positive (by omega)
  grand := by
    intro c _ _ positive from_
    unfold parent at from_
    omega

theorem Sinking.ordered (h : Sinking first i f) (done : ∀ c, 0 < c → parent c = i → f i ≤ f c) :
    OrderedFrom first f := by
  intro c positive from_
  by_cases child : parent c = i
  · rw [child]
    exact done c positive child
  · exact h.others c positive from_ child

/-- The least child takes the place of its parent. -/
theorem Sinking.step (h : Sinking first i f) (child : 0 < j ∧ parent j = i)
    (least : ∀ c, 0 < c → parent c = i → f j ≤ f c) (less : f j < f i) :
    Sinking first j (exchange f i j) := by
  obtain ⟨positive, isChild⟩ := child
  have below : i < j := by
    unfold parent at isChild
    omega
  have reached := h.reached
  have atI : exchange f i j i = f j := by simp [exchange]
  have atJ : exchange f i j j = f i := by simp [exchange, Nat.ne_of_gt below]
  have elsewhere : ∀ c, c ≠ i → c ≠ j → exchange f i j c = f c := by
    intro c notI notJ
    simp [exchange, notI, notJ]
  refine ⟨by omega, ?_, ?_⟩
  · intro c cpos from_ notJ
    by_cases child : parent c = i
    · rw [child, atI]
      by_cases same : c = j
      · rw [same, atJ]
        exact le_of_lt less
      · have notI : c ≠ i := by
          unfold parent at child
          omega
        rw [elsewhere c notI same]
        exact least c cpos child
    · rw [elsewhere _ child notJ]
      by_cases same : c = i
      · rw [same, atI]
        rw [same] at from_ cpos
        exact h.grand j positive isChild cpos from_
      · have differ : c ≠ j := by
          rintro rfl
          exact child isChild
        rw [elsewhere c same differ]
        exact h.others c cpos from_ child
  · intro c cpos child jpos from_
    rw [isChild, atI]
    have order := h.others c cpos (by omega) (by omega)
    rw [child] at order
    have notI : c ≠ i := by
      unfold parent at child
      omega
    have notJ : c ≠ j := by
      unfold parent at child
      omega
    rw [elsewhere c notI notJ]
    exact order

theorem Rising.ordered (h : Rising i f) (done : 0 < i → f (parent i) ≤ f i) : OrderedFrom 0 f := by
  intro c positive _
  by_cases same : c = i
  · rw [same] at positive ⊢
    exact done positive
  · exact h.others c positive same

/-- A position takes the place of its parent. -/
theorem Rising.step (h : Rising i f) (positive : 0 < i) (less : f i < f (parent i)) :
    Rising (parent i) (exchange f i (parent i)) := by
  have below : parent i < i := by
    unfold parent
    omega
  have atI : exchange f i (parent i) i = f (parent i) := by simp [exchange]
  have atP : exchange f i (parent i) (parent i) = f i := by simp [exchange, Nat.ne_of_lt below]
  have elsewhere : ∀ c, c ≠ i → c ≠ parent i → exchange f i (parent i) c = f c := by
    intro c notI notP
    simp [exchange, notI, notP]
  refine ⟨?_, ?_⟩
  · intro c cpos notP
    by_cases same : c = i
    · rw [same, atI, atP]
      exact le_of_lt less
    rw [elsewhere c same notP]
    by_cases sibling : parent c = parent i
    · rw [sibling, atP]
      have order := h.others c cpos same
      rw [sibling] at order
      exact le_trans (le_of_lt less) order
    by_cases child : parent c = i
    · rw [child, atI]
      exact h.grand c cpos child positive
    · rw [elsewhere _ child sibling]
      exact h.others c cpos same
  · intro c cpos child ppos
    have order := h.others (parent i) ppos (by omega)
    have notP : parent (parent i) ≠ parent i := by
      unfold parent at ppos ⊢
      omega
    have notI : parent (parent i) ≠ i := by
      unfold parent
      omega
    rw [elsewhere _ notI notP]
    by_cases same : c = i
    · rw [same, atI]
      exact order
    · have differ : c ≠ parent i := by
        unfold parent at child ⊢
        omega
      rw [elsewhere c same differ]
      have order' := h.others c cpos same
      rw [child] at order'
      exact le_trans order order'

/-- The front is least. -/
theorem OrderedFrom.front_le (h : OrderedFrom 0 f) (i : Nat) : f 0 ≤ f i := by
  induction i using Nat.strong_induction_on with
  | _ i ih =>
    cases i with
    | zero => exact le_refl _
    | succ n =>
      have below : parent (n + 1) < n + 1 := by
        unfold parent
        omega
      exact le_trans (ih _ below) (h (n + 1) (Nat.succ_pos n) (Nat.zero_le _))

end

section

variable {α β : Type} [LinearOrder β] {key : α → β} {a : Array α} {i j first fuel : Nat} {x : α}

def keyAt (key : α → β) (a : Array α) (i : Nat) : WithTop β :=
  match a[i]? with
  | some x => key x
  | none => ⊤

def IsHeap (key : α → β) (a : Array α) : Prop := OrderedFrom 0 (keyAt key a)

def siftUp (key : α → β) : Nat → Array α → Nat → Array α
  | 0, a, _ => a
  | fuel + 1, a, i =>
    if 0 < i ∧ keyAt key a i < keyAt key a (parent i) then
      siftUp key fuel (a.swapIfInBounds i (parent i)) (parent i)
    else a

def leastChild (key : α → β) (a : Array α) (i : Nat) : Nat :=
  if keyAt key a (2 * i + 2) < keyAt key a (2 * i + 1) then 2 * i + 2 else 2 * i + 1

def siftDown (key : α → β) : Nat → Array α → Nat → Array α
  | 0, a, _ => a
  | fuel + 1, a, i =>
    if keyAt key a (leastChild key a i) < keyAt key a i then
      siftDown key fuel (a.swapIfInBounds i (leastChild key a i)) (leastChild key a i)
    else a

/-- The last element joins the heap before it. -/
def pushHeap (key : α → β) (a : Array α) : Array α := siftUp key a.size a (a.size - 1)

/-- The front goes to the end and the rest is a heap again; the front is then dropped. -/
def popHeap (key : α → β) (a : Array α) : Array α :=
  siftDown key a.size (a.swapIfInBounds 0 (a.size - 1)).pop 0

/-- Every position from the last inner one up is sifted down. -/
def heapify (key : α → β) : Nat → Array α → Array α
  | 0, a => a
  | i + 1, a => heapify key i (siftDown key a.size a i)

def makeHeap (key : α → β) (a : Array α) : Array α := heapify key a.size a

omit [LinearOrder β] in
theorem keyAt_of_size_le (h : a.size ≤ i) : keyAt key a i = ⊤ := by
  unfold keyAt
  rw [Array.getElem?_eq_none h]

omit [LinearOrder β] in
theorem keyAt_lt (h : i < a.size) : keyAt key a i = (key a[i] : WithTop β) := by
  unfold keyAt
  rw [Array.getElem?_eq_getElem h]

theorem lt_size_of_keyAt_lt {k : WithTop β} (h : keyAt key a i < k) : i < a.size := by
  by_contra out
  rw [keyAt_of_size_le (not_lt.mp out)] at h
  exact not_top_lt h

omit [LinearOrder β] in
theorem keyAt_swap (hi : i < a.size) (hj : j < a.size) :
    keyAt key (a.swapIfInBounds i j) = exchange (keyAt key a) i j := by
  funext c
  unfold exchange
  by_cases atI : c = i
  · subst atI
    rw [if_pos rfl, keyAt_lt hj, keyAt_lt (by simpa using hi), Array.getElem_swapIfInBounds,
      dif_pos ⟨rfl, hj⟩]
  rw [if_neg atI]
  by_cases atJ : c = j
  · subst atJ
    rw [if_pos rfl, keyAt_lt hi, keyAt_lt (by simpa using hj), Array.getElem_swapIfInBounds,
      dif_neg fun both => atI both.1, dif_pos ⟨rfl, hi⟩]
  rw [if_neg atJ]
  by_cases hc : c < a.size
  · rw [keyAt_lt hc, keyAt_lt (by simpa using hc), Array.getElem_swapIfInBounds,
      dif_neg fun both => atI both.1, dif_neg fun both => atJ both.1]
  · rw [keyAt_of_size_le (not_lt.mp hc), keyAt_of_size_le (by simpa using not_lt.mp hc)]

theorem swapIfInBounds_perm (a : Array α) (i j : Nat) :
    (a.swapIfInBounds i j).toList.Perm a.toList := by
  unfold Array.swapIfInBounds
  split_ifs with hi hj
  · exact (Array.swap_perm hi hj).toList
  · exact List.Perm.refl _
  · exact List.Perm.refl _

theorem siftUp_perm : (siftUp key fuel a i).toList.Perm a.toList := by
  induction fuel generalizing a i with
  | zero => exact List.Perm.refl _
  | succ fuel ih =>
    unfold siftUp
    split_ifs
    · exact ih.trans (swapIfInBounds_perm ..)
    · exact List.Perm.refl _

theorem siftUp_heap (rising : Rising i (keyAt key a)) (inside : i < a.size) (enough : i < fuel) :
    IsHeap key (siftUp key fuel a i) := by
  induction fuel generalizing a i with
  | zero => cases enough
  | succ fuel ih =>
    have below : 0 < i → parent i < i := by
      unfold parent
      omega
    unfold siftUp
    split_ifs with less
    · obtain ⟨positive, less⟩ := less
      have next := rising.step positive less
      rw [← keyAt_swap inside (lt_trans (below positive) inside)] at next
      apply ih next
      · rw [Array.size_swapIfInBounds]
        exact lt_trans (below positive) inside
      · omega
    · apply rising.ordered
      intro positive
      exact not_lt.mp fun other => less ⟨positive, other⟩

theorem pushHeap_perm : (pushHeap key a).toList.Perm a.toList := siftUp_perm

/-- Adding an element to a heap. -/
theorem pushHeap_push (h : IsHeap key a) (x : α) : IsHeap key (pushHeap key (a.push x)) := by
  have size : (a.push x).size = a.size + 1 := Array.size_push ..
  have old : ∀ c, c < a.size → keyAt key (a.push x) c = keyAt key a c := by
    intro c inside
    rw [keyAt_lt inside, keyAt_lt (by omega), Array.getElem_push_lt inside]
  apply siftUp_heap _ (by omega) (by omega)
  constructor
  · intro c positive other
    by_cases inside : c < a.size
    · have above : parent c < a.size := by
        unfold parent
        omega
      rw [old c inside, old _ above]
      exact h c positive (Nat.zero_le _)
    · rw [keyAt_of_size_le (i := c) (by omega)]
      exact le_top
  · intro c positive child _
    have out : a.size + 1 ≤ c := by
      unfold parent at child
      omega
    rw [keyAt_of_size_le (i := c) (by omega)]
    exact le_top

theorem leastChild_child (key : α → β) (a : Array α) (i : Nat) :
    0 < leastChild key a i ∧ parent (leastChild key a i) = i := by
  unfold leastChild parent
  split_ifs <;> omega

theorem leastChild_le (c : Nat) (positive : 0 < c) (child : parent c = i) :
    keyAt key a (leastChild key a i) ≤ keyAt key a c := by
  have which : c = 2 * i + 1 ∨ c = 2 * i + 2 := by
    unfold parent at child
    omega
  unfold leastChild
  split_ifs with less
  · rcases which with rfl | rfl
    · exact le_of_lt less
    · exact le_refl _
  · rcases which with rfl | rfl
    · exact le_refl _
    · exact not_lt.mp less

theorem siftDown_perm : (siftDown key fuel a i).toList.Perm a.toList := by
  induction fuel generalizing a i with
  | zero => exact List.Perm.refl _
  | succ fuel ih =>
    unfold siftDown
    split_ifs
    · exact ih.trans (swapIfInBounds_perm ..)
    · exact List.Perm.refl _

theorem siftDown_ordered (sinking : Sinking first i (keyAt key a)) (enough : a.size ≤ i + fuel) :
    OrderedFrom first (keyAt key (siftDown key fuel a i)) := by
  induction fuel generalizing a i with
  | zero =>
    apply sinking.ordered
    intro c positive child
    have out : a.size ≤ c := by
      unfold parent at child
      omega
    rw [keyAt_of_size_le out]
    exact le_top
  | succ fuel ih =>
    have child := leastChild_child key a i
    unfold siftDown
    split_ifs with less
    · have inside := lt_size_of_keyAt_lt less
      have above : i < leastChild key a i := by
        have isChild := child.2
        unfold parent at isChild
        omega
      have next := sinking.step child (fun c => leastChild_le c) less
      rw [← keyAt_swap (lt_trans above inside) inside] at next
      apply ih next
      rw [Array.size_swapIfInBounds]
      omega
    · apply sinking.ordered
      intro c positive isChild
      exact le_trans (not_lt.mp less) (leastChild_le c positive isChild)

theorem heapify_perm {n : Nat} : (heapify key n a).toList.Perm a.toList := by
  induction n generalizing a with
  | zero => exact List.Perm.refl _
  | succ n ih =>
    exact ih.trans siftDown_perm

theorem heapify_heap {n : Nat} (h : OrderedFrom n (keyAt key a)) : IsHeap key (heapify key n a) := by
  induction n generalizing a with
  | zero => exact h
  | succ n ih =>
    apply ih
    exact siftDown_ordered (Sinking.of_ordered h) (Nat.le_add_left _ _)

theorem makeHeap_perm : (makeHeap key a).toList.Perm a.toList := heapify_perm

theorem makeHeap_heap : IsHeap key (makeHeap key a) := by
  apply heapify_heap
  intro c positive from_
  have out : a.size ≤ c := by
    unfold parent at from_
    omega
  rw [keyAt_of_size_le out]
  exact le_top

/-- What is left of a heap without its front. -/
theorem popHeap_heap (h : IsHeap key a) : IsHeap key (popHeap key a) := by
  apply siftDown_ordered
  · have inner : ∀ c, 0 < c → keyAt key (a.swapIfInBounds 0 (a.size - 1)).pop c =
        if c < a.size - 1 then keyAt key a c else ⊤ := by
      intro c positive
      split_ifs with inside
      · rw [keyAt_lt (by simpa using inside), keyAt_lt (by omega), Array.getElem_pop,
          Array.getElem_swapIfInBounds, dif_neg fun both => absurd both.1 (Nat.ne_of_gt positive),
          dif_neg fun both => absurd both.1 (Nat.ne_of_lt inside)]
      · exact keyAt_of_size_le (by simpa using inside)
    refine ⟨le_refl 0, ?_, ?_⟩
    · intro c positive _ other
      rw [inner c positive, inner (parent c) (Nat.pos_of_ne_zero other)]
      by_cases inside : c < a.size - 1
      · have above : parent c < a.size - 1 := by
          unfold parent
          omega
        rw [if_pos inside, if_pos above]
        exact h c positive (Nat.zero_le _)
      · rw [if_neg inside]
        exact le_top
    · intro _ _ _ impossible
      cases impossible
  · simp

/-- The front and the rest make up the heap. -/
theorem popHeap_perm (inside : 0 < a.size) : (a[0] :: (popHeap key a).toList).Perm a.toList := by
  have last : (a.swapIfInBounds 0 (a.size - 1)).toList =
      (a.swapIfInBounds 0 (a.size - 1)).pop.toList ++ [a[0]] := by
    apply List.ext_getElem
    · simp
      omega
    · intro n hn hn'
      by_cases atEnd : n = a.size - 1
      · subst atEnd
        simp [inside]
      · simp at hn
        rw [List.getElem_append_left (by simp; omega)]
        simp
  have whole := (swapIfInBounds_perm a 0 (a.size - 1))
  rw [last] at whole
  refine List.Perm.trans (List.Perm.cons _ siftDown_perm) ?_
  exact List.perm_append_singleton _ _ |>.symm.trans whole

end

end BinaryHeap
