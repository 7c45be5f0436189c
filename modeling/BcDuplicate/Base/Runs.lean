import Mathlib.Data.List.Basic

/-!
# Runs

Maximal runs of equal keys in a list, found by one left-to-right scan.

`scanRuns key cursor l` is the loop that opens a run at the cursor, advances
while the key stays the key of the run's first element, and keeps the runs
of at least two elements.  On a list in which equal keys are adjacent
(`Adjacent`), two different positions lie in one kept run exactly when their
keys are equal (`sameRun_scanRuns_iff`): the runs are the key classes.

Sorting is what makes equal keys adjacent (`adjacent_of_pairwise`).
-/

namespace Runs

variable {α κ : Type}

/-- A range of positions: the `length` positions from `start` on. -/
structure Run where
  start : Nat
  length : Nat
deriving DecidableEq, Repr

/-- Position `i` lies in the run. -/
def Run.Contains (r : Run) (i : Nat) : Prop := r.start ≤ i ∧ i < r.start + r.length

instance (r : Run) (i : Nat) : Decidable (r.Contains i) := by
  unfold Run.Contains; infer_instance

/-! ## the inner loop -/

/-- How far the inner loop advances: the number of elements at the front
that satisfy `p`. -/
def runLength (p : α → Bool) : List α → Nat
  | [] => 0
  | x :: xs => if p x then runLength p xs + 1 else 0

theorem runLength_le (p : α → Bool) (l : List α) : runLength p l ≤ l.length := by
  induction l with
  | nil => simp [runLength]
  | cons x xs ih =>
      simp only [runLength, List.length_cons]
      split <;> omega

/-- Every element the inner loop passes satisfies its test. -/
theorem of_lt_runLength (p : α → Bool) (l : List α) (i : Nat) (hl : i < l.length)
    (hi : i < runLength p l) : p l[i] = true := by
  induction l generalizing i with
  | nil => simp at hl
  | cons x xs ih =>
      simp only [runLength] at hi
      split at hi
      · next hx =>
        cases i with
        | zero => exact hx
        | succ i => exact ih i (by simpa using hl) (by omega)
      · omega

/-- The element the inner loop stops at fails its test. -/
theorem not_of_runLength (p : α → Bool) (l : List α) (hl : runLength p l < l.length) :
    p l[runLength p l] = false := by
  induction l with
  | nil => simp at hl
  | cons x xs ih =>
      by_cases hx : p x
      · have hr : runLength p (x :: xs) = runLength p xs + 1 := by simp [runLength, hx]
        simp only [hr, List.length_cons] at hl ⊢
        exact ih (by omega)
      · simp [runLength, hx]

/-! ## the scan -/

/-- The runs of at least two elements with one key, left to right; `cursor`
is the position of the list's first element. -/
def scanRuns [DecidableEq κ] (key : α → κ) (cursor : Nat) : List α → List Run
  | [] => []
  | x :: xs =>
      let passed := runLength (fun y => decide (key y = key x)) xs
      let rest := scanRuns key (cursor + (passed + 1)) (xs.drop passed)
      if passed + 1 < 2 then rest else ⟨cursor, passed + 1⟩ :: rest
termination_by l => l.length
decreasing_by simp only [List.length_drop, List.length_cons]; omega

/-- Two positions lie in one of the runs. -/
def SameRun (rs : List Run) (i j : Nat) : Prop := ∃ r ∈ rs, r.Contains i ∧ r.Contains j

section Scan

variable [DecidableEq κ] (key : α → κ)

omit [DecidableEq κ] in
/-- What follows the first `n + 1` elements, by position. -/
theorem getElem_past (x : α) (xs : List α) (n k : Nat) (h : n + 1 + k < (x :: xs).length)
    (h' : k < (xs.drop n).length) : (x :: xs)[n + 1 + k] = (xs.drop n)[k] := by
  have he : n + 1 + k = n + k + 1 := by omega
  simp only [List.getElem_drop, he, List.getElem_cons_succ]

/-- Every kept run lies between the cursor and the end, and has two elements. -/
theorem bounds_of_mem_scanRuns (cursor : Nat) (l : List α) (r : Run)
    (hr : r ∈ scanRuns key cursor l) :
    cursor ≤ r.start ∧ r.start + r.length ≤ cursor + l.length ∧ 2 ≤ r.length := by
  fun_induction scanRuns key cursor l with
  | case1 => simp at hr
  | case2 cursor x xs passed rest hlt ih =>
      have hle := runLength_le (fun y => decide (key y = key x)) xs
      have h := ih hr
      simp only [List.length_drop, List.length_cons] at h ⊢
      omega
  | case3 cursor x xs passed rest hlt ih =>
      have hle := runLength_le (fun y => decide (key y = key x)) xs
      rcases List.mem_cons.mp hr with h | h
      · subst h
        simp only [List.length_cons]
        omega
      · have h := ih h
        simp only [List.length_drop, List.length_cons] at h ⊢
        omega

/-- The runs come in order and do not overlap. -/
theorem pairwise_scanRuns (cursor : Nat) (l : List α) :
    (scanRuns key cursor l).Pairwise (fun r s => r.start + r.length ≤ s.start) := by
  fun_induction scanRuns key cursor l with
  | case1 => exact List.Pairwise.nil
  | case2 cursor x xs passed rest hlt ih => exact ih
  | case3 cursor x xs passed rest hlt ih =>
      refine List.Pairwise.cons (fun s hs => ?_) ih
      exact (bounds_of_mem_scanRuns key _ _ s hs).1

/-- The elements of a kept run all have the key of its first element. -/
theorem key_eq_of_mem_scanRuns (cursor : Nat) (l : List α) (r : Run)
    (hr : r ∈ scanRuns key cursor l) (i j : Nat) (hi : r.Contains (cursor + i))
    (hj : r.Contains (cursor + j)) (hil : i < l.length) (hjl : j < l.length) :
    key l[i] = key l[j] := by
  fun_induction scanRuns key cursor l generalizing i j with
  | case1 => simp at hr
  | case2 cursor x xs passed rest hlt ih =>
      have hb := (bounds_of_mem_scanRuns key _ _ r hr).1
      have hs : passed = 0 := by omega
      obtain ⟨i, rfl⟩ : ∃ k, i = k + 1 := ⟨i - 1, by simp only [Run.Contains] at hi; omega⟩
      obtain ⟨j, rfl⟩ : ∃ k, j = k + 1 := ⟨j - 1, by simp only [Run.Contains] at hj; omega⟩
      simp only [List.length_cons] at hil hjl
      have h := ih hr i j (by rw [hs]; simpa [Nat.add_assoc, Nat.add_comm 1] using hi)
        (by rw [hs]; simpa [Nat.add_assoc, Nat.add_comm 1] using hj)
        (by simp [hs]; omega) (by simp [hs]; omega)
      simpa [hs] using h
  | case3 cursor x xs passed rest hlt ih =>
      have hx : ∀ k (hk : k < (x :: xs).length), k < passed + 1 → key (x :: xs)[k] = key x := by
        intro k hk hks
        cases k with
        | zero => rfl
        | succ k =>
            have := of_lt_runLength (fun y => decide (key y = key x)) xs k (by simpa using hk)
              (by omega)
            simpa using this
      rcases List.mem_cons.mp hr with h | h
      · subst h
        simp only [Run.Contains] at hi hj
        rw [hx i hil (by omega), hx j hjl (by omega)]
      · have hb := (bounds_of_mem_scanRuns key _ _ r h).1
        obtain ⟨a, rfl⟩ : ∃ k, i = passed + 1 + k :=
          ⟨i - (passed + 1), by simp only [Run.Contains] at hi; omega⟩
        obtain ⟨b, rfl⟩ : ∃ k, j = passed + 1 + k :=
          ⟨j - (passed + 1), by simp only [Run.Contains] at hj; omega⟩
        simp only [List.length_cons] at hil hjl
        have hk := ih h a b (by simpa [Nat.add_assoc] using hi) (by simpa [Nat.add_assoc] using hj)
          (by simp only [List.length_drop]; omega) (by simp only [List.length_drop]; omega)
        rwa [← getElem_past x xs _ a (by simpa using hil), ← getElem_past x xs _ b] at hk

/-! ## adjacency of equal keys -/

omit [DecidableEq κ]

/-- Between two elements of one key there are only elements of that key. -/
def Adjacent (key : α → κ) (l : List α) : Prop :=
  ∀ i j k (hi : i < l.length) (hj : j < l.length) (hk : k < l.length),
    i ≤ j → j ≤ k → key l[i] = key l[k] → key l[j] = key l[i]

/-- A list ordered by a relation that is convex for the key has equal keys
adjacent: every sort whose order refines the key's does. -/
theorem adjacent_of_pairwise {key : α → κ} {r : α → α → Prop} {l : List α} (hl : l.Pairwise r)
    (convex : ∀ a b c, r a b → r b c → key a = key c → key b = key a) : Adjacent key l := by
  intro i j k hi hj hk hij hjk he
  rcases Nat.lt_or_eq_of_le hij with hlt | rfl
  · rcases Nat.lt_or_eq_of_le hjk with hlt' | rfl
    · exact convex _ _ _ (List.pairwise_iff_getElem.mp hl i j hi hj hlt)
        (List.pairwise_iff_getElem.mp hl j k hj hk hlt') he
    · exact he.symm
  · rfl

theorem Adjacent.drop {key : α → κ} {l : List α} (h : Adjacent key l) (n : Nat) :
    Adjacent key (l.drop n) := by
  intro i j k hi hj hk hij hjk he
  simp only [List.length_drop] at hi hj hk
  simp only [List.getElem_drop] at he ⊢
  exact h (n + i) (n + j) (n + k) (by omega) (by omega) (by omega) (by omega) (by omega) he

theorem Adjacent.take {key : α → κ} {l : List α} (h : Adjacent key l) (n : Nat) :
    Adjacent key (l.take n) := by
  intro i j k hi hj hk hij hjk he
  simp only [List.length_take] at hi hj hk
  simp only [List.getElem_take] at he ⊢
  exact h i j k (by omega) (by omega) (by omega) hij hjk he

variable [DecidableEq κ]

/-- Past the inner loop no element has the key of the run it left. -/
theorem key_ne_of_runLength {key : α → κ} {x : α} {xs : List α} (h : Adjacent key (x :: xs))
    (j : Nat) (hj : j < (x :: xs).length)
    (hrun : runLength (fun y => decide (key y = key x)) xs < j) : key (x :: xs)[j] ≠ key x := by
  intro he
  simp only [List.length_cons] at hj
  have hstop := not_of_runLength (fun y => decide (key y = key x)) xs (by omega)
  have hbetween := h 0 (runLength (fun y => decide (key y = key x)) xs + 1) j (by simp)
    (by simp only [List.length_cons]; omega) (by simpa using hj) (by omega) (by omega)
    (by simpa using he.symm)
  simp only [decide_eq_false_iff_not] at hstop
  exact hstop (by simpa using hbetween)

/-- Two positions of one key are both in the run of the head, or both past it. -/
theorem lt_runLength_iff {key : α → κ} {x : α} {xs : List α} (h : Adjacent key (x :: xs))
    (i j : Nat) (hi : i < (x :: xs).length) (hj : j < (x :: xs).length)
    (he : key (x :: xs)[i] = key (x :: xs)[j]) :
    i < runLength (fun y => decide (key y = key x)) xs + 1 ↔
      j < runLength (fun y => decide (key y = key x)) xs + 1 := by
  have hhead : ∀ i (hi : i < (x :: xs).length),
      i < runLength (fun y => decide (key y = key x)) xs + 1 → key (x :: xs)[i] = key x := by
    intro i hi hlt
    cases i with
    | zero => rfl
    | succ i =>
        simpa using of_lt_runLength (fun y => decide (key y = key x)) xs i (by simpa using hi)
          (by omega)
  constructor
  · intro hlt
    by_contra hge
    exact key_ne_of_runLength h j hj (by omega) (he ▸ hhead i hi hlt)
  · intro hlt
    by_contra hge
    exact key_ne_of_runLength h i hi (by omega) (he ▸ hhead j hj hlt)

/-- **The scan finds the key classes**: on a list in which equal keys are
adjacent, two different positions lie in one kept run exactly when their
keys are equal. -/
theorem sameRun_scanRuns_iff (cursor : Nat) (l : List α) (h : Adjacent key l) (i j : Nat)
    (hij : i ≠ j) (hil : i < l.length) (hjl : j < l.length) :
    SameRun (scanRuns key cursor l) (cursor + i) (cursor + j) ↔ key l[i] = key l[j] := by
  constructor
  · rintro ⟨r, hr, hi, hj⟩
    exact key_eq_of_mem_scanRuns key cursor l r hr i j hi hj hil hjl
  · intro he
    fun_induction scanRuns key cursor l generalizing i j with
    | case1 => simp at hil
    | case2 cursor x xs passed rest hlt ih =>
        have hside := lt_runLength_iff h i j hil hjl he
        obtain ⟨a, rfl⟩ : ∃ k, i = passed + 1 + k := ⟨i - (passed + 1), by omega⟩
        obtain ⟨b, rfl⟩ : ∃ k, j = passed + 1 + k := ⟨j - (passed + 1), by omega⟩
        have hrest : Adjacent key (xs.drop passed) := by
          simpa using Adjacent.drop h 1 |>.drop passed
        simp only [List.length_cons] at hil hjl
        have hsame := ih hrest a b (by omega) (by simp only [List.length_drop]; omega)
          (by simp only [List.length_drop]; omega)
          (by rwa [← getElem_past x xs _ a (by simpa using hil), ← getElem_past x xs _ b])
        simpa [Nat.add_assoc] using hsame
    | case3 cursor x xs passed rest hlt ih =>
        have hside := lt_runLength_iff h i j hil hjl he
        by_cases hi : i < passed + 1
        · exact ⟨⟨cursor, passed + 1⟩, List.mem_cons_self, by simp only [Run.Contains]; omega,
            by simp only [Run.Contains]; omega⟩
        · obtain ⟨a, rfl⟩ : ∃ k, i = passed + 1 + k := ⟨i - (passed + 1), by omega⟩
          obtain ⟨b, rfl⟩ : ∃ k, j = passed + 1 + k := ⟨j - (passed + 1), by omega⟩
          have hrest : Adjacent key (xs.drop passed) := by
            simpa using Adjacent.drop h 1 |>.drop passed
          simp only [List.length_cons] at hil hjl
          obtain ⟨r, hr, hra, hrb⟩ := ih hrest a b (by omega)
            (by simp only [List.length_drop]; omega) (by simp only [List.length_drop]; omega)
            (by rwa [← getElem_past x xs _ a (by simpa using hil), ← getElem_past x xs _ b])
          exact ⟨r, List.mem_cons_of_mem _ hr, by simpa [Nat.add_assoc] using hra,
            by simpa [Nat.add_assoc] using hrb⟩

end Scan

end Runs
