import BcDuplicate.Base.Slices
import Mathlib.Data.List.Count
import Mathlib.Data.List.Perm.Basic

/-!
# Repeats

The elements of a list whose key another element has (`repeats`).  Where equal
keys are adjacent, they are what the runs of the scan hold, run after run
(`flatMap_slice_scanRuns`); rearranging the list only rearranges them
(`repeats_perm`).
-/

namespace Runs

variable {α κ : Type} [DecidableEq κ] {key : α → κ}

/-- The elements whose key occurs more than once, in order. -/
def repeats (key : α → κ) (l : List α) : List α :=
  l.filter fun x => decide (2 ≤ (l.map key).count (key x))

theorem repeats_sublist (l : List α) : (repeats key l).Sublist l := List.filter_sublist

theorem repeats_perm {front back : List α} (h : front.Perm back) :
    (repeats key front).Perm (repeats key back) := by
  unfold repeats
  simp only [(h.map key).count_eq]
  exact h.filter _

/-- Parts that have no key in common repeat their keys by themselves. -/
theorem repeats_append {front back : List α}
    (hapart : ∀ x ∈ front, ∀ y ∈ back, key y ≠ key x) :
    repeats key (front ++ back) = repeats key front ++ repeats key back := by
  unfold repeats
  rw [List.filter_append]
  congr 1
  · refine List.filter_congr fun x hx => ?_
    have hnone : (back.map key).count (key x) = 0 := by
      rw [List.count_eq_zero, List.mem_map]
      rintro ⟨y, hy, heq⟩
      exact hapart x hx y hy heq
    rw [List.map_append, List.count_append, hnone, Nat.add_zero]
  · refine List.filter_congr fun y hy => ?_
    have hnone : (front.map key).count (key y) = 0 := by
      rw [List.count_eq_zero, List.mem_map]
      rintro ⟨x, hx, heq⟩
      exact hapart x hx y hy heq.symm
    rw [List.map_append, List.count_append, hnone, Nat.zero_add]

/-- Of elements with one key all are repeats, or there is at most one. -/
theorem repeats_of_constant {l : List α} {k : κ} (hkey : ∀ x ∈ l, key x = k) :
    repeats key l = if 2 ≤ l.length then l else [] := by
  have hcount : ∀ x ∈ l, (l.map key).count (key x) = l.length := by
    intro x hx
    rw [← List.length_map (f := key), List.count_eq_length]
    intro other hother
    obtain ⟨y, hy, rfl⟩ := List.mem_map.mp hother
    rw [hkey x hx, hkey y hy]
  unfold repeats
  split
  · next htwo =>
    refine List.filter_eq_self.mpr fun x hx => ?_
    rw [hcount x hx]
    exact decide_eq_true htwo
  · next hone =>
    refine List.filter_eq_nil_iff.mpr fun x hx => ?_
    rw [hcount x hx, decide_eq_true_eq]
    exact hone

/-! ## the scan -/

omit [DecidableEq κ] in
/-- The elements the inner loop passes satisfy its test. -/
theorem of_mem_take_runLength {p : α → Bool} {l : List α} {x : α}
    (hx : x ∈ l.take (runLength p l)) : p x = true := by
  obtain ⟨i, hi, rfl⟩ := List.mem_iff_getElem.mp hx
  rw [List.getElem_take]
  rw [List.length_take] at hi
  exact of_lt_runLength p l i (by omega) (by omega)

/-- Behind the inner loop the key it stopped for does not come again. -/
theorem key_ne_of_mem_drop {x : α} {xs : List α} (h : Adjacent key (x :: xs)) {y : α}
    (hy : y ∈ xs.drop (runLength (fun z => decide (key z = key x)) xs)) : key y ≠ key x := by
  obtain ⟨i, hi, rfl⟩ := List.mem_iff_getElem.mp hy
  rw [List.length_drop] at hi
  have hne := key_ne_of_runLength h
    (runLength (fun z => decide (key z = key x)) xs + i + 1)
    (by rw [List.length_cons]; omega) (by omega)
  rw [List.getElem_cons_succ] at hne
  rw [List.getElem_drop]
  exact hne

/-- The repeats of a list, past the run its scan finds first. -/
theorem repeats_cons {x : α} {xs : List α} (h : Adjacent key (x :: xs)) {passed : Nat}
    (hpassed : runLength (fun y => decide (key y = key x)) xs = passed) :
    repeats key (x :: xs) = (if passed + 1 < 2 then [] else x :: xs.take passed) ++
      repeats key (xs.drop passed) := by
  subst hpassed
  generalize hpassed : runLength (fun y => decide (key y = key x)) xs = passed
  have hsplit : x :: xs = (x :: xs.take passed) ++ xs.drop passed := by
    rw [List.cons_append, List.take_append_drop]
  have hrun : ∀ y ∈ x :: xs.take passed, key y = key x := by
    rw [← hpassed]
    refine List.forall_mem_cons.mpr ⟨rfl, fun y hy => ?_⟩
    exact of_decide_eq_true (of_mem_take_runLength (p := fun z => decide (key z = key x)) hy)
  have hapart : ∀ y ∈ x :: xs.take passed, ∀ z ∈ xs.drop passed, key z ≠ key y := by
    intro y hy z hz
    rw [hrun y hy]
    rw [← hpassed] at hz
    exact key_ne_of_mem_drop h hz
  have hlength : (x :: xs.take passed).length = passed + 1 := by
    have hle := runLength_le (fun y => decide (key y = key x)) xs
    rw [List.length_cons, List.length_take]
    omega
  conv_lhs => rw [hsplit, repeats_append hapart, repeats_of_constant hrun, hlength]
  by_cases hlt : passed + 1 < 2
  · rw [if_pos hlt, if_neg (Nat.not_le_of_lt hlt)]
  · rw [if_neg hlt, if_pos (Nat.le_of_not_lt hlt)]

/-- **What the runs of the scan hold**, run after run, are the repeats. -/
theorem flatMap_slice_scanRuns (before l after : List α) (h : Adjacent key l) :
    ((scanRuns key before.length l).flatMap fun r => slice r (before ++ l ++ after)) =
      repeats key l := by
  induction hn : l.length using Nat.strongRecOn generalizing before l with
  | ind n ih =>
  cases l with
  | nil => simp [scanRuns, repeats]
  | cons x xs =>
      have hle := runLength_le (fun y => decide (key y = key x)) xs
      rw [scanRuns]
      generalize hpassed : runLength (fun y => decide (key y = key x)) xs = passed at hle ⊢
      have hsplit : before ++ x :: xs ++ after =
          (before ++ x :: xs.take passed) ++ xs.drop passed ++ after := by
        rw [List.append_assoc before (x :: xs.take passed), List.cons_append,
          List.take_append_drop]
      have hlength : (before ++ x :: xs.take passed).length = before.length + (passed + 1) := by
        rw [List.length_append, List.length_cons, List.length_take, Nat.min_eq_left hle]
      have hrest : Adjacent key (xs.drop passed) := by
        simpa using (Adjacent.drop h 1).drop passed
      have hlater := ih (xs.drop passed).length
        (by rw [← hn, List.length_drop, List.length_cons]; omega)
        (before ++ x :: xs.take passed) (xs.drop passed) hrest rfl
      rw [hlength, ← hsplit] at hlater
      rw [repeats_cons h hpassed]
      split
      · exact hlater
      · rw [List.flatMap_cons, hlater]
        congr 1
        rw [slice, List.append_assoc, List.drop_left, List.cons_append, List.take_succ_cons,
          List.take_append_of_le_length hle]

/-- The runs of one range of an array. -/
theorem flatMap_slice_scanRuns_slice {range : Run} {l : List α} (hin : range.InBounds l.length)
    (h : Adjacent key (slice range l)) :
    ((scanRuns key range.start (slice range l)).flatMap fun r => slice r l) =
      repeats key (slice range l) := by
  have hlength : (l.take range.start).length = range.start := by
    simp only [Run.InBounds] at hin
    rw [List.length_take]
    omega
  have hscan := flatMap_slice_scanRuns (l.take range.start) (slice range l)
    (l.drop (range.start + range.length)) h
  rwa [hlength, take_slice_drop] at hscan

end Runs
