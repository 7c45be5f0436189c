import BcDuplicate.Base.Runs
import Mathlib.Data.List.Perm.Basic

/-!
# Slices

In-place work on ranges of one array.  `slice r l` is the part of `l` a
range addresses and `updateSlice f r l` rewrites it with `f`, as a sort of
`&entries[start]` does.  When the ranges of a list are in bounds and do not
overlap, rewriting them one after the other (`updateSlices`) rewrites each
as if it were alone, and changes nothing outside them.

`PermWithin rs l l'` says that `l'` rearranges `l` only inside the ranges.
-/

namespace Runs

variable {α κ : Type}

/-! ## one range -/

/-- The elements a range addresses. -/
def slice (r : Run) (l : List α) : List α := (l.drop r.start).take r.length

/-- Rewrite the elements a range addresses. -/
def updateSlice (f : List α → List α) (r : Run) (l : List α) : List α :=
  l.take r.start ++ f (slice r l) ++ l.drop (r.start + r.length)

/-- The range ends inside an array of `n` elements. -/
def Run.InBounds (r : Run) (n : Nat) : Prop := r.start + r.length ≤ n

theorem Run.InBounds.lt_of_contains {r : Run} {n i : Nat} (h : r.InBounds n)
    (hi : r.Contains i) : i < n := by
  simp only [Run.InBounds] at h
  simp only [Run.Contains] at hi
  omega

/-- No position lies in both ranges. -/
def Run.Disjoint (r s : Run) : Prop := ∀ i, ¬(r.Contains i ∧ s.Contains i)

theorem Run.Disjoint.symm {r s : Run} (h : r.Disjoint s) : s.Disjoint r :=
  fun i hi => h i hi.symm

theorem length_slice (r : Run) (l : List α) (h : r.InBounds l.length) :
    (slice r l).length = r.length := by
  simp only [Run.InBounds] at h
  simp only [slice, List.length_take, List.length_drop]
  omega

theorem getElem?_slice (r : Run) (l : List α) (k : Nat) (hk : k < r.length) :
    (slice r l)[k]? = l[r.start + k]? := by
  simp [slice, hk]

/-- A range holds what stands at its positions. -/
theorem mem_slice_iff {r : Run} {l : List α} {a : α} :
    a ∈ slice r l ↔ ∃ i, r.Contains i ∧ l[i]? = some a := by
  rw [List.mem_iff_getElem?]
  constructor
  · rintro ⟨k, hk⟩
    have hlt : k < r.length := by
      have hbound := (List.getElem?_eq_some_iff.mp hk).1
      rw [slice, List.length_take] at hbound
      omega
    rw [getElem?_slice r l k hlt] at hk
    exact ⟨r.start + k, ⟨Nat.le_add_right _ _, Nat.add_lt_add_left hlt _⟩, hk⟩
  · rintro ⟨i, ⟨hle, hlt⟩, hi⟩
    refine ⟨i - r.start, ?_⟩
    rw [getElem?_slice r l _ (by omega), Nat.add_sub_cancel' hle, hi]

theorem getElem_slice (r : Run) (l : List α) (k : Nat) (hk : k < (slice r l).length)
    (hl : r.start + k < l.length) : (slice r l)[k] = l[r.start + k] := by
  simp [slice]

/-- An array is its part before a range, the range, and its part after. -/
theorem take_slice_drop (r : Run) (l : List α) :
    l.take r.start ++ slice r l ++ l.drop (r.start + r.length) = l := by
  rw [slice, List.append_assoc, ← List.drop_drop, List.take_append_drop, List.take_append_drop]

section Update

variable {f : List α → List α} {r : Run} {l : List α}

theorem length_updateSlice (hf : (f (slice r l)).length = (slice r l).length)
    (h : r.InBounds l.length) : (updateSlice f r l).length = l.length := by
  have hs := length_slice r l h
  simp only [Run.InBounds] at h
  simp only [updateSlice, List.length_append, List.length_take, List.length_drop, hf, hs]
  omega

theorem perm_updateSlice (hf : (f (slice r l)).Perm (slice r l)) :
    (updateSlice f r l).Perm l := by
  conv_rhs => rw [← take_slice_drop r l]
  exact ((hf.append_left _).append_right _)

theorem slice_updateSlice_self (hf : (f (slice r l)).length = (slice r l).length)
    (h : r.InBounds l.length) : slice r (updateSlice f r l) = f (slice r l) := by
  have hs := length_slice r l h
  simp only [Run.InBounds] at h
  have htake : (l.take r.start).length = r.start := by rw [List.length_take]; omega
  rw [slice, updateSlice, List.append_assoc, List.drop_append_of_le_length (by omega)]
  rw [List.drop_of_length_le (by omega), List.nil_append]
  exact List.take_left' (by omega)

theorem getElem?_updateSlice_outside (hf : (f (slice r l)).length = (slice r l).length)
    (h : r.InBounds l.length) (i : Nat) (hi : ¬r.Contains i) :
    (updateSlice f r l)[i]? = l[i]? := by
  have hs := length_slice r l h
  simp only [Run.InBounds] at h
  simp only [Run.Contains] at hi
  have htake : (l.take r.start).length = r.start := by rw [List.length_take]; omega
  rw [updateSlice, List.append_assoc]
  by_cases hlt : i < r.start
  · rw [List.getElem?_append_left (by omega), List.getElem?_take_of_lt hlt]
  · rw [List.getElem?_append_right (by omega), List.getElem?_append_right (by omega),
      List.getElem?_drop]
    congr 1
    omega

end Update

/-! ## several disjoint ranges -/

/-- Rewrite the ranges one after the other. -/
def updateSlices (f : List α → List α) (rs : List Run) (l : List α) : List α :=
  rs.foldl (fun l r => updateSlice f r l) l

/-- The ranges are in bounds and pairwise disjoint. -/
structure Separate (rs : List Run) (n : Nat) : Prop where
  inBounds : ∀ r ∈ rs, r.InBounds n
  disjoint : rs.Pairwise Run.Disjoint

theorem Separate.tail {r : Run} {rs : List Run} {n : Nat} (h : Separate (r :: rs) n) :
    Separate rs n :=
  ⟨fun s hs => h.inBounds s (List.mem_cons_of_mem _ hs), (List.pairwise_cons.mp h.disjoint).2⟩

/-- Rearranging inside some ranges only. -/
structure PermWithin (rs : List Run) (l l' : List α) : Prop where
  perm : l'.Perm l
  slices : ∀ r ∈ rs, (slice r l').Perm (slice r l)
  outside : ∀ i, (∀ r ∈ rs, ¬r.Contains i) → l'[i]? = l[i]?

section Updates

variable {f : List α → List α} (hf : ∀ l, (f l).Perm l)
include hf

theorem perm_updateSlices (rs : List Run) (l : List α) : (updateSlices f rs l).Perm l := by
  induction rs generalizing l with
  | nil => exact .refl _
  | cons r rs ih => exact (ih _).trans (perm_updateSlice (hf _))

theorem getElem?_updateSlices_outside (rs : List Run) (l : List α) (h : Separate rs l.length)
    (i : Nat) (hi : ∀ r ∈ rs, ¬r.Contains i) : (updateSlices f rs l)[i]? = l[i]? := by
  induction rs generalizing l with
  | nil => rfl
  | cons r rs ih =>
      have hin := h.inBounds r List.mem_cons_self
      have hlen := length_updateSlice (hf (slice r l)).length_eq hin
      exact (ih _ (hlen ▸ h.tail) (fun s hs => hi s (List.mem_cons_of_mem _ hs))).trans
        (getElem?_updateSlice_outside (hf _).length_eq hin i (hi r List.mem_cons_self))

omit hf in
/-- Arrays that agree on a range have the same slice there. -/
theorem slice_congr {r : Run} {l l' : List α} (h : ∀ i, r.Contains i → l'[i]? = l[i]?) :
    slice r l' = slice r l := by
  apply List.ext_getElem?
  intro k
  by_cases hk : k < r.length
  · rw [getElem?_slice r l' k hk, getElem?_slice r l k hk]
    exact h _ ⟨by omega, by omega⟩
  · rw [List.getElem?_eq_none (by simp [slice]; omega),
      List.getElem?_eq_none (by simp [slice]; omega)]

/-- **Each range is rewritten as if it were alone.** -/
theorem slice_updateSlices (rs : List Run) (l : List α) (h : Separate rs l.length) (r : Run)
    (hr : r ∈ rs) : slice r (updateSlices f rs l) = f (slice r l) := by
  induction rs generalizing l with
  | nil => simp at hr
  | cons s rs ih =>
      have hin := h.inBounds s List.mem_cons_self
      have hlen := length_updateSlice (hf (slice s l)).length_eq hin
      have hdisj := (List.pairwise_cons.mp h.disjoint).1
      rcases List.mem_cons.mp hr with rfl | hr
      · calc slice r (updateSlices f (r :: rs) l)
            = slice r (updateSlice f r l) := slice_congr fun i hi =>
              getElem?_updateSlices_outside hf rs _ (hlen ▸ h.tail) i
                fun s hs hc => hdisj s hs i ⟨hi, hc⟩
          _ = f (slice r l) := slice_updateSlice_self (hf _).length_eq hin
      · calc slice r (updateSlices f (s :: rs) l)
            = f (slice r (updateSlice f s l)) := ih _ (hlen ▸ h.tail) hr
          _ = f (slice r l) := congrArg f <| slice_congr fun i hi =>
              getElem?_updateSlice_outside (hf _).length_eq hin i
                fun hc => hdisj r hr i ⟨hc, hi⟩

/-- Rearranging each of several disjoint ranges rearranges inside them only. -/
theorem permWithin_updateSlices (rs : List Run) (l : List α) (h : Separate rs l.length) :
    PermWithin rs l (updateSlices f rs l) where
  perm := perm_updateSlices hf rs l
  slices r hr := by rw [slice_updateSlices hf rs l h r hr]; exact hf _
  outside := getElem?_updateSlices_outside hf rs l h

end Updates

/-! ## rearranged arrays -/

/-- The element a rearranged array has at a position comes from a position
of the same range. -/
theorem PermWithin.exists_source {rs : List Run} {l l' : List α} (h : PermWithin rs l l')
    {r : Run} (hr : r ∈ rs) (hin : r.InBounds l.length) {i : Nat} (hi : r.Contains i)
    (hil : i < l'.length) : ∃ k, ∃ hk : k < l.length, r.Contains k ∧ l[k] = l'[i] := by
  have hmem : l'[i] ∈ slice r l' := by
    rw [List.mem_iff_getElem?]
    refine ⟨i - r.start, ?_⟩
    rw [getElem?_slice r l' _ (by simp only [Run.Contains] at hi; omega)]
    rw [show r.start + (i - r.start) = i by simp only [Run.Contains] at hi; omega]
    exact List.getElem?_eq_getElem hil
  have hmem' := (h.slices r hr).mem_iff.mp hmem
  obtain ⟨k, hk, he⟩ := List.mem_iff_getElem.mp hmem'
  have hkr : k < r.length := by rwa [length_slice r l hin] at hk
  have hkl : r.start + k < l.length := by simp only [Run.InBounds] at hin; omega
  exact ⟨r.start + k, hkl, ⟨by omega, by omega⟩, by rw [← he, getElem_slice r l k hk hkl]⟩

theorem PermWithin.symm {rs : List Run} {l l' : List α} (h : PermWithin rs l l') :
    PermWithin rs l' l :=
  ⟨h.perm.symm, fun r hr => (h.slices r hr).symm, fun i hi => (h.outside i hi).symm⟩

/-- Where a rearranged array has the elements of a range: different positions
go to different positions. -/
theorem PermWithin.exists_moved [DecidableEq α] {rs : List Run} {l l' : List α}
    (h : PermWithin rs l l') {r : Run} (hr : r ∈ rs) (hin : r.InBounds l.length) :
    ∃ move : Nat → Nat, (∀ i, r.Contains i → r.Contains (move i) ∧ l'[move i]? = l[i]?) ∧
      ∀ i j, r.Contains i → r.Contains j → move i = move j → i = j := by
  have hlen := length_slice r l hin
  have hlen' := length_slice r l' (h.perm.length_eq ▸ hin)
  have hsub := (h.slices r hr).symm.subperm
  have hoffset : ∀ i, r.Contains i → i - r.start < (slice r l).length := by
    intro i hi
    simp only [Run.Contains] at hi
    omega
  refine ⟨fun i => if hi : i - r.start < (slice r l).length
    then r.start + hsub.idxInj ⟨i - r.start, hi⟩ else 0, ?_, ?_⟩
  · intro i hi
    have hk := (hsub.idxInj ⟨i - r.start, hoffset i hi⟩).isLt
    have hget : (slice r l')[(hsub.idxInj ⟨i - r.start, hoffset i hi⟩ : Nat)]? =
        (slice r l)[i - r.start]? := by
      rw [List.getElem?_eq_getElem hk, List.getElem?_eq_getElem (hoffset i hi),
        List.Subperm.getElem_idxInj_eq_getElem]
    rw [getElem?_slice r l' _ (hlen' ▸ hk), getElem?_slice r l _ (hlen ▸ hoffset i hi)] at hget
    simp only [Run.Contains] at hi ⊢
    rw [dif_pos (hoffset i hi), hget, show r.start + (i - r.start) = i by omega]
    exact ⟨by omega, rfl⟩
  · intro i j hi hj hmove
    dsimp only at hmove
    rw [dif_pos (hoffset i hi), dif_pos (hoffset j hj)] at hmove
    have hinj := hsub.idxInj_injective (Fin.ext (Nat.add_left_cancel hmove))
    rw [Fin.mk.injEq] at hinj
    simp only [Run.Contains] at hi hj
    omega

end Runs
