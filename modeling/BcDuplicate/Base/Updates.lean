import Mathlib.Data.List.Basic
import Mathlib.Data.List.Nodup
import Mathlib.Data.List.Perm.Basic

/-!
# Updates

Updating an array element by element, in some order of the positions.

`updateAt f order l` updates the positions of `order` one after the other,
the element at `i` with `f i`.  When no position comes twice, each listed
element is updated once (`getElem?_updateAt`) and the order does not matter
(`updateAt_perm`): work that is split into pieces updating different
positions gives the same array under every schedule of the pieces.

The second half is ceiling division: `n` positions cut into consecutive
pieces of `size`, the last one possibly short.
-/

namespace Updates

variable {α : Type}

/-- Update the listed positions one after the other. -/
def updateAt (f : Nat → α → α) (order : List Nat) (l : List α) : List α :=
  order.foldl (fun l i => l.modify i (f i)) l

theorem updateAt_append (f : Nat → α → α) (order₁ order₂ : List Nat) (l : List α) :
    updateAt f (order₁ ++ order₂) l = updateAt f order₂ (updateAt f order₁ l) :=
  List.foldl_append

@[simp] theorem length_updateAt (f : Nat → α → α) (order : List Nat) (l : List α) :
    (updateAt f order l).length = l.length := by
  induction order generalizing l with
  | nil => rfl
  | cons i order ih => exact (ih _).trans (List.length_modify ..)

/-- A position that is not listed keeps its element. -/
theorem getElem?_updateAt_of_notMem (f : Nat → α → α) {order : List Nat} (l : List α) {j : Nat}
    (hj : j ∉ order) : (updateAt f order l)[j]? = l[j]? := by
  induction order generalizing l with
  | nil => rfl
  | cons i order ih =>
      rw [List.mem_cons, not_or] at hj
      refine (ih (l.modify i (f i)) hj.2).trans ?_
      rw [List.getElem?_modify]
      simp only [Ne.symm hj.1, if_false, id_map']

/-- **A listed position is updated once.** -/
theorem getElem?_updateAt (f : Nat → α → α) {order : List Nat} (hnodup : order.Nodup) (l : List α)
    (j : Nat) : (updateAt f order l)[j]? = if j ∈ order then l[j]?.map (f j) else l[j]? := by
  induction order generalizing l with
  | nil => rfl
  | cons i order ih =>
      obtain ⟨hi, htail⟩ := List.nodup_cons.mp hnodup
      refine (ih htail (l.modify i (f i))).trans ?_
      rw [List.getElem?_modify]
      by_cases hij : i = j
      · subst hij
        rw [if_neg hi, if_pos List.mem_cons_self]
        simp only [if_true, Option.map_eq_map]
      · have hiff : j ∈ i :: order ↔ j ∈ order := by
          rw [List.mem_cons, or_iff_right (Ne.symm hij)]
        simp only [hiff, hij, if_false, id_map']

/-- **The order of the updates does not matter.** -/
theorem updateAt_perm (f : Nat → α → α) {order₁ order₂ : List Nat} (hperm : order₁.Perm order₂)
    (hnodup : order₁.Nodup) (l : List α) : updateAt f order₁ l = updateAt f order₂ l := by
  apply List.ext_getElem?
  intro j
  rw [getElem?_updateAt f hnodup, getElem?_updateAt f (hperm.nodup_iff.mp hnodup)]
  simp only [hperm.mem_iff]

/-- Updates that carry what was computed for their position beforehand.  No
position comes twice, so each finds the element it was computed from. -/
theorem foldl_modify_eq_updateAt {β : Type} (f : Nat → α → α) (g : β → α → α)
    {pairs : List (Nat × β)} (hnodup : (pairs.map Prod.fst).Nodup) {l : List α}
    (h : ∀ pair ∈ pairs, ∀ a, l[pair.1]? = some a → g pair.2 a = f pair.1 a) :
    pairs.foldl (fun l pair => l.modify pair.1 (g pair.2)) l =
      updateAt f (pairs.map Prod.fst) l := by
  induction pairs generalizing l with
  | nil => rfl
  | cons pair pairs ih =>
      obtain ⟨hnot, htail⟩ := List.nodup_cons.mp hnodup
      have hhead : l.modify pair.1 (g pair.2) = l.modify pair.1 (f pair.1) := by
        apply List.ext_getElem?
        intro j
        rw [List.getElem?_modify, List.getElem?_modify]
        by_cases hj : pair.1 = j
        · subst hj
          cases ha : l[pair.1]? with
          | none => rfl
          | some a => simp [h pair List.mem_cons_self a ha]
        · simp only [hj, if_false]
      rw [List.foldl_cons, hhead, List.map_cons]
      refine ih htail fun later hlater a ha => ?_
      have hne : pair.1 ≠ later.1 := fun heq =>
        hnot (heq ▸ List.mem_map_of_mem hlater)
      rw [List.getElem?_modify] at ha
      simp only [hne, if_false, id_map'] at ha
      exact h later (List.mem_cons_of_mem _ hlater) a ha

/-- Only what an update does to the elements that are there matters. -/
theorem updateAt_congr {f g : Nat → α → α} {order : List Nat} (hnodup : order.Nodup) {l : List α}
    (h : ∀ i ∈ order, ∀ a, l[i]? = some a → f i a = g i a) :
    updateAt f order l = updateAt g order l := by
  apply List.ext_getElem?
  intro j
  rw [getElem?_updateAt f hnodup, getElem?_updateAt g hnodup]
  by_cases hj : j ∈ order
  · rw [if_pos hj, if_pos hj]
    cases ha : l[j]? with
    | none => rfl
    | some a => rw [Option.map_some, Option.map_some, h j hj a ha]
  · rw [if_neg hj, if_neg hj]

/-- Positions whose update changes nothing may be left out. -/
theorem updateAt_of_subset {f : Nat → α → α} {small big : List Nat} (hsmall : small.Nodup)
    (hbig : big.Nodup) (hsub : ∀ i ∈ small, i ∈ big) (hid : ∀ i, i ∉ small → ∀ a, f i a = a)
    (l : List α) : updateAt f small l = updateAt f big l := by
  apply List.ext_getElem?
  intro j
  rw [getElem?_updateAt f hsmall, getElem?_updateAt f hbig]
  by_cases hj : j ∈ small
  · rw [if_pos hj, if_pos (hsub j hj)]
  · rw [if_neg hj]
    split
    · cases l[j]? with
      | none => rfl
      | some a => rw [Option.map_some, hid j hj]
    · rfl

/-- A function that looks up its value for each key. -/
theorem exists_lookup {β γ : Type} (default : γ) (g : β → γ) {pairs : List (Nat × β)}
    (hnodup : (pairs.map Prod.fst).Nodup) :
    ∃ f : Nat → γ, (∀ pair ∈ pairs, f pair.1 = g pair.2) ∧
      ∀ i, i ∉ pairs.map Prod.fst → f i = default := by
  induction pairs with
  | nil => exact ⟨fun _ => default, by simp, fun _ _ => rfl⟩
  | cons pair pairs ih =>
      obtain ⟨hnot, htail⟩ := List.nodup_cons.mp hnodup
      obtain ⟨f, hpairs, hdefault⟩ := ih htail
      refine ⟨Function.update f pair.1 (g pair.2), ?_, ?_⟩
      · intro other hother
        cases List.mem_cons.mp hother with
        | inl heq => rw [heq, Function.update_self]
        | inr hmem =>
            have hne : other.1 ≠ pair.1 := fun heq => hnot (heq ▸ List.mem_map_of_mem hmem)
            rw [Function.update_of_ne hne, hpairs other hmem]
      · intro i hi
        rw [List.map_cons, List.mem_cons, not_or] at hi
        rw [Function.update_of_ne hi.1, hdefault i hi.2]

/-! ## pieces -/

/-- The `index`-th piece of `size` elements. -/
def piece (size : Nat) (l : List α) (index : Nat) : List α := (l.drop (index * size)).take size

/-- The number of pieces, by ceiling division. -/
def pieceCount (size : Nat) (l : List α) : Nat := (l.length + size - 1) / size

theorem length_le_of_pieceCount {size : Nat} (hsize : 0 < size) (l : List α) :
    l.length ≤ pieceCount size l * size := by
  have h := Nat.lt_mul_div_succ (l.length + size - 1) hsize
  rw [Nat.mul_comm, Nat.add_mul] at h
  simp only [pieceCount]
  omega

/-- No piece that is counted is empty. -/
theorem piece_ne_nil {size index : Nat} (hsize : 0 < size) {l : List α}
    (hindex : index < pieceCount size l) : piece size l index ≠ [] := by
  intro hnil
  have hlen := congrArg List.length hnil
  rw [piece, List.length_take, List.length_drop, List.length_nil] at hlen
  unfold pieceCount at hindex
  have hle := Nat.div_mul_le_self (l.length + size - 1) size
  have hmul := Nat.mul_le_mul_right size (Nat.succ_le_of_lt hindex)
  rw [Nat.succ_mul] at hmul
  omega

/-- The first pieces are the front of the list. -/
theorem flatMap_piece_range (size : Nat) (l : List α) (count : Nat) :
    (List.range count).flatMap (piece size l) = l.take (count * size) := by
  induction count with
  | zero => simp
  | succ count ih =>
      rw [List.range_succ, List.flatMap_append, ih, List.flatMap_singleton, piece,
        Nat.add_mul, Nat.one_mul, List.take_add]

/-- **Every element is in exactly one piece**: all pieces, in any order, are
the list rearranged. -/
theorem flatMap_piece_perm {size : Nat} (hsize : 0 < size) (l : List α) {order : List Nat}
    (horder : order.Perm (List.range (pieceCount size l))) :
    (order.flatMap (piece size l)).Perm l := by
  have hall : (List.range (pieceCount size l)).flatMap (piece size l) = l := by
    rw [flatMap_piece_range, List.take_of_length_le (length_le_of_pieceCount hsize l)]
  exact (horder.flatMap_right _).trans (by rw [hall])

end Updates
