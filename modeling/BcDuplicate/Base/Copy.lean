import BcDuplicate.Base.Slices

/-!
# Copying inside an array

A routine that copies a range of an array to another place of it.  `CopyFn` is
any such routine together with what every copy promises: the array keeps its
slots, and a range is copied to one that has no slot in common with it.  What
becomes of ranges that overlap is not said; a routine that copies these too, as
if through a second array, `Moves`.
-/

namespace Copying

open Runs

variable {α : Type}

/-- The `count` elements from `source` on, put at `destination`. -/
def moved (array : List α) (destination source count : Nat) : List α :=
  array.take destination ++ (array.drop source).take count ++ array.drop (destination + count)

/-- Both ranges lie in the array. -/
structure InArray (array : List α) (destination source count : Nat) : Prop where
  destination : destination + count ≤ array.length
  source : source + count ≤ array.length

theorem InArray.length_moved {array : List α} {destination source count : Nat}
    (h : InArray array destination source count) :
    (moved array destination source count).length = array.length := by
  have hdestination := h.destination
  have hsource := h.source
  simp only [moved, List.length_append, List.length_take, List.length_drop]
  omega

/-- A copy routine and what it promises. -/
structure CopyFn where
  run : {α : Type} → List α → (destination source count : Nat) → List α
  length_run : ∀ {α : Type} {array : List α} {destination source count : Nat},
    InArray array destination source count →
      (run array destination source count).length = array.length
  copies : ∀ {α : Type} {array : List α} {destination source count : Nat},
    InArray array destination source count →
    Run.Disjoint ⟨destination, count⟩ ⟨source, count⟩ →
      run array destination source count = moved array destination source count

namespace CopyFn

/-- Ranges that overlap are copied too. -/
def Moves (copy : CopyFn) : Prop :=
  ∀ {α : Type} {array : List α} {destination source count : Nat},
    InArray array destination source count →
      copy.run array destination source count = moved array destination source count

/-- What a call leaves, by either of the two. -/
theorem run_eq_moved {copy : CopyFn} {array : List α} {destination source count : Nat}
    (hin : InArray array destination source count)
    (h : copy.Moves ∨ Run.Disjoint ⟨destination, count⟩ ⟨source, count⟩) :
    copy.run array destination source count = moved array destination source count := by
  rcases h with hmoves | hdisjoint
  · exact hmoves hin
  · exact copy.copies hin hdisjoint

end CopyFn

/-- The routine that copies as if through a second array. -/
def memmove : CopyFn where
  run := moved
  length_run h := h.length_moved
  copies _ _ := rfl

theorem moves_memmove : memmove.Moves := fun _ => rfl

end Copying
