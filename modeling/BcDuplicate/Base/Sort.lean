import BcDuplicate.Base.Runs
import Mathlib.Data.List.Sort

/-!
# Sorting by a strict comparison

A sort routine that takes a `less_than` callback.  `SortFn` is any such
routine together with what its callers rely on: it returns a permutation of
its input, and when the callback is a strict weak order no element comes
after a larger one.  Nothing is said about the order of equal elements.
-/

namespace Sorting

/-- A strict weak order given by a boolean `less_than`. -/
structure StrictWeak {α : Type} (lt : α → α → Bool) : Prop where
  asymm : ∀ a b, lt a b = true → lt b a = false
  trans : ∀ a b c, lt b a = false → lt c b = false → lt c a = false

/-- The comparison distinguishes exactly the elements with different keys. -/
structure OrdersBy {α κ : Type} (lt : α → α → Bool) (key : α → κ) : Prop
    extends StrictWeak lt where
  key_eq_iff : ∀ a b, key a = key b ↔ lt a b = false ∧ lt b a = false

/-- A sort routine and what it promises. -/
structure SortFn where
  run : {α : Type} → (α → α → Bool) → List α → List α
  perm : ∀ {α : Type} (lt : α → α → Bool) (l : List α), (run lt l).Perm l
  sorted : ∀ {α : Type} (lt : α → α → Bool) (l : List α), StrictWeak lt →
    (run lt l).Pairwise (fun a b => lt b a = false)

@[simp] theorem SortFn.length_run (sort : SortFn) {α : Type} (lt : α → α → Bool) (l : List α) :
    (sort.run lt l).length = l.length := (sort.perm lt l).length_eq

@[simp] theorem SortFn.mem_run (sort : SortFn) {α : Type} (lt : α → α → Bool) (l : List α) (a : α) :
    a ∈ sort.run lt l ↔ a ∈ l := (sort.perm lt l).mem_iff

/-- After a sort, elements of equal keys are adjacent. -/
theorem SortFn.adjacent_run (sort : SortFn) {α κ : Type} {lt : α → α → Bool} {key : α → κ}
    (h : OrdersBy lt key) (l : List α) : Runs.Adjacent key (sort.run lt l) := by
  refine Runs.adjacent_of_pairwise (sort.sorted lt l h.toStrictWeak) fun a b c hab hbc he => ?_
  have hca := ((h.key_eq_iff a c).mp he).1
  exact (h.key_eq_iff b a).mpr ⟨hab, h.trans b c a hbc hca⟩

/-- Insertion sort, the routine the concrete runs below use. -/
def insertionSort : SortFn where
  run lt l := l.insertionSort (fun a b => lt b a = false)
  perm lt l := List.perm_insertionSort _ l
  sorted lt l h := by
    have total : Std.Total (fun a b => lt b a = false) := ⟨fun a b => by
      cases hba : lt b a with
      | false => exact Or.inl rfl
      | true => exact Or.inr (h.asymm b a hba)⟩
    have trans : IsTrans _ (fun a b => lt b a = false) := ⟨fun a b c => h.trans a b c⟩
    exact List.pairwise_insertionSort _ l

end Sorting
