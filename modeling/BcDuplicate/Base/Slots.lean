import Mathlib.Data.List.Induction

/-!
# A slot that keeps the last owner's value

A slot holds a value and its owner.  A request of the owner finds the value
there; a request of anyone else replaces both by its own.

The owner of a slot is the one who asked last (`owner_run`), and the value is
the one brought by the first of that owner's requests since anyone else's
(`run_streak`).
-/

namespace Slots

variable {ι α : Type} [DecidableEq ι]

/-- One request: its owner and the value it brings. -/
def step (slot : Option (ι × α)) (request : ι × α) : Option (ι × α) :=
  match slot with
  | none => some request
  | some held => if held.1 = request.1 then some held else some request

/-- Requests one after another, on a slot that is empty at first. -/
def run (requests : List (ι × α)) : Option (ι × α) := requests.foldl step none

theorem run_concat (requests : List (ι × α)) (request : ι × α) :
    run (requests ++ [request]) = step (run requests) request := by
  rw [run, List.foldl_append]
  rfl

/-- A request of the owner leaves the slot as it is. -/
theorem step_of_owner {held request : ι × α} (howner : held.1 = request.1) :
    step (some held) request = some held :=
  if_pos howner

/-- A request of anyone else takes the slot. -/
theorem step_of_other {slot : Option (ι × α)} {request : ι × α}
    (hother : slot.map Prod.fst ≠ some request.1) : step slot request = some request := by
  cases slot with
  | none => rfl
  | some held =>
    have hne : held.1 ≠ request.1 := fun h => hother (congrArg some h)
    exact if_neg hne

theorem owner_step (slot : Option (ι × α)) (request : ι × α) :
    (step slot request).map Prod.fst = some request.1 := by
  by_cases howner : slot.map Prod.fst = some request.1
  · obtain ⟨held, rfl, hheld⟩ := Option.map_eq_some_iff.mp howner
    rw [step_of_owner hheld]
    exact howner
  · rw [step_of_other howner]
    rfl

/-- **The owner is the one who asked last.** -/
theorem owner_run (requests : List (ι × α)) :
    (run requests).map Prod.fst = requests.getLast?.map Prod.fst := by
  induction requests using List.reverseRecOn with
  | nil => rfl
  | append_singleton requests request ih =>
    rw [run_concat, owner_step, List.getLast?_concat]
    rfl

/-- What is held was brought by a request. -/
theorem mem_of_run {requests : List (ι × α)} {held : ι × α} (hheld : run requests = some held) :
    held ∈ requests := by
  induction requests using List.reverseRecOn with
  | nil => cases hheld
  | append_singleton requests request ih =>
    rw [run_concat] at hheld
    by_cases howner : (run requests).map Prod.fst = some request.1
    · obtain ⟨kept, hkept, hsame⟩ := Option.map_eq_some_iff.mp howner
      rw [hkept, step_of_owner hsame] at hheld
      exact List.mem_append_left [request] (ih (hkept.trans hheld))
    · rw [step_of_other howner] at hheld
      obtain rfl := Option.some.inj hheld
      exact List.mem_append_right requests (List.mem_singleton_self _)

/-- **The value is the one of the first request of the streak**: later requests
of the same owner do not replace it. -/
theorem run_streak {before between : List (ι × α)} {first : ι × α}
    (hbefore : before.getLast?.map Prod.fst ≠ some first.1)
    (hbetween : ∀ request ∈ between, request.1 = first.1) :
    run (before ++ first :: between) = some first := by
  induction between using List.reverseRecOn with
  | nil =>
    rw [run_concat, step_of_other (owner_run before ▸ hbefore)]
  | append_singleton between request ih =>
    obtain ⟨hearlier, hlast⟩ := List.forall_mem_append.mp hbetween
    have howner := hlast request (List.mem_singleton_self request)
    rw [← List.cons_append, ← List.append_assoc, run_concat, ih hearlier,
      step_of_owner howner.symm]

end Slots
