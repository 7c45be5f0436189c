import Mathlib.Data.List.Nodup
import Mathlib.Data.Sum.Basic
import Mathlib.Logic.Function.Basic

/-!
# Resources that are acquired and released

A program's calls that acquire and release resources, in order, and what is held
behind them.  `run` is `none` as soon as a call is wrong: something is acquired
while it is held, or released while it is not, or a null pointer is released.  So a
sequence that runs releases nothing twice, and what it does not release is what is
held at its end.
-/

namespace Resources

variable {ρ : Type} [DecidableEq ρ]

/-- One call. -/
inductive Act (ρ : Type)
  | acquire (r : ρ)
  | release (r : ρ)
  | releaseNull
deriving DecidableEq, Repr

/-- What is held. -/
abbrev Held (ρ : Type) := ρ → Bool

/-- Nothing is held. -/
def nothing : Held ρ := fun _ => false

/-- What is held behind a call; `none`: the call is wrong. -/
def step (act : Act ρ) (held : Held ρ) : Option (Held ρ) :=
  match act with
  | .acquire r => if held r then none else some (Function.update held r true)
  | .release r => if held r then some (Function.update held r false) else none
  | .releaseNull => none

/-- What is held behind calls in order. -/
def run : List (Act ρ) → Held ρ → Option (Held ρ)
  | [], held => some held
  | act :: acts, held => (step act held).bind (run acts)

theorem run_nil (held : Held ρ) : run [] held = some held := rfl

/-! ## calls one after another -/

theorem run_append {front back : List (Act ρ)} {held held' : Held ρ}
    (hfront : run front held = some held') : run (front ++ back) held = run back held' := by
  induction front generalizing held with
  | nil => rw [List.nil_append, ← Option.some.inj hfront]
  | cons act front ih =>
    rw [run] at hfront
    obtain ⟨next, hnext, hfront⟩ := Option.bind_eq_some_iff.mp hfront
    rw [List.cons_append, run, hnext, Option.bind_some, ih hfront]

theorem run_append_eq {front back : List (Act ρ)} {held held' held'' : Held ρ}
    (hfront : run front held = some held') (hback : run back held' = some held'') :
    run (front ++ back) held = some held'' :=
  (run_append hfront).trans hback

/-! ## single calls -/

theorem run_acquire {r : ρ} {held held' : Held ρ} (hfree : held r = false)
    (hheld : ∀ s, held' s = (decide (s = r) || held s)) : run [.acquire r] held = some held' := by
  have hstep : step (.acquire r) held = some held' := by
    rw [step, hfree]
    refine congrArg some (funext fun s => ?_)
    rw [hheld, Function.update_apply]
    by_cases hs : s = r
    · rw [if_pos hs, decide_eq_true hs, Bool.true_or]
    · rw [if_neg hs, decide_eq_false hs, Bool.false_or]
  rw [run, hstep, Option.bind_some, run_nil]

theorem run_release {r : ρ} {held held' : Held ρ} (hfree : held' r = false)
    (hheld : ∀ s, held s = (decide (s = r) || held' s)) : run [.release r] held = some held' := by
  have howned : held r = true := by
    rw [hheld, decide_eq_true rfl, Bool.true_or]
  have hstep : step (.release r) held = some held' := by
    rw [step, if_pos howned]
    refine congrArg some (funext fun s => ?_)
    rw [Function.update_apply]
    by_cases hs : s = r
    · rw [if_pos hs, hs, hfree]
    · rw [if_neg hs, hheld, decide_eq_false hs, Bool.false_or]
  rw [run, hstep, Option.bind_some, run_nil]

/-! ## through a pointer -/

/-- Release what a pointer points to, whether it is null or not. -/
def free : Option ρ → Act ρ
  | some r => .release r
  | none => .releaseNull

/-- Release what a pointer points to, unless it is null. -/
def freeUnlessNull : Option ρ → List (Act ρ)
  | some r => [.release r]
  | none => []

/-- What is held, and what a pointer points to. -/
def holding (rest : Held ρ) : Option ρ → Held ρ
  | some r => Function.update rest r true
  | none => rest

theorem holding_of_ne {rest : Held ρ} {pointer : Option ρ} {r : ρ}
    (hne : ∀ s, pointer = some s → r ≠ s) : holding rest pointer r = rest r := by
  cases pointer with
  | none => rfl
  | some s => exact Function.update_of_ne (hne s rfl) true rest

theorem run_acquire_holding {rest : Held ρ} {r : ρ} (hfree : rest r = false) :
    run [.acquire r] rest = some (holding rest (some r)) := by
  rw [run, step, hfree]
  rfl

theorem run_release_holding {rest : Held ρ} {r : ρ} (hfree : rest r = false) :
    run [.release r] (holding rest (some r)) = some rest := by
  have howned : holding rest (some r) r = true := Function.update_self ..
  have hback : Function.update (holding rest (some r)) r false = rest := by
    rw [holding, Function.update_idem, ← hfree, Function.update_eq_self]
  rw [run, step, if_pos howned, hback]
  rfl

theorem run_free_holding {rest : Held ρ} {pointer : Option ρ} (hsome : pointer.isSome)
    (hfree : ∀ r, pointer = some r → rest r = false) :
    run [free pointer] (holding rest pointer) = some rest := by
  cases pointer with
  | none => cases hsome
  | some r => exact run_release_holding (hfree r rfl)

theorem run_freeUnlessNull {rest : Held ρ} {pointer : Option ρ}
    (hfree : ∀ r, pointer = some r → rest r = false) :
    run (freeUnlessNull pointer) (holding rest pointer) = some rest := by
  cases pointer with
  | none => rfl
  | some r => exact run_release_holding (hfree r rfl)

/-! ## many at once -/

theorem run_release_all {rs : List ρ} (hnodup : rs.Nodup) {held held' : Held ρ}
    (hfree : ∀ r ∈ rs, held' r = false) (hheld : ∀ s, held s = (decide (s ∈ rs) || held' s)) :
    run (rs.map .release) held = some held' := by
  induction rs generalizing held with
  | nil =>
    refine congrArg some (funext fun s => ?_)
    rw [hheld, decide_eq_false List.not_mem_nil, Bool.false_or]
  | cons r rs ih =>
    obtain ⟨hr, hrs⟩ := List.nodup_cons.mp hnodup
    obtain ⟨hhead, htail⟩ := List.forall_mem_cons.mp hfree
    have hfirst : run [.release r] held = some fun s => decide (s ∈ rs) || held' s := by
      refine run_release ?_ fun s => ?_
      · rw [decide_eq_false hr, hhead, Bool.false_or]
      · simp only [hheld, List.mem_cons, Bool.decide_or, Bool.or_assoc]
    exact run_append_eq hfirst (ih hrs htail fun s => rfl)

/-! ## two kinds of resources -/

section Sum

variable {σ : Type} [DecidableEq σ]

/-- The same call on a resource under another name. -/
def Act.map {ρ σ : Type} (f : ρ → σ) : Act ρ → Act σ
  | .acquire r => .acquire (f r)
  | .release r => .release (f r)
  | .releaseNull => .releaseNull

theorem step_map_inl (act : Act ρ) (left : Held ρ) (right : Held σ) :
    step (act.map Sum.inl) (Sum.elim left right) =
      (step act left).map fun left => Sum.elim left right := by
  cases act with
  | acquire r | release r =>
    simp only [Act.map, step, Sum.elim_inl, Sum.update_elim_inl]
    split <;> rfl
  | releaseNull => rfl

theorem step_map_inr (act : Act σ) (left : Held ρ) (right : Held σ) :
    step (act.map Sum.inr) (Sum.elim left right) =
      (step act right).map fun right => Sum.elim left right := by
  cases act with
  | acquire r | release r =>
    simp only [Act.map, step, Sum.elim_inr, Sum.update_elim_inr]
    split <;> rfl
  | releaseNull => rfl

/-- Calls on resources of one kind leave those of the other kind alone. -/
theorem run_map_inl {acts : List (Act ρ)} {left left' : Held ρ} (right : Held σ)
    (hrun : run acts left = some left') :
    run (acts.map (Act.map Sum.inl)) (Sum.elim left right) = some (Sum.elim left' right) := by
  induction acts generalizing left with
  | nil => rw [List.map_nil, run_nil, Option.some.inj hrun]
  | cons act acts ih =>
    rw [run] at hrun
    obtain ⟨next, hnext, hrest⟩ := Option.bind_eq_some_iff.mp hrun
    rw [List.map_cons, run, step_map_inl, hnext, Option.map_some, Option.bind_some, ih hrest]

theorem run_map_inr {acts : List (Act σ)} (left : Held ρ) {right right' : Held σ}
    (hrun : run acts right = some right') :
    run (acts.map (Act.map Sum.inr)) (Sum.elim left right) = some (Sum.elim left right') := by
  induction acts generalizing right with
  | nil => rw [List.map_nil, run_nil, Option.some.inj hrun]
  | cons act acts ih =>
    rw [run] at hrun
    obtain ⟨next, hnext, hrest⟩ := Option.bind_eq_some_iff.mp hrun
    rw [List.map_cons, run, step_map_inr, hnext, Option.map_some, Option.bind_some, ih hrest]

end Sum

end Resources
