import BcDuplicate.Worker
import BcDuplicate.Grouping.ByHash

/-!
# BcDuplicate.Worker.Candidates

The candidates of a pass.  Flattening groups that do not overlap lists every
position of every group once (`mem_candidateIndices`, `nodup_candidateIndices`),
and ordering the list by size keeps it a rearrangement.  Under any schedule
the iterations together work through the whole list (`scheduled_perm`,
`scheduled_pieces_perm`).
-/

namespace BcDuplicate

open Runs
open Sorting
open Updates

/-! ## the flattened groups -/

theorem mem_candidateIndices {groups : List Group} {i : Nat} :
    i ∈ candidateIndices groups ↔ ∃ group ∈ groups, group.Contains i := by
  unfold candidateIndices
  rw [List.mem_flatMap]
  refine exists_congr fun group => and_congr_right fun _ => ?_
  simp only [List.mem_map, List.mem_range, Group.Contains, Group.run, Run.Contains]
  constructor
  · rintro ⟨offset, hoffset, rfl⟩
    omega
  · exact fun h => ⟨i - group.startIndex, by omega, by omega⟩

/-- Candidates are positions of the array. -/
theorem lt_of_mem_candidateIndices {groups : List Group} {n i : Nat}
    (hsep : SeparateGroups groups n) (hi : i ∈ candidateIndices groups) : i < n := by
  obtain ⟨group, hgroup, hcontains⟩ := mem_candidateIndices.mp hi
  exact (hsep.inBounds _ (List.mem_map_of_mem hgroup)).lt_of_contains hcontains

theorem length_candidateIndices (groups : List Group) :
    (candidateIndices groups).length = totalCandidates groups := by
  unfold candidateIndices totalCandidates
  rw [List.length_flatMap]
  simp only [List.length_map, List.length_range]

/-- Groups that do not overlap list no position twice. -/
theorem nodup_candidateIndices {groups : List Group} {n : Nat} (hsep : SeparateGroups groups n) :
    (candidateIndices groups).Nodup := by
  unfold candidateIndices
  rw [List.nodup_flatMap]
  constructor
  · intro group _
    exact List.nodup_range.map (fun a b hab => by simpa using hab)
  · have hdisjoint := hsep.disjoint
    rw [List.pairwise_map] at hdisjoint
    refine hdisjoint.imp fun {g h} hgh => ?_
    intro i hi hi'
    simp only [List.mem_map, List.mem_range] at hi hi'
    obtain ⟨a, ha, rfl⟩ := hi
    obtain ⟨b, hb, heq⟩ := hi'
    refine hgh (g.startIndex + a) ?_
    simp only [Group.run, Run.Contains]
    omega

/-- A pass as its caller sees it that does `update i` to the candidate at
position `i`. -/
def updatePass (update : Nat → FileEntry → FileEntry) (entries : List FileEntry)
    (groups : List Group) : PassResult :=
  .done (updateAt update (candidateIndices groups) entries) (totalCandidates groups)

section Sorted

variable (sort : SortFn) (entries : List FileEntry)

theorem perm_workerSortIndices (indices : List Nat) :
    (workerSortIndicesBySizeDesc sort entries indices).Perm indices := sort.perm _ _

end Sorted

/-! ## the schedule -/

/-- The elements that iterations fetch, in the order of the schedule. -/
def scheduled {α : Type} (l : List α) (order : List (Nat × Nat)) : List α :=
  order.filterMap fun step => l[step.1]?

/-- Fetching every position in order gives the list back. -/
theorem filterMap_getElem?_range {α : Type} (l : List α) :
    ((List.range l.length).filterMap fun i => l[i]?) = l := by
  induction l with
  | nil => rfl
  | cons x l ih =>
      rw [List.length_cons, List.range_succ_eq_map, List.filterMap_cons, List.filterMap_map]
      exact congrArg (x :: ·) ih

theorem length_scheduled {α : Type} {l : List α} {order : List (Nat × Nat)}
    (horder : ∀ step ∈ order, step.1 < l.length) : (scheduled l order).length = order.length := by
  induction order with
  | nil => rfl
  | cons step order ih =>
      have hstep := List.getElem?_eq_getElem (horder step List.mem_cons_self)
      have htail := ih fun s hs => horder s (List.mem_cons_of_mem _ hs)
      unfold scheduled at htail ⊢
      rw [List.filterMap_cons, hstep]
      exact congrArg (· + 1) htail

/-- A schedule runs the iterations it is asked for, each once. -/
theorem fst_lt_of_mem_run (schedule : Schedule) {count : Nat} {step : Nat × Nat}
    (hstep : step ∈ schedule.run count) : step.1 < count :=
  List.mem_range.mp ((schedule.perm count).mem_iff.mp (List.mem_map_of_mem hstep))

theorem length_run (schedule : Schedule) (count : Nat) : (schedule.run count).length = count := by
  have h := (schedule.perm count).length_eq
  rwa [List.length_map, List.length_range] at h

theorem run_zero (schedule : Schedule) : schedule.run 0 = [] :=
  List.map_eq_nil_iff.mp (schedule.perm 0).eq_nil

/-- **Each candidate is fetched by exactly one iteration.** -/
theorem scheduled_perm {α : Type} (schedule : Schedule) (l : List α) :
    (scheduled l (schedule.run l.length)).Perm l := by
  have hfetch : scheduled l (schedule.run l.length) =
      ((schedule.run l.length).map Prod.fst).filterMap fun i => l[i]? := by
    rw [List.filterMap_map]
    rfl
  rw [hfetch]
  exact ((schedule.perm l.length).filterMap _).trans (.of_eq (filterMap_getElem?_range l))

/-- **Each candidate lies in the batch of exactly one iteration.** -/
theorem scheduled_pieces_perm {α : Type} (schedule : Schedule) {size : Nat} (hsize : 0 < size)
    (l : List α) :
    ((schedule.run (pieceCount size l)).flatMap fun step => piece size l step.1).Perm l := by
  have h := flatMap_piece_perm hsize l (schedule.perm (pieceCount size l))
  rwa [List.flatMap_map] at h

end BcDuplicate
