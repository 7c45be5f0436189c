import Mathlib.Data.List.Nodup
import Mathlib.Data.List.Perm.Lattice
import Mathlib.Data.List.Perm.Subperm

/-!
# Overlap

Contributions counted once and counted list by list.

`f` gives the contribution of each element.  A list without repetitions that
covers several lists contributes as much as these together exactly when no
contributing element is in two of them (`flatMap_perm_flatten_iff`).
-/

namespace Overlap

variable {α β : Type} (f : α → List β)

/-- The two lists share no contributing element. -/
def Apart (front back : List α) : Prop := ∀ a, f a ≠ [] → a ∈ front → a ∉ back

/-- Elements that contribute nothing may be left out. -/
theorem flatMap_filter (p : α → Bool) (hp : ∀ a, p a = false → f a = []) (l : List α) :
    (l.filter p).flatMap f = l.flatMap f := by
  induction l with
  | nil => rfl
  | cons a l ih =>
      cases hpa : p a with
      | true => rw [List.filter_cons_of_pos hpa, List.flatMap_cons, List.flatMap_cons, ih]
      | false =>
          rw [List.filter_cons_of_neg (by simp [hpa]), List.flatMap_cons, ih, hp a hpa,
            List.nil_append]

section

variable {f}

/-- Contributions add up, from one list of elements to the next. -/
theorem perm_append_flatMap {l l₁ l₂ own₁ own₂ : List β} {new₁ new₂ : List α}
    (h₁ : l₁.Perm (l ++ (own₁ ++ new₁.flatMap f))) (h₂ : l₂.Perm (l₁ ++ (own₂ ++ new₂.flatMap f))) :
    l₂.Perm (l ++ ((own₁ ++ own₂) ++ (new₂ ++ new₁).flatMap f)) := by
  refine h₂.trans ((h₁.append_right _).trans ?_)
  rw [List.flatMap_append, List.append_assoc, List.append_assoc, List.append_assoc]
  refine ((List.perm_append_comm.trans ?_).append_left _).append_left _
  rw [List.append_assoc]

/-- What comes besides may be the contribution of one more element. -/
theorem perm_append_flatMap_singleton {l l₁ : List β} {new : List α} {a : α}
    (h : l₁.Perm (l ++ (f a ++ new.flatMap f))) :
    l₁.Perm (l ++ ([] ++ (new ++ [a]).flatMap f)) := by
  refine h.trans (List.Perm.append_left _ ?_)
  rw [List.nil_append, List.flatMap_append, List.flatMap_singleton]
  exact List.perm_append_comm

/-- No contributing element is repeated exactly when each list has none and
no two lists share one. -/
theorem nodup_filter_flatten {lists : List (List α)} (hnodup : ∀ l ∈ lists, l.Nodup) :
    (lists.flatten.filter fun a => !(f a).isEmpty).Nodup ↔ lists.Pairwise (Apart f) := by
  rw [List.filter_flatten, List.nodup_flatten]
  have heach : ∀ l ∈ lists.map (List.filter fun a => !(f a).isEmpty), l.Nodup := by
    intro l hl
    obtain ⟨whole, hwhole, rfl⟩ := List.mem_map.mp hl
    exact (hnodup whole hwhole).filter _
  rw [and_iff_right heach, List.pairwise_map]
  refine List.Pairwise.iff fun front back =>
    ⟨fun h a ha hfront hback => ?_, fun h a hfront hback => ?_⟩
  · have hp : (!(f a).isEmpty) = true := by simpa using ha
    exact h (List.mem_filter.mpr ⟨hfront, hp⟩) (List.mem_filter.mpr ⟨hback, hp⟩)
  · obtain ⟨hfront, hp⟩ := List.mem_filter.mp hfront
    exact h a (by simpa using hp) hfront (List.mem_filter.mp hback).1

/-- A sublist of contributing elements misses at least one part of the
contribution for each element it leaves out. -/
theorem length_flatMap_of_sublist {part whole : List α} (h : part.Sublist whole)
    (hne : ∀ a ∈ whole, f a ≠ []) :
    (part.flatMap f).length + whole.length ≤ (whole.flatMap f).length + part.length := by
  induction h with
  | slnil => exact Nat.le_refl _
  | cons a _ ih =>
      have := ih fun b hb => hne b (List.mem_cons_of_mem _ hb)
      have hpos := List.length_pos_iff.mpr (hne a List.mem_cons_self)
      rw [List.flatMap_cons, List.length_append, List.length_cons]
      omega
  | cons_cons a _ ih =>
      have := ih fun b hb => hne b (List.mem_cons_of_mem _ hb)
      rw [List.flatMap_cons, List.flatMap_cons, List.length_append, List.length_append,
        List.length_cons, List.length_cons]
      omega

/-- **Counting once and counting list by list agree exactly when no
contributing element is in two lists.** -/
theorem flatMap_perm_flatten_iff {whole : List α} {lists : List (List α)} (hwhole : whole.Nodup)
    (hnodup : ∀ l ∈ lists, l.Nodup)
    (hmem : ∀ a, f a ≠ [] → (a ∈ whole ↔ ∃ l ∈ lists, a ∈ l)) :
    (whole.flatMap f).Perm (lists.flatten.flatMap f) ↔ lists.Pairwise (Apart f) := by
  have hp : ∀ a, (!(f a).isEmpty) = false → f a = [] := fun a ha => by simpa using ha
  rw [← nodup_filter_flatten hnodup, ← flatMap_filter f _ hp whole,
    ← flatMap_filter f _ hp lists.flatten]
  have hnodupWhole := hwhole.filter fun a => !(f a).isEmpty
  have hsame : ∀ a, a ∈ whole.filter (fun a => !(f a).isEmpty) ↔
      a ∈ lists.flatten.filter fun a => !(f a).isEmpty := by
    intro a
    rw [List.mem_filter, List.mem_filter, List.mem_flatten]
    exact and_congr_left fun ha => hmem a (by simpa using ha)
  constructor
  · intro hperm
    -- the whole is contained, and no contributing element can be left over
    obtain ⟨part, hpart, hsub⟩ := hnodupWhole.subperm fun a ha => (hsame a).mp ha
    have hcount := length_flatMap_of_sublist hsub fun a ha => by
      simpa using (List.mem_filter.mp ha).2
    have hlength := hperm.length_eq
    rw [← (hpart.flatMap_right f).length_eq] at hlength
    rw [← hsub.eq_of_length_le (by omega)]
    exact hpart.nodup_iff.mpr hnodupWhole
  · intro hnodupLists
    exact ((List.perm_ext_iff_of_nodup hnodupWhole hnodupLists).mpr hsame).flatMap_right f

end

theorem exists_left_of_forall₂ {γ : Type} {related : γ → List α → Prop} {roots : List γ}
    {lists : List (List α)} (h : List.Forall₂ related roots lists) {l : List α} (hl : l ∈ lists) :
    ∃ root ∈ roots, related root l := by
  induction h with
  | nil => cases hl
  | cons hhead _ ih =>
      rcases List.mem_cons.mp hl with rfl | hmem
      · exact ⟨_, List.mem_cons_self, hhead⟩
      · obtain ⟨root, hroot, hrelated⟩ := ih hmem
        exact ⟨root, List.mem_cons_of_mem _ hroot, hrelated⟩

theorem exists_right_of_forall₂ {γ : Type} {related : γ → List α → Prop} {roots : List γ}
    {lists : List (List α)} (h : List.Forall₂ related roots lists) {root : γ}
    (hroot : root ∈ roots) : ∃ l ∈ lists, related root l := by
  induction h with
  | nil => cases hroot
  | cons hhead _ ih =>
      rcases List.mem_cons.mp hroot with rfl | hmem
      · exact ⟨_, List.mem_cons_self, hhead⟩
      · obtain ⟨l, hl, hrelated⟩ := ih hmem
        exact ⟨l, List.mem_cons_of_mem _ hl, hrelated⟩

/-- Related lists are pairwise apart together. -/
theorem pairwise_iff_of_forall₂ {γ : Type} {related : γ → List α → Prop} {p : γ → γ → Prop}
    {q : List α → List α → Prop} {roots : List γ} {lists : List (List α)}
    (h : List.Forall₂ related roots lists)
    (hpq : ∀ a b la lb, related a la → related b lb → (p a b ↔ q la lb)) :
    roots.Pairwise p ↔ lists.Pairwise q := by
  induction h with
  | nil => exact ⟨fun _ => .nil, fun _ => .nil⟩
  | @cons a la roots lists hhead htail ih =>
      rw [List.pairwise_cons, List.pairwise_cons, ih]
      refine and_congr_left fun _ => ⟨fun hall lb hlb => ?_, fun hall b hb => ?_⟩
      · obtain ⟨b, hb, hrelated⟩ := exists_left_of_forall₂ htail hlb
        exact (hpq a b la lb hhead hrelated).mp (hall b hb)
      · obtain ⟨lb, hlb, hrelated⟩ := exists_right_of_forall₂ htail hb
        exact (hpq a b la lb hhead hrelated).mpr (hall lb hlb)

end Overlap
