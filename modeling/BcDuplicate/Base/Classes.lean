import BcDuplicate.Base.Slices
import Mathlib.Data.List.NodupEquivFin
import Mathlib.Data.Set.Basic
import Mathlib.Data.Set.Subsingleton

/-!
# Key classes

The classes of a key among the elements of a range, as ranges themselves.

`KeyClasses key range l classes` says that `classes` are exactly the classes
of two or more, each once and in order.  Where equal keys are adjacent the
scan finds them (`keyClasses_scanRuns`).
-/

namespace Runs

variable {α κ : Type}

/-- `r` is the class of the key value `k` in the range. -/
def IsClass (key : α → κ) (range : Run) (l : List α) (k : κ) (r : Run) : Prop :=
  ∀ i, r.Contains i ↔ range.Contains i ∧ (l[i]?).map key = some k

/-- The classes of two or more in the range, in order. -/
structure KeyClasses [DecidableEq κ] (key : α → κ) (range : Run) (l : List α)
    (classes : List Run) : Prop where
  two : ∀ r ∈ classes, 2 ≤ r.length
  isClass : ∀ r ∈ classes, ∃ k, IsClass key range l k r
  ordered : classes.Pairwise fun r s => r.start + r.length ≤ s.start
  complete : ∀ k, 2 ≤ ((slice range l).map key).count k → ∃ r ∈ classes, IsClass key range l k r

section Count

variable [DecidableEq κ] {key : α → κ} {l : List α} {k : κ}

/-- A value that occurs twice occurs at two positions. -/
theorem two_le_count_iff : 2 ≤ (l.map key).count k ↔
    ∃ i j : Nat, i ≠ j ∧ (l[i]?).map key = some k ∧ (l[j]?).map key = some k := by
  rw [← List.duplicate_iff_two_le_count, List.duplicate_iff_exists_distinct_get]
  constructor
  · rintro ⟨i, j, hij, hi, hj⟩
    refine ⟨i, j, Nat.ne_of_lt hij, ?_, ?_⟩
    · rw [← List.getElem?_map, List.getElem?_eq_getElem i.isLt, hi]
      rfl
    · rw [← List.getElem?_map, List.getElem?_eq_getElem j.isLt, hj]
      rfl
  · rintro ⟨i, j, hij, hi, hj⟩
    rw [← List.getElem?_map, List.getElem?_eq_some_iff] at hi hj
    obtain ⟨hil, hi⟩ := hi
    obtain ⟨hjl, hj⟩ := hj
    rcases Nat.lt_or_gt_of_ne hij with hlt | hlt
    · exact ⟨⟨i, hil⟩, ⟨j, hjl⟩, hlt, hi.symm, hj.symm⟩
    · exact ⟨⟨j, hjl⟩, ⟨i, hil⟩, hlt, hj.symm, hi.symm⟩

end Count

/-! ## classes as sets -/

/-- The classes of two or more, as sets of names; `pairs` names the elements
and gives their keys. -/
def classSets [DecidableEq κ] {β : Type} (pairs : List (β × κ)) : Set (Set β) :=
  {names | ∃ k, 2 ≤ (pairs.map Prod.snd).count k ∧ names = {x | (x, k) ∈ pairs}}

/-- The order of the elements does not matter. -/
theorem classSets_perm [DecidableEq κ] {β : Type} {front back : List (β × κ)}
    (h : front.Perm back) : classSets front = classSets back := by
  unfold classSets
  simp only [(h.map Prod.snd).count_eq, h.mem_iff]

/-- The classes of two or more elements of a set, by a key. -/
def properClasses {β : Type} (s : Set β) (key : β → κ) : Set (Set β) :=
  {names | names.Nontrivial ∧ ∃ k, names = {x | x ∈ s ∧ key x = k}}

/-- **The classes of a part** are those of the whole cut down to it. -/
theorem properClasses_subset {β : Type} {s t : Set β} (h : s ⊆ t) (key : β → κ) :
    properClasses s key =
      {names | names.Nontrivial ∧ ∃ more ∈ properClasses t key, names = more ∩ s} := by
  have hcut : ∀ k, {x | x ∈ t ∧ key x = k} ∩ s = {x | x ∈ s ∧ key x = k} := by
    intro k
    ext x
    constructor
    · rintro ⟨⟨_, hk⟩, hx⟩
      exact ⟨hx, hk⟩
    · rintro ⟨hx, hk⟩
      exact ⟨⟨h hx, hk⟩, hx⟩
  ext names
  constructor
  · rintro ⟨hnontrivial, k, rfl⟩
    refine ⟨hnontrivial, {x | x ∈ t ∧ key x = k}, ⟨?_, k, rfl⟩, (hcut k).symm⟩
    exact hnontrivial.mono fun x hx => ⟨h hx.1, hx.2⟩
  · rintro ⟨hnontrivial, _, ⟨_, k, rfl⟩, rfl⟩
    exact ⟨hnontrivial, k, hcut k⟩

/-- Keys renamed one to one have the same classes. -/
theorem properClasses_comp {β κ' : Type} {rename : κ → κ'} (h : Function.Injective rename)
    (s : Set β) (key : β → κ) : properClasses s (fun x => rename (key x)) = properClasses s key := by
  have hclass : ∀ k, {x | x ∈ s ∧ rename (key x) = rename k} = {x | x ∈ s ∧ key x = k} := by
    intro k
    ext x
    exact and_congr_right fun _ => h.eq_iff
  ext names
  constructor
  · rintro ⟨hnontrivial, k, rfl⟩
    obtain ⟨x, hx, hk⟩ := hnontrivial.nonempty
    exact ⟨hnontrivial, key x, hk ▸ hclass (key x)⟩
  · rintro ⟨hnontrivial, k, rfl⟩
    exact ⟨hnontrivial, rename k, (hclass k).symm⟩

/-- **Names that do not repeat** have the classes of their set. -/
theorem classSets_eq_properClasses [DecidableEq κ] {β : Type} {names : List β}
    (hnodup : names.Nodup) (key : β → κ) :
    classSets (names.map fun x => (x, key x)) = properClasses {x | x ∈ names} key := by
  have hkeys : (names.map fun x => (x, key x)).map Prod.snd = names.map key := by
    rw [List.map_map]
    rfl
  have hclass : ∀ k, {x | (x, k) ∈ names.map fun x => (x, key x)} =
      {x | x ∈ {x | x ∈ names} ∧ key x = k} := by
    intro k
    ext x
    rw [Set.mem_ofPred_eq, List.mem_map]
    constructor
    · rintro ⟨y, hy, hpair⟩
      obtain ⟨rfl, hk⟩ := Prod.mk.inj hpair
      exact ⟨hy, hk⟩
    · rintro ⟨hx, hk⟩
      exact ⟨x, hx, by rw [hk]⟩
  have htwo : ∀ k, 2 ≤ (names.map key).count k ↔
      {x | x ∈ {x | x ∈ names} ∧ key x = k}.Nontrivial := by
    intro k
    rw [two_le_count_iff]
    constructor
    · rintro ⟨i, j, hij, hi, hj⟩
      obtain ⟨x, hx, hkx⟩ := Option.map_eq_some_iff.mp hi
      obtain ⟨y, hy, hky⟩ := Option.map_eq_some_iff.mp hj
      refine ⟨x, ⟨List.mem_of_getElem? hx, hkx⟩, y, ⟨List.mem_of_getElem? hy, hky⟩, ?_⟩
      rintro rfl
      have hbound := (List.getElem?_eq_some_iff.mp hx).1
      exact hij ((List.getElem?_inj hbound hnodup).mp (hx.trans hy.symm))
    · rintro ⟨x, ⟨hx, hkx⟩, y, ⟨hy, hky⟩, hne⟩
      obtain ⟨i, hi⟩ := List.mem_iff_getElem?.mp hx
      obtain ⟨j, hj⟩ := List.mem_iff_getElem?.mp hy
      refine ⟨i, j, ?_, by rw [hi, ← hkx]; rfl, by rw [hj, ← hky]; rfl⟩
      rintro rfl
      exact hne (Option.some.inj (hi.symm.trans hj))
  ext t
  rw [classSets, properClasses, Set.mem_ofPred_eq, Set.mem_ofPred_eq, hkeys]
  constructor
  · rintro ⟨k, hcount, rfl⟩
    rw [hclass]
    exact ⟨(htwo k).mp hcount, k, rfl⟩
  · rintro ⟨hnontrivial, k, rfl⟩
    exact ⟨k, (htwo k).mpr hnontrivial, (hclass k).symm⟩

/-! ## the scan -/

section Scan

variable [DecidableEq κ] {key : α → κ} {range : Run} {l : List α}

/-- Positions of a range, counted from its start. -/
theorem getElem?_range {i : Nat} (hi : range.Contains i) :
    (slice range l)[i - range.start]? = l[i]? := by
  obtain ⟨hle, hlt⟩ := hi
  rw [getElem?_slice range l _ (by omega), Nat.add_sub_cancel' hle]

/-- Two positions of the range are in one kept run exactly when their keys
are equal. -/
theorem sameRun_iff_of_range (h : Adjacent key (slice range l)) (hin : range.InBounds l.length)
    {i j : Nat} (hij : i ≠ j) (hi : range.Contains i) (hj : range.Contains j) :
    SameRun (scanRuns key range.start (slice range l)) i j ↔
      (l[i]?).map key = (l[j]?).map key := by
  have hlen := length_slice range l hin
  rw [← getElem?_range hi, ← getElem?_range hj]
  obtain ⟨hile, hilt⟩ := hi
  obtain ⟨hjle, hjlt⟩ := hj
  have hscan := sameRun_scanRuns_iff key range.start (slice range l) h (i - range.start)
    (j - range.start) (by omega) (by omega) (by omega)
  rw [Nat.add_sub_cancel' hile, Nat.add_sub_cancel' hjle] at hscan
  rw [hscan, List.getElem?_eq_getElem (by omega), List.getElem?_eq_getElem (by omega),
    Option.map_some, Option.map_some, Option.some.injEq]

/-- Runs that share a position are one run. -/
theorem eq_of_contains_scanRuns {cursor : Nat} {r s : Run} (hr : r ∈ scanRuns key cursor l)
    (hs : s ∈ scanRuns key cursor l) {i : Nat} (hri : r.Contains i) (hsi : s.Contains i) :
    r = s := by
  obtain ⟨a, ha, rfl⟩ := List.mem_iff_getElem.mp hr
  obtain ⟨b, hb, rfl⟩ := List.mem_iff_getElem.mp hs
  have hordered := List.pairwise_iff_getElem.mp (pairwise_scanRuns key cursor l)
  simp only [Run.Contains] at hri hsi
  rcases Nat.lt_trichotomy a b with hab | hab | hab
  · have := hordered a b ha hb hab
    omega
  · simp only [hab]
  · have := hordered b a hb ha hab
    omega

/-- A run of a range holds positions of the range, two at least. -/
theorem contains_range_of_mem_scanRuns (hin : range.InBounds l.length) {r : Run}
    (hr : r ∈ scanRuns key range.start (slice range l)) :
    2 ≤ r.length ∧ ∀ i, r.Contains i → range.Contains i := by
  have hlen := length_slice range l hin
  obtain ⟨hstart, hend, htwo⟩ := bounds_of_mem_scanRuns key _ _ r hr
  refine ⟨htwo, fun i hi => ?_⟩
  simp only [Run.Contains] at hi ⊢
  omega

/-- A run holds every position with the key of one of its positions. -/
theorem isClass_of_mem_scanRuns (h : Adjacent key (slice range l))
    (hin : range.InBounds l.length) {r : Run}
    (hr : r ∈ scanRuns key range.start (slice range l)) {i : Nat} {k : κ} (hi : r.Contains i)
    (hk : (l[i]?).map key = some k) : IsClass key range l k r := by
  intro j
  have hrange := (contains_range_of_mem_scanRuns hin hr).2
  by_cases hij : i = j
  · subst hij
    exact ⟨fun hj => ⟨hrange i hj, hk⟩, fun _ => hi⟩
  constructor
  · intro hj
    refine ⟨hrange j hj, ?_⟩
    rw [← hk]
    exact ((sameRun_iff_of_range h hin hij (hrange i hi) (hrange j hj)).mp ⟨r, hr, hi, hj⟩).symm
  · rintro ⟨hj, hkj⟩
    obtain ⟨s, hs, hsi, hsj⟩ := (sameRun_iff_of_range h hin hij (hrange i hi) hj).mpr
      (hk.trans hkj.symm)
    rwa [eq_of_contains_scanRuns hr hs hi hsi]

/-- **The scan of a range finds its key classes.** -/
theorem keyClasses_scanRuns (h : Adjacent key (slice range l)) (hin : range.InBounds l.length) :
    KeyClasses key range l (scanRuns key range.start (slice range l)) := by
  have hlen := length_slice range l hin
  refine ⟨fun r hr => (contains_range_of_mem_scanRuns hin hr).1, fun r hr => ?_,
    pairwise_scanRuns key _ _, fun k hk => ?_⟩
  · obtain ⟨htwo, hrange⟩ := contains_range_of_mem_scanRuns hin hr
    have hfirst : r.Contains r.start := ⟨Nat.le_refl _, by omega⟩
    have hlt := hin.lt_of_contains (hrange _ hfirst)
    have hkey : (l[r.start]?).map key = some (key l[r.start]) := by
      rw [List.getElem?_eq_getElem hlt]
      rfl
    exact ⟨_, isClass_of_mem_scanRuns h hin hr hfirst hkey⟩
  · obtain ⟨i, j, hij, hi, hj⟩ := two_le_count_iff.mp hk
    have hlt : ∀ {a : Nat}, ((slice range l)[a]?).map key = some k → a < range.length := by
      intro a ha
      obtain ⟨e, he, _⟩ := Option.map_eq_some_iff.mp ha
      have := (List.getElem?_eq_some_iff.mp he).1
      omega
    have hcontains : ∀ {a : Nat}, a < range.length → range.Contains (range.start + a) := by
      intro a ha
      exact ⟨by omega, by omega⟩
    have hshift : ∀ {a : Nat}, ((slice range l)[a]?).map key = some k →
        (l[range.start + a]?).map key = some k := by
      intro a ha
      rwa [getElem?_slice range l a (hlt ha)] at ha
    obtain ⟨r, hr, hri, _⟩ := (sameRun_iff_of_range h hin
      (by omega : range.start + i ≠ range.start + j) (hcontains (hlt hi)) (hcontains (hlt hj))).mpr
      ((hshift hi).trans (hshift hj).symm)
    exact ⟨r, hr, isClass_of_mem_scanRuns h hin hr hri (hshift hi)⟩

end Scan

end Runs
