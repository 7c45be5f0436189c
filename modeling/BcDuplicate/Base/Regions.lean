import Mathlib.Logic.Relation

/-!
# Regions

Reachability that keeps to one region of a graph.

Every node lies in a region.  From several roots, keeping to the region of
each root and keeping to one region for all of them reach the same nodes under
a condition on the roots outside that region (`byOne_iff_byOwn`).
-/

namespace Regions

variable {α κ : Type} (succ : α → List α) (region : α → κ)

/-- `b` can be reached from `root` through nodes of the region. -/
def Within (here : κ) (root b : α) : Prop :=
  Relation.ReflTransGen (fun a b => b ∈ succ a ∧ region b = here) root b

/-- From one of the roots, keeping to the root's own region. -/
def ByOwn (roots : List α) (b : α) : Prop :=
  ∃ root ∈ roots, Within succ region (region root) root b

/-- From one of the roots, keeping to one region for all roots. -/
def ByOne (here : κ) (roots : List α) (b : α) : Prop :=
  ∃ root ∈ roots, Within succ region here root b

/-- One region does for all roots, as far as the relevant nodes go: from a root
outside the region nothing in it is reached that the roots inside do not reach,
and there is nothing but roots in the root's own region. -/
structure OneSuffices (relevant : α → Prop) (here : κ) (roots : List α) : Prop where
  entered : ∀ root ∈ roots, region root ≠ here → ∀ b, relevant b → region b = here →
    Within succ region here root b →
      ∃ inside ∈ roots, region inside = here ∧ Within succ region here inside b
  skipped : ∀ root ∈ roots, region root ≠ here → ∀ b, relevant b →
    Within succ region (region root) root b → b ∈ roots

variable {succ region} {here : κ} {root b : α} {roots : List α} {relevant : α → Prop}

/-- Only the root itself may lie outside. -/
theorem Within.eq_or (h : Within succ region here root b) : b = root ∨ region b = here := by
  cases h with
  | refl => exact Or.inl rfl
  | tail _ hstep => exact Or.inr hstep.2

/-- What a root reaches keeping to its own region lies in it. -/
theorem Within.region_eq (h : Within succ region (region root) root b) :
    region b = region root := by
  rcases h.eq_or with heq | hregion
  · rw [heq]
  · exact hregion

/-- **When one region does for all roots.** -/
theorem byOne_iff_byOwn :
    (∀ b, relevant b → (ByOne succ region here roots b ↔ ByOwn succ region roots b)) ↔
      OneSuffices succ region relevant here roots := by
  constructor
  · intro h
    refine ⟨fun root hroot _ b hrelevant hregion hwithin => ?_,
      fun root hroot houtside b hrelevant hwithin => ?_⟩
    · obtain ⟨inside, hinside, hown⟩ := (h b hrelevant).mp ⟨root, hroot, hwithin⟩
      have hsame : region inside = here := hown.region_eq.symm.trans hregion
      rw [hsame] at hown
      exact ⟨inside, hinside, hsame, hown⟩
    · obtain ⟨other, hother, hone⟩ := (h b hrelevant).mpr ⟨root, hroot, hwithin⟩
      rcases hone.eq_or with heq | hregion
      · rw [heq]
        exact hother
      · exact absurd (hwithin.region_eq.symm.trans hregion) houtside
  · intro h b hrelevant
    constructor
    · rintro ⟨root, hroot, hone⟩
      by_cases hinside : region root = here
      · rw [← hinside] at hone
        exact ⟨root, hroot, hone⟩
      · rcases hone.eq_or with heq | hregion
        · rw [heq]
          exact ⟨root, hroot, .refl⟩
        · obtain ⟨inside, hmem, hsame, hwithin⟩ :=
            h.entered root hroot hinside b hrelevant hregion hone
          rw [← hsame] at hwithin
          exact ⟨inside, hmem, hwithin⟩
    · rintro ⟨root, hroot, hown⟩
      by_cases hinside : region root = here
      · rw [hinside] at hown
        exact ⟨root, hroot, hown⟩
      · exact ⟨b, h.skipped root hroot hinside b hrelevant hown, .refl⟩

end Regions
