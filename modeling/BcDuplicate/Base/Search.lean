import Mathlib.Data.Finset.Card
import Mathlib.Data.List.Nodup
import Mathlib.Logic.Relation

/-!
# Search

Depth-first search with a visited list.

A node is visited at most once, nodes being the same when they have the same
`key`.  The search carries fuel for its depth; it ends with the nodes that
can be reached (`explores_of_search`), and fuel for every key of a finite
set is enough (`exists_search`).
-/

namespace Search

variable {α κ : Type} (key : α → κ) (succ : α → List α)

section Definitions

variable [DecidableEq κ]

/-- Visit a node unless its key was visited before. -/
def unseen (visit : α → List α → Option (List α)) (visited : List α) (b : α) :
    Option (List α) :=
  if key b ∈ visited.map key then some visited else visit b (b :: visited)

/-- Search on from the successors of a node that was just visited. -/
def searchFrom : Nat → α → List α → Option (List α)
  | 0, _, _ => none
  | fuel + 1, a, visited => (succ a).foldlM (unseen key (searchFrom fuel)) visited

/-- Search from one root after the other. -/
def search (fuel : Nat) (roots : List α) : Option (List α) :=
  roots.foldlM (unseen key (searchFrom key succ fuel)) []

end Definitions

/-- `b` is a successor of `a`. -/
def Edge (a b : α) : Prop := b ∈ succ a

/-- `b` can be reached from one of the roots. -/
def Reached (roots : List α) (b : α) : Prop :=
  ∃ root ∈ roots, Relation.ReflTransGen (Edge succ) root b

/-! ## what a search visits -/

/-- The nodes `new` were visited, from `roots`, after `visited`. -/
structure Explores (roots new visited : List α) : Prop where
  nodup : (visited.map key).Nodup → ((new ++ visited).map key).Nodup
  covers : ∀ root ∈ roots, key root ∈ (new ++ visited).map key
  closed : ∀ a ∈ new, ∀ b ∈ succ a, key b ∈ (new ++ visited).map key
  reached : ∀ a ∈ new, Reached succ roots a

namespace Explores

variable {key succ} {roots new later visited : List α} {b : α}

theorem nil : Explores key succ [] [] visited :=
  ⟨id, nofun, nofun, nofun⟩

/-- A root that was visited already adds nothing. -/
theorem cons_seen (hseen : key b ∈ visited.map key) (h : Explores key succ roots new visited) :
    Explores key succ (b :: roots) new visited where
  nodup := h.nodup
  covers := by
    intro root hroot
    cases List.mem_cons.mp hroot with
    | inl heq =>
        rw [heq, List.map_append]
        exact List.mem_append_right _ hseen
    | inr hmem => exact h.covers root hmem
  closed := h.closed
  reached := fun a ha =>
    let ⟨root, hroot, hpath⟩ := h.reached a ha
    ⟨root, List.mem_cons_of_mem _ hroot, hpath⟩

/-- A root is visited, then its successors, then the other roots. -/
theorem cons_unseen (hunseen : key b ∉ visited.map key)
    (h : Explores key succ (succ b) new (b :: visited))
    (hlater : Explores key succ roots later (new ++ b :: visited)) :
    Explores key succ (b :: roots) (later ++ (new ++ [b])) visited := by
  have happend : later ++ (new ++ [b]) ++ visited = later ++ (new ++ b :: visited) := by simp
  have hgrow : ∀ k ∈ (new ++ b :: visited).map key,
      k ∈ (later ++ (new ++ b :: visited)).map key := fun k hk => by
    rw [List.map_append]
    exact List.mem_append_right _ hk
  refine ⟨?_, ?_, ?_, ?_⟩
  · intro hnodup
    rw [happend]
    refine hlater.nodup (h.nodup ?_)
    rw [List.map_cons, List.nodup_cons]
    exact ⟨hunseen, hnodup⟩
  · intro root hroot
    rw [happend]
    cases List.mem_cons.mp hroot with
    | inl heq => exact hgrow _ (by simp [heq])
    | inr hmem => exact hlater.covers root hmem
  · intro a ha c hc
    rw [happend]
    rcases List.mem_append.mp ha with ha | ha
    · exact hlater.closed a ha c hc
    · rcases List.mem_append.mp ha with ha | ha
      · exact hgrow _ (h.closed a ha c hc)
      · rw [List.mem_singleton.mp ha] at hc
        exact hgrow _ (h.covers c hc)
  · intro a ha
    rcases List.mem_append.mp ha with ha | ha
    · obtain ⟨root, hroot, hpath⟩ := hlater.reached a ha
      exact ⟨root, List.mem_cons_of_mem _ hroot, hpath⟩
    · refine ⟨b, List.mem_cons_self, ?_⟩
      rcases List.mem_append.mp ha with ha | ha
      · obtain ⟨c, hc, hpath⟩ := h.reached a ha
        exact Relation.ReflTransGen.head hc hpath
      · rw [List.mem_singleton.mp ha]

end Explores

section Spec

variable {key succ}

/-- Where nodes are their own keys, exactly the reachable nodes are visited. -/
theorem Explores.mem_iff {succ : κ → List κ} {roots visited : List κ}
    (h : Explores id succ roots visited []) {b : κ} : b ∈ visited ↔ Reached succ roots b := by
  have hmem : ∀ {c : κ}, id c ∈ (visited ++ []).map id → c ∈ visited := by
    intro c hc
    rwa [List.append_nil, List.map_id] at hc
  refine ⟨h.reached b, ?_⟩
  rintro ⟨root, hroot, hpath⟩
  induction hpath with
  | refl => exact hmem (h.covers root hroot)
  | tail _ hedge ih => exact hmem (h.closed _ ih _ hedge)

/-- Nothing is visited twice. -/
theorem Explores.nodup_visited {succ : κ → List κ} {roots visited : List κ}
    (h : Explores id succ roots visited []) : visited.Nodup := by
  have hnodup := h.nodup List.nodup_nil
  rwa [List.append_nil, List.map_id] at hnodup

variable [DecidableEq κ]

/-- Visiting roots one after the other, by a visit that explores. -/
theorem explores_of_foldlM {visit : α → List α → Option (List α)}
    (hvisit : ∀ b visited visited', visit b visited = some visited' →
      ∃ new, visited' = new ++ visited ∧ Explores key succ (succ b) new visited)
    {roots visited visited' : List α}
    (h : roots.foldlM (unseen key visit) visited = some visited') :
    ∃ new, visited' = new ++ visited ∧ Explores key succ roots new visited := by
  induction roots generalizing visited with
  | nil =>
      cases h
      exact ⟨[], rfl, .nil⟩
  | cons b roots ih =>
      rw [List.foldlM_cons] at h
      obtain ⟨mid, hmid, hrest⟩ := Option.bind_eq_some_iff.mp h
      by_cases hseen : key b ∈ visited.map key
      · rw [unseen, if_pos hseen] at hmid
        cases hmid
        obtain ⟨new, heq, hnew⟩ := ih hrest
        exact ⟨new, heq, hnew.cons_seen hseen⟩
      · rw [unseen, if_neg hseen] at hmid
        obtain ⟨new, rfl, hnew⟩ := hvisit b _ _ hmid
        obtain ⟨later, heq, hlater⟩ := ih hrest
        refine ⟨later ++ (new ++ [b]), ?_, hnew.cons_unseen hseen hlater⟩
        rw [heq]
        simp

theorem explores_of_searchFrom {fuel : Nat} {a : α} {visited visited' : List α}
    (h : searchFrom key succ fuel a visited = some visited') :
    ∃ new, visited' = new ++ visited ∧ Explores key succ (succ a) new visited := by
  induction fuel generalizing a visited visited' with
  | zero => cases h
  | succ fuel ih => exact explores_of_foldlM (fun _ _ _ => ih) h

/-- **A search visits what can be reached, each key once.** -/
theorem explores_of_search {fuel : Nat} {roots visited : List α}
    (h : search key succ fuel roots = some visited) : Explores key succ roots visited [] := by
  obtain ⟨new, rfl, hnew⟩ := explores_of_foldlM (fun _ _ _ => explores_of_searchFrom) h
  rwa [List.append_nil]

end Spec

/-! ## fuel -/

section Fuel

variable [DecidableEq κ] {key succ} {keys : Finset κ}
  (hclosed : ∀ a, key a ∈ keys → ∀ b ∈ succ a, key b ∈ keys)
include hclosed

theorem exists_searchFrom {fuel : Nat} {a : α} (ha : key a ∈ keys) {visited : List α}
    (hfuel : (keys \ (visited.map key).toFinset).card < fuel) :
    ∃ visited', searchFrom key succ fuel a visited = some visited' := by
  induction fuel generalizing a visited with
  | zero => exact absurd hfuel (Nat.not_lt_zero _)
  | succ fuel ih =>
      have hroots := hclosed a ha
      rw [searchFrom]
      -- the remaining successors only see more visited nodes
      generalize succ a = roots at hroots ⊢
      induction roots generalizing visited with
      | nil => exact ⟨visited, rfl⟩
      | cons b roots ihRoots =>
          rw [List.foldlM_cons]
          have hrest := fun c hc => hroots c (List.mem_cons_of_mem _ hc)
          by_cases hseen : key b ∈ visited.map key
          · rw [unseen, if_pos hseen]
            exact ihRoots hfuel hrest
          · rw [unseen, if_neg hseen]
            have hb := hroots b List.mem_cons_self
            have hless : (keys \ ((b :: visited).map key).toFinset).card <
                (keys \ (visited.map key).toFinset).card := by
              refine Finset.card_lt_card (Finset.ssubset_iff_subset_ne.mpr ⟨?_, ?_⟩)
              · refine Finset.sdiff_subset_sdiff le_rfl fun k hk => ?_
                rw [List.mem_toFinset] at hk ⊢
                exact List.mem_cons_of_mem _ hk
              · intro heq
                have hmem : key b ∈ keys \ (visited.map key).toFinset := by
                  rw [Finset.mem_sdiff, List.mem_toFinset]
                  exact ⟨hb, hseen⟩
                rw [← heq, Finset.mem_sdiff, List.mem_toFinset] at hmem
                exact hmem.2 List.mem_cons_self
            obtain ⟨mid, hmid⟩ := ih hb (lt_of_lt_of_le hless (Nat.le_of_lt_succ hfuel))
            obtain ⟨new, rfl, _⟩ := explores_of_searchFrom hmid
            rw [hmid]
            refine ihRoots (lt_of_le_of_lt (Finset.card_le_card ?_) hfuel) hrest
            refine Finset.sdiff_subset_sdiff le_rfl fun k hk => ?_
            rw [List.mem_toFinset] at hk ⊢
            rw [List.map_append]
            exact List.mem_append_right _ (List.mem_cons_of_mem _ hk)

/-- **Fuel for every key is enough.** -/
theorem exists_search {roots : List α} (hroots : ∀ root ∈ roots, key root ∈ keys) {fuel : Nat}
    (hfuel : keys.card < fuel) : ∃ visited, search key succ fuel roots = some visited := by
  unfold search
  generalize ([] : List α) = visited
  induction roots generalizing visited with
  | nil => exact ⟨visited, rfl⟩
  | cons b roots ih =>
      rw [List.foldlM_cons]
      have hrest := fun c hc => hroots c (List.mem_cons_of_mem _ hc)
      by_cases hseen : key b ∈ visited.map key
      · rw [unseen, if_pos hseen]
        exact ih hrest visited
      · rw [unseen, if_neg hseen]
        have hsdiff : (keys \ ((b :: visited).map key).toFinset).card < fuel :=
          lt_of_le_of_lt (Finset.card_le_card Finset.sdiff_subset) hfuel
        obtain ⟨mid, hmid⟩ := exists_searchFrom hclosed (hroots b List.mem_cons_self) hsdiff
        rw [hmid]
        exact ih hrest mid

end Fuel

end Search
