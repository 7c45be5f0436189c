import BcDuplicate.Ring.Slot

/-!
# BcDuplicate.Ring.Prepare

What a chunk prepares and submits.  On an empty queue the preparing loop
queues the four linked entries of each item that fits a slot, slot after slot
(`ringPrepareChunk_eq`); the kernel forms one chain from each group of four,
and a short submit cuts the last chain it accepts (`getElem?_chainsOf`).
-/

namespace BcDuplicate

/-! ## the items that get a slot -/

section Prepare

variable {κ : Type}

/-- The positions of the items that fit a slot, counted from `itemIndex`. -/
def fittingItems : Nat → List (BatchItem κ) → List Nat
  | _, [] => []
  | itemIndex, item :: items =>
      if ringFitsInSlot item then itemIndex :: fittingItems (itemIndex + 1) items
      else fittingItems (itemIndex + 1) items

/-- The entries prepared for them, four for each, from slot `slotIndex` on. -/
def chunkEntries (chunk : Nat) : Nat → Nat → List (BatchItem κ) → List (List Sqe)
  | _, _, [] => []
  | slotIndex, itemIndex, item :: items =>
      if ringFitsInSlot item then
        slotEntries ⟨chunk, itemIndex⟩ slotIndex item ::
          chunkEntries chunk (slotIndex + 1) (itemIndex + 1) items
      else chunkEntries chunk slotIndex (itemIndex + 1) items

theorem length_fittingItems_le (itemIndex : Nat) (items : List (BatchItem κ)) :
    (fittingItems itemIndex items).length ≤ items.length := by
  induction items generalizing itemIndex with
  | nil => exact Nat.le_refl _
  | cons item items ih =>
      have h := ih (itemIndex + 1)
      unfold fittingItems
      split <;> simp only [List.length_cons] <;> omega

theorem length_chunkEntries (chunk slotIndex itemIndex : Nat) (items : List (BatchItem κ)) :
    (chunkEntries chunk slotIndex itemIndex items).length =
      (fittingItems itemIndex items).length := by
  induction items generalizing slotIndex itemIndex with
  | nil => rfl
  | cons item items ih =>
      unfold chunkEntries fittingItems
      split
      · rw [List.length_cons, List.length_cons, ih]
      · exact ih _ _

theorem le_of_mem_fittingItems {itemIndex i : Nat} {items : List (BatchItem κ)}
    (h : i ∈ fittingItems itemIndex items) : itemIndex ≤ i := by
  induction items generalizing itemIndex with
  | nil => cases h
  | cons item items ih =>
      unfold fittingItems at h
      split at h
      · cases List.mem_cons.mp h with
        | inl h => exact Nat.le_of_eq h.symm
        | inr h => exact Nat.le_of_succ_le (ih h)
      · exact Nat.le_of_succ_le (ih h)

theorem nodup_fittingItems (itemIndex : Nat) (items : List (BatchItem κ)) :
    (fittingItems itemIndex items).Nodup := by
  induction items generalizing itemIndex with
  | nil => exact List.nodup_nil
  | cons item items ih =>
      unfold fittingItems
      split
      · refine List.nodup_cons.mpr ⟨fun h => ?_, ih _⟩
        exact absurd (le_of_mem_fittingItems h) (Nat.not_succ_le_self _)
      · exact ih _

/-- The `slotIndex`-th slot belongs to an item that fits, and the entries
prepared for it are that item's. -/
theorem getElem?_fittingItems (chunk slotIndex : Nat) {itemIndex : Nat}
    {items : List (BatchItem κ)} {j i : Nat} (h : (fittingItems itemIndex items)[j]? = some i) :
    ∃ item, items[i - itemIndex]? = some item ∧ ringFitsInSlot item = true ∧
      (chunkEntries chunk slotIndex itemIndex items)[j]? =
        some (slotEntries ⟨chunk, i⟩ (slotIndex + j) item) := by
  induction items generalizing slotIndex itemIndex j with
  | nil => cases h
  | cons item items ih =>
      unfold fittingItems at h
      unfold chunkEntries
      split at h
      · next hfits =>
        rw [if_pos hfits]
        cases j with
        | zero =>
            cases h
            exact ⟨item, by rw [Nat.sub_self]; rfl, hfits, rfl⟩
        | succ j =>
            rw [List.getElem?_cons_succ] at h
            have hle := le_of_mem_fittingItems (List.mem_of_getElem? h)
            obtain ⟨item', hitem, hfits', hentries⟩ := ih (slotIndex + 1) h
            refine ⟨item', ?_, hfits', ?_⟩
            · rw [show i - itemIndex = i - (itemIndex + 1) + 1 by omega, List.getElem?_cons_succ]
              exact hitem
            · rw [List.getElem?_cons_succ, hentries, Nat.add_right_comm, Nat.add_assoc]
      · next hfits =>
        rw [if_neg hfits]
        have hle := le_of_mem_fittingItems (List.mem_of_getElem? h)
        obtain ⟨item', hitem, hfits', hentries⟩ := ih slotIndex h
        refine ⟨item', ?_, hfits', hentries⟩
        rw [show i - itemIndex = i - (itemIndex + 1) + 1 by omega, List.getElem?_cons_succ]
        exact hitem

/-- An item without a slot does not fit one. -/
theorem mem_fittingItems (itemIndex : Nat) {i : Nat} {items : List (BatchItem κ)}
    {item : BatchItem κ} (hitem : items[i]? = some item) (hfits : ringFitsInSlot item = true) :
    itemIndex + i ∈ fittingItems itemIndex items := by
  induction items generalizing itemIndex i with
  | nil => cases hitem
  | cons first items ih =>
      unfold fittingItems
      cases i with
      | zero =>
          cases hitem
          rw [if_pos hfits]
          exact List.mem_cons_self
      | succ i =>
          have h := ih (itemIndex + 1) hitem
          rw [show itemIndex + 1 + i = itemIndex + (i + 1) by omega] at h
          split
          · exact List.mem_cons_of_mem _ h
          · exact h

/-- **The preparing loop**, when the queue has room. -/
theorem ringPrepareChunk_eq (script : ChunkScript) (ring : Ring) (slotToItem : List Nat)
    (itemIndex : Nat) (items : List (BatchItem κ))
    (hroom : ring.submissionQueue.length + 4 * (fittingItems itemIndex items).length ≤
      ringSubmissionEntries) :
    ringPrepareChunk script ring slotToItem itemIndex items =
      ({ ring with
          submissionQueue := ring.submissionQueue ++
            (chunkEntries ring.driven slotToItem.length itemIndex items).flatten },
        slotToItem ++ fittingItems itemIndex items, true) := by
  induction items generalizing ring slotToItem itemIndex with
  | nil => simp [ringPrepareChunk, chunkEntries, fittingItems]
  | cons item items ih =>
      unfold ringPrepareChunk fittingItems chunkEntries
      unfold fittingItems at hroom
      cases hfits : ringFitsInSlot item with
      | false =>
          rw [if_pos rfl, if_neg Bool.false_ne_true, if_neg Bool.false_ne_true]
          rw [hfits, if_neg Bool.false_ne_true] at hroom
          exact ih ring slotToItem (itemIndex + 1) hroom
      | true =>
          rw [hfits, if_pos rfl, List.length_cons] at hroom
          rw [if_neg (by decide), if_pos rfl, if_pos rfl, ringSubmitSlot, if_pos (by omega)]
          dsimp only
          have hentries : (slotEntries ⟨ring.driven, itemIndex⟩ slotToItem.length item).length = 4 :=
            rfl
          rw [ih _ _ _ (by rw [List.length_append, hentries]; omega)]
          simp only [List.length_append, List.length_singleton, List.append_assoc,
            List.singleton_append, List.flatten_cons]

end Prepare

/-! ## chains -/

/-- Four entries, linked but for the last. -/
def LinkedFour (entries : List Sqe) : Prop :=
  ∃ e₀ e₁ e₂ e₃, entries = [e₀, e₁, e₂, e₃] ∧ e₀.link = true ∧ e₁.link = true ∧
    e₂.link = true ∧ e₃.link = false

theorem linkedFour_slotEntries {κ : Type} (tag : Tag) (slotIndex : Nat) (item : BatchItem κ) :
    LinkedFour (slotEntries tag slotIndex item) := ⟨_, _, _, _, rfl, rfl, rfl, rfl, rfl⟩

theorem linkedFour_chunkEntries {κ : Type} (chunk slotIndex itemIndex : Nat)
    (items : List (BatchItem κ)) :
    ∀ entries ∈ chunkEntries chunk slotIndex itemIndex items, LinkedFour entries := by
  induction items generalizing slotIndex itemIndex with
  | nil => simp [chunkEntries]
  | cons item items ih =>
      unfold chunkEntries
      split
      · intro entries hmem
        cases List.mem_cons.mp hmem with
        | inl h => exact h ▸ linkedFour_slotEntries _ _ _
        | inr h => exact ih _ _ entries h
      · exact ih _ _

/-- **The chains of a submission**: the first `accepted` entries of groups of
four form one chain for each group, the last one possibly cut. -/
theorem getElem?_chainsOf (groups : List (List Sqe)) (hgroups : ∀ g ∈ groups, LinkedFour g)
    (accepted j : Nat) :
    (Ring.chainsOf (groups.flatten.take accepted))[j]? =
      if 4 * j < accepted then
        groups[j]?.map fun g => ⟨g.take (accepted - 4 * j), false⟩
      else none := by
  induction groups generalizing accepted j with
  | nil => simp [Ring.chainsOf]
  | cons g groups ih =>
      obtain ⟨e₀, e₁, e₂, e₃, rfl, h₀, h₁, h₂, h₃⟩ := hgroups g List.mem_cons_self
      have htail : ∀ g ∈ groups, LinkedFour g := fun g hg => hgroups g (List.mem_cons_of_mem _ hg)
      match accepted with
      | 0 => simp [Ring.chainsOf]
      | 1 => cases j <;> simp [Ring.chainsOf, h₀]
      | 2 => cases j <;> simp [Ring.chainsOf, h₀, h₁]; omega
      | 3 => cases j <;> simp [Ring.chainsOf, h₀, h₁, h₂]; omega
      | n + 4 =>
          have hchains : Ring.chainsOf (([e₀, e₁, e₂, e₃] :: groups).flatten.take (n + 4)) =
              ⟨[e₀, e₁, e₂, e₃], false⟩ :: Ring.chainsOf (groups.flatten.take n) := by
            simp [Ring.chainsOf, h₀, h₁, h₂, h₃]
          rw [hchains]
          cases j with
          | zero => simp
          | succ j =>
              rw [List.getElem?_cons_succ, List.getElem?_cons_succ, ih htail]
              have hiff : 4 * (j + 1) < n + 4 ↔ 4 * j < n := by omega
              simp only [hiff, show n + 4 - 4 * (j + 1) = n - 4 * j by omega]

/-- Chains neither lose nor invent operations. -/
theorem sum_length_chainsOf (entries : List Sqe) :
    ((Ring.chainsOf entries).map fun chain => chain.operations.length).sum = entries.length := by
  induction entries with
  | nil => rfl
  | cons sqe entries ih =>
      unfold Ring.chainsOf
      split
      · cases hchains : Ring.chainsOf entries with
        | nil =>
            rw [hchains] at ih
            simp only [List.map_nil, List.sum_nil] at ih
            simp [← ih]
        | cons chain chains =>
            rw [hchains, List.map_cons, List.sum_cons] at ih
            simp only [List.map_cons, List.sum_cons, List.length_cons]
            omega
      · rw [List.map_cons, List.sum_cons, ih, List.length_singleton, List.length_cons,
          Nat.add_comm]

end BcDuplicate
