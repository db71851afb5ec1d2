import PolkadexTee.Relay.Reference

/-! `check_xt_inclusion`. For each extrinsic of the block it collects the position of the first
pending extrinsic with the same hash, and removes the positions from the highest down. -/

namespace Relay.LightValidation

variable (p : Primitives)

-- `found_xts`: for each extrinsic of the block, the position of the first pending extrinsic with
-- its hash.
def foundXts (pending : List OpaqueExtrinsic) (block : Block) : List Nat :=
  block.extrinsics.filterMap fun xt =>
    pending.findIdx? fun xtOpaque => p.hashOf xt = p.hashOf xtOpaque

-- The number of extrinsics of the block that match some pending extrinsic.
def matching (pending : List OpaqueExtrinsic) (block : Block) : Nat :=
  block.extrinsics.countP fun xt => pending.any fun xtOpaque => p.hashOf xt = p.hashOf xtOpaque

theorem length_foundXts (pending : List OpaqueExtrinsic) (block : Block) :
    (foundXts p pending block).length = matching p pending block := by
  simp only [foundXts, matching, List.length_filterMap_eq_countP, List.findIdx?_isSome]

theorem lt_of_mem_foundXts {pending : List OpaqueExtrinsic} {block : Block} {i : Nat}
    (h : i ∈ foundXts p pending block) : i < pending.length := by
  obtain ⟨xt, -, hi⟩ := List.mem_filterMap.1 h
  exact (List.findIdx?_eq_some_iff_findIdx_eq.1 hi).1

section Removal

variable {is : List Nat} {xts : List OpaqueExtrinsic}

-- `Vec::remove` has one way to fail.
theorem removeIndices_error {e : Panic} (h : removeIndices is xts = .error e) :
    e = .indexOutOfBounds := by
  induction is generalizing xts with
  | nil => cases h
  | cons i is ih =>
    rw [removeIndices] at h
    split at h
    · exact ih h
    · exact (Except.error.inj h).symm

-- Each index removes one extrinsic.
theorem length_removeIndices {rest : List OpaqueExtrinsic} (h : removeIndices is xts = .ok rest) :
    rest.length + is.length = xts.length := by
  induction is generalizing xts with
  | nil =>
    cases h
    rfl
  | cons i is ih =>
    rw [removeIndices] at h
    split at h
    next hi =>
      have hrest := ih h
      rw [List.length_eraseIdx_of_lt hi] at hrest
      rw [List.length_cons]
      omega
    next => cases h

-- Strictly decreasing indices into the list are all removed: removing the highest first keeps every
-- later index in range.
theorem removeIndices_ok (hsorted : is.Pairwise (· > ·)) (hlt : ∀ i ∈ is, i < xts.length) :
    ∃ rest, removeIndices is xts = .ok rest := by
  induction is generalizing xts with
  | nil => exact ⟨xts, rfl⟩
  | cons i is ih =>
    obtain ⟨hgt, hsorted⟩ := List.pairwise_cons.1 hsorted
    have hi := hlt i List.mem_cons_self
    rw [removeIndices, if_pos hi]
    refine ih hsorted fun j hj => ?_
    have hji := hgt j hj
    rw [List.length_eraseIdx_of_lt hi]
    omega

end Removal

variable {lv : LightValidation} {relayId : RelayId} {relay : RelayState} {block : Block}

-- `sort_by(|a, b| b.cmp(a))` sorts into decreasing order.
theorem pairwise_mergeSort_ge (l : List Nat) :
    (l.mergeSort fun a b => b ≤ a).Pairwise fun a b => b ≤ a := by
  have hsorted : (l.mergeSort fun a b => b ≤ a).Pairwise fun a b => decide (b ≤ a) :=
    List.pairwise_mergeSort
      (fun a b c hab hbc => by simp only [decide_eq_true_eq] at hab hbc ⊢; omega)
      (fun a b => by simp only [Bool.or_eq_true, decide_eq_true_eq]; omega) l
  simpa only [decide_eq_true_eq] using hsorted

-- The sorted positions, as `check_xt_inclusion` removes them.
theorem length_sorted_foundXts :
    ((foundXts p relay.verifyTxInclusion block).mergeSort fun a b => b ≤ a).length =
      matching p relay.verifyTxInclusion block := by
  rw [List.length_mergeSort, length_foundXts]

theorem checkXtInclusion_of_some (hr : lv.trackedRelays relayId = some relay)
    (hne : relay.verifyTxInclusion ≠ []) :
    checkXtInclusion p lv relayId block =
      (removeIndices ((foundXts p relay.verifyTxInclusion block).mergeSort fun a b => b ≤ a)
        relay.verifyTxInclusion).map fun rest =>
          (lv.setRelay relayId { relay with verifyTxInclusion := rest }, .ok ()) := by
  have hempty : relay.verifyTxInclusion.isEmpty = false := List.isEmpty_eq_false_iff.2 hne
  rw [checkXtInclusion, hr]
  -- with `found_xts` unfolded on the right, both sides remove the same indices
  simp only [hempty, Bool.false_eq_true, if_false, foundXts]
  cases removeIndices _ relay.verifyTxInclusion <;> rfl

-- A block with more matching extrinsics than there are pending ones panics.
theorem checkXtInclusion_panics (hr : lv.trackedRelays relayId = some relay)
    (hmore : relay.verifyTxInclusion.length < matching p relay.verifyTxInclusion block) :
    checkXtInclusion p lv relayId block = .error .indexOutOfBounds := by
  have hne : relay.verifyTxInclusion ≠ [] := by
    rintro hnil
    simp [matching, hnil] at hmore
  rw [checkXtInclusion_of_some p hr hne]
  cases hrem : removeIndices ((foundXts p relay.verifyTxInclusion block).mergeSort fun a b => b ≤ a)
      relay.verifyTxInclusion with
  | error e =>
    rw [removeIndices_error hrem]
    rfl
  | ok rest =>
    have hlen := length_removeIndices hrem
    rw [length_sorted_foundXts] at hlen
    omega

-- A block whose matching extrinsics find pairwise distinct pending positions does not panic: the
-- sorted positions then decrease strictly.
theorem checkXtInclusion_ok_of_nodup (hr : lv.trackedRelays relayId = some relay)
    (hnodup : (foundXts p relay.verifyTxInclusion block).Nodup) :
    ∃ lv', checkXtInclusion p lv relayId block = .ok (lv', .ok ()) := by
  by_cases hne : relay.verifyTxInclusion = []
  · refine ⟨lv, ?_⟩
    simp [checkXtInclusion, hr, hne]
  · let sorted := (foundXts p relay.verifyTxInclusion block).mergeSort fun a b => b ≤ a
    have hne' : sorted.Nodup := (List.mergeSort_perm _ _).nodup_iff.2 hnodup
    have hgt : sorted.Pairwise (· > ·) :=
      ((pairwise_mergeSort_ge _).and hne').imp fun ⟨hba, hab⟩ => by omega
    obtain ⟨rest, hrem⟩ := removeIndices_ok hgt fun i hi =>
      lt_of_mem_foundXts p (List.mem_mergeSort.1 hi)
    refine ⟨lv.setRelay relayId { relay with verifyTxInclusion := rest }, ?_⟩
    rw [checkXtInclusion_of_some p hr hne, hrem]
    rfl

-- The extrinsics of `demo` all share one hash; `firstByte` hashes each by its first byte. A relay
-- waiting for `[1]` panics on a block that carries `[1]` twice, and one waiting for `[1]` and `[2]`
-- loses both to that block.

def firstByte : Primitives :=
  { demo with hashOf := fun xt => BitVec.ofNat 256 (xt.headD 0).toNat }

-- A relay on `firstByte` waiting for the inclusion of `pending`.
def pendingRelay (pending : List OpaqueExtrinsic) : LightValidation :=
  pending.foldl (fun lv xt => (submitXtToBeIncluded lv 1 xt).1)
    (initializeRelay firstByte new demoGenesis [(1, 1)] []).1

def repeatingBlock : Block := ⟨demoGenesis, [[1], [1]]⟩

theorem checkXtInclusion_repeated_extrinsic :
    (checkXtInclusion firstByte (pendingRelay [[1]]) 1 repeatingBlock).map (fun _ => ()) =
        .error .indexOutOfBounds ∧
      ((checkXtInclusion firstByte (pendingRelay [[1], [2]]) 1 repeatingBlock).map fun r =>
        (r.1.trackedRelays 1).map (·.verifyTxInclusion)) = .ok (some []) := by
  constructor
  · -- two matches against one pending extrinsic
    obtain ⟨relay, hr, hpending⟩ : ∃ relay, (pendingRelay [[1]]).trackedRelays 1 = some relay ∧
        relay.verifyTxInclusion = [[1]] := ⟨_, rfl, rfl⟩
    rw [checkXtInclusion_panics firstByte hr (by rw [hpending]; decide)]
    rfl
  · -- both extrinsics of the block find position `0`
    obtain ⟨relay, hr, hpending⟩ : ∃ relay, (pendingRelay [[1], [2]]).trackedRelays 1 = some relay ∧
        relay.verifyTxInclusion = [[1], [2]] := ⟨_, rfl, rfl⟩
    have hfound : foundXts firstByte relay.verifyTxInclusion repeatingBlock = [0, 0] := by
      rw [hpending]
      decide
    have hsorted : ([0, 0].mergeSort fun a b => decide (b ≤ a)) = [0, 0] :=
      List.mergeSort_of_pairwise (by decide)
    rw [checkXtInclusion_of_some firstByte hr (by simp [hpending]), hfound, hsorted, hpending]
    rfl

-- A block that carries the two pending extrinsics once each, in the other order.
def swappedBlock : Block := ⟨demoGenesis, [[2], [1]]⟩

def twoPending : RelayState :=
  { RelayState.new firstByte demoGenesis [(1, 1)] with verifyTxInclusion := [[1], [2]] }

theorem checkXtInclusion_ok_of_nodup_swappedBlock :
    (pendingRelay [[1], [2]]).trackedRelays 1 = some twoPending ∧
      (foundXts firstByte twoPending.verifyTxInclusion swappedBlock).Nodup ∧
      ∃ lv', checkXtInclusion firstByte (pendingRelay [[1], [2]]) 1 swappedBlock = .ok (lv', .ok ()) :=
  have hr : (pendingRelay [[1], [2]]).trackedRelays 1 = some twoPending := rfl
  have hnodup : (foundXts firstByte twoPending.verifyTxInclusion swappedBlock).Nodup := by decide
  ⟨hr, hnodup, checkXtInclusion_ok_of_nodup firstByte hr hnodup⟩

end Relay.LightValidation
