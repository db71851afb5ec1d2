import PolkadexTee.Pool.Base
import PolkadexTee.Pool.Theorems.Import

/-! The order in which the best iterator hands out the ready operations of a shard. -/

namespace Pool

namespace ReadyOperations

variable {H T : Type} [DecidableEq H] [DecidableEq T] {s : ReadyOperations H T}

-- A subtree removal takes the removed operations out of the ready map, but not out of the unlocks
-- of the operations it keeps: each of those unlocks every other operation as often as before.
theorem removeSubtree_keeps_removed_in_unlocks (h : HashReady s)
    {ready : AList fun _ : H => ReadyTx H T} (hr : s.ready = some ready) (hashes : List H) :
    ∃ removed s', (removeSubtree hashes).run s = .ok removed s' ∧
      (∀ hash ∈ hashes, (s'.ready.getD ∅).lookup hash = none) ∧
      ∀ hash tx', (s'.ready.getD ∅).lookup hash = some tx' →
        ∃ tx, ready.lookup hash = some tx ∧ ∀ x, x ≠ hash → tx'.unlocks.count x = tx.unlocks.count x := by
  obtain ⟨hs, hb⟩ := h.present (by simp [hr])
  obtain ⟨tags, hs⟩ := Option.isSome_iff_exists.mp hs
  obtain ⟨best, hb⟩ := Option.isSome_iff_exists.mp hb
  obtain ⟨ready', removed, tags', best', hrun, hrem⟩ :=
    removeSubtreeWithTagFilter_run hr hs hb hashes none
  refine ⟨removed, _, hrun, fun hash hmem => by simpa using hrem.removes_all hash hmem, ?_⟩
  intro hash tx' hl
  obtain ⟨tx, hl', hsh⟩ := hrem.retains hash tx' (by simpa using hl)
  exact ⟨tx, hl', hsh.count⟩

end ReadyOperations

-- `import` of an operation as the tests of `ready.rs` do it: its missing tags are computed
-- against the queue's provided tags.
def importNew {H T : Type} [DecidableEq H] [DecidableEq T] (tx : TrustedOperation H T) :
    ReadyM H T (List (TrustedOperation H T)) := do
  ReadyOperations.import (WaitingTrustedOperations.new tx (← get).providedTags [])

-- The hashes the iterator of the shard yields, at most `n` of them.
def ReadyOperations.yields {H T : Type} [DecidableEq H] [DecidableEq T] (n : Nat)
    (self : ReadyOperations H T) : Except Error (List H) :=
  self.get.map fun it => (it.take n).map TrustedOperation.hash

-- Two operations providing the tags `10` and `20`, and an operation of higher priority that
-- requires both.

def providerP : TrustedOperation Nat Nat := ⟨1, 1, 1, 2, [], [10]⟩

def providerQ : TrustedOperation Nat Nat := ⟨1, 2, 1, 2, [], [20]⟩

def dependantX : TrustedOperation Nat Nat := ⟨1, 3, 5, 2, [10, 20], [30]⟩

-- The three are imported, the dependant is removed, and it is imported again.
def resubmitX : ReadyM Nat Nat Unit := do
  let _ ← importNew providerP
  let _ ← importNew providerQ
  let _ ← importNew dependantX
  let _ ← ReadyOperations.removeSubtree [dependantX.hash]
  let _ ← importNew dependantX

theorem bestIterator_yields_resubmitted_twice :
    (match resubmitX.run ReadyOperations.empty with
      | .ok () s => some ((s.ready.map fun ready => ready.keys), s.yields 10)
      | .error _ _ => none) =
      some (some [3, 2, 1], .ok [1, 3, 2, 3]) := by
  decide +kernel

-- The three are imported and the dependant is removed.
def removeX : ReadyM Nat Nat Unit := do
  let _ ← importNew providerP
  let _ ← importNew providerQ
  let _ ← importNew dependantX
  let _ ← ReadyOperations.removeSubtree [dependantX.hash]

-- The queue once the three are imported.
def importedPQX : ReadyOperations Nat Nat :=
  ((do
    let _ ← importNew providerP
    let _ ← importNew providerQ
    let _ ← importNew dependantX : ReadyM Nat Nat Unit).run .empty).state

theorem removeSubtree_keeps_removed_in_unlocks_dependantX :
    ∃ removed s', (ReadyOperations.removeSubtree [dependantX.hash]).run importedPQX = .ok removed s' ∧
      (∀ hash ∈ [dependantX.hash], (s'.ready.getD ∅).lookup hash = none) ∧
      ∀ hash tx', (s'.ready.getD ∅).lookup hash = some tx' →
        ∃ tx, (importedPQX.ready.getD ∅).lookup hash = some tx ∧
          ∀ x, x ≠ hash → tx'.unlocks.count x = tx.unlocks.count x :=
  ReadyOperations.removeSubtree_keeps_removed_in_unlocks (by decide) rfl [dependantX.hash]

-- After the removal the ready map holds the two providers, and each still unlocks the removed
-- dependant, whose hash is no longer a key of the map.
theorem removeSubtree_leaves_stale_unlocks :
    (match removeX.run ReadyOperations.empty with
      | .ok () s => some ((s.ready.getD ∅).keys, ((s.ready.getD ∅).lookup 1).map ReadyTx.unlocks,
          ((s.ready.getD ∅).lookup 2).map ReadyTx.unlocks)
      | .error _ _ => none) =
      some ([2, 1], some [3], some [3]) := by
  decide +kernel

end Pool
