import PolkadexTee.Pool.Validated

/-! `by_hashes` and `prune_known`. `BasePool::by_hashes` zips the answers of the ready and the future
queue, and the future queue's answer is empty while its shard has no future map, so `prune_known`
finds nothing there. -/

namespace Pool

variable {H T : Type} [DecidableEq H] [DecidableEq T]

namespace BasePool

variable {s : BasePool H T} (hashes : List H)

omit [DecidableEq T] in
theorem byHashes_of_future_none (h : s.future.waiting = none) : s.byHashes hashes = [] := by
  simp [byHashes, FutureTrustedOperations.byHashes, h]

end BasePool

namespace ValidatedPool

-- On a shard whose future map was never created, `prune_known` finds none of the listed operations
-- and leaves both queues as they were.
theorem pruneKnown_of_future_none {s : ValidatedPool H T} (h : s.pool.future.waiting = none)
    (hashes : List H) :
    ∃ s', (pruneKnown hashes).run s = .ok () s' ∧ s'.pool.ready = s.pool.ready ∧
      s'.pool.future = s.pool.future := by
  have htags : ((s.extrinsicsTags hashes).filterMap id).flatten = [] := by
    simp [extrinsicsTags, BasePool.byHashes_of_future_none hashes h]
  refine ⟨{ s with pool := { s.pool with
      recentlyPrunedIndex := s.pool.recentlyPrunedIndex + 1,
      recentlyPruned := Function.update s.pool.recentlyPruned s.pool.recentlyPrunedIndex [] } },
    ?_, rfl, rfl⟩
  simp only [pruneKnown, EStateM.run_bind, EStateM.run_get, htags]
  rfl

end ValidatedPool

-- A shard with one ready operation, which provides the tag `1`, and no future map: `by_hashes` of
-- its hash is empty, and `prune_known` of it keeps it in the ready queue.

def providerOne : TrustedOperation Nat Nat := ⟨1, 1, 1, 2, [], [1]⟩

def readyOnlyPool : ValidatedPool Nat Nat :=
  ((ValidatedPool.liftPool (BasePool.import providerOne)).run (ValidatedPool.new .default .listed .listed)).state

theorem pruneKnown_of_future_none_readyOnly :
    ∃ s', (ValidatedPool.pruneKnown [1]).run readyOnlyPool = .ok () s' ∧
      s'.pool.ready = readyOnlyPool.pool.ready ∧ s'.pool.future = readyOnlyPool.pool.future :=
  ValidatedPool.pruneKnown_of_future_none rfl [1]

theorem pruneKnown_keeps_provider_without_future_map :
    readyOnlyPool.pool.ready.contains 1 = true ∧ readyOnlyPool.pool.byHashes [1] = [] ∧
      ((ValidatedPool.pruneKnown [1]).run readyOnlyPool).state.pool.ready.contains 1 = true := by
  decide

end Pool
