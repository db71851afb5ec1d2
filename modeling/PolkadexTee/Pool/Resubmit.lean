import PolkadexTee.Lib.Map
import PolkadexTee.Pool.Validated

/-! `ValidatedPool::resubmit` (`validated_pool.rs`): revalidated operations go back into the shard
with everything that depends on them. -/

namespace Pool

variable {H T : Type} [DecidableEq H] [DecidableEq T]

-- `Status`, the enum local to `resubmit`.
inductive Status
  | future
  | ready
  | failed
  | dropped
  deriving DecidableEq, Repr

namespace BasePool

-- `with_futures_enabled`: the closure runs with future operations allowed, given the flag as it
-- was, and the flag is set back after it.
def withFuturesEnabled {α : Type} (closure : Bool → PoolM H T α) : PoolM H T α := do
  let previous := (← get).rejectFutureOperations
  modify fun s => { s with rejectFutureOperations := false }
  let returnValue ← closure previous
  modify fun s => { s with rejectFutureOperations := previous }
  pure returnValue

end BasePool

namespace ValidatedPool

-- The `HashMap` of revalidated operations `resubmit` is given.
abbrev Updates (H T : Type) := AList fun _ : H => ValidatedOperation H T

abbrev Statuses (H : Type) := AList fun _ : H => Status

-- One operation `remove_subtree` returned to the first loop: its update is taken out of the map if
-- the map has one, and otherwise the operation goes back as the pool had it.
def keepRemoved (acc : Updates H T × Statuses H × List (H × ValidatedOperation H T))
    (removedTx : TrustedOperation H T) : Updates H T × Statuses H × List (H × ValidatedOperation H T) :=
  let (updated, initialStatuses, txsToResubmit) := acc
  let removedHash := removedTx.hash
  let txToResubmit :=
    match updated.lookup removedHash with
    | some updatedTx => updatedTx
    | none => .valid removedTx
  (updated.erase removedHash, initialStatuses.insert removedHash .ready,
    txsToResubmit ++ [(removedHash, txToResubmit)])

omit [DecidableEq T] in
-- The first loop only takes entries out of the map, and always its first key.
private theorem length_erase_foldl_keepRemoved_lt {updated : Updates H T} {hash : H}
    {tx : ValidatedOperation H T} {rest : List (Sigma fun _ : H => ValidatedOperation H T)}
    (h : updated.entries = ⟨hash, tx⟩ :: rest) (removed : List (TrustedOperation H T))
    (initialStatuses : Statuses H) (txsToResubmit : List (H × ValidatedOperation H T)) :
    ((removed.foldl keepRemoved (updated, initialStatuses, txsToResubmit)).1.erase hash).entries.length <
      updated.entries.length := by
  have hsub : ∀ (l : List (TrustedOperation H T)) acc, ∀ a ∈ (l.foldl keepRemoved acc).1, a ∈ acc.1 := by
    intro l
    induction l with
    | nil => exact fun _ _ ha => ha
    | cons x l ih => exact fun acc a ha => (AList.mem_erase.mp (ih _ a ha)).2
  have hmem : hash ∈ updated := by
    rw [AList.mem_keys, AList.keys, h]
    exact List.mem_cons_self
  exact AList.length_entries_lt (fun a ha => hsub removed _ a (AList.mem_erase.mp ha).2) hmem
    fun ha => (AList.mem_erase.mp ha).1 rfl

-- The first loop of `resubmit`: while the map is not empty, the subtree of its first hash is
-- removed, and that hash is taken out of the map even when the pool no longer has it.
def removeLoop (updated : Updates H T) (initialStatuses : Statuses H)
    (txsToResubmit : List (H × ValidatedOperation H T)) :
    PoolM H T (Statuses H × List (H × ValidatedOperation H T)) :=
  match h : updated.entries with
  | [] => pure (initialStatuses, txsToResubmit)
  | ⟨hash, _⟩ :: _ => do
    let removed ← BasePool.removeSubtree [hash]
    let acc := removed.foldl keepRemoved (updated, initialStatuses, txsToResubmit)
    removeLoop (acc.1.erase hash) acc.2.1 acc.2.2
termination_by updated.entries.length
decreasing_by exact length_erase_foldl_keepRemoved_lt h removed initialStatuses txsToResubmit

-- One operation of the second loop, imported again: the statuses of the import's outcome. An import
-- that fails leaves the operation failed; a panic is not caught.
def importOne (finalStatuses : Statuses H) :
    H × ValidatedOperation H T → PoolM H T (Statuses H)
  | (hash, .valid tx) => do
    match ← EStateM.attempt Error.isPanic (BasePool.import tx) with
    | .ok (.ready _ promoted failed removed) =>
      let finalStatuses := finalStatuses.insert hash .ready
      let finalStatuses := promoted.foldl (fun statuses hash => statuses.insert hash .ready) finalStatuses
      let finalStatuses := failed.foldl (fun statuses hash => statuses.insert hash .failed) finalStatuses
      pure (removed.foldl (fun statuses tx => statuses.insert tx.hash .dropped) finalStatuses)
    | .ok (.future _) => pure (finalStatuses.insert hash .future)
    | .error _ => pure (finalStatuses.insert hash .failed)
  | (hash, .invalid _ _) => pure (finalStatuses.insert hash .failed)
  | (hash, .unknown _ _) => pure (finalStatuses.insert hash .failed)

-- The second loop of `resubmit`, over the operations in the order they were removed.
def importLoop : List (H × ValidatedOperation H T) → Statuses H → PoolM H T (Statuses H)
  | [], finalStatuses => pure finalStatuses
  | entry :: rest, finalStatuses => do
    let finalStatuses ← importOne finalStatuses entry
    importLoop rest finalStatuses

-- What `resubmit` does under the pool's lock: both loops, the second with futures enabled and,
-- where the pool rejects future operations, followed by clearing the future queue.
def resubmitStatuses (updated : Updates H T) : PoolM H T (Statuses H × Statuses H) := do
  let (initialStatuses, txsToResubmit) ← removeLoop updated ∅ []
  BasePool.withFuturesEnabled fun rejectFutureOperations => do
    let finalStatuses ← importLoop txsToResubmit ∅
    if rejectFutureOperations then
      let cleared ← BasePool.clearFuture
      pure (initialStatuses, cleared.foldl (fun statuses tx => statuses.insert tx.hash .dropped) finalStatuses)
    else
      pure (initialStatuses, finalStatuses)

-- The listener is told of each final status that is not the status the operation started with.
def notifications (initialStatuses finalStatuses : Statuses H) : List (H × Status) :=
  finalStatuses.entries.filterMap fun e =>
    if initialStatuses.lookup e.1 = some e.2 then none else some (e.1, e.2)

-- `resubmit`, with the notifications it sends.
def resubmit (updated : Updates H T) : ValidatedM H T (List (H × Status)) := do
  let (initialStatuses, finalStatuses) ← liftPool (resubmitStatuses updated)
  pure (notifications initialStatuses finalStatuses)

end ValidatedPool

end Pool
