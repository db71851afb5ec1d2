import PolkadexTee.Pool.Ready
import PolkadexTee.Pool.Future

/-! `BasePool` (`base_pool.rs`): the operations of a shard, in the future queue while some required
tag is missing and in the ready queue once all are provided, with the recently pruned tags of the
last two prunes counted as provided. -/

namespace Pool

variable {H T : Type} [DecidableEq H] [DecidableEq T]

inductive Imported (H T : Type)
  | ready (hash : H) (promoted : List H) (failed : List H) (removed : List (TrustedOperation H T))
  | future (hash : H)
  deriving DecidableEq, Repr

structure PruneStatus (H T : Type) where
  promoted : List (Imported H T)
  failed   : List H
  pruned   : List (TrustedOperation H T)
  deriving DecidableEq, Repr

structure PoolStatus where
  ready       : Nat
  readyBytes  : Nat
  future      : Nat
  futureBytes : Nat
  deriving DecidableEq, Repr

namespace BasePool

def liftReady {α : Type} (x : ReadyM H T α) : PoolM H T α :=
  EStateM.zoom BasePool.ready (fun s ready => { s with ready := ready }) x

def liftFuture {α : Type} (x : FutureM H T α) : PoolM H T α :=
  EStateM.zoom BasePool.future (fun s future => { s with future := future }) x

def isImported (self : BasePool H T) (txHash : H) : Bool :=
  self.future.contains txHash || self.ready.contains txHash

-- `by_hashes`: the ready and the future operations of each hash, zipped, so the result is as long
-- as the shorter of the two.
def byHashes (self : BasePool H T) (hashes : List H) : List (Option (TrustedOperation H T)) :=
  List.zipWith Option.or (self.ready.byHashes hashes) (self.future.byHashes hashes)

def status (self : BasePool H T) : PoolStatus :=
  ⟨self.ready.len, self.ready.bytes, self.future.len, self.future.bytes⟩

-- The loop of `import_to_ready`: each operation popped first releases the future operations its
-- tags satisfy, then goes to the ready queue. Only the first one's error is returned; the others
-- are counted as failed.
def importToReadyLoop :
    Nat → Bool → List (WaitingTrustedOperations H T) → List H → List H → List (TrustedOperation H T) →
      PoolM H T (List H × List H × List (TrustedOperation H T))
  | 0, _, _, promoted, failed, removed => pure (promoted, failed, removed)
  | fuel + 1, first, toImport, promoted, failed, removed =>
    match toImport.getLast? with
    | none => pure (promoted, failed, removed)
    | some tx => do
      let becameReady ← liftFuture (FutureTrustedOperations.satisfyTags tx.operation.provides [])
      let toImport := toImport.dropLast ++ becameReady
      let currentHash := tx.operation.hash
      match ← liftReady (EStateM.attempt Error.isPanic (ReadyOperations.import tx)) with
      | .ok replaced =>
        importToReadyLoop fuel false toImport (if first then promoted else promoted ++ [currentHash])
          failed (removed ++ replaced)
      | .error e =>
        if first then throw e
        else importToReadyLoop fuel false toImport promoted (failed ++ [currentHash]) removed

-- `import_to_ready`. When the operations it promoted pushed the imported one out, there is a cycle:
-- the promoted ones are removed again.
def importToReady (tx : WaitingTrustedOperations H T) : PoolM H T (Imported H T) := do
  let hash := tx.operation.hash
  let fuel := (← get).future.len + 2
  let (promoted, failed, removed) ← importToReadyLoop fuel true [tx] [] [] []
  if removed.any (fun tx => tx.hash = hash) then
    let _ ← liftReady (ReadyOperations.removeSubtree promoted)
    throw .cycleDetected
  pure (.ready hash promoted failed removed)

def «import» (tx : TrustedOperation H T) : PoolM H T (Imported H T) := do
  let s ← get
  if s.isImported tx.hash then throw .alreadyImported
  let tx := WaitingTrustedOperations.new tx s.ready.providedTags
    [s.recentlyPruned 0, s.recentlyPruned 1]
  if !tx.isReady then
    if s.rejectFutureOperations then throw .rejectedFutureTrustedOperation
    liftFuture (FutureTrustedOperations.import tx)
    return .future tx.operation.hash
  importToReady tx

def removeSubtree (hashes : List H) : PoolM H T (List (TrustedOperation H T)) := do
  let removed ← liftReady (ReadyOperations.removeSubtree hashes)
  let removedFuture ← liftFuture (FutureTrustedOperations.remove hashes)
  pure (removed ++ removedFuture)

def clearFuture : PoolM H T (List (TrustedOperation H T)) :=
  liftFuture FutureTrustedOperations.clear

-- `HashSet::insert` of a tag
def insertTag (tag : T) (tags : List T) : List T :=
  if tags.contains tag then tags else tags ++ [tag]

-- The loop over the tags of `prune_tags`: the future operations each tag releases are kept for
-- import, the ready ones providing it are pruned, and the tag is recorded as recently pruned.
def pruneEach (index : Fin 2) :
    List T → List (WaitingTrustedOperations H T) → List (TrustedOperation H T) →
      PoolM H T (List (WaitingTrustedOperations H T) × List (TrustedOperation H T))
  | [], toImport, pruned => pure (toImport, pruned)
  | tag :: rest, toImport, pruned => do
    let becameReady ← liftFuture (FutureTrustedOperations.satisfyTags [tag] [])
    let prunedNow ← liftReady (ReadyOperations.pruneTags tag)
    modify fun s =>
      let pruned := Function.update s.recentlyPruned index (insertTag tag (s.recentlyPruned index))
      { s with recentlyPruned := pruned }
    pruneEach index rest (toImport ++ becameReady) (pruned ++ prunedNow)

def promoteAll :
    List (WaitingTrustedOperations H T) → List (Imported H T) → List H →
      PoolM H T (List (Imported H T) × List H)
  | [], promoted, failed => pure (promoted, failed)
  | tx :: rest, promoted, failed => do
    match ← EStateM.attempt Error.isPanic (importToReady tx) with
    | .ok res => promoteAll rest (promoted ++ [res]) failed
    | .error _ => promoteAll rest promoted (failed ++ [tx.operation.hash])

-- `prune_tags`: the set of recently pruned tags at the current index is cleared and refilled, and
-- the index moves on.
def pruneTags (tags : List T) : PoolM H T (PruneStatus H T) := do
  let s ← get
  let index := s.recentlyPrunedIndex
  set { s with recentlyPrunedIndex := index + 1,
               recentlyPruned := Function.update s.recentlyPruned index [] }
  let (toImport, pruned) ← pruneEach index tags [] []
  let (promoted, failed) ← promoteAll toImport [] []
  pure ⟨promoted, failed, pruned⟩

-- The fold of `enforce_limits` over the ready queue: the operation inserted first.
def minimalReady (ready : ReadyOperations H T) : Option (OperationRef H T) :=
  match ready.ready with
  | some readyMap => readyMap.entries.foldl
      (fun minimal current =>
        match minimal with
        | none => some current.2.operation
        | some tx => if tx.insertionId > current.2.operation.insertionId then some current.2.operation
          else minimal)
      none
  | none => none

-- The fold over the future queue keeps the first operation it meets.
def firstFuture (future : FutureTrustedOperations H T) : Option (WaitingTrustedOperations H T) :=
  match future.waiting with
  | some waiting => (waiting.entries.map fun e => e.2).head?
  | none => none

def enforceReadyLoop (ready : Limit) :
    Nat → List (TrustedOperation H T) → PoolM H T (List (TrustedOperation H T))
  | 0, removed => pure removed
  | fuel + 1, removed => do
    let s ← get
    if !ready.isExceeded s.ready.len s.ready.bytes then return removed
    match minimalReady s.ready with
    | some minimal => do
      let r ← removeSubtree [minimal.operation.hash]
      enforceReadyLoop ready fuel (removed ++ r)
    | none => return removed

def enforceFutureLoop (future : Limit) :
    Nat → List (TrustedOperation H T) → PoolM H T (List (TrustedOperation H T))
  | 0, removed => pure removed
  | fuel + 1, removed => do
    let s ← get
    if !future.isExceeded s.future.len s.future.bytes then return removed
    match firstFuture s.future with
    | some minimal => do
      let r ← removeSubtree [minimal.operation.hash]
      enforceFutureLoop future fuel (removed ++ r)
    | none => return removed

-- `enforce_limits`: the oldest ready operations, with what depends on them, and then future
-- operations are removed until the queues are within their limits. Each round removes one
-- operation, so the lengths bound the loops.
def enforceLimits (ready future : Limit) : PoolM H T (List (TrustedOperation H T)) := do
  let removed ← enforceReadyLoop ready ((← get).ready.len + 1) []
  enforceFutureLoop future ((← get).future.len + 1) removed

end BasePool

end Pool
