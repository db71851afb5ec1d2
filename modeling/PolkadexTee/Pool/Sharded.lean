import PolkadexTee.Pool.Base

/-! `BasePool` with all its shards. -/

namespace Pool

variable {S H T : Type} [DecidableEq S] [DecidableEq H] [DecidableEq T]

structure ShardedPool (S H T : Type) where
  rejectFutureOperations : Bool
  future                 : S → FutureTrustedOperations H T
  ready                  : S → ReadyOperations H T
  recentlyPruned         : Fin 2 → List T
  recentlyPrunedIndex    : Fin 2

namespace ShardedPool

-- `BasePool::new`: no shard has a map yet.
def new (rejectFutureOperations : Bool) (hashOrder : IterOrder H) : ShardedPool S H T :=
  ⟨rejectFutureOperations, fun _ => .empty hashOrder, fun _ => .empty, fun _ => [], 0⟩

-- The part of the pool that the methods called with `shard` read.
def view (self : ShardedPool S H T) (shard : S) : BasePool H T :=
  ⟨self.rejectFutureOperations, self.future shard, self.ready shard, self.recentlyPruned,
    self.recentlyPrunedIndex⟩

def update (self : ShardedPool S H T) (shard : S) (s : BasePool H T) : ShardedPool S H T :=
  ⟨s.rejectFutureOperations, Function.update self.future shard s.future,
    Function.update self.ready shard s.ready, s.recentlyPruned, s.recentlyPrunedIndex⟩

def onShard {α : Type} (shard : S) (x : PoolM H T α) : EStateM Error (ShardedPool S H T) α :=
  EStateM.zoom (view · shard) (update · shard) x

-- `status(shard)`
def status (self : ShardedPool S H T) (shard : S) : PoolStatus :=
  (self.view shard).status

omit [DecidableEq H] [DecidableEq T] in
@[simp]
theorem view_update_self (self : ShardedPool S H T) (shard : S) (s : BasePool H T) :
    (self.update shard s).view shard = s := by
  simp [view, update]

omit [DecidableEq H] [DecidableEq T] in
theorem view_update_of_ne (self : ShardedPool S H T) {shard other : S} (s : BasePool H T)
    (h : other ≠ shard) :
    (self.update shard s).view other =
      ⟨s.rejectFutureOperations, self.future other, self.ready other, s.recentlyPruned,
        s.recentlyPrunedIndex⟩ := by
  simp [view, update, Function.update_of_ne h]

end ShardedPool

-- The methods of `BasePool` that change it.
inductive Op (H T : Type)
  | «import» (tx : TrustedOperation H T)
  | pruneTags (tags : List T)
  | removeSubtree (hashes : List H)
  | enforceLimits (ready future : Limit)
  | clearFuture

inductive Response (H T : Type)
  | imported (imported : Imported H T)
  | pruned (status : PruneStatus H T)
  | removed (operations : List (TrustedOperation H T))
  deriving DecidableEq, Repr

def Op.run : Op H T → PoolM H T (Response H T)
  | .import tx => .imported <$> BasePool.import tx
  | .pruneTags tags => .pruned <$> BasePool.pruneTags tags
  | .removeSubtree hashes => .removed <$> BasePool.removeSubtree hashes
  | .enforceLimits ready future => .removed <$> BasePool.enforceLimits ready future
  | .clearFuture => .removed <$> BasePool.clearFuture

def Op.prunes : Op H T → Bool
  | .pruneTags _ => true
  | _ => false

namespace ShardedPool

-- Methods called one after another, each on its shard, with the result of each. An `Err` leaves the
-- pool as the method left it for the next call.
def runOps : List (S × Op H T) → ShardedPool S H T →
    List (S × Except Error (Response H T)) × ShardedPool S H T
  | [], pool => ([], pool)
  | (shard, op) :: rest, pool =>
    let r := (onShard shard op.run).run pool
    let run := runOps rest r.state
    ((shard, r.toExcept) :: run.1, run.2)

end ShardedPool

end Pool
