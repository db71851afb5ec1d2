import Mathlib
import PolkadexTee.Lib.EState
import PolkadexTee.Lib.Except
import PolkadexTee.Lib.Map
import PolkadexTee.Lib.Rust

/-! The trusted-operation pool of the enclave (`top_pool`), for one shard. -/

namespace Pool

-- `TrustedOperation`, with the fields the pool reads.
structure TrustedOperation (H T : Type) where
  bytes     : Nat
  hash      : H
  priority  : Nat
  validTill : Nat
  requires  : List T
  provides  : List T
  deriving DecidableEq, Repr

structure OperationRef (H T : Type) where
  operation   : TrustedOperation H T
  insertionId : UInt64
  deriving DecidableEq, Repr

-- `Ord for OperationRef`: by priority, then the operation valid for a shorter time, then the one
-- inserted earlier.
def OperationRef.cmp {H T : Type} (a b : OperationRef H T) : Ordering :=
  (compare a.operation.priority b.operation.priority).then
    ((compare b.operation.validTill a.operation.validTill).then (compare b.insertionId a.insertionId))

structure ReadyTx (H T : Type) where
  operation      : OperationRef H T
  unlocks        : List H
  requiresOffset : Nat
  deriving DecidableEq, Repr

-- `Size for ReadyTx`
def ReadyTx.size {H T : Type} (self : ReadyTx H T) : Nat :=
  self.operation.operation.bytes

-- The missing tags are a `HashSet`; `imported_at` is not read.
structure WaitingTrustedOperations (H T : Type) where
  operation   : TrustedOperation H T
  missingTags : List T
  deriving DecidableEq, Repr

def WaitingTrustedOperations.isReady {H T : Type} (tx : WaitingTrustedOperations H T) : Bool :=
  tx.missingTags.isEmpty

-- `error::Error` as far as the pool returns it, and the panics of its `assert!`, `expect` and
-- `unwrap` calls, which abort the enclave.
inductive Error
  | alreadyImported
  | tooLowPriority (priority : Nat)
  | cycleDetected
  | rejectedFutureTrustedOperation
  | panic (msg : String)
  deriving DecidableEq, Repr

def Error.isPanic : Error → Bool
  | .panic _ => true
  | _ => false

def hashReady : String :=
  "Every time operation is imported its hash is placed in ready map and tags in provided_tags; " ++
  "Every time operation is removed from the queue we remove the hash from ready map and from " ++
  "provided_tags; Hence every hash retrieved from provided_tags is always present in ready; qed"

def waitingProof : String :=
  "In import we always insert to waiting if we push to wanted_tags; when removing from waiting " ++
  "we always clear wanted_tags; every hash from wanted_tags is always present in waiting; qed"

def unwrapNone : String := "called Option::unwrap() on a None value"

section Maps

variable {H T : Type}

-- One shard's part of `ReadyOperations`: its insertion id, the provider of each tag, the ready
-- operations and the best set.
structure ReadyOperations (H T : Type) where
  insertionId  : Option UInt64
  providedTags : Option (AList fun _ : T => H)
  ready        : Option (AList fun _ : H => ReadyTx H T)
  best         : Option (List (OperationRef H T))
  readyBytes   : Int
  readyLength  : Int

def ReadyOperations.empty : ReadyOperations H T := ⟨none, none, none, none, 0, 0⟩

-- One shard's part of `FutureTrustedOperations`: the hashes waiting for each tag (a `HashSet`, kept
-- in the order of insertion and handed out in the order `hashOrder` makes of it) and the waiting
-- operations.
structure FutureTrustedOperations (H T : Type) where
  wantedTags : Option (AList fun _ : T => List H)
  waiting    : Option (AList fun _ : H => WaitingTrustedOperations H T)
  hashOrder  : IterOrder H

def FutureTrustedOperations.empty (hashOrder : IterOrder H) : FutureTrustedOperations H T :=
  ⟨none, none, hashOrder⟩

-- One shard's part of `BasePool`; `recently_pruned` is an array of two tag sets.
structure BasePool (H T : Type) where
  rejectFutureOperations : Bool
  future                 : FutureTrustedOperations H T
  ready                  : ReadyOperations H T
  recentlyPruned         : Fin 2 → List T
  recentlyPrunedIndex    : Fin 2

-- The two slots of `recently_pruned`, named once so that every literal of `Fin 2` in the model
-- uses this instance.
instance instNeZeroTwo : NeZero (2 : Nat) := ⟨by decide⟩

-- `BasePool::new`
def BasePool.new (rejectFutureOperations : Bool) (hashOrder : IterOrder H) : BasePool H T :=
  ⟨rejectFutureOperations, .empty hashOrder, .empty, fun _ => [], 0⟩

structure Limit where
  count      : Nat
  totalBytes : Nat

def Limit.isExceeded (self : Limit) (count bytes : Nat) : Bool :=
  self.count < count || self.totalBytes < bytes

end Maps

abbrev ReadyM (H T : Type) := EStateM Error (ReadyOperations H T)

abbrev FutureM (H T : Type) := EStateM Error (FutureTrustedOperations H T)

abbrev PoolM (H T : Type) := EStateM Error (BasePool H T)

-- `vec.iter().position(|i| i == item)` followed by `swap_remove`.
def removeItem {α : Type} [DecidableEq α] (vec : List α) (item : α) : List α :=
  match vec.idxOf? item with
  | some idx => Rust.swapRemove vec idx
  | none => vec

-- `u64::saturating_add`
def saturatingAdd (a b : Nat) : Nat := min (a + b) (2 ^ 64 - 1)

end Pool
