import PolkadexTee.Enclave.ProduceBlocks

/-! The untrusted worker's `produce_blocks`: it fetches the layer-one blocks from its last synced
head to the node's finalized head and feeds them to the enclave in chunks. -/

namespace Worker

open Relay (Header SignedBlock Hash)
open Enclave (Env World)

-- `BLOCK_SYNC_BATCH_SIZE`
def blockSyncBatchSize : Nat := 1000

-- What the worker asks of the layer-one node: its finalized head (`get_finalized_head`, then
-- `get_signed_block`), the block of a hash, and the enclave account's nonce before each chunk.
structure Api where
  finalizedHead  : Option SignedBlock
  getSignedBlock : Hash → Option SignedBlock
  getNonce       : Nat → UInt32

variable (env : Env) (api : Api)

-- The `while` loop that walks from the finalized head towards the last synced head by parent
-- hashes, newest block first; `none` is a panic of `unwrap()` or a walk longer than `fuel`.
def fetchParents (lastSyncedHash : Hash) : Nat → SignedBlock → Option (List SignedBlock)
  | 0, _ => none
  | fuel + 1, head =>
    if head.block.header.parentHash = lastSyncedHash then some []
    else
      match api.getSignedBlock head.block.header.parentHash with
      | none => none
      | some parent => (fetchParents lastSyncedHash fuel parent).map (parent :: ·)

-- The loop over the chunks: the first chunk whose ECALL fails makes the worker return its last
-- synced head, and it returns the finalized head once every chunk has gone through.
def syncChunks (lastSyncedHead currHead : Header) :
    Nat → List (List SignedBlock) → World → World × Header
  | _, [], w => (w, currHead)
  | i, chunk :: rest, w =>
    match (Enclave.produceBlocks env chunk (api.getNonce i)).run w with
    | .error _ w => (w, lastSyncedHead)
    | .ok () w => syncChunks lastSyncedHead currHead (i + 1) rest w

-- `produce_blocks` of the worker, from the enclave's state before to its state after and the head
-- the worker returns. `none` is a panic of the worker or a fetch walk longer than `fuel`.
def produceBlocks (fuel : Nat) (lastSyncedHead : Header) (w : World) : Option (World × Header) := do
  let currHead ← api.finalizedHead
  let blocksToSync ←
    if env.relay.hash currHead.block.header ≠ env.relay.hash lastSyncedHead then
      (fetchParents api (env.relay.hash lastSyncedHead) fuel currHead).map
        fun parents => (currHead :: parents).reverse
    else some []
  pure (syncChunks env api lastSyncedHead currHead.block.header 0
    (blocksToSync.toChunks blockSyncBatchSize) w)

end Worker
