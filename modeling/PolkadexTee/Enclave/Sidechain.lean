import PolkadexTee.Enclave.Calls

/-! The sidechain part of `produce_blocks`: the trusted getters and calls waiting in the operation
pool are executed shard by shard (`execute_top_pool_calls`), and each shard gets a signed block
and its confirmation for layer one (`compose_block_and_confirmation`). -/

namespace Enclave

open Relay (Header)
open Stf (ShardIdentifier TrustedCallSigned TrustedGetterSigned OpaqueCall)

variable (env : Env)

-- The part of `compose_block_and_confirmation` after the new block number has been set in the
-- state: everything here may fail, and the last step records the block's hash in the state.
def composeSignedBlock (latestOnchainHeader : Header) (topCallHashes : List Hash)
    (shard : ShardIdentifier) (stateHashApriori : Hash) (state : Stf.State) (blockNumber : UInt64)
    (signer : Stf.AccountId) : EnclaveM (Stf.State × OpaqueCall × SignedSidechainBlock) := do
  let some parentHash := Stf.getLastBlockHash env.runtime state | throw .unexpected
  let stateHashAposteriori ← State.hashOf env state.state
  let stateUpdate := env.encodeStateDiff state.stateDiff
  -- `aes::de_or_encrypt` of the encoded payload
  platformCall env
  let payload := env.encryptPayload ⟨stateHashApriori, stateHashAposteriori, stateUpdate⟩
  let timestamp ← now env
  let block : SidechainBlock :=
    ⟨blockNumber, parentHash, timestamp, env.relay.hash latestOnchainHeader, shard, signer,
      topCallHashes, payload⟩
  let blockHash := env.hashBlock block
  let state := Stf.updateLastBlockHash env.runtime state blockHash
  pure (state, .blockConfirmed shard blockHash stateHashAposteriori, ⟨block, env.signBlock block⟩)

-- `compose_block_and_confirmation`. Its `state` is `&mut`: a failure after the block number has
-- been incremented leaves it incremented, and the caller writes the state either way, so the state
-- is returned with the outcome.
def composeBlockAndConfirmation (latestOnchainHeader : Header) (topCallHashes : List Hash)
    (shard : ShardIdentifier) (stateHashApriori : Hash) (state : Stf.State) :
    EnclaveM (Stf.State × Except SgxStatus (OpaqueCall × SignedSidechainBlock)) := do
  let signer ← unsealSigner env
  let some number := Stf.getSidechainBlockNumber env.runtime state | throw .unexpected
  let blockNumber := number + 1
  let state := Stf.updateSidechainBlockNumber env.runtime state blockNumber
  match ← attempt (composeSignedBlock env latestOnchainHeader topCallHashes shard stateHashApriori
      state blockNumber signer) with
  | .ok (state, blockConfirm, signedBlock) => pure (state, .ok (blockConfirm, signedBlock))
  | .error e => pure (state, .error e)

-- The getters of one shard; the result says whether the time for getters ran out, which ends the
-- loop over the shards too.
def handleTrustedGetters (shard : ShardIdentifier) (startTime : Int) :
    List TrustedGetterSigned → EnclaveM Bool
  | [] => pure false
  | trustedGetterSigned :: rest => do
    let valueOpt ← getStfState env trustedGetterSigned shard
    sendState (env.hashGetter trustedGetterSigned) valueOpt
    if ← timeIsOverdue env .getter startTime then return true
    handleTrustedGetters shard startTime rest

def handleGetterShards (startTime : Int) : List ShardIdentifier → EnclaveM Unit
  | [] => pure ()
  | shard :: rest => do
    let (_, trustedGetters) ← getPendingTopsSeparated env shard
    if ← handleTrustedGetters env shard startTime trustedGetters then return
    handleGetterShards startTime rest

-- The calls of one shard, executed on its state; the operation hashes of the executed calls are
-- collected, and the result says whether the time for calls ran out.
def executeTrustedCalls (latestOnchainHeader : Header) (shard : ShardIdentifier) (startTime : Int) :
    List OpaqueCall → Stf.State → List Hash → List TrustedCallSigned →
      EnclaveM (List OpaqueCall × Stf.State × List Hash × Bool)
  | calls, state, callHashes, [] => pure (calls, state, callHashes, false)
  | calls, state, callHashes, trustedCallSigned :: rest => do
    let r ← attempt (handleTrustedWorkerCall env calls state trustedCallSigned latestOnchainHeader shard)
    let (calls, state, callHashes) := match r with
      | .ok (calls, state, some (_, operationHash)) => (calls, state, callHashes ++ [operationHash])
      | .ok (calls, state, none) => (calls, state, callHashes)
      | .error _ => (calls, state, callHashes)
    if ← timeIsOverdue env .call startTime then return (calls, state, callHashes, true)
    executeTrustedCalls latestOnchainHeader shard startTime calls state callHashes rest

def executeCallShards (latestOnchainHeader : Header) (startTime : Int) :
    List OpaqueCall → List SignedSidechainBlock → List ShardIdentifier →
      EnclaveM (List OpaqueCall × List SignedSidechainBlock)
  | calls, blocks, [] => pure (calls, blocks)
  | calls, blocks, shard :: rest => do
    let state ← State.loadOrInit env shard
    let prevStateHash ← State.hashOf env state.state
    let (trustedCalls, _) ← getPendingTopsSeparated env shard
    let (calls, state, callHashes, isDone) ←
      executeTrustedCalls env latestOnchainHeader shard startTime calls state [] trustedCalls
    let r ← attempt (composeBlockAndConfirmation env latestOnchainHeader callHashes shard prevStateHash
      state)
    let (calls, blocks, state) := match r with
      | .ok (state, .ok (blockConfirm, signedBlock)) =>
        (calls ++ [blockConfirm], blocks ++ [signedBlock], state)
      | .ok (state, .error _) => (calls, blocks, state)
      | .error _ => (calls, blocks, state)
    -- the state is saved whether or not the block could be composed
    let _ ← State.write env state shard
    if isDone then return (calls, blocks)
    executeCallShards latestOnchainHeader startTime calls blocks rest

-- `execute_top_pool_calls`. Loading the pool (`load_top_pool`, then `lock().unwrap()`) is a
-- platform call; notifying the pool of a created block changes only the pool.
def executeTopPoolCalls (latestOnchainHeader : Header) :
    EnclaveM (List OpaqueCall × List SignedSidechainBlock) := do
  platformCall env
  let shards ← State.listShards env
  let startTime ← now env
  handleGetterShards env startTime shards
  let startTime ← now env
  executeCallShards env latestOnchainHeader startTime [] [] shards

end Enclave
