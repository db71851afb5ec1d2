import PolkadexTee.Enclave.Sidechain

/-! The `produce_blocks` ECALL: the layer-one blocks the worker hands in are verified by the light
client and executed one by one, then the pool's operations are executed, and the light client is
sealed before the extrinsics for layer one leave the enclave. -/

namespace Enclave

open Relay (LightValidation SignedBlock)
open Stf (OpaqueCall)

variable (env : Env)

-- `validator.genesis_hash(validator.num_relays).unwrap()`
def genesisHashOf (validator : LightValidation) : EnclaveM Hash :=
  match validator.genesisHash validator.numRelays with
  | .ok (.ok hash) => pure hash
  | _ => panic "genesis_hash"

-- The map of `create_extrinsics`: each call is composed with the next nonce.
def composeExtrinsics (validator : LightValidation) : List OpaqueCall → UInt32 → EnclaveM (List Bytes)
  | [], _ => pure []
  | call :: rest, nonce => do
    let genesisHash ← genesisHashOf validator
    let xt := env.composeExtrinsic call nonce genesisHash
    let xts ← composeExtrinsics validator rest (nonce + 1)
    pure (xt :: xts)

def createExtrinsics (validator : LightValidation) (callsBuffer : List OpaqueCall) (nonce : UInt32) :
    EnclaveM (List Bytes) := do
  let _ ← unsealSigner env
  composeExtrinsics env validator callsBuffer nonce

-- The body of the loop of `produce_blocks` for one block: the light client must accept the header,
-- the layer-one state is taken over and the block's extrinsics are executed, and the block is
-- confirmed.
def syncBlock (validator : LightValidation) (calls : List OpaqueCall) (signedBlock : SignedBlock) :
    EnclaveM (LightValidation × List OpaqueCall) := do
  let .ok (validator, .ok ()) := validator.checkXtInclusion env.relay validator.numRelays signedBlock.block
    | panic "check_xt_inclusion"
  let validator ←
    match validator.submitSimpleHeader env.relay validator.numRelays signedBlock.block.header
        signedBlock.justifications with
    | .error _ => panic "VoterSet may not be empty"
    | .ok (_, .error _) => throw .unexpected
    | .ok (validator, .ok ()) => pure validator
  orUnexpected (updateStates env signedBlock.block.header)
  let scanned ← attempt (scanBlockForRelevantXt env signedBlock.block)
  let calls := match scanned with
    | .ok c => calls ++ c
    | .error _ => calls
  let genesisHash ← genesisHashOf validator
  let blockHash := env.relay.hash signedBlock.block.header
  pure (validator, calls ++ [.blockConfirmed genesisHash blockHash signedBlock.block.header.parentHash])

def syncBlocks (validator : LightValidation) (calls : List OpaqueCall) :
    List SignedBlock → EnclaveM (LightValidation × List OpaqueCall)
  | [] => pure (validator, calls)
  | signedBlock :: rest => do
    let (validator, calls) ← syncBlock env validator calls signedBlock
    syncBlocks validator calls rest

-- `OpaqueExtrinsic::from_bytes(..).unwrap()` and `submit_xt_to_be_included(..).unwrap()`
def submitExtrinsics (validator : LightValidation) : List Bytes → EnclaveM LightValidation
  | [] => pure validator
  | xt :: rest => do
    let some xtOpaque := env.opaqueFromBytes xt | panic "OpaqueExtrinsic::from_bytes"
    let (validator, .ok ()) := validator.submitXtToBeIncluded validator.numRelays xtOpaque
      | panic "submit_xt_to_be_included"
    submitExtrinsics validator rest

-- The `produce_blocks` ECALL; `Ok` is `SGX_SUCCESS`.
def produceBlocks (blocksToSync : List SignedBlock) (nonce : UInt32) : EnclaveM Unit := do
  let validator ← Io.lightValidationUnseal env
  let (validator, calls) ← syncBlocks env validator [] blocksToSync
  let .ok latestOnchainHeader := validator.latestFinalizedHeader validator.numRelays
    | panic "latest_finalized_header"
  let (confirmCalls, signedBlocks) ← orUnexpected (executeTopPoolCalls env latestOnchainHeader)
  let calls := calls ++ confirmCalls
  let extrinsics ← orUnexpected (createExtrinsics env validator calls nonce)
  -- the extrinsics are kept in the light client, to be found in later blocks
  let validator ← submitExtrinsics env validator extrinsics
  orUnexpected (Io.lightValidationSeal env validator)
  orUnexpected (sendBlockAndConfirmation env extrinsics signedBlocks)

end Enclave
