import PolkadexTee.Enclave.Io
import PolkadexTee.Relay.Validation

/-! The indirect invocation of `lib.rs`: the layer-one state the enclave takes over on each block
(`update_states`), and the shielding and call-worker extrinsics it executes
(`scan_block_for_relevant_xt`), with the check of the host's storage proofs both rely on. -/

namespace Enclave

open Relay (Header Block OpaqueExtrinsic)
open Stf (ShardIdentifier TrustedCallSigned TrustedGetterSigned OpaqueCall)

abbrev UpdateMap := AList fun _ : Bytes => Option Bytes

-- The loop of `verify_worker_responses`: each response must carry a storage proof under which
-- `check_proof` yields the value the response claims; every error is `SGX_ERROR_UNEXPECTED`.
def checkResponses (p : Relay.Primitives) (stateRoot : Hash) :
    List WorkerResponse → UpdateMap → Except SgxStatus UpdateMap
  | [], updateMap => .ok updateMap
  | .chainStorage key value proof :: rest, updateMap =>
    match proof with
    | none => .error .unexpected
    | some proof =>
      match p.checkProof stateRoot key proof with
      | .error _ => .error .unexpected
      | .ok actual =>
        if actual ≠ value then .error .unexpected
        else checkResponses p stateRoot rest (updateMap.insert key value)

variable (env : Env)

def verifyWorkerResponses (responses : List WorkerResponse) (header : Header) : EnclaveM UpdateMap := do
  logEvent (.trustedStateRoot header)
  match checkResponses env.relay header.stateRoot responses ∅ with
  | .ok updateMap => pure updateMap
  | .error e => throw e

def chainStorageRequests (header : Header) (keys : List Bytes) : List WorkerRequest :=
  keys.map fun key => .chainStorage key (some (env.relay.hash header))

-- One shard's part of `update_states`.
def updateShardState (header : Header) (updateMap : UpdateMap) (s : ShardIdentifier) :
    EnclaveM Unit := do
  State.initShardIfMissing env s
  let responses ← workerRequest env (chainStorageRequests env header (Stf.storageHashesToUpdatePerShard s))
  let perShardUpdateMap ← verifyWorkerResponses env responses header
  let state ← State.load env s
  let state := Stf.updateStorage state perShardUpdateMap
  let state := Stf.updateStorage state updateMap
  -- the layer-one block number is not in the layer-one state, so it is set from the header
  let state := Stf.updateLayerOneBlockNumber env.runtime state header.number
  let _ ← State.write env state s

def updateStates (header : Header) : EnclaveM Unit := do
  let requests := chainStorageRequests env header Stf.storageHashesToUpdateOnBlock
  if requests.isEmpty then return
  let responses ← workerRequest env requests
  let updateMap ← verifyWorkerResponses env responses header
  match updateMap.lookup Stf.shardsKeyHash with
  | none | some none => pure ()
  | some (some shards) =>
    let shards ← liftOption (env.decodeShards shards)
    shards.forM (updateShardState env header updateMap)

-- `handle_trusted_worker_call`, with the call list and the shard state it works on passed in and
-- returned. The `remove_top` calls on the pool's author cannot fail and change only the pool, so
-- the model leaves them out.
def handleTrustedWorkerCall (calls : List OpaqueCall) (state : Stf.State)
    (stfCallSigned : TrustedCallSigned) (header : Header) (shard : ShardIdentifier) :
    EnclaveM (List OpaqueCall × Stf.State × Option (Hash × Hash)) := do
  let mrenclave ← getMrenclaveOfSelf env
  if !env.verifyCall stfCallSigned mrenclave shard then
    return (calls, state, none)
  let requests := chainStorageRequests env header (Stf.getStorageHashesToUpdate stfCallSigned)
  let responses ← workerRequest env requests
  let updateMap ← verifyWorkerResponses env responses header
  let state := Stf.updateStorage state updateMap
  match Stf.execute env.runtime state stfCallSigned (env.hashCall stfCallSigned) calls with
  | none => panic "ensure_root: Sudo::Key"
  | some (state, calls, .error _) => return (calls, state, none)
  | some (state, calls, .ok ()) =>
    return (calls, state, some (env.hashCall stfCallSigned, env.hashOperation stfCallSigned))

-- `handle_shield_funds_xt`: the credit goes through `Stf::execute` as a `balance_shield` call with
-- nonce 0 and the default signature. A failed execution is only logged and nothing is written; a
-- successful one writes the state and confirms the call.
def handleShieldFundsXt (calls : List OpaqueCall) (xtOpaque : OpaqueExtrinsic) (xt : ShieldFundsFn) :
    EnclaveM (List OpaqueCall) := do
  let state ← State.loadOrInit env xt.shard
  let accountVec ← rsaDecrypt env xt.accountEncrypted
  let account ← liftOption (env.decodeAccountId accountVec)
  let call : TrustedCallSigned := ⟨.balanceShield account xt.amount, 0, []⟩
  match Stf.execute env.runtime state call (env.hashCall call) calls with
  | none => panic "ensure_root: Sudo::Key"
  | some (_, calls, .error _) => return calls
  | some (state, calls, .ok ()) =>
    let stateHash ← State.write env state xt.shard
    return calls ++ [.callConfirmed xt.shard (env.hashXt xtOpaque) stateHash]

def decryptUncheckedExtrinsic (xt : CallWorkerFn) : EnclaveM (TrustedCallSigned × ShardIdentifier) := do
  let requestVec ← rsaDecrypt env xt.request.cyphertext
  match env.decodeCallSigned requestVec with
  | some call => pure (call, xt.request.shard)
  | none => throw .unexpected

-- The first `if let` of the loop of `scan_block_for_relevant_xt`: a `shield_funds` extrinsic.
def scanShieldFunds (opaqueCalls : List OpaqueCall) (xtOpaque : OpaqueExtrinsic) :
    EnclaveM (List OpaqueCall) :=
  match env.decodeShieldFunds xtOpaque with
  | some xt =>
    if xt.call = (subsrateeRegistryModule, shieldFunds) then do
      match ← attempt (handleShieldFundsXt env opaqueCalls xtOpaque xt) with
      | .ok opaqueCalls' => pure opaqueCalls'
      | .error _ => pure opaqueCalls
    else pure opaqueCalls
  | none => pure opaqueCalls

-- The second `if let`: a `call_worker` extrinsic, whose call is executed on the shard's state.
def scanCallWorker (header : Header) (opaqueCalls : List OpaqueCall) (xtOpaque : OpaqueExtrinsic) :
    EnclaveM (List OpaqueCall) :=
  match env.decodeCallWorker xtOpaque with
  | some xt =>
    if xt.call = (subsrateeRegistryModule, callWorker) then do
      match ← attempt (decryptUncheckedExtrinsic env xt) with
      | .ok (decryptedTrustedCall, shard) =>
        let state ← State.loadOrInit env shard
        let r ← attempt (handleTrustedWorkerCall env opaqueCalls state decryptedTrustedCall header shard)
        -- a failed call is logged, and the state is written either way
        let (opaqueCalls, state) := match r with
          | .ok (opaqueCalls', state', _) => (opaqueCalls', state')
          | .error _ => (opaqueCalls, state)
        let _ ← State.write env state shard
        pure opaqueCalls
      | .error _ => pure opaqueCalls
    else pure opaqueCalls
  | none => pure opaqueCalls

-- The body of the loop of `scan_block_for_relevant_xt` for one extrinsic.
def scanExtrinsic (header : Header) (opaqueCalls : List OpaqueCall) (xtOpaque : OpaqueExtrinsic) :
    EnclaveM (List OpaqueCall) := do
  let opaqueCalls ← scanShieldFunds env opaqueCalls xtOpaque
  scanCallWorker env header opaqueCalls xtOpaque

def scanExtrinsics (header : Header) : List OpaqueCall → List OpaqueExtrinsic → EnclaveM (List OpaqueCall)
  | opaqueCalls, [] => pure opaqueCalls
  | opaqueCalls, xtOpaque :: rest => do
    let opaqueCalls ← scanExtrinsic env header opaqueCalls xtOpaque
    scanExtrinsics header opaqueCalls rest

def scanBlockForRelevantXt (block : Block) : EnclaveM (List OpaqueCall) := do
  logEvent (.scanned block)
  scanExtrinsics env block.header [] block.extrinsics

-- `get_stf_state`, which answers a getter from the pool; every failure answers `None`.
def getStfState (trustedGetterSigned : TrustedGetterSigned) (shard : ShardIdentifier) :
    EnclaveM (Option Bytes) := do
  if !env.verifyGetter trustedGetterSigned then return none
  let created ← if ← State.shardExists shard then pure (.ok ()) else attempt (State.initShard env shard)
  match created with
  | .error _ => pure none
  | .ok () =>
    match ← attempt (State.load env shard) with
    | .error _ => pure none
    | .ok state => pure (Stf.getState env.runtime state (.trusted trustedGetterSigned))

-- `if let Getter::trusted(g) = getter { if !g.verify_signature() { return SGX_ERROR_UNEXPECTED } }`
def verifyGetterSignature : Stf.Getter → EnclaveM Unit
  | .trusted trustedGetterSigned =>
    if env.verifyGetter trustedGetterSigned then pure () else throw .unexpected
  | .publicGetter _ => pure ()

-- The layer-one refresh of `get_state`: when there are keys to ask for, the proven values are
-- applied to the state.
def refreshState (requests : List WorkerRequest) (header : Header) (state : Stf.State) :
    EnclaveM Stf.State :=
  if requests.isEmpty then pure state
  else do
    let responses ← workerRequest env requests
    let updateMap ← verifyWorkerResponses env responses header
    pure (Stf.updateStorage state updateMap)

-- The `get_state` ECALL: the state is refreshed from layer one at the light client's latest header
-- and queried, but not written back.
def getState (getter : Stf.Getter) (shard : ShardIdentifier) : EnclaveM (Option Bytes) := do
  verifyGetterSignature env getter
  State.initShardIfMissing env shard
  let state ← State.load env shard
  let validator ← Io.lightValidationUnseal env
  let .ok latestHeader := validator.latestFinalizedHeader validator.numRelays
    | panic "latest_finalized_header"
  let requests := chainStorageRequests env latestHeader (Stf.getStorageHashesToUpdateForGetter getter)
  let state ← refreshState env requests latestHeader state
  pure (Stf.getState env.runtime state getter)

end Enclave
