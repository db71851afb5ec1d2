import PolkadexTee.Enclave.Objects
import PolkadexTee.Stf.Execute

/-! The enclave's calls to its host and platform: the sealed light client (`io.rs`), the shard state
files (`state.rs`), the sealed keys, and the ocalls that `lib.rs` makes. -/

namespace Enclave

open Relay (LightValidation)
open Stf (AccountId Balance ShardIdentifier TrustedCallSigned TrustedGetterSigned)

variable (env : Env)

-- The number of this host-facing call; the next one gets the next number.
def nextCall : EnclaveM Nat :=
  modifyGet fun w => (w.calls, { w with calls := w.calls + 1 })

-- A platform call (sealed-file I/O, AES, SHA-256, a report) that fails where the host makes it fail.
def platformCall : EnclaveM Unit := do
  match env.fault (← nextCall) with
  | some e => throw e
  | none => pure ()

def panic {α : Type} (site : String) : EnclaveM α :=
  throw (.panic site)

def logEvent (e : Event) : EnclaveM Unit :=
  modify fun w => { w with log := w.log ++ [e] }

-- `if let Err(e) = f() { error!(..) }` and its kin: an error is handed back as a value, and only a
-- panic goes on.
def attempt {α : Type} (x : EnclaveM α) : EnclaveM (Except SgxStatus α) :=
  EStateM.attempt SgxStatus.isPanic x

-- `match f() { Ok(v) => v, Err(_) => return sgx_status_t::SGX_ERROR_UNEXPECTED }`, and
-- `if f().is_err() { return sgx_status_t::SGX_ERROR_UNEXPECTED }`
def orUnexpected {α : Type} (x : EnclaveM α) : EnclaveM α := do
  match ← attempt x with
  | .ok a => pure a
  | .error _ => throw .unexpected

-- `.sgx_error_with_log(..)?` and `.map_err(|_| SGX_ERROR_UNEXPECTED)?`
def liftOption {α : Type} : Option α → EnclaveM α
  | some a => pure a
  | none => throw .unexpected

-- `io::light_validation::unseal` (`seal` and `unseal` are keywords of Lean)
def Io.lightValidationUnseal : EnclaveM LightValidation := do
  platformCall env
  match (← get).chainRelayDb with
  | some validator => pure validator
  | none => throw .unexpected

-- `io::light_validation::seal`; the backup copy it makes first only warns when it fails.
def Io.lightValidationSeal (validator : LightValidation) : EnclaveM Unit := do
  platformCall env
  modify fun w => { w with chainRelayDb := some validator }

namespace State

-- `state::exists`: whether the shard's state file is there.
def shardExists (shard : ShardIdentifier) : EnclaveM Bool := do
  pure ((← get).shards.lookup shard).isSome

-- `state::init_shard` creates the shard's directory and an empty state file.
def initShard (shard : ShardIdentifier) : EnclaveM Unit := do
  platformCall env
  modify fun w => { w with shards := w.shards.insert shard none }

-- `state::load`: an empty file reads as the state of `Stf::init_state`, and the loaded state starts
-- with an empty diff.
def load (shard : ShardIdentifier) : EnclaveM Stf.State := do
  platformCall env
  match (← get).shards.lookup shard with
  | none => throw .unexpected
  | some none =>
    match Stf.initState env.runtime with
    | some ext => pure ⟨ext.state, ∅⟩
    | none => panic "init_state: set_balance"
  | some (some state) => pure ⟨state, ∅⟩

-- `state::write` saves the state without its diff and returns the hash of the encrypted state.
def write (state : Stf.State) (shard : ShardIdentifier) : EnclaveM Hash := do
  platformCall env
  modify fun w => { w with shards := w.shards.insert shard (some state.state) }
  pure (env.stateHash state.state)

def hashOf (state : AList fun _ : Bytes => Bytes) : EnclaveM Hash := do
  platformCall env
  pure (env.stateHash state)

-- `state::list_shards`: the shards that have a directory.
def listShards : EnclaveM (List ShardIdentifier) := do
  platformCall env
  pure (← get).shards.keys

-- `if !state::exists(&shard) { state::init_shard(&shard)?; }`
def initShardIfMissing (shard : ShardIdentifier) : EnclaveM Unit := do
  if ← shardExists shard then pure () else initShard env shard

-- The pattern `if state::exists(&shard) { state::load(&shard)? } else { state::init_shard(&shard)?;
-- Stf::init_state() }` of `lib.rs`; the second branch keeps the diff of `init_state`.
def loadOrInit (shard : ShardIdentifier) : EnclaveM Stf.State := do
  if ← shardExists shard then load env shard
  else
    initShard env shard
    match Stf.initState env.runtime with
    | some ext => pure ext
    | none => panic "init_state: set_balance"

end State

-- The free balance of an account in a shard's state file, as the STF reads it from a loaded state.
def World.freeBalance (rt : Stf.Runtime) (w : World) (shard : ShardIdentifier) (who : AccountId) :
    Option Balance :=
  match w.shards.lookup shard with
  | some (some state) => (Stf.accountData rt ⟨state, ∅⟩ who).map (·.free)
  | _ => none

-- `rsa3072::unseal_pair` followed by `rsa3072::decrypt`.
def rsaDecrypt (cyphertext : Bytes) : EnclaveM Bytes := do
  platformCall env
  liftOption (env.rsaDecrypt cyphertext)

-- `ed25519::unseal_pair`, of which the enclave uses the public key and the signing function.
def unsealSigner : EnclaveM Stf.AccountId := do
  platformCall env
  pure env.signer

def getMrenclaveOfSelf : EnclaveM Hash := do
  platformCall env
  pure env.mrenclave

-- `ocall_worker_request`; the response is decoded with `unwrap()`.
def workerRequest (req : List WorkerRequest) : EnclaveM (List WorkerResponse) := do
  match env.workerRequest (← nextCall) req with
  | .error e => throw e
  | .ok none => panic "worker_request: decode"
  | .ok (some resp) => pure resp

-- `ocall_send_block_and_confirmation`: the worker receives the extrinsics and blocks whatever it
-- then returns.
def sendBlockAndConfirmation (confirmations : List Bytes) (signedBlocks : List SignedSidechainBlock) :
    EnclaveM Unit := do
  let n ← nextCall
  logEvent (.blocksSent confirmations signedBlocks)
  match env.sendBlockAndConfirmation n confirmations signedBlocks with
  | .error e => throw e
  | .ok () => pure ()

-- `Author::get_pending_tops_separated`: the direct calls and trusted getters ready in the pool.
def getPendingTopsSeparated (shard : ShardIdentifier) :
    EnclaveM (List TrustedCallSigned × List TrustedGetterSigned) := do
  pure (env.pendingTops (← nextCall) shard)

-- `ocall_send_status`, whose failure the enclave only logs.
def sendState (getterHash : Hash) (value : Option Bytes) : EnclaveM Unit :=
  logEvent (.stateSent getterHash value)

def now : EnclaveM Int := do
  pure (env.clock (← nextCall))

def timeIsOverdue (timeout : Timeout) (startTime : Int) : EnclaveM Bool := do
  let now ← now env
  let maxTimeMs := match timeout with
    | .call => calltimeout
    | .getter => gettertimeout
  pure ((now - startTime) * 1000 ≥ maxTimeMs)

end Enclave
