import PolkadexTee.Enclave.ProduceBlocks

/-! The enclave as a state machine: its state is the `World`, and its transitions are the ECALLs the
worker makes. `init_chain_relay` sets the light client up; `produce_blocks` and `get_state` are
the calls of a running worker. -/

namespace Enclave

open Relay (Header LightValidation AuthorityList StorageProof SignedBlock)

variable (env : Env)

-- `init_validator`: a new light client tracking `header`, sealed.
def Io.initValidator (header : Header) (auth : AuthorityList) (proof : StorageProof) :
    EnclaveM Header := do
  let (validator, .ok _) := LightValidation.new.initializeRelay env.relay header auth proof
    | throw .unexpected
  platformCall env
  modify fun w => { w with chainRelayDb := some validator }
  let .ok latest := validator.latestFinalizedHeader validator.numRelays | panic "latest_finalized_header"
  pure latest

-- `read_or_init_validator`, the body of the `init_chain_relay` ECALL: a sealed light client is kept
-- when its genesis is `header`, and replaced by a new one on `header` otherwise. A missing file is
-- a `chain_relay_db` of `none`.
def Io.readOrInitValidator (header : Header) (auth : AuthorityList) (proof : StorageProof) :
    EnclaveM Header := do
  match (← get).chainRelayDb with
  | none => Io.initValidator env header auth proof
  | some _ =>
    let validator ← Io.lightValidationUnseal env
    let genesis ← genesisHashOf validator
    if genesis = env.relay.hash header then
      let .ok latest := validator.latestFinalizedHeader validator.numRelays
        | panic "latest_finalized_header"
      pure latest
    else Io.initValidator env header auth proof

-- The ECALLs of a running worker.
inductive Ecall
  | produceBlocks (blocksToSync : List SignedBlock) (nonce : UInt32)
  | getState (getter : Stf.Getter) (shard : Stf.ShardIdentifier)

def Ecall.run : Ecall → World → World
  | .produceBlocks blocksToSync nonce, w => ((Enclave.produceBlocks env blocksToSync nonce).run w).state
  | .getState getter shard, w => ((Enclave.getState env getter shard).run w).state

-- A run of ECALLs, each from the state the one before left, whether it succeeded or not.
def runEcalls : List Ecall → World → World
  | [], w => w
  | call :: rest, w => runEcalls rest (Ecall.run env call w)

end Enclave
