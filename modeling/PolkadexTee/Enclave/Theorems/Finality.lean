import PolkadexTee.Enclave.Ecalls
import PolkadexTee.Enclave.Theorems.Chain
import PolkadexTee.Enclave.Theorems.Shield

/-! The chain invariant over whole runs of the enclave. `init_chain_relay` on a fresh enclave
establishes it on the header it is given, and every ECALL of a running worker keeps it, whatever
blocks the host hands in and whatever its calls return. -/

namespace Enclave

open Relay (Header Descends AuthorityList StorageProof SignedBlock)
open Relay.LightValidation (demo demoGenesis demoRelay)

section Runs

variable {env : Env} {root : Header}

theorem Ecall.run_chainInvariant (call : Ecall) {w : World} (hw : ChainInvariant env.relay root w) :
    ChainInvariant env.relay root (call.run env w) := by
  cases call with
  | produceBlocks blocksToSync nonce => exact (produceBlocks_keeps blocksToSync nonce).state hw
  | getState getter shard => exact (getState_keeps getter shard).state hw

theorem runEcalls_chainInvariant :
    ∀ (calls : List Ecall) {w : World}, ChainInvariant env.relay root w →
      ChainInvariant env.relay root (runEcalls env calls w)
  | [], _, hw => hw
  | call :: rest, _, hw => runEcalls_chainInvariant rest (call.run_chainInvariant hw)

-- On a fresh enclave `read_or_init_validator` finds no sealed light client and creates one.
theorem readOrInitValidator_run_of_fresh {header : Header} {auth : AuthorityList}
    {proof : StorageProof} {w : World} (hfresh : w.chainRelayDb = none) :
    (Io.readOrInitValidator env header auth proof).run w = (Io.initValidator env header auth proof).run w := by
  simp only [Io.readOrInitValidator, EStateM.run_bind, EStateM.run_get, hfresh]

-- A light client created on `header` and sealed starts the invariant on `header`; the events
-- recorded before must already be on that chain.
theorem initValidator_chainInvariant {header : Header} {auth : AuthorityList} {proof : StorageProof}
    {w w' : World} {latest : Header} (hlog : ∀ e ∈ w.log, e.OnChain env.relay header)
    (h : (Io.initValidator env header auth proof).run w = .ok latest w') :
    ChainInvariant env.relay header w' := by
  unfold Io.initValidator at h
  split at h
  · next validator relayId hinit =>
    have hv := Relay.LightValidation.initializeRelay_headDescends hinit
    -- the platform call must succeed, and the light client is then sealed in the state
    cases hf : env.fault w.calls with
    | some e => simp [platformCall, nextCall, hf] at h
    | none =>
      cases hl : validator.latestFinalizedHeader validator.numRelays with
      | error _ =>
        simp [platformCall, nextCall, hf, hl, panic] at h
      | ok _ =>
        simp [platformCall, nextCall, hf, hl] at h
        obtain ⟨-, rfl⟩ := h
        exact ⟨fun lv hlv => Option.some.inj hlv ▸ hv, hlog⟩
  · cases h

end Runs

section Finality

variable {env : Env}

-- From `init_chain_relay` on a fresh enclave, through any sequence of `produce_blocks` and
-- `get_state` calls with any blocks the worker supplies, every header whose state root
-- `verify_worker_responses` trusted and every block `scan_block_for_relevant_xt` executed descends
-- by parent hashes from the header the relay was initialized with.
theorem ecalls_trust_only_descendants_of_init {root : Header} {auth : AuthorityList}
    {proof : StorageProof} {w₀ w : World} {latest : Header} (hfresh : w₀.chainRelayDb = none)
    (hempty : w₀.log = []) (hinit : (Io.readOrInitValidator env root auth proof).run w₀ = .ok latest w)
    (calls : List Ecall) :
    (∀ header, Event.trustedStateRoot header ∈ (runEcalls env calls w).log →
      Descends env.relay root header) ∧
    (∀ block, Event.scanned block ∈ (runEcalls env calls w).log →
      Descends env.relay root block.header) := by
  rw [readOrInitValidator_run_of_fresh hfresh] at hinit
  have hw : ChainInvariant env.relay root w :=
    initValidator_chainInvariant (by simp [hempty]) hinit
  have hrun := (runEcalls_chainInvariant calls hw).logged
  exact ⟨fun header he => hrun _ he, fun block he => hrun _ he⟩

-- A fresh enclave, without a sealed light client or a shard.
def freshWorld : World := ⟨none, ∅, 0, []⟩

theorem ecalls_trust_only_descendants_of_init_fresh :
    freshWorld.chainRelayDb = none ∧ freshWorld.log = [] ∧
    (Io.readOrInitValidator shieldEnv demoGenesis [(1, 1)] []).run freshWorld =
      .ok demoGenesis ⟨some demoRelay, ∅, 1, []⟩ ∧
    ((∀ header, Event.trustedStateRoot header ∈
        (runEcalls shieldEnv [.produceBlocks [] 0] ⟨some demoRelay, ∅, 1, []⟩).log →
        Descends demo demoGenesis header) ∧
      (∀ block, Event.scanned block ∈
        (runEcalls shieldEnv [.produceBlocks [] 0] ⟨some demoRelay, ∅, 1, []⟩).log →
        Descends demo demoGenesis block.header)) := by
  have hinit : (Io.readOrInitValidator shieldEnv demoGenesis [(1, 1)] []).run freshWorld =
      .ok demoGenesis ⟨some demoRelay, ∅, 1, []⟩ := rfl
  exact ⟨rfl, rfl, hinit, ecalls_trust_only_descendants_of_init rfl rfl hinit _⟩

-- A host that presents every extrinsic as a `shield_funds` of 50 to account `7` in shard `0`.
def forgedEnv : Env := { shieldEnv with decodeShieldFunds := fun _ => some shieldSeven }

-- The relay tracks `demoGenesis`; shard `0` holds the empty state.
def forgedWorld : World := ⟨some demoRelay, AList.insert 0 (some ∅) ∅, 0, []⟩

-- A child of `demoGenesis` with one extrinsic and no justification.
def forgedBlock : SignedBlock := ⟨⟨⟨demo.hash demoGenesis, 1, 0, []⟩, [[7]]⟩, none⟩

def forgedRun : World := Ecall.run forgedEnv (.produceBlocks [forgedBlock] 0) forgedWorld

-- A block that comes without a justification is trusted and executed all the same: its state root
-- is used for the proofs, its shielding is credited, and the relay records it only among its
-- unjustified headers, beside the genesis it was initialized with.
theorem produceBlocks_executes_unjustified_block :
    forgedBlock.justifications = none ∧ forgedBlock.block.header ≠ demoGenesis ∧
    Event.trustedStateRoot forgedBlock.block.header ∈ forgedRun.log ∧
    Event.scanned forgedBlock.block ∈ forgedRun.log ∧
    forgedRun.freeBalance Stf.reference 0 7 = some 50 ∧
    ((forgedRun.chainRelayDb.bind fun lv => lv.trackedRelays lv.numRelays).map fun relay =>
      (relay.headerHashes, relay.unjustifiedHeaders)) =
      some ([demo.hash demoGenesis], [demo.hash forgedBlock.block.header]) := by
  decide +kernel

end Finality

end Enclave
