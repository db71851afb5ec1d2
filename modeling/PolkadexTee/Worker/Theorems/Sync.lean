import PolkadexTee.Worker.ProduceBlocks
import PolkadexTee.Enclave.Theorems.Rollback
import PolkadexTee.Enclave.Reference
import PolkadexTee.Stf.Reference
import PolkadexTee.Relay.Reference

/-! The worker's loop over the layer-one blocks. It walks from the node's finalized head back to its
last synced head by the parent links the node reports, and hands the blocks to the enclave in
chunks. -/

namespace Worker

open Relay (Header SignedBlock)
open Relay.LightValidation (demo demoGenesis demoRelay)
open Enclave

section Loop

variable {env : Env} {api : Api}

-- A chunk whose block loop fails makes the worker return its last synced head, with the state files
-- as the loop left them and the light client sealed before the chunk.
theorem syncChunks_of_syncBlocks_error {lastSyncedHead currHead : Header} {i : Nat}
    {chunk : List SignedBlock} {rest : List (List SignedBlock)} {w w' : World}
    {lv : Relay.LightValidation} {e : SgxStatus} (hdb : w.chainRelayDb = some lv)
    (hf : env.fault w.calls = none)
    (hsync : (Enclave.syncBlocks env lv [] chunk).run { w with calls := w.calls + 1 } = .error e w') :
    syncChunks env api lastSyncedHead currHead i (chunk :: rest) w = (w', lastSyncedHead) ∧
      w'.chainRelayDb = w.chainRelayDb := by
  obtain ⟨hrun, hseal⟩ := Enclave.produceBlocks_run_of_syncBlocks_error (api.getNonce i) hdb hf hsync
  rw [syncChunks, hrun]
  exact ⟨rfl, hseal⟩

end Loop

-- The account whose encoding is `ALICE_ENCODED`, the `Sudo::Key` of a new shard; it has no
-- account in the shard, so its nonce stays 0.
def alice : Stf.AccountId := BitVec.ofNat 256 (Stf.leDecode Stf.aliceEncoded)

-- `alice` sets account `2` to 100; account `2` pays its 100 to account `3`.
def mint : Stf.TrustedCallSigned := ⟨.balanceSetBalance alice 2 100 0, 0, []⟩

def spend : Stf.TrustedCallSigned := ⟨.balanceTransfer 2 3 100, 0, []⟩

-- Every extrinsic is a call-worker extrinsic for shard `0`, whose cyphertext `[1]` is `mint`.
def replayEnv : Env :=
  { Env.quiet demo Stf.reference with
    decodeCallWorker := fun xt => some ⟨(subsrateeRegistryModule, callWorker), ⟨0, xt⟩⟩
    decodeCallSigned := decodeByte fun n => if n = 1 then mint else spend }

-- The relay tracks `demoGenesis`; shard `0` has the empty state file of a new shard.
def replayWorld : World := ⟨some demoRelay, AList.insert 0 none ∅, 0, []⟩

-- Blocks 1 and 2 carry `mint` and `spend`; block 3 extends them with a justification that does
-- not verify.
def mintBlock : SignedBlock := ⟨⟨⟨1, 1, 0, []⟩, [[1]]⟩, none⟩

def spendBlock : SignedBlock := ⟨⟨⟨2, 2, 0, []⟩, [[2]]⟩, none⟩

def badBlock : SignedBlock := ⟨⟨⟨3, 3, 0, []⟩, []⟩, some [[99]]⟩

def forkApi : Api where
  finalizedHead := some badBlock
  getSignedBlock h := if h = 3 then some spendBlock else if h = 2 then some mintBlock else none
  getNonce _ := 0

theorem syncChunks_of_syncBlocks_error_forkChunk :
    ∃ e w', (Enclave.syncBlocks replayEnv demoRelay [] [mintBlock, spendBlock, badBlock]).run
        { replayWorld with calls := replayWorld.calls + 1 } = .error e w' ∧
      syncChunks replayEnv forkApi demoGenesis badBlock.block.header 0
          [[mintBlock, spendBlock, badBlock]] replayWorld = (w', demoGenesis) ∧
        w'.chainRelayDb = replayWorld.chainRelayDb := by
  -- the justification of `badBlock` does not verify, after the two blocks before it were executed
  obtain ⟨e, w', hsync⟩ := EStateM.Result.eq_error_of_isError
    (show ((Enclave.syncBlocks replayEnv demoRelay [] [mintBlock, spendBlock, badBlock]).run
      { replayWorld with calls := replayWorld.calls + 1 }).isError = true by decide +kernel)
  exact ⟨e, w', hsync, syncChunks_of_syncBlocks_error rfl rfl hsync⟩

def honestApi : Api where
  finalizedHead := some spendBlock
  getSignedBlock h := if h = 2 then some mintBlock else none
  getNonce _ := 0

-- The same host, whose `ocall_send_block_and_confirmation` fails.
def sendFailsEnv : Env :=
  { replayEnv with sendBlockAndConfirmation := fun _ _ _ => .error (.status 1) }

def mintApi : Api where
  finalizedHead := some mintBlock
  getSignedBlock _ := none
  getNonce _ := 0

-- The enclave writes each shard state as soon as a block's extrinsics are executed, but seals the
-- light client only at the end of the ECALL.
theorem produceBlocks_replays_blocks_after_rollback :
    ((produceBlocks replayEnv forkApi 5 demoGenesis replayWorld).bind fun (w, head) =>
      (produceBlocks replayEnv honestApi 5 head w).map fun (w, head) =>
        (head, w.freeBalance Stf.reference 0 3)) = some (spendBlock.block.header, some 200) ∧
    ((produceBlocks sendFailsEnv mintApi 5 demoGenesis replayWorld).map fun (w, head) =>
      (head, w.chainRelayDb.map fun lv => (lv.latestFinalizedHeader lv.numRelays).toOption)) =
      some (demoGenesis, some (some mintBlock.block.header)) := by
  refine ⟨?_, ?_⟩ <;> decide +kernel

end Worker
