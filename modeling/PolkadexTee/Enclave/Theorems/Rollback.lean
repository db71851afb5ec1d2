import PolkadexTee.Enclave.Theorems.Frame

/-! What a failed `produce_blocks` leaves behind. The block loop writes each shard's state file as
soon as a block's extrinsics are executed, but the light client is sealed only after the whole
loop. -/

namespace Enclave

open EStateM (Keeps)

section Seal

variable {env : Env} {sealed : Option Relay.LightValidation}

-- The sealed light client is kept by every call that neither unseals nor seals it.
theorem sealFrame : Frame (fun w => w.chainRelayDb = sealed) fun _ => True where
  calls _ hw := hw
  shards _ _ hw := hw
  log _ _ _ hw := hw
  sent _ _ := trivial
  blocks _ _ := trivial

theorem syncBlock_keeps_seal (validator : Relay.LightValidation) (calls : List Stf.OpaqueCall)
    (signedBlock : Relay.SignedBlock) :
    Keeps (fun w => w.chainRelayDb = sealed) (syncBlock env validator calls signedBlock) fun _ => True := by
  unfold syncBlock
  split
  · dsimp only
    split
    · exact Keeps.throw_bind
    · exact Keeps.throw_bind
    · exact Keeps.pure_bind <| (Frame.orUnexpected_keeps (sealFrame.updateStates_keeps trivial)).bind
        fun _ _ => (Keeps.attempt _ (sealFrame.scanBlockForRelevantXt_keeps trivial trivial)).bind
          fun _ _ => (Frame.genesisHashOf_keeps _).bind fun _ _ => Keeps.pure trivial
  · exact Keeps.throw

-- The block loop never writes the sealed light client, whatever the blocks are and wherever it
-- fails.
theorem syncBlocks_keeps_seal :
    ∀ (validator : Relay.LightValidation) (calls : List Stf.OpaqueCall)
      (signedBlocks : List Relay.SignedBlock),
      Keeps (fun w => w.chainRelayDb = sealed) (syncBlocks env validator calls signedBlocks) fun _ => True
  | _, _, [] => Keeps.pure trivial
  | validator, calls, signedBlock :: rest =>
    (syncBlock_keeps_seal validator calls signedBlock).bind fun r _ => syncBlocks_keeps_seal r.1 r.2 rest

theorem lightValidationUnseal_run {w : World} {lv : Relay.LightValidation}
    (hdb : w.chainRelayDb = some lv) (hf : env.fault w.calls = none) :
    (Io.lightValidationUnseal env).run w = .ok lv { w with calls := w.calls + 1 } := by
  simp only [Io.lightValidationUnseal, platformCall, nextCall, EStateM.run_bind, EStateM.run_modifyGet,
    hf, EStateM.run_pure, EStateM.run_get, hdb]

-- When a block of the loop fails, `produce_blocks` fails in the state the loop left: its state
-- files carry what the blocks before wrote, and its sealed light client is the one the ECALL
-- started from.
theorem produceBlocks_run_of_syncBlocks_error {w w' : World} {lv : Relay.LightValidation}
    {blocksToSync : List Relay.SignedBlock} {e : SgxStatus} (nonce : UInt32)
    (hdb : w.chainRelayDb = some lv) (hf : env.fault w.calls = none)
    (hsync : (syncBlocks env lv [] blocksToSync).run { w with calls := w.calls + 1 } = .error e w') :
    (produceBlocks env blocksToSync nonce).run w = .error e w' ∧ w'.chainRelayDb = w.chainRelayDb := by
  refine ⟨?_, ?_⟩
  · rw [produceBlocks, EStateM.run_bind_of_ok (lightValidationUnseal_run hdb hf), EStateM.run_bind,
      hsync]
  · -- the loop started from the light client as sealed, and kept it
    have hkeep : Keeps (fun w' => w'.chainRelayDb = w.chainRelayDb) (syncBlocks env lv [] blocksToSync)
        fun _ => True :=
      syncBlocks_keeps_seal lv [] blocksToSync
    have hseal := hkeep { w with calls := w.calls + 1 } rfl
    rwa [hsync] at hseal

end Seal

end Enclave
