import PolkadexTee.Enclave.Theorems.Frame
import PolkadexTee.Relay.Theorems.Chain

/-! Which layer-one headers the enclave relies on. -/

namespace Enclave

open Relay (Header Descends)
open Relay.LightValidation (HeadDescends)
open EStateM (Keeps)
open Stf (ShardIdentifier)

def Event.OnChain (p : Relay.Primitives) (root : Header) : Event → Prop
  | .trustedStateRoot header => Descends p root header
  | .scanned block => Descends p root block.header
  | .stateSent _ _ => True
  | .blocksSent _ _ => True

structure ChainInvariant (p : Relay.Primitives) (root : Header) (w : World) : Prop where
  sealed : ∀ lv, w.chainRelayDb = some lv → lv.HeadDescends p root
  logged : ∀ e ∈ w.log, e.OnChain p root

section Frame

variable {p : Relay.Primitives} {root : Header} {w : World}

theorem ChainInvariant.of_frame {w' : World} (hw : ChainInvariant p root w)
    (hdb : w'.chainRelayDb = w.chainRelayDb) (hlog : w'.log = w.log) : ChainInvariant p root w' :=
  ⟨hdb ▸ hw.sealed, hlog ▸ hw.logged⟩

theorem ChainInvariant.log {e : Event} (hw : ChainInvariant p root w) (he : e.OnChain p root) :
    ChainInvariant p root { w with log := w.log ++ [e] } := by
  refine ⟨hw.sealed, fun e' he' => ?_⟩
  rcases List.mem_append.mp he' with h | h
  · exact hw.logged e' h
  · rw [List.mem_singleton.mp h]; exact he

theorem ChainInvariant.seal {lv : Relay.LightValidation} (hw : ChainInvariant p root w)
    (hlv : lv.HeadDescends p root) : ChainInvariant p root { w with chainRelayDb := some lv } := by
  refine ⟨fun lv' h => ?_, hw.logged⟩
  cases h
  exact hlv

-- The chain invariant allows in the log exactly the entries that are on the chain.
theorem ChainInvariant.frame : Frame (ChainInvariant p root) (Event.OnChain p root) where
  calls _ hw := hw.of_frame rfl rfl
  shards _ _ hw := hw.of_frame rfl rfl
  log _ _ he hw := hw.log he
  sent _ _ := trivial
  blocks _ _ := trivial

end Frame

section LightClient

variable {env : Env} {root : Header}

-- The light client read from its sealed file carries the invariant's chain.
theorem lightValidationUnseal_keeps :
    Keeps (ChainInvariant env.relay root) (Io.lightValidationUnseal env) (HeadDescends env.relay root) := by
  unfold Io.lightValidationUnseal
  refine ChainInvariant.frame.platformCall_keeps.bind fun _ _ => Keeps.get.bind fun w hw => ?_
  cases hdb : w.chainRelayDb with
  | none => exact Keeps.throw
  | some lv => exact Keeps.pure (hw.sealed lv hdb)

theorem lightValidationSeal_keeps {lv : Relay.LightValidation} (hlv : lv.HeadDescends env.relay root) :
    Keeps (ChainInvariant env.relay root) (Io.lightValidationSeal env lv) fun _ => True :=
  ChainInvariant.frame.platformCall_keeps.bind fun _ _ => Keeps.modify fun _ hw => hw.seal hlv

-- The `get_state` ECALL trusts the state root of the sealed light client's latest header.
theorem getState_keeps (getter : Stf.Getter) (shard : ShardIdentifier) :
    Keeps (ChainInvariant env.relay root) (getState env getter shard) fun _ => True := by
  have F := (ChainInvariant.frame : Frame (ChainInvariant env.relay root) _)
  unfold getState
  refine (Frame.verifyGetterSignature_keeps getter).bind fun _ _ => (F.initShardIfMissing_keeps shard).bind
    fun _ _ => (F.load_keeps shard).bind fun _ _ => lightValidationUnseal_keeps.bind fun v hv => ?_
  split
  · next latest hlast =>
    exact (F.refreshState_keeps (Relay.LightValidation.latestFinalizedHeader_descends hlast hv) _ _).bind
      fun _ _ => Keeps.pure trivial
  · exact Keeps.throw

-- One block: the light client accepts the header as a child of its last finalized header, and only
-- then are the block's state root trusted and its extrinsics executed. The validator handed on
-- keeps its chain.
theorem syncBlock_keeps {validator : Relay.LightValidation}
    (hv : validator.HeadDescends env.relay root) (calls : List Stf.OpaqueCall)
    (signedBlock : Relay.SignedBlock) :
    Keeps (ChainInvariant env.relay root) (syncBlock env validator calls signedBlock)
      fun r => r.1.HeadDescends env.relay root := by
  have F := (ChainInvariant.frame : Frame (ChainInvariant env.relay root) _)
  unfold syncBlock
  split
  · next validator hx =>
    have hv := Relay.LightValidation.checkXtInclusion_headDescends hx hv
    -- the rest of the block, inlined into the branch where the header was accepted
    dsimp only
    split
    · exact Keeps.throw_bind
    · exact Keeps.throw_bind
    · next validator' hs =>
      have ⟨hv', hlast⟩ := Relay.LightValidation.submitSimpleHeader_headDescends hs hv
      have hh := Relay.LightValidation.latestFinalizedHeader_descends hlast hv'
      exact Keeps.pure_bind <| (Frame.orUnexpected_keeps (F.updateStates_keeps hh)).bind fun _ _ =>
        (Keeps.attempt _ (F.scanBlockForRelevantXt_keeps hh hh)).bind fun _ _ =>
          (Frame.genesisHashOf_keeps validator').bind fun _ _ => Keeps.pure hv'
  · exact Keeps.throw

theorem syncBlocks_keeps :
    ∀ {validator : Relay.LightValidation}, validator.HeadDescends env.relay root →
      ∀ (calls : List Stf.OpaqueCall) (signedBlocks : List Relay.SignedBlock),
        Keeps (ChainInvariant env.relay root) (syncBlocks env validator calls signedBlocks)
          fun r => r.1.HeadDescends env.relay root
  | _, hv, _, [] => Keeps.pure hv
  | _, hv, calls, signedBlock :: rest => (syncBlock_keeps hv calls signedBlock).bind fun r hr => by
    exact syncBlocks_keeps hr r.2 rest

theorem submitExtrinsics_keeps :
    ∀ {validator : Relay.LightValidation}, validator.HeadDescends env.relay root →
      ∀ xts : List Bytes,
        Keeps (ChainInvariant env.relay root) (submitExtrinsics env validator xts)
          (Relay.LightValidation.HeadDescends env.relay root)
  | _, hv, [] => Keeps.pure hv
  | _, hv, _ :: rest => by
    rw [submitExtrinsics]
    split
    · split
      · next hs => exact submitExtrinsics_keeps (Relay.LightValidation.submitXtToBeIncluded_headDescends hs hv) rest
      · exact Keeps.throw
    · exact Keeps.throw

-- The `produce_blocks` ECALL keeps the chain invariant, whatever blocks the worker hands in and
-- whatever the host makes fail.
theorem produceBlocks_keeps (blocksToSync : List Relay.SignedBlock) (nonce : UInt32) :
    Keeps (ChainInvariant env.relay root) (produceBlocks env blocksToSync nonce) fun _ => True := by
  have F := (ChainInvariant.frame : Frame (ChainInvariant env.relay root) _)
  unfold produceBlocks
  refine lightValidationUnseal_keeps.bind fun validator hv =>
    (syncBlocks_keeps hv [] blocksToSync).bind fun r hr => ?_
  split
  split
  · next latest hlast =>
    have hh := Relay.LightValidation.latestFinalizedHeader_descends hlast hr
    refine (Frame.orUnexpected_keeps (F.executeTopPoolCalls_keeps hh)).bind fun _ _ => ?_
    split
    exact (Frame.orUnexpected_keeps (F.createExtrinsics_keeps _ _ _)).bind fun _ _ =>
      (submitExtrinsics_keeps hr _).bind fun v hv' =>
        (Frame.orUnexpected_keeps (lightValidationSeal_keeps hv')).bind fun _ _ =>
          Frame.orUnexpected_keeps (F.sendBlockAndConfirmation_keeps _ _)
  · exact Keeps.throw

end LightClient

end Enclave
