import PolkadexTee.Enclave.ProduceBlocks

/-! The calls of the enclave that leave the sealed light client alone. -/

namespace Enclave

open Relay (Header)
open EStateM (Keeps)
open Stf (ShardIdentifier)

-- An invariant that withstands the effects of the enclave's calls other than the light client's
-- `unseal` and `seal` and the writes of state files: the next call number, and an entry of the log
-- that `ok` allows, as every getter result and every batch of blocks sent is.
structure CallFrame (inv : World → Prop) (ok : Event → Prop) : Prop where
  calls  : ∀ w, inv w → inv { w with calls := w.calls + 1 }
  log    : ∀ w e, ok e → inv w → inv { w with log := w.log ++ [e] }
  sent   : ∀ getterHash value, ok (.stateSent getterHash value)
  blocks : ∀ confirmations signedBlocks, ok (.blocksSent confirmations signedBlocks)

-- A `CallFrame` that withstands any change of the state files as well.
structure Frame (inv : World → Prop) (ok : Event → Prop) : Prop extends CallFrame inv ok where
  shards : ∀ w f, inv w → inv { w with shards := f }

-- Writing the state file of `shard`, or creating it, keeps `inv`.
def Writable (inv : World → Prop) (shard : ShardIdentifier) : Prop :=
  ∀ w file, inv w → inv { w with shards := w.shards.insert shard file }

namespace Frame

variable {inv : World → Prop} {ok : Event → Prop} {env : Env}

-- Calls that only read and fail keep every invariant.

section Pure

theorem liftOption_keeps {α : Type} (o : Option α) : Keeps inv (liftOption o) fun _ => True := by
  cases o
  · exact Keeps.throw
  · exact Keeps.pure trivial

theorem shardExists_keeps (shard : ShardIdentifier) :
    Keeps inv (State.shardExists shard) fun _ => True :=
  Keeps.get.bind fun _ _ => Keeps.pure trivial

theorem verifyGetterSignature_keeps (getter : Stf.Getter) :
    Keeps inv (verifyGetterSignature env getter) fun _ => True := by
  unfold verifyGetterSignature
  split
  · split
    · exact Keeps.pure trivial
    · exact Keeps.throw
  · exact Keeps.pure trivial

theorem orUnexpected_keeps {α : Type} {x : EnclaveM α} (h : Keeps inv x fun _ => True) :
    Keeps inv (orUnexpected x) fun _ => True :=
  (Keeps.attempt _ h).bind fun r _ => by
    split
    · exact Keeps.pure trivial
    · exact Keeps.throw

theorem genesisHashOf_keeps (validator : Relay.LightValidation) :
    Keeps inv (genesisHashOf validator) fun _ => True := by
  unfold genesisHashOf
  split
  · exact Keeps.pure trivial
  · exact Keeps.throw

theorem composeExtrinsics_keeps (validator : Relay.LightValidation) :
    ∀ (calls : List Stf.OpaqueCall) (nonce : UInt32),
      Keeps inv (composeExtrinsics env validator calls nonce) fun _ => True
  | [], _ => Keeps.pure trivial
  | _ :: rest, _ => (genesisHashOf_keeps validator).bind fun _ _ =>
    (composeExtrinsics_keeps validator rest _).bind fun _ _ => Keeps.pure trivial

end Pure

end Frame

namespace CallFrame

variable {inv : World → Prop} {ok : Event → Prop} {env : Env}

variable (F : CallFrame inv ok)

include F

section Primitives

theorem nextCall_keeps : Keeps inv nextCall fun _ => True :=
  Keeps.modifyGet F.calls

theorem platformCall_keeps : Keeps inv (platformCall env) fun _ => True := by
  unfold platformCall
  refine F.nextCall_keeps.bind fun _ _ => ?_
  split
  · exact Keeps.throw
  · exact Keeps.pure trivial

theorem logEvent_keeps {e : Event} (he : ok e) : Keeps inv (logEvent e) fun _ => True :=
  Keeps.modify fun w hw => F.log w e he hw

theorem initShard_keeps {shard : ShardIdentifier} (hW : Writable inv shard) :
    Keeps inv (State.initShard env shard) fun _ => True :=
  F.platformCall_keeps.bind fun _ _ => Keeps.modify fun w hw => hW w none hw

theorem load_keeps (shard : ShardIdentifier) : Keeps inv (State.load env shard) fun _ => True := by
  unfold State.load
  refine F.platformCall_keeps.bind fun _ _ => Keeps.get.bind fun w _ => ?_
  split
  · exact Keeps.throw
  · split
    · exact Keeps.pure trivial
    · exact Keeps.throw
  · exact Keeps.pure trivial

theorem write_keeps (state : Stf.State) {shard : ShardIdentifier} (hW : Writable inv shard) :
    Keeps inv (State.write env state shard) fun _ => True :=
  F.platformCall_keeps.bind fun _ _ => (Keeps.modify fun w hw => hW w _ hw).bind fun _ _ =>
    Keeps.pure trivial

theorem hashOf_keeps (state : AList fun _ : Bytes => Bytes) :
    Keeps inv (State.hashOf env state) fun _ => True :=
  F.platformCall_keeps.bind fun _ _ => Keeps.pure trivial

-- `hash_of` returns the hash of the state it is given.
theorem hashOf_spec (state : AList fun _ : Bytes => Bytes) :
    Keeps inv (State.hashOf env state) fun hash => hash = env.stateHash state :=
  F.platformCall_keeps.bind fun _ _ => Keeps.pure rfl

theorem listShards_keeps : Keeps inv (State.listShards env) fun _ => True :=
  F.platformCall_keeps.bind fun _ _ => Keeps.get.bind fun _ _ => Keeps.pure trivial

theorem initShardIfMissing_keeps {shard : ShardIdentifier} (hW : Writable inv shard) :
    Keeps inv (State.initShardIfMissing env shard) fun _ => True := by
  unfold State.initShardIfMissing
  refine (Frame.shardExists_keeps shard).bind fun _ _ => ?_
  split
  · exact Keeps.pure trivial
  · exact F.initShard_keeps hW

theorem loadOrInit_keeps {shard : ShardIdentifier} (hW : Writable inv shard) :
    Keeps inv (State.loadOrInit env shard) fun _ => True := by
  unfold State.loadOrInit
  refine (Frame.shardExists_keeps shard).bind fun _ _ => ?_
  split
  · exact F.load_keeps shard
  · refine (F.initShard_keeps hW).bind fun _ _ => ?_
    split
    · exact Keeps.pure trivial
    · exact Keeps.throw

theorem rsaDecrypt_keeps (cyphertext : Bytes) : Keeps inv (rsaDecrypt env cyphertext) fun _ => True :=
  F.platformCall_keeps.bind fun _ _ => Frame.liftOption_keeps _

theorem unsealSigner_keeps : Keeps inv (unsealSigner env) fun _ => True :=
  F.platformCall_keeps.bind fun _ _ => Keeps.pure trivial

theorem getMrenclaveOfSelf_keeps : Keeps inv (getMrenclaveOfSelf env) fun _ => True :=
  F.platformCall_keeps.bind fun _ _ => Keeps.pure trivial

theorem workerRequest_keeps (req : List WorkerRequest) :
    Keeps inv (workerRequest env req) fun _ => True := by
  unfold workerRequest
  refine F.nextCall_keeps.bind fun _ _ => ?_
  split
  · exact Keeps.throw
  · exact Keeps.throw
  · exact Keeps.pure trivial

theorem sendBlockAndConfirmation_keeps (confirmations : List Bytes)
    (signedBlocks : List SignedSidechainBlock) :
    Keeps inv (sendBlockAndConfirmation env confirmations signedBlocks) fun _ => True := by
  unfold sendBlockAndConfirmation
  refine F.nextCall_keeps.bind fun _ _ =>
    (F.logEvent_keeps (F.blocks confirmations signedBlocks)).bind fun _ _ => ?_
  split
  · exact Keeps.throw
  · exact Keeps.pure trivial

theorem getPendingTopsSeparated_keeps (shard : ShardIdentifier) :
    Keeps inv (getPendingTopsSeparated env shard) fun _ => True :=
  F.nextCall_keeps.bind fun _ _ => Keeps.pure trivial

theorem sendState_keeps (getterHash : Hash) (value : Option Bytes) :
    Keeps inv (sendState getterHash value) fun _ => True :=
  F.logEvent_keeps (F.sent getterHash value)

theorem now_keeps : Keeps inv (now env) fun _ => True :=
  F.nextCall_keeps.bind fun _ _ => Keeps.pure trivial

theorem timeIsOverdue_keeps (timeout : Timeout) (startTime : Int) :
    Keeps inv (timeIsOverdue env timeout startTime) fun _ => True :=
  F.now_keeps.bind fun _ _ => Keeps.pure trivial

end Primitives
-- The calls that trust the state root of a header log it first; they keep the invariant when `ok`
-- allows that entry.

section Calls

variable {header : Header}

theorem verifyWorkerResponses_keeps (hroot : ok (.trustedStateRoot header))
    (responses : List WorkerResponse) :
    Keeps inv (verifyWorkerResponses env responses header) fun _ => True := by
  unfold verifyWorkerResponses
  refine (F.logEvent_keeps hroot).bind fun _ _ => ?_
  split
  · exact Keeps.pure trivial
  · exact Keeps.throw

-- The calls for layer one that a trusted call hands back extend those it was given.
theorem handleTrustedWorkerCall_keeps (hroot : ok (.trustedStateRoot header))
    (calls : List Stf.OpaqueCall) (state : Stf.State) (call : Stf.TrustedCallSigned)
    (shard : ShardIdentifier) :
    Keeps inv (handleTrustedWorkerCall env calls state call header shard) fun r => calls <+: r.1 := by
  unfold handleTrustedWorkerCall
  refine F.getMrenclaveOfSelf_keeps.bind fun _ _ => ?_
  split
  · exact Keeps.pure (List.prefix_refl calls)
  refine (F.workerRequest_keeps _).bind fun _ _ => (F.verifyWorkerResponses_keeps hroot _).bind fun _ _ => ?_
  dsimp only
  split
  · exact Keeps.throw
  · next hexec => exact Keeps.pure (Stf.execute_calls_prefix hexec)
  · next hexec => exact Keeps.pure (Stf.execute_calls_prefix hexec)

theorem decryptUncheckedExtrinsic_keeps (xt : CallWorkerFn) :
    Keeps inv (decryptUncheckedExtrinsic env xt) fun _ => True := by
  unfold decryptUncheckedExtrinsic
  refine (F.rsaDecrypt_keeps _).bind fun _ _ => ?_
  split
  · exact Keeps.pure trivial
  · exact Keeps.throw

theorem refreshState_keeps (hroot : ok (.trustedStateRoot header)) (requests : List WorkerRequest)
    (state : Stf.State) :
    Keeps inv (refreshState env requests header state) fun _ => True := by
  unfold refreshState
  split
  · exact Keeps.pure trivial
  · exact (F.workerRequest_keeps _).bind fun _ _ => (F.verifyWorkerResponses_keeps hroot _).bind fun _ _ =>
      Keeps.pure trivial

end Calls

section Sidechain

theorem composeSignedBlock_keeps (latestOnchainHeader : Header) (topCallHashes : List Hash)
    (shard : ShardIdentifier) (stateHashApriori : Hash) (state : Stf.State) (blockNumber : UInt64)
    (signer : Stf.AccountId) :
    Keeps inv (composeSignedBlock env latestOnchainHeader topCallHashes shard stateHashApriori state
      blockNumber signer) fun _ => True := by
  unfold composeSignedBlock
  dsimp only
  split
  · exact (F.hashOf_keeps _).bind fun _ _ => F.platformCall_keeps.bind fun _ _ =>
      F.now_keeps.bind fun _ _ => Keeps.pure trivial
  · exact Keeps.throw

theorem composeBlockAndConfirmation_keeps (latestOnchainHeader : Header) (topCallHashes : List Hash)
    (shard : ShardIdentifier) (stateHashApriori : Hash) (state : Stf.State) :
    Keeps inv (composeBlockAndConfirmation env latestOnchainHeader topCallHashes shard
      stateHashApriori state) fun _ => True := by
  unfold composeBlockAndConfirmation
  refine F.unsealSigner_keeps.bind fun _ _ => ?_
  dsimp only
  split
  · exact (Keeps.attempt _ (F.composeSignedBlock_keeps _ _ _ _ _ _ _)).bind fun r _ => by
      split <;> exact Keeps.pure trivial
  · exact Keeps.throw

-- The loop over a shard's calls only adds calls for layer one.
theorem executeTrustedCalls_keeps {header : Header} (hroot : ok (.trustedStateRoot header))
    (shard : ShardIdentifier) (startTime : Int) :
    ∀ (calls : List Stf.OpaqueCall) (state : Stf.State) (callHashes : List Hash)
      (trustedCalls : List Stf.TrustedCallSigned),
      Keeps inv (executeTrustedCalls env header shard startTime calls state callHashes trustedCalls)
        fun r => calls <+: r.1
  | _, _, _, [] => Keeps.pure (List.prefix_refl _)
  | calls, state, callHashes, _ :: rest => by
    rw [executeTrustedCalls]
    refine (Keeps.attempt _ (F.handleTrustedWorkerCall_keeps hroot _ _ _ _)).bind fun r hr => ?_
    -- the round goes on with calls that extend those it was given
    have hnext : ∀ calls' state' callHashes', calls <+: calls' →
        Keeps inv (do
          if ← timeIsOverdue env .call startTime then return (calls', state', callHashes', true)
          executeTrustedCalls env header shard startTime calls' state' callHashes' rest)
          fun r => calls <+: r.1 :=
      fun calls' state' callHashes' hc => (F.timeIsOverdue_keeps _ _).bind fun overdue _ => by
        split
        · exact Keeps.pure hc
        · exact (executeTrustedCalls_keeps hroot shard startTime _ _ _ rest).mono fun _ h => hc.trans h
    split
    next calls' state' callHashes' hround =>
      refine hnext calls' state' callHashes' ?_
      split at hround <;> cases hround
      · exact hr _ rfl
      · exact hr _ rfl
      · exact List.prefix_refl calls

-- The loop over the shards writes the state files of the shards it goes over, and no other.
theorem executeCallShards_keeps {header : Header} (hroot : ok (.trustedStateRoot header))
    (startTime : Int) :
    ∀ (calls : List Stf.OpaqueCall) (blocks : List SignedSidechainBlock) (shards : List ShardIdentifier),
      (∀ shard ∈ shards, Writable inv shard) →
      Keeps inv (executeCallShards env header startTime calls blocks shards) fun _ => True
  | _, _, [], _ => Keeps.pure trivial
  | calls, blocks, shard :: rest, hW => by
    rw [executeCallShards]
    have hshard := hW shard List.mem_cons_self
    refine (F.loadOrInit_keeps hshard).bind fun _ _ => (F.hashOf_keeps _).bind fun _ _ =>
      (F.getPendingTopsSeparated_keeps shard).bind fun _ _ =>
        (F.executeTrustedCalls_keeps hroot shard startTime _ _ _ _).bind fun _ _ => ?_
    split
    refine (Keeps.attempt _ (F.composeBlockAndConfirmation_keeps _ _ _ _ _)).bind fun _ _ => ?_
    split
    all_goals
      refine (F.write_keeps _ hshard).bind fun _ _ => ?_
      split
      · exact Keeps.pure trivial
      · exact executeCallShards_keeps hroot startTime _ _ rest fun s hs =>
          hW s (List.mem_cons_of_mem _ hs)

end Sidechain

theorem createExtrinsics_keeps (validator : Relay.LightValidation) (calls : List Stf.OpaqueCall)
    (nonce : UInt32) :
    Keeps inv (createExtrinsics env validator calls nonce) fun _ => True :=
  F.unsealSigner_keeps.bind fun _ _ => Frame.composeExtrinsics_keeps validator calls nonce

end CallFrame

namespace Frame

variable {inv : World → Prop} {ok : Event → Prop} {env : Env}

variable (F : Frame inv ok)

include F

theorem writable (shard : ShardIdentifier) : Writable inv shard :=
  fun w _ hw => F.shards w _ hw

-- The calls that may write any state file.

section Writes

theorem initShard_keeps (shard : ShardIdentifier) :
    Keeps inv (State.initShard env shard) fun _ => True :=
  F.toCallFrame.initShard_keeps (F.writable shard)

theorem write_keeps (state : Stf.State) (shard : ShardIdentifier) :
    Keeps inv (State.write env state shard) fun _ => True :=
  F.toCallFrame.write_keeps state (F.writable shard)

theorem initShardIfMissing_keeps (shard : ShardIdentifier) :
    Keeps inv (State.initShardIfMissing env shard) fun _ => True :=
  F.toCallFrame.initShardIfMissing_keeps (F.writable shard)

theorem loadOrInit_keeps (shard : ShardIdentifier) :
    Keeps inv (State.loadOrInit env shard) fun _ => True :=
  F.toCallFrame.loadOrInit_keeps (F.writable shard)

end Writes

section Calls

variable {header : Header}

theorem updateShardState_keeps (hroot : ok (.trustedStateRoot header)) (updateMap : UpdateMap)
    (s : ShardIdentifier) :
    Keeps inv (updateShardState env header updateMap s) fun _ => True := by
  unfold updateShardState
  exact (F.initShardIfMissing_keeps s).bind fun _ _ =>
    (F.workerRequest_keeps _).bind fun _ _ => (F.verifyWorkerResponses_keeps hroot _).bind fun _ _ =>
      (F.load_keeps s).bind fun _ _ => (F.write_keeps _ s).bind fun _ _ => Keeps.pure trivial

theorem updateStates_keeps (hroot : ok (.trustedStateRoot header)) :
    Keeps inv (updateStates env header) fun _ => True := by
  unfold updateStates
  dsimp only
  split
  · exact Keeps.pure trivial
  refine (F.workerRequest_keeps _).bind fun _ _ => (F.verifyWorkerResponses_keeps hroot _).bind fun _ _ => ?_
  split
  · exact Keeps.pure trivial
  · exact Keeps.pure trivial
  · exact (liftOption_keeps _).bind fun shards _ =>
      Keeps.forM fun s _ => F.updateShardState_keeps hroot _ s

theorem handleShieldFundsXt_keeps (calls : List Stf.OpaqueCall) (xtOpaque : Relay.OpaqueExtrinsic)
    (xt : ShieldFundsFn) :
    Keeps inv (handleShieldFundsXt env calls xtOpaque xt) fun _ => True := by
  unfold handleShieldFundsXt
  refine (F.loadOrInit_keeps _).bind fun _ _ => (F.rsaDecrypt_keeps _).bind fun _ _ =>
    (liftOption_keeps _).bind fun _ _ => ?_
  dsimp only
  split
  · exact Keeps.throw
  · exact Keeps.pure trivial
  · exact (F.write_keeps _ _).bind fun _ _ => Keeps.pure trivial

-- A failure of the shielding is only logged.
theorem scanShieldFunds_keeps (opaqueCalls : List Stf.OpaqueCall) (xtOpaque : Relay.OpaqueExtrinsic) :
    Keeps inv (scanShieldFunds env opaqueCalls xtOpaque) fun _ => True := by
  unfold scanShieldFunds
  split
  · split
    · exact (Keeps.attempt _ (F.handleShieldFundsXt_keeps _ _ _)).bind fun r _ => by
        split <;> exact Keeps.pure trivial
    · exact Keeps.pure trivial
  · exact Keeps.pure trivial

theorem scanCallWorker_keeps (hroot : ok (.trustedStateRoot header))
    (opaqueCalls : List Stf.OpaqueCall) (xtOpaque : Relay.OpaqueExtrinsic) :
    Keeps inv (scanCallWorker env header opaqueCalls xtOpaque) fun _ => True := by
  unfold scanCallWorker
  split
  · split
    · refine (Keeps.attempt _ (F.decryptUncheckedExtrinsic_keeps _)).bind fun r _ => ?_
      split
      · exact (F.loadOrInit_keeps _).bind fun _ _ =>
          (Keeps.attempt _ (F.handleTrustedWorkerCall_keeps hroot _ _ _ _)).bind fun _ _ =>
            (F.write_keeps _ _).bind fun _ _ => Keeps.pure trivial
      · exact Keeps.pure trivial
    · exact Keeps.pure trivial
  · exact Keeps.pure trivial

theorem scanExtrinsic_keeps (hroot : ok (.trustedStateRoot header))
    (opaqueCalls : List Stf.OpaqueCall) (xtOpaque : Relay.OpaqueExtrinsic) :
    Keeps inv (scanExtrinsic env header opaqueCalls xtOpaque) fun _ => True :=
  (F.scanShieldFunds_keeps _ _).bind fun _ _ => F.scanCallWorker_keeps hroot _ _

theorem scanExtrinsics_keeps (hroot : ok (.trustedStateRoot header)) :
    ∀ (opaqueCalls : List Stf.OpaqueCall) (xts : List Relay.OpaqueExtrinsic),
      Keeps inv (scanExtrinsics env header opaqueCalls xts) fun _ => True
  | _, [] => Keeps.pure trivial
  | _, _ :: rest => (F.scanExtrinsic_keeps hroot _ _).bind fun _ _ => scanExtrinsics_keeps hroot _ rest

theorem scanBlockForRelevantXt_keeps {block : Relay.Block} (hscan : ok (.scanned block))
    (hroot : ok (.trustedStateRoot block.header)) :
    Keeps inv (scanBlockForRelevantXt env block) fun _ => True :=
  (F.logEvent_keeps hscan).bind fun _ _ => F.scanExtrinsics_keeps hroot _ _

theorem getStfState_keeps (getter : Stf.TrustedGetterSigned) (shard : ShardIdentifier) :
    Keeps inv (getStfState env getter shard) fun _ => True := by
  unfold getStfState
  split
  · exact Keeps.pure trivial
  refine (shardExists_keeps shard).bind fun _ _ => ?_
  extract_lets jp
  have hjp : ∀ created, Keeps inv (jp created) fun _ => True := by
    intro created
    dsimp only [jp]
    split
    · exact Keeps.pure trivial
    · exact (Keeps.attempt _ (F.load_keeps shard)).bind fun r _ => by
        split <;> exact Keeps.pure trivial
  split
  · exact Keeps.pure_bind (hjp (.ok ()))
  · exact (Keeps.attempt _ (F.initShard_keeps shard)).bind fun created _ => hjp created

end Calls

section Sidechain

theorem handleTrustedGetters_keeps (shard : ShardIdentifier) (startTime : Int) :
    ∀ getters : List Stf.TrustedGetterSigned,
      Keeps inv (handleTrustedGetters env shard startTime getters) fun _ => True
  | [] => Keeps.pure trivial
  | _ :: rest => by
    rw [handleTrustedGetters]
    refine (F.getStfState_keeps _ _).bind fun _ _ => (F.sendState_keeps _ _).bind fun _ _ =>
      (F.timeIsOverdue_keeps _ _).bind fun _ _ => ?_
    split
    · exact Keeps.pure trivial
    · exact handleTrustedGetters_keeps shard startTime rest

theorem handleGetterShards_keeps (startTime : Int) :
    ∀ shards : List ShardIdentifier,
      Keeps inv (handleGetterShards env startTime shards) fun _ => True
  | [] => Keeps.pure trivial
  | shard :: rest => by
    rw [handleGetterShards]
    refine (F.getPendingTopsSeparated_keeps shard).bind fun _ _ =>
      (F.handleTrustedGetters_keeps shard startTime _).bind fun _ _ => ?_
    split
    · exact Keeps.pure trivial
    · exact handleGetterShards_keeps startTime rest

theorem executeCallShards_keeps {header : Header} (hroot : ok (.trustedStateRoot header))
    (startTime : Int) (calls : List Stf.OpaqueCall) (blocks : List SignedSidechainBlock)
    (shards : List ShardIdentifier) :
    Keeps inv (executeCallShards env header startTime calls blocks shards) fun _ => True :=
  F.toCallFrame.executeCallShards_keeps hroot startTime calls blocks shards fun shard _ =>
    F.writable shard

theorem executeTopPoolCalls_keeps {header : Header} (hroot : ok (.trustedStateRoot header)) :
    Keeps inv (executeTopPoolCalls env header) fun _ => True :=
  F.platformCall_keeps.bind fun _ _ => F.listShards_keeps.bind fun _ _ => F.now_keeps.bind fun _ _ =>
    (F.handleGetterShards_keeps _ _).bind fun _ _ => F.now_keeps.bind fun _ _ =>
      F.executeCallShards_keeps hroot _ _ _ _

end Sidechain

end Frame

end Enclave
