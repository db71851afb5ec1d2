import PolkadexTee.Enclave.Ecalls
import PolkadexTee.Enclave.Reference
import PolkadexTee.Enclave.Theorems.Frame
import PolkadexTee.Relay.Reference
import PolkadexTee.Stf.Reference

/-! The sidechain of a shard as the worker receives it: the blocks that reach
`ocall_send_block_and_confirmation` over a run of `produce_blocks` ECALLs. -/

namespace Enclave

open Relay (Header)
open EStateM (Keeps Triple)
open Stf (ShardIdentifier)

-- The sidechain blocks of `shard` that reached `ocall_send_block_and_confirmation`, in the order
-- they were sent.
def sentBlocks (shard : ShardIdentifier) : List Event → List SidechainBlock
  | [] => []
  | .blocksSent _ signedBlocks :: rest =>
    ((signedBlocks.map (·.block)).filter fun block => block.shardId = shard) ++ sentBlocks shard rest
  | _ :: rest => sentBlocks shard rest

section Compose

variable {env : Env} {inv : World → Prop} {ok : Event → Prop}

-- The frame of the trivial invariant.
theorem trueFrame : Frame (fun _ => True) fun _ => True where
  calls _ _ := trivial
  shards _ _ _ := trivial
  log _ _ _ _ := trivial
  sent _ _ := trivial
  blocks _ _ := trivial

-- A composed block has the number and the shard it is given and the stored last hash as its parent.
-- Its confirmation carries the hash of the state it is given, and the payload that state's diff;
-- the block's own hash is stored after both are taken.
theorem composeSignedBlock_spec (F : CallFrame inv ok) (latestOnchainHeader : Header)
    (topCallHashes : List Hash) (shard : ShardIdentifier) (stateHashApriori : Hash)
    (state : Stf.State) (blockNumber : UInt64) (signer : Stf.AccountId) :
    Keeps inv (composeSignedBlock env latestOnchainHeader topCallHashes shard stateHashApriori state
      blockNumber signer) fun r =>
        r.2.2.block.blockNumber = blockNumber ∧ r.2.2.block.shardId = shard ∧
        Stf.getLastBlockHash env.runtime state = some r.2.2.block.parentHash ∧
        r.2.1 = .blockConfirmed shard (env.hashBlock r.2.2.block) (env.stateHash state.state) ∧
        r.2.2.block.statePayload = env.encryptPayload
          ⟨stateHashApriori, env.stateHash state.state, env.encodeStateDiff state.stateDiff⟩ ∧
        r.1 = Stf.updateLastBlockHash env.runtime state (env.hashBlock r.2.2.block) := by
  unfold composeSignedBlock
  dsimp only
  split
  · next parentHash hparent =>
    refine (F.hashOf_spec _).bind fun stateHashAposteriori hhash => ?_
    rw [hhash]
    exact F.platformCall_keeps.bind fun _ _ => F.now_keeps.bind fun _ _ =>
      Keeps.pure ⟨rfl, rfl, hparent, rfl, rfl, rfl⟩
  · exact Keeps.throw

-- `compose_block_and_confirmation` stores the next block number before it composes the block, and a
-- failure hands back that numbered state: so what `composeSignedBlock` returns on the numbered
-- state, and the numbered state after a failure, give what it hands back.
theorem composeBlockAndConfirmation_of_signed (F : CallFrame inv ok) {latestOnchainHeader : Header}
    {topCallHashes : List Hash} {shard : ShardIdentifier} {stateHashApriori : Hash}
    {state : Stf.State}
    {post : Stf.State × Except SgxStatus (Stf.OpaqueCall × SignedSidechainBlock) → Prop}
    (hsigned : ∀ number signer, Stf.getSidechainBlockNumber env.runtime state = some number →
      Keeps inv (composeSignedBlock env latestOnchainHeader topCallHashes shard
        stateHashApriori (Stf.updateSidechainBlockNumber env.runtime state (number + 1))
        (number + 1) signer) fun r => post (r.1, .ok (r.2.1, r.2.2)))
    (herror : ∀ number e, Stf.getSidechainBlockNumber env.runtime state = some number →
      post (Stf.updateSidechainBlockNumber env.runtime state (number + 1), .error e)) :
    Keeps inv (composeBlockAndConfirmation env latestOnchainHeader topCallHashes shard
      stateHashApriori state) post := by
  unfold composeBlockAndConfirmation
  refine F.unsealSigner_keeps.bind fun signer _ => ?_
  dsimp only
  split
  · next number hnumber =>
    refine (Keeps.attempt _ (hsigned number signer hnumber)).bind fun r hr => ?_
    split
    · next state' blockConfirm signedBlock =>
      exact Keeps.pure (hr (state', blockConfirm, signedBlock) rfl)
    · exact Keeps.pure (herror number _ hnumber)
  · exact Keeps.throw

-- What the block that `compose_block_and_confirmation` hands back confirms: the hash and the diff
-- of the state with the next block number, without the block's hash, which the state handed back
-- holds.
def Confirms (env : Env) (shard : ShardIdentifier) (stateHashApriori : Hash) (state : Stf.State) :
    Stf.State × Except SgxStatus (Stf.OpaqueCall × SignedSidechainBlock) → Prop
  | (_, .error _) => True
  | (state', .ok (blockConfirm, signedBlock)) =>
    ∃ number, Stf.getSidechainBlockNumber env.runtime state = some number ∧
      let numbered := Stf.updateSidechainBlockNumber env.runtime state (number + 1)
      signedBlock.block.blockNumber = number + 1 ∧ signedBlock.block.shardId = shard ∧
      Stf.getLastBlockHash env.runtime numbered = some signedBlock.block.parentHash ∧
      blockConfirm = .blockConfirmed shard (env.hashBlock signedBlock.block)
        (env.stateHash numbered.state) ∧
      signedBlock.block.statePayload = env.encryptPayload
        ⟨stateHashApriori, env.stateHash numbered.state, env.encodeStateDiff numbered.stateDiff⟩ ∧
      state' = Stf.updateLastBlockHash env.runtime numbered (env.hashBlock signedBlock.block)

theorem composeBlockAndConfirmation_confirms (F : CallFrame inv ok) (latestOnchainHeader : Header)
    (topCallHashes : List Hash) (shard : ShardIdentifier) (stateHashApriori : Hash)
    (state : Stf.State) :
    Keeps inv (composeBlockAndConfirmation env latestOnchainHeader topCallHashes shard
      stateHashApriori state) (Confirms env shard stateHashApriori state) := by
  refine composeBlockAndConfirmation_of_signed F (fun number signer hnumber => ?_)
    fun _ _ _ => trivial
  refine (composeSignedBlock_spec F latestOnchainHeader topCallHashes shard stateHashApriori _
    (number + 1) signer).mono fun r hr => ?_
  obtain ⟨hblock, hshard, hparent, hconfirm, hpayload, hstate⟩ := hr
  exact ⟨number, hnumber, hblock, hshard, hparent, hconfirm, hpayload, hstate⟩

end Compose

-- The blocks of `execute_top_pool_calls` against what it leaves: each block's confirmation among
-- the calls for layer one and its payload carry the hash and the diff of its shard's state with the
-- new block number, and its shard's state file holds that state with the block's hash stored as
-- `LastHash`, which the confirmed hash does not see.

section Confirmed

variable (env : Env) {inv : World → Prop} {ok : Event → Prop}

-- What `signedBlock` confirms against the calls for layer one and the state files of `w`.
def Confirmed (calls : List Stf.OpaqueCall) (w : World) (signedBlock : SignedSidechainBlock) :
    Prop :=
  ∃ stateHashApriori executed,
    let numbered := Stf.updateSidechainBlockNumber env.runtime executed signedBlock.block.blockNumber
    .blockConfirmed signedBlock.block.shardId (env.hashBlock signedBlock.block)
        (env.stateHash numbered.state) ∈ calls ∧
      signedBlock.block.statePayload = env.encryptPayload
        ⟨stateHashApriori, env.stateHash numbered.state, env.encodeStateDiff numbered.stateDiff⟩ ∧
      w.shards.lookup signedBlock.block.shardId =
        some (some (Stf.updateLastBlockHash env.runtime numbered (env.hashBlock signedBlock.block)).state)

-- The blocks so far are confirmed, and none is of a shard the loop has still to go over.
def ConfirmedApart (calls : List Stf.OpaqueCall) (blocks : List SignedSidechainBlock)
    (shards : List ShardIdentifier) (w : World) : Prop :=
  ∀ signedBlock ∈ blocks, signedBlock.block.shardId ∉ shards ∧ Confirmed env calls w signedBlock

variable {env}

theorem Confirmed.of_prefix {calls calls' : List Stf.OpaqueCall} {w : World}
    {signedBlock : SignedSidechainBlock} (h : Confirmed env calls w signedBlock)
    (hc : calls <+: calls') : Confirmed env calls' w signedBlock := by
  obtain ⟨stateHashApriori, executed, hmem, hpayload, hfile⟩ := h
  exact ⟨stateHashApriori, executed, hc.subset hmem, hpayload, hfile⟩

-- The calls that write no state file keep the confirmations of the blocks so far.
theorem confirmedApart_frame (calls : List Stf.OpaqueCall) (blocks : List SignedSidechainBlock)
    (shards : List ShardIdentifier) :
    CallFrame (ConfirmedApart env calls blocks shards) fun _ => True where
  calls _ h := h
  log _ _ _ h := h
  sent _ _ := trivial
  blocks _ _ := trivial

theorem confirmedApart_writable {calls : List Stf.OpaqueCall} {blocks : List SignedSidechainBlock}
    {shards : List ShardIdentifier} {shard : ShardIdentifier} (hshard : shard ∈ shards) :
    Writable (ConfirmedApart env calls blocks shards) shard := by
  intro w file h signedBlock hmem
  obtain ⟨hnot, stateHashApriori, executed, hcall, hpayload, hfile⟩ := h signedBlock hmem
  have hne : signedBlock.block.shardId ≠ shard := fun heq => hnot (heq ▸ hshard)
  exact ⟨hnot, stateHashApriori, executed, hcall, hpayload, by rw [AList.lookup_insert_ne hne]; exact hfile⟩

-- `state::write` leaves the state it is given in the shard's file.
theorem write_triple (F : CallFrame inv ok) {shard : ShardIdentifier} (hW : Writable inv shard)
    (state : Stf.State) :
    Triple inv (State.write env state shard)
      (fun _ w => inv w ∧ w.shards.lookup shard = some (some state.state)) inv := by
  unfold State.write
  refine Triple.keeps_bind F.platformCall_keeps (fun _ _ => ?_) fun _ h => h
  refine Triple.bind (Triple.modify fun w hw => ?_) fun _ => Triple.pure fun _ h => h
  exact ⟨hW w _ hw, AList.lookup_insert _⟩

theorem listShards_nodup (F : CallFrame inv ok) :
    Keeps inv (State.listShards env) fun shards => shards.Nodup :=
  F.platformCall_keeps.bind fun _ _ => Keeps.get.bind fun w _ => Keeps.pure w.shards.keys_nodup

-- Each round of the loop over the shards confirms the block it composes, and keeps the
-- confirmations of the blocks before it: it writes only its own shard's file.
theorem executeCallShards_confirms {header : Header} (startTime : Int) :
    ∀ (calls : List Stf.OpaqueCall) (blocks : List SignedSidechainBlock) (shards : List ShardIdentifier),
      shards.Nodup →
      Triple (ConfirmedApart env calls blocks shards)
        (executeCallShards env header startTime calls blocks shards)
        (fun r w => ∀ signedBlock ∈ r.2, Confirmed env r.1 w signedBlock) fun _ => True
  | _, _, [], _ => Triple.pure fun _ h signedBlock hmem => (h signedBlock hmem).2
  | calls, blocks, shard :: rest, hnd => by
    obtain ⟨hnot, hnd'⟩ := List.nodup_cons.mp hnd
    have F : CallFrame (ConfirmedApart env calls blocks (shard :: rest)) fun _ => True :=
      confirmedApart_frame calls blocks (shard :: rest)
    have hW : Writable (ConfirmedApart env calls blocks (shard :: rest)) shard :=
      confirmedApart_writable List.mem_cons_self
    rw [executeCallShards]
    refine Triple.keeps_bind (F.loadOrInit_keeps hW) (fun _ _ => ?_) fun _ _ => trivial
    refine Triple.keeps_bind (F.hashOf_keeps _) (fun prevStateHash _ => ?_) fun _ _ => trivial
    refine Triple.keeps_bind (F.getPendingTopsSeparated_keeps shard) (fun _ _ => ?_) fun _ _ => trivial
    refine Triple.keeps_bind (F.executeTrustedCalls_keeps trivial shard startTime _ _ _ _)
      (fun r hcalls => ?_) fun _ _ => trivial
    split
    next calls₁ executed callHashes isDone =>
    refine Triple.keeps_bind (Keeps.attempt _ (composeBlockAndConfirmation_confirms F _ _ _ _ _))
      (fun res hres => ?_) fun _ _ => trivial
    -- the shard's round: the write of its file, then the rounds of the shards after it
    have hround : ∀ (calls₂ : List Stf.OpaqueCall) (blocks₂ : List SignedSidechainBlock)
        (state : Stf.State), calls₁ <+: calls₂ →
        (∀ signedBlock ∈ blocks₂, signedBlock ∈ blocks ∨ signedBlock.block.shardId = shard ∧
          ∀ w, w.shards.lookup shard = some (some state.state) → Confirmed env calls₂ w signedBlock) →
        Triple (ConfirmedApart env calls blocks (shard :: rest)) (do
            let _ ← State.write env state shard
            if isDone then return (calls₂, blocks₂)
            executeCallShards env header startTime calls₂ blocks₂ rest)
          (fun r w => ∀ signedBlock ∈ r.2, Confirmed env r.1 w signedBlock) fun _ => True := by
      intro calls₂ blocks₂ state hc hblocks
      refine ((write_triple F hW state).conseq (fun _ h => h) (fun _ _ h => h) fun _ _ => trivial).bind
        fun _ => ?_
      -- the blocks before keep their files, and the new one finds its own
      have happart : ∀ w, ConfirmedApart env calls blocks (shard :: rest) w →
          w.shards.lookup shard = some (some state.state) → ConfirmedApart env calls₂ blocks₂ rest w := by
        intro w hw hfile signedBlock hmem
        rcases hblocks signedBlock hmem with hold | ⟨hshard, hnew⟩
        · obtain ⟨hout, hconf⟩ := hw signedBlock hold
          exact ⟨fun h => hout (List.mem_cons_of_mem _ h), hconf.of_prefix (hcalls.trans hc)⟩
        · exact ⟨hshard ▸ hnot, hnew w hfile⟩
      split
      · exact Triple.pure fun w hw signedBlock hmem => (happart w hw.1 hw.2 signedBlock hmem).2
      · exact (executeCallShards_confirms startTime calls₂ blocks₂ rest hnd').conseq
          (fun w hw => happart w hw.1 hw.2) (fun _ _ h => h) fun _ h => h
    split
    next calls₂ blocks₂ state₂ hsel =>
    split at hsel
    · next _ _ blockConfirm signedBlock =>
      -- a composed block: its confirmation joins the calls, and its hash is in the state written
      cases hsel
      obtain ⟨number, -, hnumber, hshard, -, hconfirm, hpayload, hstate⟩ := hres _ rfl
      refine hround _ _ _ (List.prefix_append _ _) fun sb hmem => ?_
      rcases List.mem_append.mp hmem with hold | hnew
      · exact .inl hold
      · rw [List.mem_singleton.mp hnew]
        refine .inr ⟨hshard, fun w hfile => ⟨prevStateHash, executed, ?_, ?_, ?_⟩⟩
        · rw [hnumber, hshard, ← hconfirm]
          exact List.mem_append_right _ List.mem_cons_self
        · rw [hnumber, hpayload]
        · rw [hnumber, hshard, hfile, hstate]
    · cases hsel
      exact hround _ _ _ (List.prefix_refl _) fun sb hmem => .inl hmem
    · cases hsel
      exact hround _ _ _ (List.prefix_refl _) fun sb hmem => .inl hmem

-- Every block of `execute_top_pool_calls` is confirmed against the calls for layer one it returns
-- and the state files it leaves: its confirmation and its payload carry the hash of its shard's
-- state with the new block number, and the payload that state's diff, while the shard's file holds
-- that state with the block's hash stored as `LastHash`.
theorem executeTopPoolCalls_confirms_numbered_state (header : Header) :
    Triple (fun _ => True) (executeTopPoolCalls env header)
      (fun r w => ∀ signedBlock ∈ r.2, Confirmed env r.1 w signedBlock) fun _ => True := by
  unfold executeTopPoolCalls
  have F := trueFrame.toCallFrame
  refine Triple.keeps_bind F.platformCall_keeps (fun _ _ => ?_) fun _ _ => trivial
  refine Triple.keeps_bind (listShards_nodup F) (fun shards hnd => ?_) fun _ _ => trivial
  refine Triple.keeps_bind F.now_keeps (fun _ _ => ?_) fun _ _ => trivial
  refine Triple.keeps_bind (trueFrame.handleGetterShards_keeps _ _) (fun _ _ => ?_) fun _ _ => trivial
  refine Triple.keeps_bind F.now_keeps (fun _ _ => ?_) fun _ _ => trivial
  exact (executeCallShards_confirms _ [] [] shards hnd).conseq (fun _ _ _ h => absurd h List.not_mem_nil)
    (fun _ _ h => h) fun _ h => h

end Confirmed

-- A new shard, and a host that makes one platform call fail: call `11` is the AES encryption of the
-- payload in the first ECALL, after the new block number has been stored, and call `14` is
-- `ed25519::unseal_pair` in `create_extrinsics`, after the shard state has been written.

def faultAt (k : Nat) : Env :=
  { Env.quiet Relay.LightValidation.demo Stf.reference with
    fault := fun n => if n = k then some (.status 1) else none }

-- The relay tracks `demoGenesis`; shard `0` has the empty state file of a new shard.
def newShardWorld : World := ⟨some Relay.LightValidation.demoRelay, AList.insert 0 none ∅, 0, []⟩

def twoProduceBlocks : List Ecall := [.produceBlocks [] 0, .produceBlocks [] 0]

theorem produceBlocks_first_sent_block_skips_number_one :
    ((Stf.initState Stf.reference).bind (Stf.getLastBlockHash Stf.reference)) = some 0 ∧
      (sentBlocks 0 (runEcalls (faultAt 11) twoProduceBlocks newShardWorld).log).map
          (fun block => (block.blockNumber, block.parentHash)) = [(2, 0)] ∧
      (sentBlocks 0 (runEcalls (faultAt 14) twoProduceBlocks newShardWorld).log).map
          (fun block => (block.blockNumber, block.parentHash)) = [(2, 1)] := by
  decide +kernel

-- A state hash that sees the stored values, their bytes summed, and a payload that is the list of
-- the keys the diff changes.

def checksumEnv : Env :=
  { Env.quiet Relay.LightValidation.demo Stf.reference with
    stateHash := fun state =>
      BitVec.ofNat 256 (state.entries.map fun entry => (entry.2.map UInt8.toNat).sum).sum
    encodeStateDiff := fun diff => diff.keys.flatten
    encryptPayload := fun payload => payload.stateUpdate }

-- The state hashes of the block confirmations among the calls for layer one.
def confirmedStateHashes : List Stf.OpaqueCall → List Hash
  | .blockConfirmed _ _ stateHash :: rest => stateHash :: confirmedStateHashes rest
  | _ :: rest => confirmedStateHashes rest
  | [] => []

theorem executeTopPoolCalls_confirms_unwritten_state :
    (match (executeTopPoolCalls checksumEnv Relay.LightValidation.demoGenesis).run newShardWorld with
      | .ok (calls, signedBlocks) w =>
        some (confirmedStateHashes calls,
          (w.shards.lookup 0).bind (Option.map checksumEnv.stateHash),
          signedBlocks.map fun signedBlock => signedBlock.block.statePayload)
      | .error _ _ => none) =
      some ([4649], some 4650, [Stf.storageValueKey Stf.reference "System" "Number"]) := by
  decide +kernel

end Enclave
