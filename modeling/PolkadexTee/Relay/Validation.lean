import PolkadexTee.Relay.Objects

namespace Relay

-- `pending_change`: the first digest item that decodes as a GRANDPA log (`grandpa_log`, via
-- `convert_first`) is consulted, and only a `ScheduledChange` log yields a change.
def pendingChange : List DigestItem → Option ScheduledChange
  | [] => none
  | .grandpa (.scheduledChange c) :: _ => some c
  | .grandpa _ :: _ => none
  | .other _ :: rest => pendingChange rest

namespace LightValidation

variable (p : Primitives)

-- `GrandpaJustification::decode_and_verify_finalizes`.
def decodeAndVerifyFinalizes (encoded : Justification) (target : Hash × Blocknumber) (setId : SetId)
    (voters : AuthorityList) : Except JustificationError Unit :=
  match p.decodeJustification encoded with
  | none => .error .justificationDecode
  | some j =>
    if (j.targetHash, j.targetNumber) ≠ target then
      .error (.badJustification "invalid commit target in grandpa justification")
    else
      p.verify j setId voters

-- `verify_grandpa_proof`; every `JustificationError` becomes `Error::InvalidFinalityProof`.
def verifyGrandpaProof (justification : Justification) (hash : Hash) (number : Blocknumber)
    (setId : SetId) (voters : AuthorityList) : Except Error Unit :=
  match decodeAndVerifyFinalizes p justification (hash, number) setId voters with
  | .ok () => .ok ()
  | .error _ => .error .invalidFinalityProof

-- `check_validator_set_proof`: the SCALE encoding of the set, prefixed by `AUTHORITIES_VERISON`,
-- must be the value stored under `:grandpa_authorities`.
def checkValidatorSetProof (stateRoot : Hash) (proof : StorageProof)
    (validatorSet : AuthorityList) : Except Error Unit :=
  match p.checkProof stateRoot ":grandpa_authorities".asciiBytes proof with
  | .error e => .error e
  | .ok none => .error .storageValueUnavailable
  | .ok (some actual) =>
    if 1 :: p.encodeAuthorities validatorSet = actual then .ok () else .error .validatorSetMismatch

def initializeRelay (lv : LightValidation) (blockHeader : Header) (validatorSet : AuthorityList)
    (validatorSetProof : StorageProof) : LightValidation × Except Error RelayId :=
  match checkValidatorSetProof p blockHeader.stateRoot validatorSetProof validatorSet with
  | .error e => (lv, .error e)
  | .ok () =>
    let newRelayId := lv.numRelays + 1
    ({ numRelays := newRelayId,
       trackedRelays := Function.update lv.trackedRelays newRelayId
         (some (RelayState.new p blockHeader validatorSet)) }, .ok newRelayId)

-- The loop of `verify_ancestry` after its first check: walk the proof while each header is the
-- parent of the previous one (`break` on the first one that is not).
def verifyAncestry.go (ancestorHash : Hash) (parentHash : Hash) : List Header → Except Error Unit
  | [] => .error .invalidAncestryProof
  | header :: rest =>
    if p.hash header ≠ parentHash then .error .invalidAncestryProof
    else if header.parentHash = ancestorHash then .ok ()
    else verifyAncestry.go ancestorHash header.parentHash rest

def verifyAncestry (proof : List Header) (ancestorHash : Hash) (child : Header) : Except Error Unit :=
  if child.parentHash = ancestorHash then .ok ()
  else verifyAncestry.go p ancestorHash child.parentHash proof

def applyValidatorSetChange (relay : RelayState) (header : Header) : RelayState :=
  match relay.scheduledChange with
  | none => relay
  | some change =>
    -- `take()` clears the schedule before its block is compared with the header's.
    let relay := { relay with scheduledChange := none }
    if change.atBlock = header.number then
      { relay with currentValidatorSet := change.nextAuthorityList,
                   currentValidatorSetId := relay.currentValidatorSetId + 1 }
    else relay

def scheduleValidatorSetChange (relay : RelayState) (header : Header) : RelayState :=
  match pendingChange header.digest with
  | none => relay
  | some log =>
    -- an already scheduled change is kept, the new one is only logged
    if relay.scheduledChange.isSome then relay
    else { relay with scheduledChange := some ⟨log.delay + header.number, log.nextAuthorities⟩ }

-- The state change of the justified branch of `submit_finalized_headers`, once every proof has
-- verified.
def finalizeJustified (relay : RelayState) (header : Header) (validatorSet : AuthorityList)
    (validatorSetId : SetId) : RelayState :=
  let relay := scheduleValidatorSetChange { relay with lastFinalizedBlockHeader := header } header
  let relay := { relay with headerHashes := relay.headerHashes ++ relay.unjustifiedHeaders ++ [p.hash header],
                            unjustifiedHeaders := [] }
  if validatorSetId > relay.currentValidatorSetId then
    { relay with currentValidatorSet := validatorSet, currentValidatorSetId := validatorSetId }
  else relay

def submitFinalizedHeaders (lv : LightValidation) (relayId : RelayId) (header : Header)
    (ancestryProof : List Header) (validatorSet : AuthorityList) (validatorSetId : SetId)
    (grandpaProofs : Option (List Justification)) :
    Except Panic (LightValidation × Except Error Unit) :=
  match lv.trackedRelays relayId with
  | none => .ok (lv, .error .noSuchRelayExists)
  | some relay =>
    match verifyAncestry p ancestryProof (p.hash relay.lastFinalizedBlockHeader) header with
    | .error e => .ok (lv, .error e)
    | .ok () =>
      match grandpaProofs with
      | none =>
        .ok (lv.setRelay relayId { relay with
          lastFinalizedBlockHeader := header,
          unjustifiedHeaders := relay.unjustifiedHeaders ++ [p.hash header] }, .ok ())
      | some proofs =>
        if ¬p.voterSetValid validatorSet then .error .voterSetEmpty
        else
          match proofs.forM (fun proof => verifyGrandpaProof p proof (p.hash header) header.number
              validatorSetId validatorSet) with
          | .error e => .ok (lv, .error e)
          | .ok () =>
            .ok (lv.setRelay relayId (finalizeJustified p relay header validatorSet validatorSetId),
              .ok ())

def submitSimpleHeader (lv : LightValidation) (relayId : RelayId) (header : Header)
    (grandpaProof : Option (List Justification)) :
    Except Panic (LightValidation × Except Error Unit) :=
  match lv.trackedRelays relayId with
  | none => .ok (lv, .error .noSuchRelayExists)
  | some relay =>
    if p.hash relay.lastFinalizedBlockHeader ≠ header.parentHash then
      .ok (lv, .error .headerAncestryMismatch)
    else
      let relay := applyValidatorSetChange relay header
      submitFinalizedHeaders p (lv.setRelay relayId relay) relayId header [] relay.currentValidatorSet
        relay.currentValidatorSetId grandpaProof

def submitXtToBeIncluded (lv : LightValidation) (relayId : RelayId) (extrinsic : OpaqueExtrinsic) :
    LightValidation × Except Error Unit :=
  match lv.trackedRelays relayId with
  | none => (lv, .error .noSuchRelayExists)
  | some relay =>
    (lv.setRelay relayId { relay with verifyTxInclusion := relay.verifyTxInclusion ++ [extrinsic] },
      .ok ())

-- `Vec::remove` of each collected index in turn; an index past the end panics.
def removeIndices : List Nat → List OpaqueExtrinsic → Except Panic (List OpaqueExtrinsic)
  | [], xts => .ok xts
  | i :: is, xts => if i < xts.length then removeIndices is (xts.eraseIdx i) else .error .indexOutOfBounds

def checkXtInclusion (lv : LightValidation) (relayId : RelayId) (block : Block) :
    Except Panic (LightValidation × Except Error Unit) :=
  match lv.trackedRelays relayId with
  | none => .ok (lv, .error .noSuchRelayExists)
  | some relay =>
    if relay.verifyTxInclusion.isEmpty then .ok (lv, .ok ())
    else
      -- one index per block extrinsic: the position of its first match by hash
      let foundXts := block.extrinsics.filterMap fun xt =>
        relay.verifyTxInclusion.findIdx? fun xtOpaque => p.hashOf xt = p.hashOf xtOpaque
      -- `sort_by(|a, b| b.cmp(a))`: highest index first
      let sorted := foundXts.mergeSort fun a b => b ≤ a
      match removeIndices sorted relay.verifyTxInclusion with
      | .error e => .error e
      | .ok rest => .ok (lv.setRelay relayId { relay with verifyTxInclusion := rest }, .ok ())

def genesisHash (lv : LightValidation) (relayId : RelayId) : Except Panic (Except Error Hash) :=
  match lv.trackedRelays relayId with
  | none => .ok (.error .noSuchRelayExists)
  | some relay =>
    match relay.headerHashes with
    | [] => .error .indexOutOfBounds
    | h :: _ => .ok (.ok h)

def latestFinalizedHeader (lv : LightValidation) (relayId : RelayId) : Except Error Header :=
  match lv.trackedRelays relayId with
  | none => .error .noSuchRelayExists
  | some relay => .ok relay.lastFinalizedBlockHeader

end LightValidation

end Relay
