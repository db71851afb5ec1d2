import PolkadexTee.Relay.Theorems.Basic
import PolkadexTee.Relay.Reference

namespace Relay.LightValidation

variable (p : Primitives)

-- A run of `submit_simple_header` calls on one relay, as `produce_blocks` makes them. A call that
-- returns `Err` keeps what it changed before failing, as a `&mut self` method does; a panic ends
-- the run.
def submitSimpleHeaders (lv : LightValidation) (relayId : RelayId) :
    List (Header × Option (List Justification)) → Except Panic LightValidation
  | [] => .ok lv
  | (header, proofs) :: rest =>
    match submitSimpleHeader p lv relayId header proofs with
    | .error e => .error e
    | .ok (lv', _) => submitSimpleHeaders lv' relayId rest

-- A header whose digest schedules the voter `666` in, one block later.
def evilHeader : Header := ⟨1, 1, 0, [.grandpa (.scheduledChange ⟨[(666, 1)], 1⟩)]⟩

def nextHeader : Header := ⟨2, 2, 0, []⟩

-- The justified branch of `submit_finalized_headers` is taken for `Some(justifications)` even when
-- the list is empty: the loop over it checks nothing, and the header is accepted and its digest
-- read for a validator-set change.
theorem submitSimpleHeader_empty_justifications_install_set :
    ((submitSimpleHeader demo demoRelay 1 evilHeader (some [])).map Prod.snd = .ok (.ok ())) ∧
    ((submitSimpleHeaders demo demoRelay 1 [(evilHeader, some []), (nextHeader, none)]).map
      fun lv => (lv.trackedRelays 1).map (·.currentValidatorSet)) = .ok (some [(666, 1)]) := by
  decide

-- A header of block 1 scheduling the voter `2` for block `1 + 2`, and its justification.
def scheduleHeader : Header := ⟨1, 1, 0, [.grandpa (.scheduledChange ⟨[(2, 1)], 2⟩)]⟩

def atBlockHeader : Header := ⟨3, 3, 0, []⟩

-- `apply_validator_set_change` takes the scheduled change out of the relay before comparing its
-- block with the header's, so the very next header drops a change of delay `2` unenacted: after the
-- header of block 2 nothing is scheduled any more, and the header of block 3 is verified, and
-- accepted, under the old set with the old id.
theorem applyValidatorSetChange_drops_pending_change :
    ((submitSimpleHeaders demo demoRelay 1 [(scheduleHeader, some [[1]])]).map
      fun lv => (lv.trackedRelays 1).map (·.scheduledChange)) = .ok (some (some ⟨3, [(2, 1)]⟩)) ∧
    ((submitSimpleHeaders demo demoRelay 1 [(scheduleHeader, some [[1]]), (nextHeader, none)]).map
      fun lv => (lv.trackedRelays 1).map (·.scheduledChange)) = .ok (some none) ∧
    ((submitSimpleHeaders demo demoRelay 1
        [(scheduleHeader, some [[1]]), (nextHeader, none), (atBlockHeader, none)]).map
      fun lv => (lv.trackedRelays 1).map fun relay =>
        (relay.lastFinalizedBlockHeader.number, relay.currentValidatorSet,
          relay.currentValidatorSetId)) = .ok (some (3, [(1, 1)], 0)) := by
  refine ⟨?_, ?_, ?_⟩ <;> decide

-- A header of block 1 scheduling the voter `2` for block 2, and a header of block 2.
def switchHeader : Header := ⟨1, 1, 0, [.grandpa (.scheduledChange ⟨[(2, 1)], 1⟩)]⟩

def rejectedHeader : Header := ⟨2, 2, 0, []⟩

-- The relay once `switchHeader` is accepted, with the voter `2` scheduled for block 2.
def switchRelay : Except Panic LightValidation :=
  submitSimpleHeaders demo demoRelay 1 [(switchHeader, some [[1]])]

-- The call on `rejectedHeader`, with a justification that does not decode.
def rejectedCall : Except Panic (LightValidation × Except Error Unit) :=
  switchRelay.bind fun lv => submitSimpleHeader demo lv 1 rejectedHeader (some [[9, 9]])

-- The call fails, but the change scheduled for block 2 has been enacted before the proof was looked
-- at: the relay trusts the voter `2` under the id `1`, and nothing is scheduled any more.
theorem submitSimpleHeader_error_keeps_enacted_change :
    (switchRelay.map fun lv => (lv.trackedRelays 1).map (·.currentValidatorSet)) = .ok (some [(1, 1)]) ∧
    (switchRelay.map fun lv => (lv.trackedRelays 1).map (·.scheduledChange)) =
      .ok (some (some ⟨2, [(2, 1)]⟩)) ∧
    (rejectedCall.map Prod.snd) = .ok (.error .invalidFinalityProof) ∧
    (rejectedCall.map fun r => (r.1.trackedRelays 1).map (·.currentValidatorSet)) = .ok (some [(2, 1)]) ∧
    (rejectedCall.map fun r => (r.1.trackedRelays 1).map (·.currentValidatorSetId)) = .ok (some 1) ∧
    (rejectedCall.map fun r => (r.1.trackedRelays 1).map (·.scheduledChange)) = .ok (some none) := by
  decide

end Relay.LightValidation
