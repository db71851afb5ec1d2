import PolkadexTee.Relay.Validation
import PolkadexTee.Lib.Except

namespace Relay.LightValidation

variable {p : Primitives} {lv lv' : LightValidation} {relayId : RelayId} {header : Header}

theorem verifyGrandpaProof_eq_ok {j : Justification} {h : Hash} {n : Blocknumber} {s : SetId}
    {v : AuthorityList} :
    verifyGrandpaProof p j h n s v = .ok () ↔ decodeAndVerifyFinalizes p j (h, n) s v = .ok () := by
  unfold verifyGrandpaProof
  split <;> simp_all

-- `apply_validator_set_change` touches nothing but the voter set, its id and the schedule.
theorem applyValidatorSetChange_eq (relay : RelayState) :
    applyValidatorSetChange relay header =
      { relay with
        currentValidatorSet := (applyValidatorSetChange relay header).currentValidatorSet,
        currentValidatorSetId := (applyValidatorSetChange relay header).currentValidatorSetId,
        scheduledChange := none } := by
  rcases relay with ⟨_, _, _, _, _, _, _ | c⟩
  · rfl
  · simp only [applyValidatorSetChange]
    split <;> rfl

section applyValidatorSetChange

variable (relay : RelayState)

@[simp]
theorem applyValidatorSetChange_lastFinalizedBlockHeader :
    (applyValidatorSetChange relay header).lastFinalizedBlockHeader =
      relay.lastFinalizedBlockHeader := by
  rw [applyValidatorSetChange_eq]

@[simp]
theorem applyValidatorSetChange_headerHashes :
    (applyValidatorSetChange relay header).headerHashes = relay.headerHashes := by
  rw [applyValidatorSetChange_eq]

@[simp]
theorem applyValidatorSetChange_unjustifiedHeaders :
    (applyValidatorSetChange relay header).unjustifiedHeaders = relay.unjustifiedHeaders := by
  rw [applyValidatorSetChange_eq]

@[simp]
theorem applyValidatorSetChange_verifyTxInclusion :
    (applyValidatorSetChange relay header).verifyTxInclusion = relay.verifyTxInclusion := by
  rw [applyValidatorSetChange_eq]

@[simp]
theorem applyValidatorSetChange_scheduledChange :
    (applyValidatorSetChange relay header).scheduledChange = none := by
  rw [applyValidatorSetChange_eq]

end applyValidatorSetChange

-- `schedule_validator_set_change` touches nothing but the schedule.
theorem scheduleValidatorSetChange_eq (relay : RelayState) :
    scheduleValidatorSetChange relay header =
      { relay with scheduledChange := (scheduleValidatorSetChange relay header).scheduledChange } := by
  unfold scheduleValidatorSetChange
  split
  · rfl
  · split <;> rfl

theorem scheduleValidatorSetChange_scheduledChange (relay : RelayState) :
    (scheduleValidatorSetChange relay header).scheduledChange =
      relay.scheduledChange.or ((pendingChange header.digest).map fun log =>
        ⟨log.delay + header.number, log.nextAuthorities⟩) := by
  unfold scheduleValidatorSetChange
  cases hc : relay.scheduledChange <;> cases pendingChange header.digest <;> simp [hc]

section finalizeJustified

variable (relay : RelayState) (vs : AuthorityList) (vsId : SetId)

theorem finalizeJustified_eq :
    finalizeJustified p relay header vs vsId =
      { relay with
        lastFinalizedBlockHeader := header,
        currentValidatorSet :=
          if vsId > relay.currentValidatorSetId then vs else relay.currentValidatorSet,
        currentValidatorSetId :=
          if vsId > relay.currentValidatorSetId then vsId else relay.currentValidatorSetId,
        headerHashes := relay.headerHashes ++ relay.unjustifiedHeaders ++ [p.hash header],
        unjustifiedHeaders := [],
        scheduledChange := (scheduleValidatorSetChange relay header).scheduledChange } := by
  simp only [finalizeJustified]
  rw [scheduleValidatorSetChange_eq]
  simp only [scheduleValidatorSetChange_scheduledChange]
  split <;> simp_all

@[simp]
theorem finalizeJustified_lastFinalizedBlockHeader :
    (finalizeJustified p relay header vs vsId).lastFinalizedBlockHeader = header := by
  rw [finalizeJustified_eq]

@[simp]
theorem finalizeJustified_headerHashes :
    (finalizeJustified p relay header vs vsId).headerHashes =
      relay.headerHashes ++ relay.unjustifiedHeaders ++ [p.hash header] := by
  rw [finalizeJustified_eq]

@[simp]
theorem finalizeJustified_unjustifiedHeaders :
    (finalizeJustified p relay header vs vsId).unjustifiedHeaders = [] := by
  rw [finalizeJustified_eq]

end finalizeJustified

-- What one call of `submit_finalized_headers` can do: fail and leave the state alone, or accept the
-- header on the branch its `grandpa_proofs` select, every proof having verified.
theorem submitFinalizedHeaders_cases {ancestry : List Header} {vs : AuthorityList} {vsId : SetId}
    {proofs : Option (List Justification)} {r : Except Error Unit}
    (h : submitFinalizedHeaders p lv relayId header ancestry vs vsId proofs = .ok (lv', r)) :
    (∃ e, r = .error e ∧ lv' = lv) ∨
    (r = .ok () ∧ ∃ relay, lv.trackedRelays relayId = some relay ∧
      verifyAncestry p ancestry (p.hash relay.lastFinalizedBlockHeader) header = .ok () ∧
      ((proofs = none ∧ lv' = lv.setRelay relayId { relay with
          lastFinalizedBlockHeader := header,
          unjustifiedHeaders := relay.unjustifiedHeaders ++ [p.hash header] }) ∨
       (∃ js, proofs = some js ∧
          (∀ j ∈ js, decodeAndVerifyFinalizes p j (p.hash header, header.number) vsId vs = .ok ()) ∧
          lv' = lv.setRelay relayId (finalizeJustified p relay header vs vsId)))) := by
  unfold submitFinalizedHeaders at h
  split at h
  case h_1 => cases h; exact .inl ⟨_, rfl, rfl⟩
  case h_2 relay hr =>
    split at h
    case h_1 => cases h; exact .inl ⟨_, rfl, rfl⟩
    case h_2 ha =>
      split at h
      case h_1 => cases h; exact .inr ⟨rfl, relay, hr, ha, .inl ⟨rfl, rfl⟩⟩
      case h_2 js =>
        split at h
        case isTrue => cases h
        case isFalse =>
          split at h
          case h_1 => cases h; exact .inl ⟨_, rfl, rfl⟩
          case h_2 hv =>
            cases h
            refine .inr ⟨rfl, relay, hr, ha, .inr ⟨js, rfl, fun j hj => ?_, rfl⟩⟩
            exact verifyGrandpaProof_eq_ok.mp (Except.forM_eq_ok.mp hv j hj)

-- What one call of `submit_simple_header` can do. The relay's own voter set, after the scheduled
-- change has been applied, is the one the justifications are checked against. An error after the
-- parent check keeps the applied change.
theorem submitSimpleHeader_cases {proofs : Option (List Justification)} {r : Except Error Unit}
    (h : submitSimpleHeader p lv relayId header proofs = .ok (lv', r)) :
    (∃ e, r = .error e ∧ (lv' = lv ∨ ∃ relay, lv.trackedRelays relayId = some relay ∧
      lv' = lv.setRelay relayId (applyValidatorSetChange relay header))) ∨
    (r = .ok () ∧ ∃ relay, lv.trackedRelays relayId = some relay ∧
      p.hash relay.lastFinalizedBlockHeader = header.parentHash ∧
      ((proofs = none ∧ lv' = lv.setRelay relayId { applyValidatorSetChange relay header with
          lastFinalizedBlockHeader := header,
          unjustifiedHeaders := relay.unjustifiedHeaders ++ [p.hash header] }) ∨
       (∃ js, proofs = some js ∧
          (∀ j ∈ js, decodeAndVerifyFinalizes p j (p.hash header, header.number)
            (applyValidatorSetChange relay header).currentValidatorSetId
            (applyValidatorSetChange relay header).currentValidatorSet = .ok ()) ∧
          lv' = lv.setRelay relayId (finalizeJustified p (applyValidatorSetChange relay header) header
            (applyValidatorSetChange relay header).currentValidatorSet
            (applyValidatorSetChange relay header).currentValidatorSetId)))) := by
  unfold submitSimpleHeader at h
  split at h
  case h_1 => cases h; exact .inl ⟨_, rfl, .inl rfl⟩
  case h_2 relay hr =>
    split at h
    case isTrue => cases h; exact .inl ⟨_, rfl, .inl rfl⟩
    case isFalse hp =>
      rcases submitFinalizedHeaders_cases h with ⟨e, rfl, rfl⟩ | ⟨rfl, relay', hr', -, hb⟩
      · exact .inl ⟨e, rfl, .inr ⟨relay, hr, rfl⟩⟩
      · simp only [setRelay_trackedRelays_self, Option.some.injEq] at hr'
        subst hr'
        refine .inr ⟨rfl, relay, hr, not_not.mp hp, ?_⟩
        simpa using hb

end Relay.LightValidation
