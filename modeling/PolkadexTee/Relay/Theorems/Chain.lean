import PolkadexTee.Relay.Theorems.Basic

/-! The chain of headers a relay accepts: every header it finalizes, with or without a justification,
is a child of the one it finalized before, so all of them descend by parent hashes from the
header the relay was initialized with. -/

namespace Relay

-- `header` is reached from `root` by parent hashes.
inductive Descends (p : Primitives) (root : Header) : Header → Prop
  | root : Descends p root root
  | child {parent header : Header} (hp : Descends p root parent)
      (hlink : header.parentHash = p.hash parent) : Descends p root header

namespace LightValidation

variable {p : Primitives} {root : Header} {lv lv' : LightValidation}

-- The last finalized header of the relay the enclave works on, the one numbered `num_relays`,
-- descends from `root`.
def HeadDescends (p : Primitives) (root : Header) (lv : LightValidation) : Prop :=
  ∀ relay, lv.trackedRelays lv.numRelays = some relay → Descends p root relay.lastFinalizedBlockHeader

theorem HeadDescends.setRelay {relayId : RelayId} {relay : RelayState} (hd : lv.HeadDescends p root)
    (hrelay : relayId = lv.numRelays → Descends p root relay.lastFinalizedBlockHeader) :
    (lv.setRelay relayId relay).HeadDescends p root := by
  intro r hr
  rw [setRelay_numRelays] at hr
  by_cases hid : lv.numRelays = relayId
  · subst hid
    rw [setRelay_trackedRelays_self, Option.some_inj] at hr
    subst hr
    exact hrelay rfl
  · rw [setRelay_trackedRelays_ne relay hid] at hr
    exact hd r hr

-- A write that keeps the last finalized header of the relay it rewrites.
theorem HeadDescends.setRelay_same_head {relayId : RelayId} {relay relay' : RelayState}
    (hd : lv.HeadDescends p root) (hr : lv.trackedRelays relayId = some relay)
    (hlast : relay'.lastFinalizedBlockHeader = relay.lastFinalizedBlockHeader) :
    (lv.setRelay relayId relay').HeadDescends p root :=
  hd.setRelay fun hid => hlast ▸ hd relay (hid ▸ hr)

theorem checkXtInclusion_headDescends {relayId : RelayId} {block : Block} {r : Except Error Unit}
    (h : lv.checkXtInclusion p relayId block = .ok (lv', r)) (hd : lv.HeadDescends p root) :
    lv'.HeadDescends p root := by
  unfold checkXtInclusion at h
  split at h
  · cases h; exact hd
  next relay hr =>
    split at h
    · cases h; exact hd
    · dsimp only at h
      split at h
      · cases h
      · cases h; exact hd.setRelay_same_head hr rfl

theorem submitXtToBeIncluded_headDescends {relayId : RelayId} {xt : OpaqueExtrinsic}
    {r : Except Error Unit} (h : lv.submitXtToBeIncluded relayId xt = (lv', r))
    (hd : lv.HeadDescends p root) : lv'.HeadDescends p root := by
  unfold submitXtToBeIncluded at h
  split at h
  · cases h; exact hd
  next relay hr => cases h; exact hd.setRelay_same_head hr rfl

-- A header that `submit_simple_header` accepts becomes the relay's last finalized header, as a
-- child of the one before it, with a justification or without.
theorem submitSimpleHeader_headDescends {header : Header} {proofs : Option (List Justification)}
    (h : lv.submitSimpleHeader p lv.numRelays header proofs = .ok (lv', .ok ()))
    (hd : lv.HeadDescends p root) :
    lv'.HeadDescends p root ∧ lv'.latestFinalizedHeader lv'.numRelays = .ok header := by
  rcases submitSimpleHeader_cases h with ⟨_, he, _⟩ | ⟨-, relay, hr, hlink, hcases⟩
  · cases he
  have hchild : Descends p root header := .child (hd relay hr) hlink.symm
  rcases hcases with ⟨-, rfl⟩ | ⟨_, -, -, rfl⟩
  · exact ⟨hd.setRelay fun _ => hchild, by simp [latestFinalizedHeader]⟩
  · exact ⟨hd.setRelay fun _ => by rwa [finalizeJustified_lastFinalizedBlockHeader],
      by simp [latestFinalizedHeader]⟩

theorem latestFinalizedHeader_descends {header : Header}
    (h : lv.latestFinalizedHeader lv.numRelays = .ok header) (hd : lv.HeadDescends p root) :
    Descends p root header := by
  unfold latestFinalizedHeader at h
  split at h
  · cases h
  next relay hr => cases h; exact hd relay hr

-- A relay initialized on `root` starts the chain at `root`.
theorem initializeRelay_headDescends {validatorSet : AuthorityList} {proof : StorageProof}
    {relayId : RelayId} (h : initializeRelay p new root validatorSet proof = (lv, .ok relayId)) :
    lv.HeadDescends p root := by
  unfold initializeRelay at h
  split at h
  · cases h
  · cases h
    intro relay hr
    simp only [Function.update_self, Option.some_inj] at hr
    subst hr
    exact .root

end LightValidation

end Relay
