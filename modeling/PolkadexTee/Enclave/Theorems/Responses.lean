import PolkadexTee.Enclave.Calls
import PolkadexTee.Enclave.Reference
import PolkadexTee.Stf.Theorems.Storage
import PolkadexTee.Stf.Reference
import PolkadexTee.Relay.Reference

namespace Enclave

open Relay (Header)

section CheckResponses

variable {p : Relay.Primitives} {stateRoot : Hash}

-- A key in the map that `verify_worker_responses` builds was in the map it started from, or a
-- response carried it with a proof under which `check_proof` yields its value.
theorem checkResponses_lookup {responses : List WorkerResponse} {acc updateMap : UpdateMap}
    (h : checkResponses p stateRoot responses acc = .ok updateMap) {key : Bytes}
    {value : Option Bytes} (hk : updateMap.lookup key = some value) :
    acc.lookup key = some value ∨ ∃ proof, .chainStorage key value (some proof) ∈ responses ∧
      p.checkProof stateRoot key proof = .ok value := by
  induction responses generalizing acc with
  | nil => cases h; exact .inl hk
  | cons response rest ih =>
    obtain ⟨k, v, _ | proof⟩ := response
    · cases h
    simp only [checkResponses] at h
    split at h
    · cases h
    next actual hcheck =>
      split_ifs at h with hne
      have hv : actual = v := not_not.mp hne
      subst hv
      rcases ih h with hacc | ⟨proof', hmem, hproof⟩
      · by_cases hkey : key = k
        · subst hkey
          rw [AList.lookup_insert, Option.some_inj] at hacc
          subst hacc
          exact .inr ⟨proof, List.mem_cons_self, hcheck⟩
        · exact .inl (by rwa [AList.lookup_insert_ne hkey] at hacc)
      · exact .inr ⟨proof', List.mem_cons_of_mem _ hmem, hproof⟩

end CheckResponses

variable (env : Env)

theorem verifyWorkerResponses_run (responses : List WorkerResponse) (header : Header) (w : World) :
    (verifyWorkerResponses env responses header).run w =
      match checkResponses env.relay header.stateRoot responses ∅ with
      | .ok updateMap => .ok updateMap { w with log := w.log ++ [.trustedStateRoot header] }
      | .error e => .error e { w with log := w.log ++ [.trustedStateRoot header] } := by
  simp only [verifyWorkerResponses, logEvent]
  cases checkResponses env.relay header.stateRoot responses ∅ <;> rfl

-- Applying the map of a successful `verify_worker_responses` to a shard state changes only keys
-- that a response proved under the header's state root, each to the value proven (no value: the key
-- is cleared).
theorem verifyWorkerResponses_updates_only_proven {responses : List WorkerResponse} {header : Header}
    {w w' : World} {updateMap : UpdateMap}
    (h : (verifyWorkerResponses env responses header).run w = .ok updateMap w') (ext : Stf.State)
    (key : Bytes) :
    (Stf.updateStorage ext updateMap).get key = ext.get key ∨
    ∃ value proof, .chainStorage key value (some proof) ∈ responses ∧
      env.relay.checkProof header.stateRoot key proof = .ok value ∧
      (Stf.updateStorage ext updateMap).get key = value := by
  have hcheck : checkResponses env.relay header.stateRoot responses ∅ = .ok updateMap := by
    rw [verifyWorkerResponses_run] at h
    split at h <;> cases h
    assumption
  rw [Stf.updateStorage_get]
  cases hl : updateMap.lookup key with
  | none => exact .inl rfl
  | some value =>
    rcases checkResponses_lookup hcheck hl with hempty | ⟨proof, hmem, hproof⟩
    · cases hempty
    · exact .inr ⟨value, proof, hmem, hproof, by cases value <;> rfl⟩

open Relay.LightValidation (demo)

-- The `System::Account` key of account `7`, and a host that answers every request with a proof
-- of its absence, which the backend's `check_proof` accepts.
def accountSevenKey : Bytes := Stf.accountKeyHash Stf.reference 7

def eraseResponses : List WorkerResponse := [.chainStorage accountSevenKey none (some [])]

def eraseEnv : Env :=
  { Env.quiet { demo with checkProof := fun _ _ _ => .ok none } Stf.reference with
    workerRequest := fun _ _ => .ok (some eraseResponses) }

def eraseHeader : Header := ⟨0, 1, 0, []⟩

def emptyWorld : World := ⟨none, ∅, 0, []⟩

def sevenFunded : Stf.State :=
  Stf.State.empty.set accountSevenKey (Stf.reference.encodeInfo ⟨0, ⟨100, 0⟩⟩)

theorem verifyWorkerResponses_erase_witness :
    (verifyWorkerResponses eraseEnv eraseResponses eraseHeader).run emptyWorld =
      .ok (AList.insert accountSevenKey none ∅) { emptyWorld with log := [.trustedStateRoot eraseHeader] } ∧
    ((Stf.updateStorage sevenFunded (AList.insert accountSevenKey none ∅)).get accountSevenKey =
        sevenFunded.get accountSevenKey ∨
      ∃ value proof, .chainStorage accountSevenKey value (some proof) ∈ eraseResponses ∧
        eraseEnv.relay.checkProof eraseHeader.stateRoot accountSevenKey proof = .ok value ∧
        (Stf.updateStorage sevenFunded (AList.insert accountSevenKey none ∅)).get accountSevenKey =
          value) :=
  have h : (verifyWorkerResponses eraseEnv eraseResponses eraseHeader).run emptyWorld =
      .ok (AList.insert accountSevenKey none ∅) { emptyWorld with log := [.trustedStateRoot eraseHeader] } :=
    rfl
  ⟨h, verifyWorkerResponses_updates_only_proven eraseEnv h sevenFunded accountSevenKey⟩

-- Account `5` sends nothing to account `6`: a call that succeeds and changes no balance.
def idleCall : Stf.TrustedCallSigned := ⟨.balanceTransfer 5 6 0, 0, []⟩

-- `handle_trusted_worker_call` asks for no storage at all for a trusted call, yet applies the
-- host's answer: a proven absence of account `7`, which the request never named, deletes the
-- account with its 100 from the shard state.
theorem handleTrustedWorkerCall_applies_unrequested_key :
    chainStorageRequests eraseEnv eraseHeader (Stf.getStorageHashesToUpdate idleCall) = [] ∧
    Stf.accountData Stf.reference sevenFunded 7 = some ⟨100, 0⟩ ∧
    ((handleTrustedWorkerCall eraseEnv [] sevenFunded idleCall eraseHeader 0).run
      emptyWorld).toExcept.toOption.map (fun r => Stf.accountData Stf.reference r.2.1 7) =
      some none := by
  refine ⟨rfl, ?_, ?_⟩ <;> decide

end Enclave
