import PolkadexTee.Enclave.Calls
import PolkadexTee.Enclave.Reference
import PolkadexTee.Stf.Theorems.Replay
import PolkadexTee.Relay.Reference

/-! `handle_shield_funds_xt` credits a deposit through `Stf::execute`, as a `balance_shield` call
with the nonce 0. The nonce check rejects it for every account whose nonce is not 0; the error is
only logged and no state file is written. -/

namespace Enclave

open EStateM (Keeps)
open Stf (ShardIdentifier AccountId Balance OpaqueCall)

section Files

variable {env : Env} {shards : AList fun _ : ShardIdentifier => StateFile}

end Files

section Drop

variable {env : Env} {shards : AList fun _ : ShardIdentifier => StateFile} {calls : List OpaqueCall}
  {xtOpaque : Relay.OpaqueExtrinsic} {xt : ShieldFundsFn} {v : Bytes} {account : AccountId}

end Drop

def shieldEnv : Env := Env.quiet Relay.LightValidation.demo Stf.reference

-- Shard `0`, whose state file holds the empty state.
def shieldWorld : World := ⟨none, AList.insert 0 (some ∅) ∅, 0, []⟩

-- `shield_funds` of 50 to the account `7`, encrypted as `[7]`, in shard `0`.
def shieldSeven : ShieldFundsFn := ⟨(subsrateeRegistryModule, shieldFunds), [7], 50, 0⟩

def shieldTwice : EnclaveM (List OpaqueCall) := do
  let calls ← handleShieldFundsXt shieldEnv [] [] shieldSeven
  handleShieldFundsXt shieldEnv calls [] shieldSeven

theorem handleShieldFundsXt_drops_second_shield :
    ((handleShieldFundsXt shieldEnv [] [] shieldSeven).run shieldWorld).state.freeBalance
      Stf.reference 0 7 = some 50 ∧
    (shieldTwice.run shieldWorld).state.freeBalance Stf.reference 0 7 = some 50 ∧
    ((shieldTwice.run shieldWorld).toExcept.map List.length) matches .ok 1 := by
  decide

end Enclave
