import PolkadexTee.Relay.Validation

/-! A concrete `Primitives` backend and a relay tracked on it, on which the light client's behaviour
can be run. -/

namespace Relay.LightValidation

-- A backend in which a justification `[n]` claims block `n`, whose header hashes to `n + 1`.
def demo : Primitives where
  hash header           := BitVec.ofNat 256 (header.number.toNat + 1)
  hashOf _              := 0
  encodeAuthorities _   := []
  decodeJustification j :=
    match j with
    | [n] => some ⟨0, BitVec.ofNat 256 (n.toNat + 1), n.toUInt32, []⟩
    | _ => none
  voterSetValid set     := !set.isEmpty
  verify _ _ _          := .ok ()
  checkProof _ _ _      := .ok (some [1])

def demoGenesis : Header := ⟨0, 0, 0, []⟩

-- The relay as `init_chain_relay` sets it up on `demo`, trusting the single voter `1`.
def demoRelay : LightValidation :=
  (initializeRelay demo new demoGenesis [(1, 1)] []).1

end Relay.LightValidation
