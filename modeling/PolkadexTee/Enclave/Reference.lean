import PolkadexTee.Enclave.Objects

/-! A concrete environment: a host that never fails a call and has nothing to report, and codecs that
decode a one-byte string `[n]` as `n`, on which the enclave's behaviour can be run. -/

namespace Enclave

def decodeByte {α : Type} (decode : UInt8 → α) : List UInt8 → Option α
  | [n] => some (decode n)
  | _ => none

def Env.quiet (relay : Relay.Primitives) (runtime : Stf.Runtime) : Env where
  relay                        := relay
  runtime                      := runtime
  fault _                      := none
  workerRequest _ _            := .ok (some [])
  sendBlockAndConfirmation _ _ _ := .ok ()
  pendingTops _ _              := ([], [])
  clock _                      := 0
  decodeShieldFunds _          := none
  decodeCallWorker _           := none
  decodeAccountId              := decodeByte fun n => BitVec.ofNat 256 n.toNat
  decodeCallSigned _           := none
  decodeShards _               := none
  opaqueFromBytes bytes        := some bytes
  rsaDecrypt bytes             := some bytes
  mrenclave                    := 0
  verifyCall _ _ _             := true
  verifyGetter _               := true
  signer                       := 0
  signBlock _                  := []
  composeExtrinsic _ nonce _   := [nonce.toUInt8]
  hashXt _                     := 0
  hashCall _                   := 0
  hashOperation _              := 0
  hashGetter _                 := 0
  hashBlock block              := BitVec.ofNat 256 block.blockNumber.toNat
  stateHash _                  := 0
  encodeStateDiff _            := []
  encryptPayload _             := []

end Enclave
