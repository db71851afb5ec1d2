import PolkadexTee.Stf.Execute

/-! A concrete `Runtime`: SCALE-like little-endian codecs and a `balances` pallet with existential
deposit 1, on which the STF's behaviour can be run. -/

namespace Stf

-- The SCALE encoding of an unsigned integer of `width` bytes, and its decoding.
def leEncode (width x : Nat) : Bytes :=
  (List.range width).map fun i => (x / 256 ^ i % 256).toUInt8

def leDecode (bs : Bytes) : Nat :=
  bs.foldr (fun b acc => b.toNat + 256 * acc) 0

-- The codec and key hashing of a reference runtime (identity `twox_128`, empty `blake2_128`).
def referenceCodec : Runtime where
  twox128 := id
  blake2_128 _ := []
  encodeInfo info :=
    leEncode 4 info.nonce.toNat ++ leEncode 16 info.data.free.toNat ++
      leEncode 16 info.data.reserved.toNat
  decodeInfo bs :=
    if bs.length = 36 then
      some ⟨(leDecode (bs.take 4)).toUInt32,
        ⟨BitVec.ofNat 128 (leDecode ((bs.drop 4).take 16)), BitVec.ofNat 128 (leDecode (bs.drop 20))⟩⟩
    else none
  encodeU64 n := leEncode 8 n.toNat
  decodeU64 bs := if bs.length = 8 then some (leDecode bs).toUInt64 else none
  encodeU32 n := leEncode 4 n.toNat
  encodeBalance b := leEncode 16 b.toNat
  encodeHash h := leEncode 32 h.toNat
  decodeHash bs := if bs.length = 32 then some (BitVec.ofNat 256 (leDecode bs)) else none
  initialStateHash := 0
  endowedAccount := 0
  setBalance ext _ _ _ := (ext, .ok ())
  transfer ext _ _ _ := (ext, .ok ())

-- `pallet_balances` with existential deposit 1: an account whose free and reserved balance are both
-- zero is removed from `System::Account`, its nonce with it.
def referenceWrite (ext : State) (who : AccountId) (nonce : Index) (data : AccountData) : State :=
  if data.free = 0 ∧ data.reserved = 0 then ext.clear (accountKeyHash referenceCodec who)
  else ext.set (accountKeyHash referenceCodec who) (referenceCodec.encodeInfo ⟨nonce, data⟩)

def referenceSetBalance (ext : State) (who : AccountId) (free reserved : Balance) : State :=
  referenceWrite ext who (accountNonce referenceCodec ext who) ⟨free, reserved⟩

-- `Currency::transfer` with `AllowDeath`: the sender may be reaped, a new receiver needs a
-- non-zero amount, and the receiver's free balance may not overflow.
def referenceTransfer (ext : State) (sender receiver : AccountId) (value : Balance) :
    State × Except Unit Unit :=
  if value = 0 ∨ sender = receiver then (ext, .ok ())
  else
    match getAccountInfo referenceCodec ext sender with
    | none => (ext, .error ())
    | some s =>
      if s.data.free < value then (ext, .error ())
      else
        let r := (getAccountInfo referenceCodec ext receiver).getD ⟨0, ⟨0, 0⟩⟩
        if r.data.free.toNat + value.toNat ≥ 2 ^ 128 then (ext, .error ())
        else
          let ext := referenceWrite ext sender s.nonce { s.data with free := s.data.free - value }
          (referenceWrite ext receiver r.nonce { r.data with free := r.data.free + value }, .ok ())

def reference : Runtime :=
  { referenceCodec with
    setBalance := fun ext who free reserved => (referenceSetBalance ext who free reserved, .ok ())
    transfer := referenceTransfer }

end Stf
