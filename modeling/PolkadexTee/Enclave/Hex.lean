import PolkadexTee.Enclave.Objects
import PolkadexTee.Lib.Rust

/-! `hex.rs`: the hex codec of the enclave, which reads its SPID file with it and writes hashes into
its log lines. -/

namespace Enclave.Hex

-- `decode_hex_digit`: `digit as u8` keeps the low byte of the code point.
def decodeHexDigit (digit : Char) : Except SgxStatus UInt8 :=
  if '0' ≤ digit ∧ digit ≤ '9' then .ok (digit.toUInt8 - '0'.toUInt8)
  else if 'a' ≤ digit ∧ digit ≤ 'f' then .ok (digit.toUInt8 - 'a'.toUInt8 + 10)
  else if 'A' ≤ digit ∧ digit ≤ 'F' then .ok (digit.toUInt8 - 'A'.toUInt8 + 10)
  else .error .unexpected

-- The loop of `decode_hex`: a space where a pair would start is skipped, the two digits of a pair
-- make one byte, high digit first, and a string that ends inside a pair is an error.
def decodeHexLoop : List Char → List UInt8 → Except SgxStatus (List UInt8)
  | [], r => .ok r
  | first :: rest, r =>
    if first = ' ' then decodeHexLoop rest r
    else
      match rest with
      | [] => .error .unexpected
      | second :: rest => do
        let hi ← decodeHexDigit first
        let lo ← decodeHexDigit second
        decodeHexLoop rest (r ++ [(hi <<< 4) ||| lo])

def decodeHex (hex : List Char) : Except SgxStatus (List UInt8) :=
  decodeHexLoop hex []

-- `sgx_spid_t`
structure Spid where
  id : Vector UInt8 16
  deriving DecidableEq, Repr

-- `decode_spid`: a trimmed string of fewer than 32 bytes is refused, and `&decoded_vec[..16]`
-- panics where fewer than 16 bytes were decoded.
def decodeSpid (hex : List Char) : Except SgxStatus Spid := do
  let hex := Rust.trim hex
  if Rust.strLen hex < 16 * 2 then throw .unexpected
  let decodedVec ← decodeHex hex
  if h : 16 ≤ decodedVec.length then
    pure ⟨⟨(decodedVec.take 16).toArray, by simpa using h⟩⟩
  else
    throw (.panic "range end index 16 out of range for slice")

-- `encode_hex_digit`, which panics where `char::from_digit` has no digit.
def encodeHexDigit (digit : UInt8) : Except SgxStatus Char :=
  match Rust.fromDigit digit.toNat 16 with
  | some c => .ok c
  | none => .error (.panic "explicit panic")

-- `encode_hex_byte`: the digit of the high four bits, then that of the low four.
def encodeHexByte (byte : UInt8) : Except SgxStatus (List Char) := do
  pure [← encodeHexDigit (byte >>> 4), ← encodeHexDigit (byte &&& 0x0F)]

-- `encode_hex`: the digits of each byte, joined.
def encodeHex (bytes : List UInt8) : Except SgxStatus (List Char) := do
  let strs ← bytes.mapM encodeHexByte
  pure strs.flatten

end Enclave.Hex
