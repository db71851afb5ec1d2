import Mathlib.Data.List.AList
import Mathlib.Data.BitVec
import PolkadexTee.Lib.Bytes

namespace Stf

abbrev Bytes := List UInt8

-- `AccountId32`, `ShardIdentifier` and `H256` are 32-byte values.
abbrev AccountId := BitVec 256

abbrev ShardIdentifier := BitVec 256

abbrev Hash := BitVec 256

-- `sgx_runtime::Balance` is `u128`; the STF adds and subtracts balances unchecked.
abbrev Balance := BitVec 128

-- `sgx_runtime::Index`, the account nonce.
abbrev Index := UInt32

-- The sidechain `BlockNumber` of `substratee_worker_primitives` and the layer-one `BlockNumber`.
abbrev BlockNumber := UInt64

abbrev L1BlockNumber := UInt32

-- The part of `balances::AccountData` that the STF reads; the frozen balances are never read.
structure AccountData where
  free     : Balance
  reserved : Balance
  deriving DecidableEq, Repr

-- The part of `system::AccountInfo` that the STF reads; the reference counters are never read.
structure AccountInfo where
  nonce : Index
  data  : AccountData
  deriving DecidableEq, Repr

inductive TrustedCall
  | balanceSetBalance (root who : AccountId) (freeBalance reservedBalance : Balance)
  | balanceTransfer (sender receiver : AccountId) (value : Balance)
  | balanceUnshield (accountIncognito beneficiary : AccountId) (value : Balance)
      (shard : ShardIdentifier)
  | balanceShield (who : AccountId) (value : Balance)
  deriving DecidableEq, Repr

def TrustedCall.account : TrustedCall → AccountId
  | .balanceSetBalance account _ _ _ => account
  | .balanceTransfer account _ _ => account
  | .balanceUnshield account _ _ _ => account
  | .balanceShield account _ => account

-- A `MultiSignature`, kept as its bytes: only the external verifier reads it.
abbrev Signature := Bytes

structure TrustedCallSigned where
  call      : TrustedCall
  nonce     : Index
  signature : Signature
  deriving DecidableEq, Repr

inductive TrustedGetter
  | freeBalance (who : AccountId)
  | reservedBalance (who : AccountId)
  | nonce (who : AccountId)
  deriving DecidableEq, Repr

structure TrustedGetterSigned where
  getter    : TrustedGetter
  signature : Signature
  deriving DecidableEq, Repr

inductive PublicGetter
  | someValue
  deriving DecidableEq, Repr

inductive Getter
  -- `Getter::public`; `public` is a keyword of Lean
  | publicGetter (getter : PublicGetter)
  | trusted (getter : TrustedGetterSigned)
  deriving DecidableEq, Repr

inductive StfError
  | missingPrivileges (account : AccountId)
  | dispatch (call : String)
  | missingFunds
  | inexistentAccount (account : AccountId)
  | invalidNonce (nonce : Index)
  deriving DecidableEq, Repr

-- The calls the enclave composes for layer one (`OpaqueCall` holds their SCALE encoding): an
-- unshielding, the confirmation of an indirect call and the confirmation of a block.
inductive OpaqueCall
  | unshield (beneficiary : AccountId) (value : Balance) (shard : ShardIdentifier) (callHash : Hash)
  | callConfirmed (shard : ShardIdentifier) (callHash : Hash) (stateHash : Hash)
  | blockConfirmed (genesisOrShard : Hash) (blockHash : Hash) (prevOrStateHash : Hash)
  deriving DecidableEq, Repr

-- `SgxExternalities`: the key-value state and the diff of the writes since it was loaded.
structure State where
  state     : AList (fun _ : Bytes => Bytes)
  stateDiff : AList (fun _ : Bytes => Option Bytes)

namespace State

def empty : State := ⟨∅, ∅⟩

-- `sp_io::storage::get`
def get (ext : State) (key : Bytes) : Option Bytes :=
  ext.state.lookup key

-- `sp_io::storage::set`
def set (ext : State) (key value : Bytes) : State :=
  ⟨ext.state.insert key value, ext.stateDiff.insert key (some value)⟩

-- `sp_io::storage::clear`
def clear (ext : State) (key : Bytes) : State :=
  ⟨ext.state.erase key, ext.stateDiff.insert key none⟩

@[simp]
theorem get_set_self (ext : State) (key value : Bytes) : (ext.set key value).get key = some value := by
  simp [get, set]

theorem get_set_ne (ext : State) {key key' : Bytes} (value : Bytes) (h : key' ≠ key) :
    (ext.set key value).get key' = ext.get key' := by
  simp [get, set, AList.lookup_insert_ne h]

@[simp]
theorem get_clear_self (ext : State) (key : Bytes) : (ext.clear key).get key = none := by
  simp [get, clear]

theorem get_clear_ne (ext : State) {key key' : Bytes} (h : key' ≠ key) :
    (ext.clear key).get key' = ext.get key' := by
  simp [get, clear, AList.lookup_erase_ne h]

end State

-- What the STF uses from other crates: the storage hashers, the SCALE codec of the values it
-- stores, two values `init_state` computes with them (the `blake2_256` of the encoded empty state
-- and the public key of its test account), and the `set_balance` and `transfer` calls of the
-- `balances` pallet of `sgx_runtime`, which act on the state they are dispatched in (`Err` carries
-- no state rollback).
structure Runtime where
  twox128          : Bytes → Bytes
  blake2_128       : Bytes → Bytes
  encodeInfo       : AccountInfo → Bytes
  decodeInfo       : Bytes → Option AccountInfo
  encodeU64        : UInt64 → Bytes
  decodeU64        : Bytes → Option UInt64
  encodeU32        : UInt32 → Bytes
  encodeBalance    : Balance → Bytes
  encodeHash       : Hash → Bytes
  decodeHash       : Bytes → Option Hash
  initialStateHash : Hash
  endowedAccount   : AccountId
  setBalance       : State → AccountId → Balance → Balance → State × Except Unit Unit
  transfer         : State → AccountId → AccountId → Balance → State × Except Unit Unit

-- `AccountId32::encode` is the 32 raw bytes.
def encodeAccountId (who : AccountId) : Bytes :=
  (List.range 32).map fun i => (who.toNat / 256 ^ i % 256).toUInt8

variable (rt : Runtime)

def storageValueKey (modulePrefix storagePrefix : String) : Bytes :=
  rt.twox128 modulePrefix.asciiBytes ++ rt.twox128 storagePrefix.asciiBytes

-- `storage_map_key` with the `Blake2_128Concat` hasher, the only one the STF uses.
def storageMapKey (modulePrefix storagePrefix : String) (mapKey : Bytes) : Bytes :=
  rt.twox128 modulePrefix.asciiBytes ++ rt.twox128 storagePrefix.asciiBytes ++
    (rt.blake2_128 mapKey ++ mapKey)

def accountKeyHash (account : AccountId) : Bytes :=
  storageMapKey rt "System" "Account" (encodeAccountId account)

end Stf
