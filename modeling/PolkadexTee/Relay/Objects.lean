import Mathlib.Data.BitVec
import Mathlib.Logic.Function.Basic
import PolkadexTee.Lib.Bytes

namespace Relay

-- `sp_core::H256`, the output of `BlakeTwo256`.
abbrev Hash := BitVec 256

abbrev Bytes := List UInt8

-- `chain_relay::Blocknumber`; header numbers and GRANDPA delays are `u32`.
abbrev Blocknumber := UInt32

-- `sp_finality_grandpa::SetId`.
abbrev SetId := UInt64

abbrev RelayId := UInt64

-- An ed25519 public key of a GRANDPA voter, with its weight.
abbrev AuthorityId := BitVec 256

abbrev AuthorityList := List (AuthorityId × UInt64)

-- `sp_runtime::OpaqueExtrinsic` is an encoded extrinsic.
abbrev OpaqueExtrinsic := Bytes

-- The encoded part (`.1`) of an `sp_runtime::Justification`; the engine id is never read.
abbrev Justification := Bytes

abbrev StorageProof := List Bytes

structure ScheduledChange where
  nextAuthorities : AuthorityList
  delay           : Blocknumber
  deriving DecidableEq, Repr

-- The GRANDPA consensus logs a header digest can carry (`sp_finality_grandpa::ConsensusLog`).
inductive ConsensusLog
  | scheduledChange (change : ScheduledChange)
  | forcedChange (median : Blocknumber) (change : ScheduledChange)
  | onDisabled (index : UInt64)
  | pause (delay : Blocknumber)
  | resume (delay : Blocknumber)
  deriving DecidableEq, Repr

-- A digest item either decodes as a GRANDPA consensus log or is ignored by `grandpa_log`.
inductive DigestItem
  | grandpa (log : ConsensusLog)
  | other (data : Bytes)
  deriving DecidableEq, Repr

structure Header where
  parentHash : Hash
  number     : Blocknumber
  stateRoot  : Hash
  digest     : List DigestItem
  deriving DecidableEq, Repr

structure Block where
  header     : Header
  extrinsics : List OpaqueExtrinsic
  deriving DecidableEq, Repr

structure SignedBlock where
  block          : Block
  justifications : Option (List Justification)
  deriving DecidableEq, Repr

-- The fields of a decoded `GrandpaJustification` that `decode_and_verify_finalizes` reads itself;
-- the commit's precommits and the votes' ancestries are only read by `verify`.
structure GrandpaJustification where
  round        : UInt64
  targetHash   : Hash
  targetNumber : Blocknumber
  body         : Bytes
  deriving DecidableEq, Repr

inductive JustificationError
  | justificationDecode
  | badJustification (msg : String)
  deriving DecidableEq, Repr

inductive Error
  | storageRootMismatch
  | storageValueUnavailable
  | validatorSetMismatch
  | invalidAncestryProof
  | noSuchRelayExists
  | invalidFinalityProof
  | headerAncestryMismatch
  deriving DecidableEq, Repr

-- The two panics of the crate: `VoterSet::new(..).expect(..)` and an out-of-range index.
inductive Panic
  | voterSetEmpty
  | indexOutOfBounds
  deriving DecidableEq, Repr

-- The code `chain_relay` calls into other crates: the header hash (`BlakeTwo256` over the SCALE
-- encoding), the SCALE codec of justifications and authority lists, `VoterSet::new` and the commit
-- and signature checks of `finality_grandpa` that `GrandpaJustification::verify` performs, and the
-- trie lookup behind `StorageProofChecker::check_proof`.
structure Primitives where
  hash                  : Header → Hash
  hashOf                : OpaqueExtrinsic → Hash
  encodeAuthorities     : AuthorityList → Bytes
  decodeJustification   : Justification → Option GrandpaJustification
  voterSetValid         : AuthorityList → Bool
  verify                : GrandpaJustification → SetId → AuthorityList → Except JustificationError Unit
  checkProof            : Hash → Bytes → StorageProof → Except Error (Option Bytes)

structure ScheduledChangeAtBlock where
  atBlock           : Blocknumber
  nextAuthorityList : AuthorityList
  deriving DecidableEq, Repr

structure RelayState where
  lastFinalizedBlockHeader : Header
  currentValidatorSet      : AuthorityList
  currentValidatorSetId    : SetId
  headerHashes             : List Hash
  unjustifiedHeaders       : List Hash
  verifyTxInclusion        : List OpaqueExtrinsic
  scheduledChange          : Option ScheduledChangeAtBlock
  deriving DecidableEq, Repr

def RelayState.new (p : Primitives) (blockHeader : Header) (validatorSet : AuthorityList) :
    RelayState where
  lastFinalizedBlockHeader := blockHeader
  currentValidatorSet      := validatorSet
  currentValidatorSetId    := 0
  headerHashes             := [p.hash blockHeader]
  unjustifiedHeaders       := []
  verifyTxInclusion        := []
  scheduledChange          := none

-- The `BTreeMap` of tracked relays is only ever read and written at single keys.
structure LightValidation where
  numRelays     : RelayId
  trackedRelays : RelayId → Option RelayState

namespace LightValidation

def new : LightValidation where
  numRelays     := 0
  trackedRelays := fun _ => none

def setRelay (lv : LightValidation) (id : RelayId) (relay : RelayState) : LightValidation :=
  { lv with trackedRelays := Function.update lv.trackedRelays id (some relay) }

@[simp]
theorem setRelay_numRelays (lv : LightValidation) (id : RelayId) (relay : RelayState) :
    (lv.setRelay id relay).numRelays = lv.numRelays :=
  rfl

@[simp]
theorem setRelay_trackedRelays_self (lv : LightValidation) (id : RelayId) (relay : RelayState) :
    (lv.setRelay id relay).trackedRelays id = some relay := by
  simp [setRelay]

theorem setRelay_trackedRelays_ne {lv : LightValidation} {id id' : RelayId} (relay : RelayState)
    (h : id' ≠ id) : (lv.setRelay id relay).trackedRelays id' = lv.trackedRelays id' := by
  simp [setRelay, Function.update_of_ne h]

@[simp]
theorem setRelay_setRelay (lv : LightValidation) (id : RelayId) (r₁ r₂ : RelayState) :
    (lv.setRelay id r₁).setRelay id r₂ = lv.setRelay id r₂ := by
  simp [setRelay]

end LightValidation

end Relay
