import Mathlib.Data.List.AList
import PolkadexTee.Lib.EState
import PolkadexTee.Relay.Objects
import PolkadexTee.Stf.Objects

/-! The enclave of the worker: the state it keeps across ECALLs (the sealed light client and the
shard state files), and what it asks of the untrusted host (ocalls, sealed files, the clock) and
of other crates (codecs, hashes, signatures), as an environment whose answers to the host's part
are indexed by the number of the call. -/

namespace Enclave

open Relay (LightValidation Header Block OpaqueExtrinsic StorageProof)
open Stf (AccountId ShardIdentifier TrustedCallSigned TrustedGetterSigned OpaqueCall)

abbrev Bytes := List UInt8

abbrev Hash := BitVec 256

inductive SgxStatus
  -- `SGX_ERROR_UNEXPECTED`, which the enclave's own checks return
  | unexpected
  -- any other status that a platform call or an ocall returns
  | status (code : Nat)
  -- a Rust panic (`unwrap`, `expect`), which aborts the ECALL
  | panic (site : String)
  deriving DecidableEq, Repr

def SgxStatus.isPanic : SgxStatus → Bool
  | .panic _ => true
  | _ => false

-- `enclave/src/constants.rs`
def subsrateeRegistryModule : UInt8 := 13

def callWorker : UInt8 := 2

def callConfirmed : UInt8 := 3

def blockConfirmed : UInt8 := 4

def shieldFunds : UInt8 := 5

def calltimeout : Int := 300

def gettertimeout : Int := 300

inductive WorkerRequest
  | chainStorage (key : Bytes) (atBlock : Option Hash)
  deriving DecidableEq, Repr

inductive WorkerResponse
  | chainStorage (key : Bytes) (value : Option Bytes) (proof : Option StorageProof)
  deriving DecidableEq, Repr

-- The call of a `shield_funds` extrinsic: its call index, the account encrypted to the enclave's
-- RSA key, the amount and the shard.
structure ShieldFundsFn where
  call             : UInt8 × UInt8
  accountEncrypted : Bytes
  amount           : Stf.Balance
  shard            : ShardIdentifier
  deriving DecidableEq, Repr

structure Request where
  shard      : ShardIdentifier
  cyphertext : Bytes
  deriving DecidableEq, Repr

structure CallWorkerFn where
  call    : UInt8 × UInt8
  request : Request
  deriving DecidableEq, Repr

structure StatePayload where
  stateHashApriori     : Hash
  stateHashAposteriori : Hash
  stateUpdate          : Bytes
  deriving DecidableEq, Repr

-- The sidechain block of `substratee_worker_primitives`.
structure SidechainBlock where
  blockNumber     : UInt64
  parentHash      : Hash
  timestamp       : Int
  layerOneHead    : Hash
  shardId         : ShardIdentifier
  blockAuthor     : AccountId
  signedTopHashes : List Hash
  statePayload    : Bytes
  deriving DecidableEq, Repr

structure SignedSidechainBlock where
  block     : SidechainBlock
  signature : Bytes
  deriving DecidableEq, Repr

inductive Timeout
  | call
  | getter
  deriving DecidableEq, Repr

-- What the model records beside the enclave's state, and no code reads: the headers whose state
-- root `verify_worker_responses` checked proofs against, the layer-one blocks whose extrinsics were
-- scanned, the getter results sent to clients, and the extrinsics and sidechain blocks handed to
-- the worker.
inductive Event
  | trustedStateRoot (header : Header)
  | scanned (block : Block)
  | stateSent (getterHash : Hash) (value : Option Bytes)
  | blocksSent (confirmations : List Bytes) (signedBlocks : List SignedSidechainBlock)
  deriving DecidableEq

-- The content of a shard's state file: `none` is the empty file that `init_shard` creates and
-- `load` reads as a fresh `init_state`; the state diff is never written.
abbrev StateFile := Option (AList fun _ : Bytes => Bytes)

structure World where
  -- the sealed `LightValidation`; `none` when the file is missing or does not decode
  chainRelayDb : Option LightValidation
  shards       : AList fun _ : ShardIdentifier => StateFile
  -- the number of host-facing calls made so far, by which the host's answers are indexed
  calls        : Nat
  log          : List Event

-- Everything the enclave does not compute itself.
structure Env where
  relay                    : Relay.Primitives
  runtime                  : Stf.Runtime
  fault                    : Nat → Option SgxStatus
  workerRequest            : Nat → List WorkerRequest → Except SgxStatus (Option (List WorkerResponse))
  sendBlockAndConfirmation : Nat → List Bytes → List SignedSidechainBlock → Except SgxStatus Unit
  pendingTops              : Nat → ShardIdentifier → List TrustedCallSigned × List TrustedGetterSigned
  clock                    : Nat → Int
  -- SCALE decoders of what arrives from outside
  decodeShieldFunds        : OpaqueExtrinsic → Option ShieldFundsFn
  decodeCallWorker         : OpaqueExtrinsic → Option CallWorkerFn
  decodeAccountId          : Bytes → Option AccountId
  decodeCallSigned         : Bytes → Option TrustedCallSigned
  decodeShards             : Bytes → Option (List ShardIdentifier)
  opaqueFromBytes          : Bytes → Option OpaqueExtrinsic
  -- keys and signatures
  rsaDecrypt               : Bytes → Option Bytes
  mrenclave                : Hash
  verifyCall               : TrustedCallSigned → Hash → ShardIdentifier → Bool
  verifyGetter             : TrustedGetterSigned → Bool
  signer                   : AccountId
  signBlock                : SidechainBlock → Bytes
  composeExtrinsic         : OpaqueCall → UInt32 → Hash → Bytes
  -- hashes and encodings (`blake2_256` of an encoding; `sha256` of an AES encryption)
  hashXt                   : OpaqueExtrinsic → Hash
  hashCall                 : TrustedCallSigned → Hash
  hashOperation            : TrustedCallSigned → Hash
  hashGetter               : TrustedGetterSigned → Hash
  hashBlock                : SidechainBlock → Hash
  stateHash                : AList (fun _ : Bytes => Bytes) → Hash
  encodeStateDiff          : AList (fun _ : Bytes => Option Bytes) → Bytes
  encryptPayload           : StatePayload → Bytes

abbrev EnclaveM := EStateM SgxStatus World

end Enclave
