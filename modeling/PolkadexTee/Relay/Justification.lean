import Mathlib.Data.List.AList
import PolkadexTee.Lib.Walk
import PolkadexTee.Relay.Objects

/-! `GrandpaJustification::verify` (`justification.rs`), the check behind the light client's `verify`
primitive, with the decoded justification it reads: the commit's precommits must each be signed,
and each target the commit's target or lead to it through the ancestry headers, which must all be
used. -/

namespace Relay.Grandpa

structure Precommit where
  targetHash   : Hash
  targetNumber : Blocknumber
  deriving DecidableEq, Repr

-- `finality_grandpa::SignedPrecommit`: the precommit with the voter's signature and id.
structure SignedPrecommit where
  precommit : Precommit
  signature : Bytes
  id        : AuthorityId
  deriving DecidableEq, Repr

structure Commit where
  targetHash   : Hash
  targetNumber : Blocknumber
  precommits   : List SignedPrecommit
  deriving DecidableEq, Repr

-- A decoded `GrandpaJustification`.
structure Justification where
  round           : UInt64
  commit          : Commit
  votesAncestries : List Header
  deriving DecidableEq, Repr

-- `finality_grandpa::Error`, as far as `ancestry` returns it.
inductive GrandpaError
  | notDescendent
  deriving DecidableEq, Repr

-- The code of other crates that `justification.rs` calls: the header hash, the SCALE decoding of a
-- justification, `finality_grandpa::validate_commit` over the ancestry chain as far as `verify`
-- reads its result (whether it has a ghost), the SCALE encoding of a precommit localized to a round
-- and a set, and `AuthorityPair::verify`.
structure Crate where
  hash            : Header → Hash
  decode          : Bytes → Option Justification
  validateCommit  : Commit → AuthorityList → AList (fun _ : Hash => Header) → Bool
  encodePayload   : Precommit → UInt64 → SetId → Bytes
  verifySignature : Bytes → Bytes → AuthorityId → Bool

variable (c : Crate)

-- `AncestryChain::new`: the headers keyed by their hashes, a later one replacing an earlier.
def ancestryChain (headers : List Header) : AList (fun _ : Hash => Header) :=
  headers.foldl (fun chain header => chain.insert (c.hash header) header) ∅

-- One round of the loop of `ancestry`: to the parent of the header of the current hash.
def parentOf (chain : AList (fun _ : Hash => Header)) (hash : Hash) : Option Hash :=
  (chain.lookup hash).map (·.parentHash)

-- What `ancestry` returns once its loop stops: the hashes it moved to but `base`, which
-- `route.pop()` drops, or that a hash has no header.
def routeResult : Option (List Hash) → Except GrandpaError (List Hash)
  | none => .error .notDescendent
  | some route => .ok route.dropLast

-- `AncestryChain::ancestry`: the hashes from `block`'s parent up to `base`.
def ancestry (chain : AList (fun _ : Hash => Header)) (base block : Hash) :
    Option (Except GrandpaError (List Hash)) :=
  (Walk.walk (parentOf chain) base (chain.entries.length + 1) block).map routeResult

-- `communication::check_message_sig_with_buffer`: the signature over the precommit as a message
-- localized to the round and the set.
def checkMessageSigWithBuffer (message : Precommit) (id : AuthorityId) (signature : Bytes)
    (round : UInt64) (setId : SetId) : Bool :=
  c.verifySignature signature (c.encodePayload message round setId) id

-- The loop of `verify` over the commit's precommits, with the hashes visited so far, a `HashSet`:
-- `none` where an `ancestry` call runs forever.
def verifyPrecommits (round : UInt64) (setId : SetId) (commit : Commit)
    (chain : AList (fun _ : Hash => Header)) :
    List SignedPrecommit → List Hash → Option (Except JustificationError (List Hash))
  | [], visited => some (.ok visited)
  | signed :: rest, visited =>
    if !checkMessageSigWithBuffer c signed.precommit signed.id signed.signature round setId then
      some (.error (.badJustification "invalid signature for precommit in grandpa justification"))
    else if commit.targetHash = signed.precommit.targetHash then
      verifyPrecommits round setId commit chain rest visited
    else
      match ancestry chain commit.targetHash signed.precommit.targetHash with
      | none => none
      | some (.ok route) =>
        -- the precommit's target is visited, and then each hash of the route
        verifyPrecommits round setId commit chain rest
          (route.foldl (fun visited hash => visited.insert hash)
            (visited.insert signed.precommit.targetHash))
      | some (.error _) =>
        some (.error (.badJustification "invalid precommit ancestry proof in grandpa justification"))

-- `GrandpaJustification::verify`: `none` where it runs forever. The visited hashes and those of the
-- ancestry headers are compared as `HashSet`s, by their elements.
def verify (j : Justification) (setId : SetId) (voters : AuthorityList) :
    Option (Except JustificationError Unit) :=
  let chain := ancestryChain c j.votesAncestries
  if !c.validateCommit j.commit voters chain then
    some (.error (.badJustification "invalid commit in grandpa justification"))
  else
    match verifyPrecommits c j.round setId j.commit chain j.commit.precommits [] with
    | none => none
    | some (.error e) => some (.error e)
    | some (.ok visited) =>
      let ancestryHashes := j.votesAncestries.map c.hash
      if visited.all ancestryHashes.contains && ancestryHashes.all visited.contains then
        some (.ok ())
      else
        some (.error (.badJustification
          "invalid precommit ancestries in grandpa justification with unused headers"))

-- The fields of a decoded justification that `decode_and_verify_finalizes` reads itself, as the
-- light client's `GrandpaJustification` keeps them, with the encoding it was decoded from.
def summary (encoded : Bytes) (j : Justification) : GrandpaJustification :=
  ⟨j.round, j.commit.targetHash, j.commit.targetNumber, encoded⟩

-- `GrandpaJustification::decode_and_verify_finalizes`.
def decodeAndVerifyFinalizes (encoded : Bytes) (target : Hash × Blocknumber) (setId : SetId)
    (voters : AuthorityList) : Option (Except JustificationError Justification) :=
  match c.decode encoded with
  | none => some (.error .justificationDecode)
  | some j =>
    if (j.commit.targetHash, j.commit.targetNumber) ≠ target then
      some (.error (.badJustification "invalid commit target in grandpa justification"))
    else
      (verify c j setId voters).map fun r => r.map fun _ => j

end Relay.Grandpa
