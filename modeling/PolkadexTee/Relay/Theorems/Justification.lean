import PolkadexTee.Lib.Map
import PolkadexTee.Relay.Justification
import PolkadexTee.Relay.Reference
import PolkadexTee.Relay.Theorems.Basic

/-! What `GrandpaJustification::verify` establishes when it accepts a justification. -/

namespace Relay.Grandpa

-- `used` are headers of `headers` that lead from `block` to `base`: the first has hash `block`,
-- each one's parent hash is the hash of the next, the last one's is `base`, and none has hash
-- `base`.
inductive Route (c : Crate) (headers : List Header) (base : Hash) : Hash → List Header → Prop
  | base : Route c headers base base []
  | parent {header : Header} {used : List Header} : header ∈ headers → c.hash header ≠ base →
      Route c headers base header.parentHash used → Route c headers base (c.hash header) (header :: used)

-- What an accepted justification shows: the commit check passed, every precommit is signed over
-- itself localized to the round and the set by the key it names and is on a route of the ancestry
-- headers to the commit's target, and every ancestry header is on the route of some precommit.
structure Justifies (c : Crate) (j : Justification) (setId : SetId) (voters : AuthorityList) :
    Prop where
  commit : c.validateCommit j.commit voters (ancestryChain c j.votesAncestries) = true
  signed : ∀ signed ∈ j.commit.precommits,
    checkMessageSigWithBuffer c signed.precommit signed.id signed.signature j.round setId = true
  routed : ∀ signed ∈ j.commit.precommits,
    ∃ used, Route c j.votesAncestries j.commit.targetHash signed.precommit.targetHash used
  used   : ∀ header ∈ j.votesAncestries, ∃ signed ∈ j.commit.precommits, ∃ used,
    Route c j.votesAncestries j.commit.targetHash signed.precommit.targetHash used ∧
      c.hash header ∈ used.map c.hash

variable {c : Crate}

-- The ancestry chain and its walk.

section Ancestry

theorem lookup_ancestryChain {headers : List Header} {hash : Hash} {header : Header}
    (h : (ancestryChain c headers).lookup hash = some header) :
    header ∈ headers ∧ c.hash header = hash := by
  rcases AList.lookup_foldl_insert_key c.hash ∅ headers h with h | h
  · simp at h
  · exact h

-- Only a hash with a header in the chain moves on.
theorem mem_keys_of_parentOf {chain : AList (fun _ : Hash => Header)} {hash parent : Hash}
    (h : parentOf chain hash = some parent) : hash ∈ chain.keys := by
  obtain ⟨header, hl, -⟩ := Option.map_eq_some_iff.mp h
  exact AList.mem_keys.mp (AList.lookup_isSome.mp (by rw [hl]; rfl))

theorem length_keys (chain : AList (fun _ : Hash => Header)) :
    chain.keys.length = chain.entries.length := by
  simp [AList.keys, List.keys]

-- `ancestry` gives what its loop gives wherever the loop stops, however many rounds that takes, and
-- `none` exactly where the loop runs forever.
theorem ancestry_eq_loop (chain : AList (fun _ : Hash => Header)) (base block : Hash) :
    (∀ fuel, (Walk.walk (parentOf chain) base fuel block).isSome →
      ancestry chain base block = (Walk.walk (parentOf chain) base fuel block).map routeResult) ∧
    (ancestry chain base block = none ↔ ∀ fuel, Walk.walk (parentOf chain) base fuel block = none) := by
  have hK : ∀ a b, parentOf chain a = some b → a ∈ chain.keys := fun _ _ h => mem_keys_of_parentOf h
  refine ⟨fun fuel h => ?_, ⟨fun h fuel => ?_, fun h => ?_⟩⟩
  · rw [ancestry, ← length_keys, Walk.walk_of_isSome hK h]
  · have hwalk : Walk.walk (parentOf chain) base (chain.keys.length + 1) block = none := by
      rw [length_keys]
      exact Option.map_eq_none_iff.mp h
    exact Walk.walk_eq_none hK hwalk fuel
  · rw [ancestry, h]
    rfl

-- A route `ancestry` returns is the walk's path without the base.
theorem leads_of_ancestry {chain : AList (fun _ : Hash => Header)} {base block : Hash}
    {route : List Hash} (h : ancestry chain base block = some (.ok route)) :
    ∃ path, Walk.Leads (parentOf chain) base block path ∧ route = path.dropLast := by
  obtain ⟨r, hr, hres⟩ := Option.map_eq_some_iff.mp h
  cases r with
  | none => cases hres
  | some path =>
    cases hres
    exact ⟨path, Walk.leads_of_walk hr, rfl⟩

-- A walk through the chain of `headers` is a route of its headers, which hash to the nodes it moves
-- on from.
theorem route_of_leads {headers : List Header} {base x : Hash} {path : List Hash}
    (h : Walk.Leads (parentOf (ancestryChain c headers)) base x path) :
    ∃ used, Route c headers base x used ∧ used.map c.hash = (x :: path).dropLast := by
  induction h with
  | target => exact ⟨[], .base, rfl⟩
  | @step x y path hx hn _ ih =>
    obtain ⟨header, hl, rfl⟩ := Option.map_eq_some_iff.mp hn
    obtain ⟨hmem, hkey⟩ := lookup_ancestryChain hl
    obtain ⟨used, hroute, hmap⟩ := ih
    refine ⟨header :: used, ?_, ?_⟩
    · rw [← hkey]
      exact .parent hmem (hkey ▸ hx) hroute
    · rw [List.map_cons, hmap, hkey]
      rfl

end Ancestry

-- The loop over the precommits.

section Precommits

variable {round : UInt64} {setId : SetId} {commit : Commit} {headers : List Header}

-- The loop returns only when every precommit is signed and on a route to the commit's target, and
-- it visits only the targets and routes of the precommits.
theorem verifyPrecommits_sound : ∀ {precommits : List SignedPrecommit} {visited visited' : List Hash},
    verifyPrecommits c round setId commit (ancestryChain c headers) precommits visited =
      some (.ok visited') →
    (∀ signed ∈ precommits,
      checkMessageSigWithBuffer c signed.precommit signed.id signed.signature round setId = true ∧
      ∃ used, Route c headers commit.targetHash signed.precommit.targetHash used) ∧
    ∀ hash ∈ visited', hash ∈ visited ∨ ∃ signed ∈ precommits, ∃ used,
      Route c headers commit.targetHash signed.precommit.targetHash used ∧ hash ∈ used.map c.hash
  | [], visited, visited', h => by
    cases h
    exact ⟨fun _ hs => (nomatch hs), fun _ hv => .inl hv⟩
  | signed :: rest, visited, visited', h => by
    rw [verifyPrecommits] at h
    split at h
    · cases h
    · next hsig =>
      have hsig : checkMessageSigWithBuffer c signed.precommit signed.id signed.signature round
          setId = true := by simpa using hsig
      split at h
      · -- a precommit for the commit's target itself
        next heq =>
        obtain ⟨hrest, hvisited⟩ := verifyPrecommits_sound h
        refine ⟨?_, fun hash hv => ?_⟩
        · intro s hs
          rcases List.mem_cons.mp hs with rfl | hs
          · exact ⟨hsig, [], heq ▸ .base⟩
          · exact hrest s hs
        · rcases hvisited hash hv with hv | ⟨s, hs, hroute⟩
          · exact .inl hv
          · exact .inr ⟨s, List.mem_cons_of_mem _ hs, hroute⟩
      · next hne =>
        split at h
        · cases h
        · next route hanc =>
          obtain ⟨hrest, hvisited⟩ := verifyPrecommits_sound h
          -- the route of this precommit, with the headers it passes
          obtain ⟨path, hleads, rfl⟩ := leads_of_ancestry hanc
          obtain ⟨used, hroute, hmap⟩ := route_of_leads hleads
          rw [hleads.dropLast_cons (Ne.symm hne)] at hmap
          refine ⟨?_, fun hash hv => ?_⟩
          · intro s hs
            rcases List.mem_cons.mp hs with rfl | hs
            · exact ⟨hsig, used, hroute⟩
            · exact hrest s hs
          · rcases hvisited hash hv with hv | ⟨s, hs, hroute'⟩
            · rw [List.mem_foldl_insert, List.mem_insert_iff] at hv
              rcases hv with (rfl | hv) | hv
              · exact .inr ⟨signed, List.mem_cons_self, used, hroute, by rw [hmap]; exact List.mem_cons_self⟩
              · exact .inl hv
              · exact .inr ⟨signed, List.mem_cons_self, used, hroute,
                  by rw [hmap]; exact List.mem_cons_of_mem _ hv⟩
            · exact .inr ⟨s, List.mem_cons_of_mem _ hs, hroute'⟩
        · cases h

end Precommits

-- `GrandpaJustification::verify` accepts only a justification that shows what `Justifies` states.
theorem verify_sound {j : Justification} {setId : SetId} {voters : AuthorityList}
    (h : verify c j setId voters = some (.ok ())) : Justifies c j setId voters := by
  unfold verify at h
  dsimp only at h
  split at h
  · cases h
  · next hvalid =>
    split at h
    · cases h
    · cases h
    · next visited hloop =>
      split at h
      · next hsets =>
        obtain ⟨hrest, hvisited⟩ := verifyPrecommits_sound hloop
        refine ⟨by simpa using hvalid, fun s hs => (hrest s hs).1, fun s hs => (hrest s hs).2,
          fun header hmem => ?_⟩
        -- every ancestry header's hash was visited, and nothing was visited before the loop
        have hin : c.hash header ∈ visited := by
          simp only [Bool.and_eq_true, List.all_eq_true, List.contains_iff_mem] at hsets
          exact hsets.2 _ (List.mem_map_of_mem hmem)
        rcases hvisited _ hin with hnil | hsome
        · exact nomatch hnil
        · exact hsome
      · cases h

-- Block `n` hashes to `n + 1`; a justification `[n]` commits to block `n` with one precommit for
-- it, and every check of another crate passes.
def demoCrate : Crate where
  hash header := BitVec.ofNat 256 (header.number.toNat + 1)
  decode encoded :=
    match encoded with
    | [n] => some ⟨0, ⟨BitVec.ofNat 256 (n.toNat + 1), n.toUInt32,
        [⟨⟨BitVec.ofNat 256 (n.toNat + 1), n.toUInt32⟩, [], 1⟩]⟩, []⟩
    | _ => none
  validateCommit _ _ _  := true
  encodePayload _ _ _   := []
  verifySignature _ _ _ := true

-- The light client's primitives as the crate implements them.

-- The light client's primitives hash headers, decode justifications and check them as
-- `justification.rs` does, wherever its check returns.
structure Implements (p : Primitives) (c : Crate) : Prop where
  hash   : p.hash = c.hash
  decode : ∀ encoded, p.decodeJustification encoded = (c.decode encoded).map (summary encoded)
  verify : ∀ encoded j setId voters r, c.decode encoded = some j → verify c j setId voters = some r →
    p.verify (summary encoded j) setId voters = r

-- The primitives of `base` with the crate's hash and its check of justifications, accepting where
-- the check would run forever.
def Crate.withPrimitives (c : Crate) (base : Primitives) : Primitives :=
  { base with
    hash := c.hash
    decodeJustification := fun encoded => (c.decode encoded).map (summary encoded)
    verify := fun j setId voters =>
      match c.decode j.body with
      | some d => (verify c d setId voters).getD (.ok ())
      | none => .error .justificationDecode }

theorem Crate.implements_withPrimitives (c : Crate) (base : Primitives) :
    Implements (c.withPrimitives base) c where
  hash := rfl
  decode _ := rfl
  verify encoded j setId voters r hd hv := by
    show (match c.decode encoded with
      | some d => (verify c d setId voters).getD (.ok ())
      | none => .error .justificationDecode) = r
    rw [hd]
    show (verify c j setId voters).getD (.ok ()) = r
    rw [hv]
    rfl

section Decode

variable {encoded : Bytes} {target : Hash × Blocknumber} {setId : SetId} {voters : AuthorityList}

theorem decodeAndVerifyFinalizes_of_decode_none (hd : c.decode encoded = none) :
    decodeAndVerifyFinalizes c encoded target setId voters = some (.error .justificationDecode) := by
  simp [decodeAndVerifyFinalizes, hd]

theorem decodeAndVerifyFinalizes_of_target_ne {j : Justification} (hd : c.decode encoded = some j)
    (ht : (j.commit.targetHash, j.commit.targetNumber) ≠ target) :
    decodeAndVerifyFinalizes c encoded target setId voters =
      some (.error (.badJustification "invalid commit target in grandpa justification")) := by
  simp only [decodeAndVerifyFinalizes, hd]
  rw [if_pos ht]

theorem decodeAndVerifyFinalizes_of_target_eq {j : Justification} (hd : c.decode encoded = some j)
    (ht : (j.commit.targetHash, j.commit.targetNumber) = target) :
    decodeAndVerifyFinalizes c encoded target setId voters =
      (verify c j setId voters).map fun r => r.map fun _ => j := by
  simp only [decodeAndVerifyFinalizes, hd]
  rw [if_neg (not_not.mpr ht)]

end Decode

variable {p : Primitives}

-- Where the crate's `decode_and_verify_finalizes` returns, the light client's gives its answer.
theorem decodeAndVerifyFinalizes_of_implements (himpl : Implements p c) {encoded : Bytes}
    {target : Hash × Blocknumber} {setId : SetId} {voters : AuthorityList}
    {r : Except JustificationError Justification}
    (h : decodeAndVerifyFinalizes c encoded target setId voters = some r) :
    LightValidation.decodeAndVerifyFinalizes p encoded target setId voters = r.map fun _ => () := by
  unfold decodeAndVerifyFinalizes at h
  unfold LightValidation.decodeAndVerifyFinalizes
  rw [himpl.decode]
  cases hd : c.decode encoded with
  | none =>
    rw [hd] at h
    cases h
    rfl
  | some j =>
    rw [hd] at h
    dsimp only [Option.map_some, summary]
    dsimp only at h
    split at h
    · next hne =>
      cases h
      rw [if_pos hne]
      rfl
    · next heq =>
      rw [if_neg heq]
      obtain ⟨r', hv, rfl⟩ := Option.map_eq_some_iff.mp h
      have hverify : p.verify ⟨j.round, j.commit.targetHash, j.commit.targetNumber, encoded⟩ setId
          voters = r' := himpl.verify encoded j setId voters r' hd hv
      rw [hverify]
      cases r' <;> rfl

end Relay.Grandpa

namespace Relay.LightValidation

open Grandpa

variable {p : Primitives} {c : Crate}

-- On primitives that check justifications as `justification.rs` does, a justification that the
-- light client's check passes decodes to a justification for the header's hash and number, which
-- the crate's `verify` either never finishes on or accepts.
theorem justified_of_decodeAndVerifyFinalizes (himpl : Implements p c) {header : Header}
    {vs : AuthorityList} {vsId : SetId} {encoded : Justification}
    (hok : decodeAndVerifyFinalizes p encoded (p.hash header, header.number) vsId vs = .ok ()) :
    ∃ j, c.decode encoded = some j ∧
      j.commit.targetHash = c.hash header ∧ j.commit.targetNumber = header.number ∧
      (Grandpa.verify c j vsId vs = none ∨ Justifies c j vsId vs) := by
  -- each step of the crate's check that fails makes the light client's fail
  have hfails : ∀ e, Grandpa.decodeAndVerifyFinalizes c encoded (p.hash header, header.number) vsId vs ≠
      some (.error e) := fun e hcheck => by
    rw [decodeAndVerifyFinalizes_of_implements himpl hcheck] at hok
    cases hok
  cases hd : c.decode encoded with
  | none => exact absurd (decodeAndVerifyFinalizes_of_decode_none hd) (hfails _)
  | some j =>
    by_cases ht : (j.commit.targetHash, j.commit.targetNumber) = (p.hash header, header.number)
    · obtain ⟨hhash, hnumber⟩ := Prod.mk.inj ht
      refine ⟨j, rfl, hhash.trans (congrFun himpl.hash header), hnumber, ?_⟩
      cases hv : Grandpa.verify c j vsId vs with
      | none => exact .inl rfl
      | some r =>
        cases r with
        | error e =>
          refine absurd ?_ (hfails e)
          rw [decodeAndVerifyFinalizes_of_target_eq hd ht, hv]
          rfl
        | ok u => exact .inr (verify_sound hv)
    · exact absurd (decodeAndVerifyFinalizes_of_target_ne hd ht) (hfails _)

-- On primitives that check justifications as `justification.rs` does, every run of
-- `submit_finalized_headers` that accepts a header either records it as unjustified, when no proofs
-- are given, or finalizes it with the proofs given; each of those decodes to a justification for
-- the header's hash and number, which the crate's `verify` either never finishes on or accepts, so
-- that it shows what `Justifies` states under the voter set the relay checked it with.
theorem submitFinalizedHeaders_justified (himpl : Implements p c) {lv lv' : LightValidation}
    {relayId : RelayId} {header : Header} {ancestry : List Header} {vs : AuthorityList}
    {vsId : SetId} {proofs : Option (List Justification)}
    (h : submitFinalizedHeaders p lv relayId header ancestry vs vsId proofs = .ok (lv', .ok ())) :
    ∃ relay, lv.trackedRelays relayId = some relay ∧
      ((proofs = none ∧ lv' = lv.setRelay relayId { relay with
          lastFinalizedBlockHeader := header,
          unjustifiedHeaders := relay.unjustifiedHeaders ++ [p.hash header] }) ∨
        ∃ js, proofs = some js ∧ lv' = lv.setRelay relayId (finalizeJustified p relay header vs vsId) ∧
          ∀ encoded ∈ js, ∃ j, c.decode encoded = some j ∧
            j.commit.targetHash = c.hash header ∧ j.commit.targetNumber = header.number ∧
            (Grandpa.verify c j vsId vs = none ∨ Justifies c j vsId vs)) := by
  rcases submitFinalizedHeaders_cases h with ⟨e, he, -⟩ | ⟨-, relay, hr, -, hb⟩
  · cases he
  refine ⟨relay, hr, ?_⟩
  rcases hb with hnone | ⟨js, hjs, hall, hlv⟩
  · exact .inl hnone
  · exact .inr ⟨js, hjs, hlv, fun encoded hmem =>
      justified_of_decodeAndVerifyFinalizes himpl (hall encoded hmem)⟩

-- The relay of `demo` on the crate's primitives, and the child of its genesis header.
def crateRelay : LightValidation :=
  (initializeRelay (demoCrate.withPrimitives demo) new demoGenesis [(1, 1)] []).1

def firstChild : Header := ⟨1, 1, 0, []⟩

def justifiedRelay : LightValidation :=
  match submitFinalizedHeaders (demoCrate.withPrimitives demo) crateRelay 1 firstChild [] [(1, 1)] 0
      (some [[1]]) with
  | .ok r => r.1
  | .error _ => new

theorem submitFinalizedHeaders_justified_firstChild :
    Implements (demoCrate.withPrimitives demo) demoCrate ∧
      submitFinalizedHeaders (demoCrate.withPrimitives demo) crateRelay 1 firstChild [] [(1, 1)] 0
        (some [[1]]) = .ok (justifiedRelay, .ok ()) ∧
      ∃ relay, crateRelay.trackedRelays 1 = some relay ∧
        ((some [[(1 : UInt8)]] = none ∧ justifiedRelay = crateRelay.setRelay 1 { relay with
            lastFinalizedBlockHeader := firstChild,
            unjustifiedHeaders := relay.unjustifiedHeaders ++ [(demoCrate.withPrimitives demo).hash firstChild] }) ∨
          ∃ js, some [[(1 : UInt8)]] = some js ∧
            justifiedRelay = crateRelay.setRelay 1
              (finalizeJustified (demoCrate.withPrimitives demo) relay firstChild [(1, 1)] 0) ∧
            ∀ encoded ∈ js, ∃ j, demoCrate.decode encoded = some j ∧
              j.commit.targetHash = demoCrate.hash firstChild ∧ j.commit.targetNumber = firstChild.number ∧
              (Grandpa.verify demoCrate j 0 [(1, 1)] = none ∨ Justifies demoCrate j 0 [(1, 1)])) :=
  have himpl := Crate.implements_withPrimitives demoCrate demo
  have hrun : submitFinalizedHeaders (demoCrate.withPrimitives demo) crateRelay 1 firstChild [] [(1, 1)] 0
      (some [[1]]) = .ok (justifiedRelay, .ok ()) := rfl
  ⟨himpl, hrun, submitFinalizedHeaders_justified himpl hrun⟩

end Relay.LightValidation
