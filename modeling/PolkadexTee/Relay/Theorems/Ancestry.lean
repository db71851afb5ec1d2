import Mathlib.Data.List.Chain
import PolkadexTee.Relay.Theorems.Basic
import PolkadexTee.Relay.Reference

/-! What `verify_ancestry` accepts, and the header lists of a relay. -/

namespace Relay

-- A prefix of `proof` links `parent` to `ancestor`: its first header hashes to `parent`, each next
-- header to the parent hash of the one before, and the last one's parent is `ancestor`.
inductive LinksTo (p : Primitives) (ancestor : Hash) : Hash → List Header → Prop
  | last {parent : Hash} {header : Header} {rest : List Header} (hhash : p.hash header = parent)
      (hparent : header.parentHash = ancestor) : LinksTo p ancestor parent (header :: rest)
  | step {parent : Hash} {header : Header} {rest : List Header} (hhash : p.hash header = parent)
      (hnext : LinksTo p ancestor header.parentHash rest) : LinksTo p ancestor parent (header :: rest)

namespace LinksTo

variable {p : Primitives} {ancestor parent : Hash}

-- The prefix as positions of the proof: the first `k` headers are linked, and the `k`-th one's
-- parent is the ancestor.
theorem iff_prefix {proof : List Header} :
    LinksTo p ancestor parent proof ↔ ∃ k, ∃ _ : 1 ≤ k, ∃ hk : k ≤ proof.length,
      p.hash proof[0] = parent ∧
      (∀ i (_ : 0 < i) (hi : i < k), p.hash proof[i] = proof[i - 1].parentHash) ∧
      proof[k - 1].parentHash = ancestor := by
  induction proof generalizing parent with
  | nil =>
    constructor
    · intro h
      cases h
    · rintro ⟨k, h1, hk, -⟩
      simp at hk
      omega
  | cons header rest ih =>
    constructor
    · intro h
      cases h with
      | last hhash hparent => exact ⟨1, le_rfl, by simp, hhash, fun i h0 hi => by omega, hparent⟩
      | step hhash hnext =>
        -- the prefix of the rest, one position further
        have ⟨k, h1, hk, h0, hlinks, hlast⟩ := ih.mp hnext
        obtain ⟨m, rfl⟩ : ∃ m, k = m + 1 := ⟨k - 1, by omega⟩
        refine ⟨m + 2, by omega, by simpa using hk, hhash, fun i hi0 hi => ?_, by simpa using hlast⟩
        cases i with
        | zero => omega
        | succ i =>
          cases i with
          | zero => simpa using h0
          | succ i => simpa using hlinks (i + 1) (by omega) (by omega)
    · rintro ⟨k, h1, hk, h0, hlinks, hlast⟩
      have hhash : p.hash header = parent := by simpa using h0
      by_cases hk1 : k = 1
      · subst hk1
        exact .last hhash (by simpa using hlast)
      · -- the prefix goes on past the first header
        obtain ⟨m, rfl⟩ : ∃ m, k = m + 2 := ⟨k - 2, by omega⟩
        refine .step hhash (ih.mpr ⟨m + 1, by omega, by simp at hk; omega, ?_, fun i hi0 hi => ?_,
          by simpa using hlast⟩)
        · simpa using hlinks 1 (by omega) (by omega)
        · cases i with
          | zero => omega
          | succ i => simpa using hlinks (i + 2) (by omega) (by omega)

end LinksTo

namespace LightValidation

variable (p : Primitives)

-- The walk of `verify_ancestry` succeeds exactly on a linked prefix; it breaks at the first
-- header that is not the parent of the one before.
theorem verifyAncestry.go_eq_ok_iff (ancestor : Hash) :
    ∀ (parent : Hash) (proof : List Header),
      verifyAncestry.go p ancestor parent proof = .ok () ↔ LinksTo p ancestor parent proof
  | _, [] => by
    simp only [verifyAncestry.go, reduceCtorEq, false_iff]
    intro h
    cases h
  | parent, header :: rest => by
    rw [verifyAncestry.go]
    by_cases hhash : p.hash header = parent
    · rw [if_neg (not_not.mpr hhash)]
      by_cases hparent : header.parentHash = ancestor
      · rw [if_pos hparent]
        exact iff_of_true rfl (.last hhash hparent)
      · rw [if_neg hparent, verifyAncestry.go_eq_ok_iff ancestor header.parentHash rest]
        constructor
        · exact .step hhash
        · intro h
          cases h with
          | last _ hparent' => exact absurd hparent' hparent
          | step _ hnext => exact hnext
    · rw [if_pos hhash]
      refine iff_of_false (by simp) fun h => ?_
      cases h <;> contradiction

-- `verify_ancestry(proof, a, c)` returns `Ok(())` exactly when `c`'s parent is `a`, or a
-- parent-linked prefix of the proof leads from `c`'s parent to `a`.
theorem verifyAncestry_eq_ok_iff (proof : List Header) (ancestor : Hash) (child : Header) :
    verifyAncestry p proof ancestor child = .ok () ↔ child.parentHash = ancestor ∨
      ∃ k, ∃ _ : 1 ≤ k, ∃ hk : k ≤ proof.length,
        p.hash proof[0] = child.parentHash ∧
        (∀ i (_ : 0 < i) (hi : i < k), p.hash proof[i] = proof[i - 1].parentHash) ∧
        proof[k - 1].parentHash = ancestor := by
  rw [← LinksTo.iff_prefix, verifyAncestry]
  by_cases hparent : child.parentHash = ancestor
  · rw [if_pos hparent]
    exact iff_of_true rfl (.inl hparent)
  · rw [if_neg hparent, verifyAncestry.go_eq_ok_iff, or_iff_right hparent]

-- The header lists of a relay over a run of `submit_simple_header` calls.

-- A run of `submit_simple_header` calls, each on the relay it names; the headers that the relay
-- `relayId` accepts are collected in order. A call that returns `Err` keeps what it changed, and a
-- panic ends the run.
-- The header of a call, if the call accepted it.
def acceptedHeader (header : Header) : Except Error Unit → List Header
  | .ok () => [header]
  | .error _ => []

def acceptHeaders (lv : LightValidation) (relayId : RelayId) :
    List (RelayId × Header × Option (List Justification)) → Except Panic (LightValidation × List Header)
  | [] => .ok (lv, [])
  | (id, header, proofs) :: rest =>
    match submitSimpleHeader p lv id header proofs with
    | .error e => .error e
    | .ok (lv', r) =>
      let here := if id = relayId then acceptedHeader header r else []
      (acceptHeaders lv' relayId rest).map fun run => (run.1, here ++ run.2)

-- The header lists of `relay` record `init` and then the headers it accepted, in order:
-- `header_hashes` starts with `init`'s hash, `header_hashes` followed by `unjustified_headers` are
-- the hashes of all of them, each is a child of the one before, and the last is the last finalized
-- header.
structure Records (relay : RelayState) (init : Header) (accepted : List Header) : Prop where
  genesis : ∃ rest, relay.headerHashes = p.hash init :: rest
  hashes  : relay.headerHashes ++ relay.unjustifiedHeaders = (init :: accepted).map p.hash
  linked  : (init :: accepted).IsChain fun parent child => child.parentHash = p.hash parent
  last    : (init :: accepted).getLast? = some relay.lastFinalizedBlockHeader

variable {p} {relay relay' : RelayState} {init header : Header} {accepted : List Header}

theorem records_new (validatorSet : AuthorityList) :
    Records p (RelayState.new p init validatorSet) init [] :=
  ⟨⟨[], rfl⟩, rfl, .singleton init, rfl⟩

-- A write that keeps the header lists and the last finalized header.
theorem Records.of_eq (h : Records p relay init accepted)
    (hh : relay'.headerHashes = relay.headerHashes)
    (hu : relay'.unjustifiedHeaders = relay.unjustifiedHeaders)
    (hl : relay'.lastFinalizedBlockHeader = relay.lastFinalizedBlockHeader) :
    Records p relay' init accepted :=
  ⟨hh ▸ h.genesis, hh ▸ hu ▸ h.hashes, h.linked, hl ▸ h.last⟩

-- An accepted header, a child of the last finalized one, is recorded after it.
theorem Records.accept (h : Records p relay init accepted)
    (hlink : header.parentHash = p.hash relay.lastFinalizedBlockHeader)
    (hgrow : ∃ rest, relay'.headerHashes = relay.headerHashes ++ rest)
    (hhashes : relay'.headerHashes ++ relay'.unjustifiedHeaders =
      relay.headerHashes ++ relay.unjustifiedHeaders ++ [p.hash header])
    (hlast : relay'.lastFinalizedBlockHeader = header) :
    Records p relay' init (accepted ++ [header]) where
  genesis := by
    obtain ⟨rest, hrest⟩ := h.genesis
    obtain ⟨more, hmore⟩ := hgrow
    exact ⟨rest ++ more, by rw [hmore, hrest, List.cons_append]⟩
  hashes := by rw [hhashes, h.hashes, ← List.cons_append, List.map_append, List.map_singleton]
  linked := by
    rw [← List.cons_append]
    refine h.linked.append (.singleton header) fun x hx y hy => ?_
    rw [h.last, Option.mem_some_iff] at hx
    rw [List.head?_singleton, Option.mem_some_iff] at hy
    rw [← hx, ← hy]
    exact hlink
  last := by rw [← List.cons_append, List.getLast?_append, List.getLast?_singleton, hlast]; rfl

-- One call of `submit_simple_header` on the relay: an accepted header is recorded, and an `Err`
-- leaves the lists and the last finalized header as they were.
theorem Records.submitSimpleHeader (h : Records p relay init accepted) {lv lv' : LightValidation}
    {relayId : RelayId} (hr : lv.trackedRelays relayId = some relay)
    {proofs : Option (List Justification)} {r : Except Error Unit}
    (hsub : submitSimpleHeader p lv relayId header proofs = .ok (lv', r)) :
    ∃ relay', lv'.trackedRelays relayId = some relay' ∧
      Records p relay' init (accepted ++ acceptedHeader header r) := by
  rcases submitSimpleHeader_cases hsub with ⟨e, rfl, hlv⟩ | ⟨rfl, relay₀, hr₀, hlink, hcases⟩
  · rw [acceptedHeader, List.append_nil]
    rcases hlv with rfl | ⟨relay₀, hr₀, rfl⟩
    · exact ⟨relay, hr, h⟩
    · rw [hr, Option.some_inj] at hr₀
      subst hr₀
      refine ⟨_, setRelay_trackedRelays_self _ _ _, h.of_eq ?_ ?_ ?_⟩ <;> simp
  · rw [hr, Option.some_inj] at hr₀
    subst hr₀
    rw [acceptedHeader]
    rcases hcases with ⟨-, rfl⟩ | ⟨_, -, -, rfl⟩
    · -- without a justification the header joins the unjustified ones
      refine ⟨_, setRelay_trackedRelays_self _ _ _, h.accept hlink.symm ⟨[], ?_⟩ ?_ rfl⟩
      · simp
      · simp
    · -- with one, the unjustified headers move over, and the header after them
      refine ⟨_, setRelay_trackedRelays_self _ _ _,
        h.accept hlink.symm ⟨relay.unjustifiedHeaders ++ [p.hash header], ?_⟩ ?_ ?_⟩
      · simp [List.append_assoc]
      · simp
      · simp

-- A call on another relay leaves the relay alone.
theorem submitSimpleHeader_trackedRelays_ne {lv lv' : LightValidation} {id relayId : RelayId}
    (hne : relayId ≠ id) {proofs : Option (List Justification)} {r : Except Error Unit}
    (hsub : submitSimpleHeader p lv id header proofs = .ok (lv', r)) :
    lv'.trackedRelays relayId = lv.trackedRelays relayId := by
  rcases submitSimpleHeader_cases hsub with ⟨-, -, rfl | ⟨_, -, rfl⟩⟩ | ⟨-, _, -, -, ⟨-, rfl⟩ | ⟨_, -, -, rfl⟩⟩
  · rfl
  all_goals exact setRelay_trackedRelays_ne _ hne

theorem Records.acceptHeaders {relayId : RelayId} :
    ∀ (calls : List (RelayId × Header × Option (List Justification))) {lv lv' : LightValidation}
      {relay : RelayState} {accepted accepted' : List Header},
      Records p relay init accepted → lv.trackedRelays relayId = some relay →
      acceptHeaders p lv relayId calls = .ok (lv', accepted') →
      ∃ relay', lv'.trackedRelays relayId = some relay' ∧ Records p relay' init (accepted ++ accepted')
  | [], _, _, relay, _, _, h, hr, hrun => by
    simp only [LightValidation.acceptHeaders, Except.ok.injEq, Prod.mk.injEq] at hrun
    obtain ⟨rfl, rfl⟩ := hrun
    exact ⟨relay, hr, by rwa [List.append_nil]⟩
  | (id, header, proofs) :: rest, lv, _, relay, accepted, _, h, hr, hrun => by
    rw [LightValidation.acceptHeaders] at hrun
    split at hrun
    · cases hrun
    · next lv₁ r hsub =>
      obtain ⟨run, hrest, hpair⟩ := Except.map_eq_ok.mp hrun
      obtain ⟨rfl, rfl⟩ := Prod.mk.inj hpair
      by_cases hid : id = relayId
      · -- a call on the relay: the header is recorded when it is accepted
        subst hid
        obtain ⟨relay₁, hr₁, h₁⟩ := h.submitSimpleHeader hr hsub
        obtain ⟨relay', hr', h'⟩ := Records.acceptHeaders rest h₁ hr₁ hrest
        refine ⟨relay', hr', ?_⟩
        rwa [if_pos rfl, ← List.append_assoc]
      · obtain ⟨relay', hr', h'⟩ := Records.acceptHeaders rest h
          (by rw [submitSimpleHeader_trackedRelays_ne (Ne.symm hid) hsub, hr]) hrest
        refine ⟨relay', hr', ?_⟩
        rwa [if_neg hid, List.nil_append]

-- After `initialize_relay` and any run of `submit_simple_header` calls, the relay's `genesis_hash`
-- is the hash of the header it was initialized with, and `header_hashes` followed by
-- `unjustified_headers` are the hashes of that header and of the accepted ones in order, each the
-- child of the one before, ending with the last finalized header.
theorem acceptHeaders_record_chain {validatorSet : AuthorityList} {proof : StorageProof}
    {relayId : RelayId} {lv lv' : LightValidation}
    {calls : List (RelayId × Header × Option (List Justification))} {accepted : List Header}
    (hinit : initializeRelay p new init validatorSet proof = (lv, .ok relayId))
    (hrun : acceptHeaders p lv relayId calls = .ok (lv', accepted)) :
    genesisHash lv' relayId = .ok (.ok (p.hash init)) ∧
    ∃ relay, lv'.trackedRelays relayId = some relay ∧
      relay.headerHashes[0]? = some (p.hash init) ∧
      relay.headerHashes ++ relay.unjustifiedHeaders = (init :: accepted).map p.hash ∧
      (init :: accepted).IsChain (fun parent child => child.parentHash = p.hash parent) ∧
      (relay.headerHashes ++ relay.unjustifiedHeaders).getLast? =
        some (p.hash relay.lastFinalizedBlockHeader) := by
  -- the relay starts with `init` alone
  have hr : lv.trackedRelays relayId = some (RelayState.new p init validatorSet) := by
    unfold initializeRelay at hinit
    split at hinit
    · cases hinit
    · obtain ⟨rfl, hid⟩ := Prod.mk.inj hinit
      cases hid
      simp
  obtain ⟨relay, hr', h⟩ := (records_new validatorSet).acceptHeaders calls hr hrun
  rw [List.nil_append] at h
  obtain ⟨rest, hrest⟩ := h.genesis
  refine ⟨by simp [genesisHash, hr', hrest], relay, hr', by simp [hrest], h.hashes, h.linked, ?_⟩
  rw [h.hashes, List.getLast?_map, h.last, Option.map_some]

-- Two headers accepted on the relay of `demo`, between a call on a relay that does not exist and
-- a header that is not a child of the last one.
def demoCalls : List (RelayId × Header × Option (List Justification)) :=
  [(1, ⟨1, 1, 0, []⟩, none), (2, ⟨1, 1, 0, []⟩, none), (1, ⟨9, 2, 0, []⟩, none),
    (1, ⟨2, 2, 0, []⟩, some [[2]])]

def demoChain : LightValidation :=
  match acceptHeaders demo demoRelay 1 demoCalls with
  | .ok run => run.1
  | .error _ => new

theorem acceptHeaders_record_chain_demo :
    genesisHash demoChain 1 = .ok (.ok (demo.hash demoGenesis)) ∧
    ∃ relay, demoChain.trackedRelays 1 = some relay ∧
      relay.headerHashes[0]? = some (demo.hash demoGenesis) ∧
      relay.headerHashes ++ relay.unjustifiedHeaders =
        (demoGenesis :: [⟨1, 1, 0, []⟩, ⟨2, 2, 0, []⟩]).map demo.hash ∧
      (demoGenesis :: [⟨1, 1, 0, []⟩, ⟨2, 2, 0, []⟩]).IsChain
        (fun parent child => child.parentHash = demo.hash parent) ∧
      (relay.headerHashes ++ relay.unjustifiedHeaders).getLast? =
        some (demo.hash relay.lastFinalizedBlockHeader) :=
  acceptHeaders_record_chain
    (show initializeRelay demo new demoGenesis [(1, 1)] [] = (demoRelay, .ok 1) from rfl)
    (show acceptHeaders demo demoRelay 1 demoCalls = .ok (demoChain, [⟨1, 1, 0, []⟩, ⟨2, 2, 0, []⟩])
      from rfl)

end LightValidation

end Relay
