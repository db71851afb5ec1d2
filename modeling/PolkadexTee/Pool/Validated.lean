import PolkadexTee.Lib.Map
import PolkadexTee.Pool.Base

/-! `ValidatedPool` (`validated_pool.rs`) and `Pool` (`pool.rs`) over one shard's `BasePool`. -/

namespace Pool

variable {X H T : Type} [DecidableEq H] [DecidableEq T]

-- `error::Error`: what `BasePool` returns, and the errors of the layers above it.
inductive PoolError
  | base (e : Error)
  | unknownTrustedOperation
  | invalidTrustedOperation
  | noTagsProvided
  | temporarilyBanned
  | immediatelyDropped
  deriving DecidableEq, Repr

structure ValidTransaction (T : Type) where
  priority  : Nat
  requires  : List T
  provides  : List T
  longevity : Nat
  deriving DecidableEq, Repr

inductive TransactionValidityError
  | invalid
  | unknown
  deriving DecidableEq, Repr

-- The runtime as `ChainApi` offers it: the hash and encoded length of an extrinsic, and its
-- validation, which can fail itself or find the extrinsic invalid.
structure ChainApi (X H T : Type) where
  hashAndLength       : X → H × Nat
  validateTransaction : X → Except PoolError (Except TransactionValidityError (ValidTransaction T))

inductive ValidatedOperation (H T : Type)
  | valid (tx : TrustedOperation H T)
  | invalid (hash : H) (err : PoolError)
  | unknown (hash : H) (err : PoolError)
  deriving DecidableEq, Repr

-- `ValidatedOperation::valid_at`
def ValidatedOperation.validAt (atBlock : Nat) (hash : H) (bytes : Nat) (validity : ValidTransaction T) :
    ValidatedOperation H T :=
  .valid ⟨bytes, hash, validity.priority, saturatingAdd atBlock validity.longevity, validity.requires,
    validity.provides⟩

def Imported.hash {H T : Type} : Imported H T → H
  | .ready hash _ _ _ => hash
  | .future hash => hash

structure Options where
  ready                  : Limit
  future                 : Limit
  rejectFutureOperations : Bool

def Options.default : Options :=
  ⟨⟨8192, 20 * 1024 * 1024⟩, ⟨512, 1024 * 1024⟩, false⟩

def expectedSize : Nat := 2048

section EvictTo

variable {α : Type} (order : IterOrder H) (key : α → H) (expected : Nat)

-- `banned.remove(&key)` for the key that `banned.keys().next()` yields.
def removeFirst (banned : List α) (h : banned.map key ≠ []) : List α :=
  banned.eraseP fun entry => key entry = order.first (banned.map key) h

theorem length_removeFirst (banned : List α) (h : banned.map key ≠ []) :
    (removeFirst order key banned h).length = banned.length - 1 := by
  obtain ⟨entry, hentry, hkey⟩ := List.mem_map.mp (order.first_mem h)
  exact List.length_eraseP_of_mem hentry (by simpa using hkey)

omit [DecidableEq H] in
theorem map_ne_nil_of_lt {banned : List α} (h : expected < banned.length) : banned.map key ≠ [] := by
  rw [Ne, List.map_eq_nil_iff, ← List.length_eq_zero_iff]
  omega

-- The `while banned.len() > EXPECTED_SIZE` loop of `PoolRotator::ban` over the entries of the map,
-- whose keys `key` gives.
def evictTo (banned : List α) : List α :=
  if h : expected < banned.length then
    evictTo (removeFirst order key banned (map_ne_nil_of_lt key expected h))
  else banned
termination_by banned.length
decreasing_by
  rw [length_removeFirst]
  omega

theorem evictTo_sublist (banned : List α) : (evictTo order key expected banned).Sublist banned := by
  rw [evictTo]
  split
  · exact (evictTo_sublist _).trans List.eraseP_sublist
  · exact List.Sublist.refl _
termination_by banned.length
decreasing_by
  rw [length_removeFirst]
  omega

-- Each round removes one entry, so the loop leaves `expected` of them where there were more.
theorem length_evictTo (banned : List α) :
    (evictTo order key expected banned).length = min expected banned.length := by
  rw [evictTo]
  split
  · next hover =>
    rw [length_evictTo, length_removeFirst]
    omega
  · next hunder => omega
termination_by banned.length
decreasing_by
  rw [length_removeFirst]
  omega

-- The order sees only the keys, so the loop over the entries removes the keys the loop over the
-- keys removes.
theorem map_evictTo (banned : List α) :
    (evictTo order key expected banned).map key = evictTo order id expected (banned.map key) := by
  rw [evictTo, evictTo]
  by_cases hover : expected < banned.length
  · have hover' : expected < (banned.map key).length := by rwa [List.length_map]
    rw [dif_pos hover, dif_pos hover', map_evictTo, removeFirst, removeFirst, List.eraseP_map]
    simp only [List.map_id]
    rfl
  · have hunder' : ¬ expected < (banned.map key).length := by rwa [List.length_map]
    rw [dif_neg hover, dif_neg hunder']
termination_by banned.length
decreasing_by
  rw [length_removeFirst]
  omega

end EvictTo

-- `PoolRotator::ban`, without the ban times: a banned hash stays banned until the list outgrows
-- twice its expected size, when keys are removed in the map's order.
def banHashes (order : IterOrder H) (hashes banned : List H) : List H :=
  let banned := hashes.foldl (fun banned hash => insertHash hash banned) banned
  if banned.length > 2 * expectedSize then evictTo order id expectedSize banned else banned

-- The state of `ValidatedPool`: its options, the base pool, and the keys of the rotator's map with
-- the order its hasher gives them.
structure ValidatedPool (H T : Type) where
  options  : Options
  pool     : BasePool H T
  banned   : List H
  banOrder : IterOrder H

abbrev ValidatedM (H T : Type) := EStateM Error (ValidatedPool H T)

namespace ValidatedPool

def new (options : Options) (hashOrder banOrder : IterOrder H) : ValidatedPool H T :=
  ⟨options, BasePool.new options.rejectFutureOperations hashOrder, [], banOrder⟩

def liftPool {α : Type} (x : PoolM H T α) : ValidatedM H T α :=
  EStateM.zoom ValidatedPool.pool (fun s pool => { s with pool := pool }) x

def ban (hashes : List H) : ValidatedM H T Unit :=
  modify fun s => { s with banned := banHashes s.banOrder hashes s.banned }

def isBanned (self : ValidatedPool H T) (hash : H) : Bool :=
  self.banned.contains hash

def checkIsKnown (self : ValidatedPool H T) (txHash : H) (ignoreBanned : Bool) : Except PoolError Unit :=
  if !ignoreBanned && self.isBanned txHash then .error .temporarilyBanned
  else if self.pool.isImported txHash then .error (.base .alreadyImported)
  else .ok ()

-- `submit_one`: a valid operation goes into the base pool, whose errors are returned; an invalid
-- one is banned.
def submitOne (tx : ValidatedOperation H T) : ValidatedM H T (Except PoolError H) :=
  match tx with
  | .valid tx => do
    match ← liftPool (EStateM.attempt Error.isPanic (BasePool.import tx)) with
    | .ok imported => pure (.ok imported.hash)
    | .error e => pure (.error (.base e))
  | .invalid hash err => do
    ban [hash]
    pure (.error err)
  | .unknown _ err => pure (.error err)

-- `enforce_limits`: when a queue is over its limit, the removed operations are banned and their
-- hashes returned, each once.
def enforceLimits : ValidatedM H T (List H) := do
  let s ← get
  let status := s.pool.status
  if s.options.ready.isExceeded status.ready status.readyBytes ||
      s.options.future.isExceeded status.future status.futureBytes then
    let removed ← liftPool (BasePool.enforceLimits s.options.ready s.options.future)
    let removed := (removed.map fun tx => tx.hash).eraseDups
    ban removed
    pure removed
  else
    pure []

-- `submit`: one result for each operation it is given, an imported one that the limits removed
-- again counting as dropped.
def submit (txs : List (ValidatedOperation H T)) : ValidatedM H T (List (Except PoolError H)) := do
  let results ← txs.mapM submitOne
  let removed ← if results.any (fun res => match res with | .ok _ => true | .error _ => false)
    then enforceLimits else pure []
  pure (results.map fun res =>
    match res with
    | .ok hash => if removed.contains hash then .error .immediatelyDropped else .ok hash
    | other => other)

-- `extrinsics_tags`: the tags each listed operation provides, if it is in the pool.
def extrinsicsTags (self : ValidatedPool H T) (hashes : List H) : List (Option (List T)) :=
  (self.pool.byHashes hashes).map fun operation => operation.map fun operation => operation.provides

-- `prune_tags`; the notifications of its status go to the listener.
def pruneTags (tags : List T) : ValidatedM H T (PruneStatus H T) :=
  liftPool (BasePool.pruneTags tags)

end ValidatedPool

namespace ValidatedPool

variable (api : ChainApi X H T)

-- `verify_one` at the block number `0` the code passes: an extrinsic that is banned, already in the
-- pool, rejected by the runtime or providing no tag is invalid.
def verifyOne (self : ValidatedPool H T) (ignoreBanned : Bool) (xt : X) : H × ValidatedOperation H T :=
  let (hash, bytes) := api.hashAndLength xt
  match self.checkIsKnown hash ignoreBanned with
  | .error err => (hash, .invalid hash err)
  | .ok () =>
    match api.validateTransaction xt with
    | .error e => (hash, .invalid hash e)
    | .ok (.ok validity) =>
      if validity.provides.isEmpty then (hash, .invalid hash .noTagsProvided)
      else (hash, ValidatedOperation.validAt 0 hash bytes validity)
    | .ok (.error .invalid) => (hash, .invalid hash .invalidTrustedOperation)
    | .ok (.error .unknown) => (hash, .unknown hash .unknownTrustedOperation)

-- `verify`: the results collected into a `HashMap` by hash, a later one replacing an earlier.
def verify (self : ValidatedPool H T) (ignoreBanned : Bool) (xts : List X) :
    AList fun _ : H => ValidatedOperation H T :=
  (xts.map (verifyOne api self ignoreBanned)).foldl (fun map r => map.insert r.1 r.2) ∅

-- `Pool::submit_at`, checking the ban list first; the map of validated operations is submitted in
-- the order `order` makes of its entries.
def submitAt (order : IterOrder (Sigma fun _ : H => ValidatedOperation H T)) (xts : List X) :
    ValidatedM H T (List (Except PoolError H)) := do
  let validated := verify api (← get) false xts
  submit ((order.arrange validated.entries).map fun e => e.2)

-- `Pool::resubmit_at`, which does not check the ban list.
def resubmitAt (order : IterOrder (Sigma fun _ : H => ValidatedOperation H T)) (xts : List X) :
    ValidatedM H T (List (Except PoolError H)) := do
  let validated := verify api (← get) true xts
  submit ((order.arrange validated.entries).map fun e => e.2)

-- `Pool::prune_known`: the tags that the listed operations in the pool provide are pruned. The
-- `pruned` notifications of `fire_pruned` go to the listener.
def pruneKnown (hashes : List H) : ValidatedM H T Unit := do
  let inPoolTags := (((← get).extrinsicsTags hashes).filterMap id).flatten
  let _ ← pruneTags inPoolTags

end ValidatedPool

end Pool
