import PolkadexTee.Pool.Objects

/-! `ReadyOperations` (`ready.rs`): the operations whose required tags are all provided, each linked
to the operations it unlocks, and the best set of those that need nothing in the pool. -/

namespace Pool

open Rust (BTreeSet.insert BTreeSet.remove BTreeSet.last)

variable {H T : Type} [DecidableEq H] [DecidableEq T]

namespace ReadyOperations

-- `self.ready.get_mut(&shard).unwrap()` and the like.
def unwrapReady : ReadyM H T (AList fun _ : H => ReadyTx H T) := do
  match (← get).ready with
  | some ready => pure ready
  | none => throw (.panic unwrapNone)

def unwrapProvidedTags : ReadyM H T (AList fun _ : T => H) := do
  match (← get).providedTags with
  | some tags => pure tags
  | none => throw (.panic unwrapNone)

def unwrapBest : ReadyM H T (List (OperationRef H T)) := do
  match (← get).best with
  | some best => pure best
  | none => throw (.panic unwrapNone)

def setReady (ready : AList fun _ : H => ReadyTx H T) : ReadyM H T Unit :=
  modify fun s => { s with ready := some ready }

def setProvidedTags (tags : AList fun _ : T => H) : ReadyM H T Unit :=
  modify fun s => { s with providedTags := some tags }

def setBest (best : List (OperationRef H T)) : ReadyM H T Unit :=
  modify fun s => { s with best := some best }

-- The write access of the shard's `TrackedMap`: the counters move by `fetch_add` and `fetch_sub` on
-- each insert and remove.

-- `fetch_add` of the size of an entry that goes in, and of one.
def countIn (s : ReadyOperations H T) (tx : ReadyTx H T) : ReadyOperations H T :=
  { s with readyBytes := s.readyBytes + tx.size, readyLength := s.readyLength + 1 }

-- `fetch_sub` of the size of an entry that goes out, and of one.
def countOut (s : ReadyOperations H T) (tx : ReadyTx H T) : ReadyOperations H T :=
  { s with readyBytes := s.readyBytes - tx.size, readyLength := s.readyLength - 1 }

-- `TrackedMapWriteAccess::insert` on the write access `ready`: the new entry is counted in, and the
-- one it replaces out.
def trackedInsert (s : ReadyOperations H T) (ready : AList fun _ : H => ReadyTx H T) (hash : H)
    (tx : ReadyTx H T) : ReadyOperations H T :=
  let s := match ready.lookup hash with
    | some old => (s.countIn tx).countOut old
    | none => s.countIn tx
  { s with ready := some (ready.insert hash tx) }

-- `TrackedMapWriteAccess::remove`: an entry that is there is counted out.
def trackedRemove (s : ReadyOperations H T) (ready : AList fun _ : H => ReadyTx H T) (hash : H) :
    ReadyOperations H T :=
  let s := match ready.lookup hash with
    | some tx => s.countOut tx
    | none => s
  { s with ready := some (ready.erase hash) }

-- `provided_tags(shard)`
def providedTagsOf (self : ReadyOperations H T) : Option (AList fun _ : T => H) :=
  self.providedTags

-- The lengths of all unlock lists, which bound the pops of a subtree removal.
def unlocksTotal (ready : AList fun _ : H => ReadyTx H T) : Nat :=
  (ready.entries.map fun e => e.2.unlocks.length).sum

-- The removal from `unlocks` in `remove_subtree_with_tag_filter`. The inner `hash` shadows the
-- removed operation's: each provider of a tag the removed operation requires has its own hash
-- removed from its `unlocks`.
def removeFromUnlocks (ready : AList fun _ : H => ReadyTx H T) :
    List T → ReadyM H T (AList fun _ : H => ReadyTx H T)
  | [] => pure ready
  | tag :: rest => do
    let tags ← unwrapProvidedTags
    let ready :=
      match tags.lookup tag with
      | some hash =>
        match ready.lookup hash with
        | some tx => ready.insert hash { tx with unlocks := removeItem tx.unlocks hash }
        | none => ready
      | none => ready
    removeFromUnlocks ready rest

-- `for tag in invalidated { provided_tags.get_mut(&shard).unwrap().remove(tag); }`
def removeProvided : List T → ReadyM H T Unit
  | [] => pure ()
  | tag :: rest => do
    let tags ← unwrapProvidedTags
    setProvidedTags (tags.erase tag)
    removeProvided rest

-- The `while let Some(hash) = to_remove.pop()` loop of `remove_subtree_with_tag_filter`, on the
-- write access to the ready map it holds; `fuel` bounds its iterations. A branch descends only when
-- the removed operation gave up a tag outside the filter.
def removeSubtreeLoop (providesTagFilter : Option (List T)) :
    Nat → AList (fun _ : H => ReadyTx H T) → List H → List (TrustedOperation H T) →
      ReadyM H T (AList (fun _ : H => ReadyTx H T) × List (TrustedOperation H T))
  | 0, ready, _, removed => pure (ready, removed)
  | fuel + 1, ready, toRemove, removed =>
    match toRemove.getLast? with
    | none => pure (ready, removed)
    | some hash =>
      let toRemove := toRemove.dropLast
      match ready.lookup hash with
      | none => removeSubtreeLoop providesTagFilter fuel ready toRemove removed
      | some tx => do
        -- `ready.remove(&hash)` on the write access the loop holds
        let ready := ready.erase hash
        modify fun s => s.countOut tx
        let invalidated := tx.operation.operation.provides.filter fun tag =>
          (providesTagFilter.map fun filter => !filter.contains tag).getD true
        removeProvided invalidated
        let ready ← removeFromUnlocks ready tx.operation.operation.requires
        let best ← unwrapBest
        setBest (BTreeSet.remove OperationRef.cmp tx.operation best)
        let toRemove := if invalidated.isEmpty then toRemove else toRemove ++ tx.unlocks
        removeSubtreeLoop providesTagFilter fuel ready toRemove (removed ++ [tx.operation.operation])

def removeSubtreeWithTagFilter (toRemove : List H) (providesTagFilter : Option (List T)) :
    ReadyM H T (List (TrustedOperation H T)) := do
  match (← get).ready with
  | none => pure []
  | some ready =>
    let (ready, removed) ← removeSubtreeLoop providesTagFilter
      (toRemove.length + unlocksTotal ready + 1) ready toRemove []
    setReady ready
    pure removed

def removeSubtree (hashes : List H) : ReadyM H T (List (TrustedOperation H T)) :=
  removeSubtreeWithTagFilter hashes none

-- `replace_previous`: the providers of the tags `tx` provides are replaced when their priorities
-- together are below `tx`'s. The set of their hashes is iterated in order of first occurrence.
def replacePrevious (tx : TrustedOperation H T) :
    ReadyM H T (List (TrustedOperation H T) × List H) := do
  match (← get).providedTags with
  | none => pure ([], [])
  | some providedTagMap =>
    let replaceHashes := (tx.provides.filterMap providedTagMap.lookup).eraseDups
    if replaceHashes.isEmpty then return ([], [])
    let ready ← unwrapReady
    let oldPriority := (replaceHashes.filterMap ready.lookup).foldl
      (fun total tx => saturatingAdd total tx.operation.operation.priority) 0
    if oldPriority ≥ tx.priority then throw (.tooLowPriority tx.priority)
    let ready ← unwrapReady
    let unlocks := (replaceHashes.filterMap ready.lookup).foldl (fun list tx => list ++ tx.unlocks) []
    let removed ← removeSubtreeWithTagFilter replaceHashes (some tx.provides)
    pure (removed, unlocks)

-- The links of `import` to the providers of the required tags: each provider unlocks the new
-- operation, and a tag no operation provides counts towards `requires_offset`.
def linkRequires (hash : H) (tagMap : AList fun _ : T => H) :
    AList (fun _ : H => ReadyTx H T) → Bool → Nat → List T →
      ReadyM H T (AList (fun _ : H => ReadyTx H T) × Bool × Nat)
  | ready, goesToBest, requiresOffset, [] => pure (ready, goesToBest, requiresOffset)
  | ready, goesToBest, requiresOffset, tag :: rest =>
    match tagMap.lookup tag with
    | some other =>
      match ready.lookup other with
      | some tx =>
        linkRequires hash tagMap (ready.insert other { tx with unlocks := tx.unlocks ++ [hash] })
          false requiresOffset rest
      | none => throw (.panic hashReady)
    | none => linkRequires hash tagMap ready goesToBest (requiresOffset + 1) rest

-- `import`: a ready operation joins the queue, after the operations it replaces are removed. The
-- insertion id is counted before the replacement may fail.
def «import» (tx : WaitingTrustedOperations H T) : ReadyM H T (List (TrustedOperation H T)) := do
  if !tx.isReady then throw (.panic "Only ready operations can be imported.")
  if let some readyMap := (← get).ready then
    if (readyMap.lookup tx.operation.hash).isSome then
      throw (Error.panic "TrustedOperation is already imported.")
  -- `*current_insertion_id += 1` on the `u64`, which wraps in a release build
  let insertionId ← modifyGet fun s =>
    let id := s.insertionId.getD 0 + 1
    (id, { s with insertionId := some id })
  let hash := tx.operation.hash
  let operation := tx.operation
  let (replaced, unlocks) ← replacePrevious operation
  let s ← get
  let ready := s.ready.getD ∅
  let tagMap := s.providedTags.getD ∅
  let (ready, goesToBest, requiresOffset) ← linkRequires hash tagMap ready true 0 operation.requires
  -- `replace_previous` removed the providers whose tags are overwritten here
  let tagMap := operation.provides.foldl (fun tags tag => tags.insert tag hash) tagMap
  setProvidedTags tagMap
  let operation : OperationRef H T := ⟨operation, insertionId⟩
  let best := (← get).best.getD []
  setBest (if goesToBest then BTreeSet.insert OperationRef.cmp operation best else best)
  modify fun s => s.trackedInsert ready hash ⟨operation, unlocks, requiresOffset⟩
  pure replaced

def contains (self : ReadyOperations H T) (hash : H) : Bool :=
  match self.ready with
  | some ready => (ready.lookup hash).isSome
  | none => false

-- `len(shard)`: `TrackedMap::len`, the length counter read as at least zero.
def len (self : ReadyOperations H T) : Nat :=
  match self.ready with
  | some _ => (max self.readyLength 0).toNat
  | none => 0

-- `bytes(shard)`: `TrackedMap::bytes`, the byte counter read so.
def bytes (self : ReadyOperations H T) : Nat :=
  match self.ready with
  | some _ => (max self.readyBytes 0).toNat
  | none => 0

-- `by_hashes`: no entry at all while the shard has no ready map.
def byHashes (self : ReadyOperations H T) (hashes : List H) : List (Option (TrustedOperation H T)) :=
  match self.ready with
  | some ready => hashes.map fun hash => (ready.lookup hash).map fun tx => tx.operation.operation
  | none => []

-- `find_previous` in `prune_tags`: the provider of a tag the pruned operation required no longer
-- unlocks it, and when it unlocks nothing more its tags are pruned as well.
def findPrevious (hash : H) (tag : T) : ReadyM H T (Option (List T)) := do
  let tags ← unwrapProvidedTags
  let some prevHash := tags.lookup tag | pure none
  let ready ← unwrapReady
  let some tx2 := ready.lookup prevHash | pure none
  let tx2 := { tx2 with unlocks := removeItem tx2.unlocks hash }
  setReady (ready.insert prevHash tx2)
  pure (if tx2.unlocks.isEmpty then some tx2.operation.operation.provides else none)

def findPreviousAll (hash : H) : List T → List T → ReadyM H T (List T)
  | toRemove, [] => pure toRemove
  | toRemove, tag :: rest => do
    let toRemove := match ← findPrevious hash tag with
      | some tagsToRemove => toRemove ++ tagsToRemove
      | none => toRemove
    findPreviousAll hash toRemove rest

-- The operations the pruned one unlocked count one more provided tag; the ready ones go to best.
def promoteUnlocked : List H → ReadyM H T Unit
  | [] => pure ()
  | hash :: rest => do
    let ready ← unwrapReady
    match ready.lookup hash with
    | some tx =>
      let tx := { tx with requiresOffset := tx.requiresOffset + 1 }
      setReady (ready.insert hash tx)
      if tx.requiresOffset = tx.operation.operation.requires.length then
        let best ← unwrapBest
        setBest (BTreeSet.insert OperationRef.cmp tx.operation best)
    | none => pure ()
    promoteUnlocked rest

def pruneAssertMsg : String :=
  "The pool contains exactly one operation providing given tag; the removed operation claims " ++
  "to provide that tag, so it has to be mapped to it's hash; qed"

-- The other tags the pruned operation provides are cleared, with the `assert_eq!` that each was
-- mapped to it, the tag being pruned apart.
def clearProvides (currentTag : T) (hash : H) : List T → ReadyM H T Unit
  | [] => pure ()
  | tag :: rest => do
    let tags ← unwrapProvidedTags
    let removed := tags.lookup tag
    setProvidedTags (tags.erase tag)
    if removed ≠ (if currentTag = tag then none else some hash) then throw (.panic pruneAssertMsg)
    clearProvides currentTag hash rest

-- The number of tags ever pushed onto `to_remove` of `prune_tags` is at most this.
def pruneFuel (ready : AList fun _ : H => ReadyTx H T) : Nat :=
  let requires := (ready.entries.map fun e => e.2.operation.operation.requires.length).sum
  let provides := (ready.entries.map fun e => e.2.operation.operation.provides.length).sum
  ready.entries.length + requires * provides + 2

-- The `while let Some(tag) = to_remove.pop()` loop of `prune_tags`.
def pruneTagsLoop : Nat → List T → List (TrustedOperation H T) → ReadyM H T (List (TrustedOperation H T))
  | 0, _, removed => pure removed
  | fuel + 1, toRemove, removed =>
    match toRemove.getLast? with
    | none => pure removed
    | some tag => do
      let toRemove := toRemove.dropLast
      let tags ← unwrapProvidedTags
      setProvidedTags (tags.erase tag)
      let res ← match tags.lookup tag with
        | some hash => do
          let ready ← unwrapReady
          modify fun s => s.trackedRemove ready hash
          pure (ready.lookup hash)
        | none => pure none
      match res with
      | none => pruneTagsLoop fuel toRemove removed
      | some tx => do
        let unlocks := tx.unlocks
        let best ← unwrapBest
        setBest (BTreeSet.remove OperationRef.cmp tx.operation best)
        let tx := tx.operation.operation
        let toRemove ← findPreviousAll tx.hash toRemove tx.requires
        promoteUnlocked unlocks
        clearProvides tag tx.hash tx.provides
        pruneTagsLoop fuel toRemove (removed ++ [tx])

def pruneTags (tag : T) : ReadyM H T (List (TrustedOperation H T)) := do
  let s ← get
  match s.providedTags with
  | none => pure []
  | some _ => pruneTagsLoop (pruneFuel (s.ready.getD ∅)) [tag] []

end ReadyOperations

-- `BestIterator`: a copy of the ready map, the operations waiting for more of their tags, and the
-- best set.
structure BestIterator (H T : Type) where
  all      : AList fun _ : H => ReadyTx H T
  awaiting : AList fun _ : H => Nat × OperationRef H T
  best     : List (OperationRef H T)

namespace BestIterator

def bestOrAwaiting (self : BestIterator H T) (satisfied : Nat) (txRef : OperationRef H T) :
    BestIterator H T :=
  if satisfied ≥ txRef.operation.requires.length then
    { self with best := BTreeSet.insert OperationRef.cmp txRef self.best }
  else
    { self with awaiting := self.awaiting.insert txRef.operation.hash (satisfied, txRef) }

-- The loop over `ready.unlocks` in `next`: one more tag is satisfied for each unlocked operation.
def unlock (self : BestIterator H T) : List H → BestIterator H T
  | [] => self
  | hash :: rest =>
    let (res, self) :=
      match self.awaiting.lookup hash with
      | some (satisfied, txRef) =>
        (some (satisfied + 1, txRef), { self with awaiting := self.awaiting.erase hash })
      | none =>
        match self.all.lookup hash with
        | some next => (some (next.requiresOffset + 1, next.operation), self)
        | none => (none, self)
    let self := match res with
      | some (satisfied, txRef) => self.bestOrAwaiting satisfied txRef
      | none => self
    unlock self rest

-- `next`: the greatest of the best set; one that is no longer in the map is skipped. The loop takes
-- one element of the best set each time round, so its length bounds it.
def nextLoop : Nat → BestIterator H T → Option (TrustedOperation H T × BestIterator H T)
  | 0, _ => none
  | fuel + 1, self => do
    let best ← BTreeSet.last OperationRef.cmp self.best
    let self := { self with best := BTreeSet.remove OperationRef.cmp best self.best }
    match self.all.lookup best.operation.hash with
    | none => nextLoop fuel self
    | some ready => some (best.operation, self.unlock ready.unlocks)

def next (self : BestIterator H T) : Option (TrustedOperation H T × BestIterator H T) :=
  nextLoop (self.best.length + 1) self

-- `iter.take(n).collect()`
def take : Nat → BestIterator H T → List (TrustedOperation H T)
  | 0, _ => []
  | n + 1, self =>
    match self.next with
    | some (tx, self) => tx :: take n self
    | none => []

end BestIterator

-- `get(shard)`: an iterator over the ready operations of the shard.
def ReadyOperations.get (self : ReadyOperations H T) : Except Error (BestIterator H T) :=
  match self.ready with
  | some readyMap =>
    match self.best with
    | some best => .ok ⟨readyMap, ∅, best⟩
    | none => .error (.panic unwrapNone)
  | none => .ok ⟨∅, ∅, []⟩

end Pool
