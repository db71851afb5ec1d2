import PolkadexTee.Pool.Objects

/-! `FutureTrustedOperations` (`future.rs`): the operations that still miss some of the tags they
require, and for each missing tag the operations waiting for it. -/

namespace Pool

variable {H T : Type} [DecidableEq H] [DecidableEq T]

-- `WaitingTrustedOperations::new`: the missing tags are the required ones that no ready operation
-- provides and no recently pruned set holds, each kept once.
def WaitingTrustedOperations.new (operation : TrustedOperation H T)
    (provided : Option (AList fun _ : T => H)) (recentlyPruned : List (List T)) :
    WaitingTrustedOperations H T :=
  let isProvided (tag : T) : Bool :=
    recentlyPruned.any (fun pruned => pruned.contains tag) ||
      match provided with
      | some tags => (tags.lookup tag).isSome
      | none => false
  ⟨operation, (operation.requires.filter fun tag => !isProvided tag).eraseDups⟩

def WaitingTrustedOperations.satisfyTag (self : WaitingTrustedOperations H T) (tag : T) :
    WaitingTrustedOperations H T :=
  { self with missingTags := self.missingTags.erase tag }

-- `HashSet::insert`
def insertHash (hash : H) (hashes : List H) : List H :=
  if hashes.contains hash then hashes else hashes ++ [hash]

theorem mem_insertHash {hash hash' : H} {hashes : List H} :
    hash' ∈ insertHash hash hashes ↔ hash' = hash ∨ hash' ∈ hashes := by
  unfold insertHash
  split
  · next h =>
    have h : hash ∈ hashes := List.contains_iff_mem.mp h
    exact ⟨.inr, fun h' => h'.elim (· ▸ h) id⟩
  · simp [or_comm]

theorem nodup_insertHash {hash : H} {hashes : List H} (h : hashes.Nodup) :
    (insertHash hash hashes).Nodup := by
  unfold insertHash
  split
  · exact h
  · next hnot =>
    have hnot : hash ∉ hashes := fun hin => hnot (List.contains_iff_mem.mpr hin)
    exact List.nodup_append.mpr ⟨h, List.nodup_singleton hash, fun a ha b hb => by
      rw [List.mem_singleton.mp hb]
      rintro rfl
      exact hnot ha⟩

theorem insertHash_cons_of_ne {hash key : H} (hashes : List H) (hne : key ≠ hash) :
    insertHash hash (key :: hashes) = key :: insertHash hash hashes := by
  have hcons : (key :: hashes).contains hash = hashes.contains hash := by
    simp [Ne.symm hne]
  unfold insertHash
  rw [hcons]
  split <;> rfl

theorem insertHash_insertHash (hash : H) (hashes : List H) :
    insertHash hash (insertHash hash hashes) = insertHash hash hashes := by
  have hin : (insertHash hash hashes).contains hash = true :=
    List.contains_iff_mem.mpr (mem_insertHash.mpr (.inl rfl))
  rw [insertHash, if_pos hin]

namespace FutureTrustedOperations

def «import» (tx : WaitingTrustedOperations H T) : FutureM H T Unit := do
  if tx.isReady then throw (Error.panic "TrustedOperation is ready.")
  if let some waiting := (← get).waiting then
    if (waiting.lookup tx.operation.hash).isSome then
      throw (Error.panic "TrustedOperation is already imported.")
  let s ← get
  let wanted := tx.missingTags.foldl
    (fun wanted tag => wanted.insert tag (insertHash tx.operation.hash ((wanted.lookup tag).getD [])))
    (s.wantedTags.getD ∅)
  set { s with waiting := some ((s.waiting.getD ∅).insert tx.operation.hash tx),
               wantedTags := some wanted }

def contains (self : FutureTrustedOperations H T) (hash : H) : Bool :=
  match self.waiting with
  | some waiting => (waiting.lookup hash).isSome
  | none => false

-- `by_hashes`: no entry at all while the shard has no waiting map.
def byHashes (self : FutureTrustedOperations H T) (hashes : List H) :
    List (Option (TrustedOperation H T)) :=
  match self.waiting with
  | some waiting => hashes.map fun hash => (waiting.lookup hash).map fun tx => tx.operation
  | none => []

-- The operations waiting for `tag` have it satisfied; those left with no missing tag leave the
-- queue. Each must be waiting, by `WAITING_PROOF`.
def satisfyHashes (tag : T) :
    List H → AList (fun _ : H => WaitingTrustedOperations H T) → List (WaitingTrustedOperations H T) →
      FutureM H T (AList (fun _ : H => WaitingTrustedOperations H T) × List (WaitingTrustedOperations H T))
  | [], waiting, becameReady => pure (waiting, becameReady)
  | hash :: rest, waiting, becameReady =>
    match waiting.lookup hash with
    | none => throw (.panic waitingProof)
    | some tx =>
      let tx := tx.satisfyTag tag
      if tx.isReady then satisfyHashes tag rest (waiting.erase hash) (becameReady ++ [tx])
      else satisfyHashes tag rest (waiting.insert hash tx) becameReady

def satisfyTags : List T → List (WaitingTrustedOperations H T) →
    FutureM H T (List (WaitingTrustedOperations H T))
  | [], becameReady => pure becameReady
  | tag :: rest, becameReady => do
    let s ← get
    match s.wantedTags with
    | none => satisfyTags rest becameReady
    | some wanted =>
      match wanted.lookup tag with
      | none => satisfyTags rest becameReady
      | some hashes =>
        set { s with wantedTags := some (wanted.erase tag) }
        match s.waiting with
        | none => satisfyTags rest becameReady
        | some waiting =>
          let (waiting, becameReady) ← satisfyHashes tag (s.hashOrder.arrange hashes) waiting becameReady
          modify fun s => { s with waiting := some waiting }
          satisfyTags rest becameReady

-- The removed operation no longer waits for its missing tags; a tag nobody waits for is dropped.
def removeWanted (hash : H) :
    List T → AList (fun _ : T => List H) → AList (fun _ : T => List H)
  | [], wanted => wanted
  | tag :: rest, wanted =>
    let wanted :=
      match wanted.lookup tag with
      | some hashes =>
        let hashes := hashes.erase hash
        if hashes.isEmpty then wanted.erase tag else wanted.insert tag hashes
      | none => wanted
    removeWanted hash rest wanted

def remove (hashes : List H) : FutureM H T (List (TrustedOperation H T)) := do
  let s ← get
  match s.waiting, s.wantedTags with
  | some waiting, some wanted =>
    let (waiting, wanted, removed) := hashes.foldl
      (fun (acc : AList (fun _ : H => WaitingTrustedOperations H T) × AList (fun _ : T => List H) ×
          List (TrustedOperation H T)) hash =>
        let (waiting, wanted, removed) := acc
        match waiting.lookup hash with
        | some waitingTx =>
          (waiting.erase hash, removeWanted hash waitingTx.missingTags wanted,
            removed ++ [waitingTx.operation])
        | none => acc)
      (waiting, wanted, [])
    set { s with waiting := some waiting, wantedTags := some wanted }
    pure removed
  | _, _ => pure []

-- `clear`: the waiting map is unwrapped once the wanted tags are there.
def clear : FutureM H T (List (TrustedOperation H T)) := do
  let s ← get
  match s.wantedTags with
  | none => pure []
  | some _ =>
    match s.waiting with
    | none => throw (.panic unwrapNone)
    | some waiting =>
      set ({ s with wantedTags := some ∅, waiting := some ∅ } : FutureTrustedOperations H T)
      pure (waiting.entries.map fun e => e.2.operation)

def len (self : FutureTrustedOperations H T) : Nat :=
  match self.waiting with
  | some waiting => waiting.entries.length
  | none => 0

def bytes (self : FutureTrustedOperations H T) : Nat :=
  match self.waiting with
  | some waiting => (waiting.entries.map fun e => e.2.operation.bytes).sum
  | none => 0

end FutureTrustedOperations

end Pool
