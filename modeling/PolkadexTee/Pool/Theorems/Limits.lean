import Mathlib.Data.List.MinMax
import PolkadexTee.Pool.Theorems.Reachable

/-! `enforce_limits`. While the ready queue is over its limit, the operation inserted first is
removed with the subtree of operations that depend on it; then, while the future queue is over
its limit, a waiting operation is removed. -/

namespace Pool

open EStateM

variable {S H T : Type} [DecidableEq S] [DecidableEq H] [DecidableEq T]

namespace ReadyOperations

-- An operation of `ready`, under a hash that `ready'` no longer has.
def Left (ready ready' : AList fun _ : H => ReadyTx H T) (op : TrustedOperation H T) : Prop :=
  ∃ hash tx, ready.lookup hash = some tx ∧ ready'.lookup hash = none ∧ tx.operation.operation = op

section Left

variable {ready ready₂ ready' : AList fun _ : H => ReadyTx H T} {hash : H} {tx : ReadyTx H T}

omit [DecidableEq T] in
theorem not_left_self (op : TrustedOperation H T) : ¬ Left ready ready op := by
  rintro ⟨hash, tx, hl, hl', -⟩
  rw [hl] at hl'
  cases hl'

omit [DecidableEq T] in
-- What leaves over a pop of the removal loop: the popped operation, or what leaves after.
theorem left_pop (hl : ready.lookup hash = some tx) (hsh : ShedsAll (ready.erase hash) ready₂)
    (hret : Retains ready₂ ready') (op : TrustedOperation H T) :
    Left ready ready' op ↔ op = tx.operation.operation ∨ Left ready₂ ready' op := by
  constructor
  · rintro ⟨h, t, hlt, hl', rfl⟩
    by_cases heq : h = hash
    · subst heq
      rw [hl] at hlt
      cases hlt
      exact .inl rfl
    · obtain ⟨t₂, hl₂, hs⟩ := hsh.keeps h t (by rwa [AList.lookup_erase_ne heq])
      exact .inr ⟨h, t₂, hl₂, hl', by rw [hs.operation]⟩
  · rintro (rfl | ⟨h, t₂, hl₂, hl', rfl⟩)
    · have hgone : ready₂.lookup hash = none :=
        hsh.retains.lookup_eq_none (AList.lookup_erase hash ready)
      exact ⟨hash, tx, hl, hret.lookup_eq_none hgone, rfl⟩
    · obtain ⟨t, hlt, hs⟩ := hsh.retains h t₂ hl₂
      have hne : h ≠ hash := fun heq => by
        subst heq
        simp at hlt
      rw [AList.lookup_erase_ne hne] at hlt
      exact ⟨h, t, hlt, hl', by rw [hs.operation]⟩

end Left

-- What a run of the removal loop returns: the operations it was handed, and the operations of its
-- map that the map it returns lacks, each of which it popped.
theorem removeSubtreeLoop_removed (filter : Option (List T)) :
    ∀ (fuel : Nat) (ready : AList fun _ : H => ReadyTx H T) (toRemove : List H)
      (removed : List (TrustedOperation H T)) (s : ReadyOperations H T)
      (tags : AList fun _ : T => H) (best : List (OperationRef H T)),
      s.providedTags = some tags → s.best = some best →
      ∀ {ready' : AList fun _ : H => ReadyTx H T} {removed' : List (TrustedOperation H T)}
        {s' : ReadyOperations H T},
        (removeSubtreeLoop filter fuel ready toRemove removed).run s = .ok (ready', removed') s' →
        Retains ready ready' ∧ ∀ op, op ∈ removed' ↔ op ∈ removed ∨ Left ready ready' op := by
  -- a loop that stops hands back its map and its list
  have hstop : ∀ (ready : AList fun _ : H => ReadyTx H T) (removed : List (TrustedOperation H T)),
      Retains ready ready ∧ ∀ op, op ∈ removed ↔ op ∈ removed ∨ Left ready ready op :=
    fun ready removed => ⟨Retains.refl ready, fun op => (or_iff_left (not_left_self op)).symm⟩
  intro fuel
  induction fuel with
  | zero =>
    intro ready toRemove removed s tags best _ _ ready' removed' s' h
    cases h
    exact hstop ready removed
  | succ fuel ih =>
    intro ready toRemove removed s tags best hs hb ready' removed' s' h
    cases hlast : toRemove.getLast? with
    | none =>
      simp only [removeSubtreeLoop, hlast, EStateM.run_pure] at h
      cases h
      exact hstop ready removed
    | some hash =>
      obtain ⟨init, rfl⟩ := List.getLast?_eq_some_iff.mp hlast
      cases hl : ready.lookup hash with
      | none =>
        simp only [removeSubtreeLoop, hlast, hl, List.dropLast_concat] at h
        exact ih ready init removed s tags best hs hb h
      | some tx =>
        -- the pop: the cleanup of the unlocks, then the rest of the loop
        obtain ⟨ready₂, hrun₂, hsh, -⟩ := removeFromUnlocks_run
          (show ({ s.countOut tx with providedTags := some ((invalidated filter tx.operation.operation.provides).foldl
              (fun tags tag => tags.erase tag) tags) } : ReadyOperations H T).providedTags =
            some ((invalidated filter tx.operation.operation.provides).foldl
              (fun tags tag => tags.erase tag) tags) from rfl)
          (ready.erase hash) tx.operation.operation.requires
        simp only [removeSubtreeLoop, hlast, hl, EStateM.run_bind, EStateM.run_modify,
          removeProvided_run (show (s.countOut tx).providedTags = some tags from hs)] at h
        rw [hrun₂] at h
        simp only [unwrapBest, EStateM.run_bind, EStateM.run_get, countOut_best, hb, EStateM.run_pure,
          setBest_run, List.dropLast_concat] at h
        obtain ⟨hret, hmem⟩ := ih ready₂ _ _ _ _ _ rfl rfl h
        refine ⟨((retains_erase ready hash).trans hsh.retains).trans hret, fun op => ?_⟩
        rw [hmem, List.mem_append, List.mem_singleton, left_pop hl hsh hret]
        exact or_assoc

-- `remove_subtree_with_tag_filter` on a ready queue of its shape: it returns the operations of the
-- ready map that the map it leaves lacks, and the map keeps none of the hashes it was given.
theorem removeSubtreeWithTagFilter_removed {s : ReadyOperations H T} (hs : s.Shaped) (hashes : List H)
    (filter : Option (List T)) :
    ∃ removed s', (removeSubtreeWithTagFilter hashes filter).run s = .ok removed s' ∧
      Retains (s.ready.getD ∅) (s'.ready.getD ∅) ∧
      (∀ op, op ∈ removed ↔ Left (s.ready.getD ∅) (s'.ready.getD ∅) op) ∧
      ∀ hash ∈ hashes, (s'.ready.getD ∅).lookup hash = none := by
  cases hr : s.ready with
  | none =>
    refine ⟨[], s, removeSubtreeWithTagFilter_of_none hr hashes filter, ?_⟩
    simp only [hr, Option.getD_none]
    exact ⟨Retains.refl _, fun op => iff_of_false (List.not_mem_nil) (not_left_self op),
      fun _ _ => AList.lookup_empty _⟩
  | some ready =>
    obtain ⟨htags, hbest⟩ := hs.present (by simp [hr])
    obtain ⟨tags, htags⟩ := Option.isSome_iff_exists.mp htags
    obtain ⟨best, hbest⟩ := Option.isSome_iff_exists.mp hbest
    obtain ⟨ready', removed, tags', best', hrun, hrem⟩ := removeSubtreeLoop_run filter
      (hashes.length + unlocksTotal ready + 1) ready hashes [] s tags best htags hbest
    obtain ⟨hret, hmem⟩ := removeSubtreeLoop_removed filter _ ready hashes [] s tags best htags hbest hrun
    refine ⟨removed, { s with
        providedTags := some tags'
        ready        := some ready'
        best         := some best'
        readyBytes   := s.readyBytes + totalSize ready' - totalSize ready
        readyLength  := s.readyLength + ready'.entries.length - ready.entries.length },
      ?_, hret, fun op => by simpa using hmem op, hrem.removes_all⟩
    simp only [removeSubtreeWithTagFilter, EStateM.run_bind, EStateM.run_get, hr]
    rw [hrun]
    rfl

theorem removeSubtree_removed {s : ReadyOperations H T} (hs : s.Shaped) (hashes : List H) :
    ∃ removed s', (removeSubtree hashes).run s = .ok removed s' ∧
      Retains (s.ready.getD ∅) (s'.ready.getD ∅) ∧
      (∀ op, op ∈ removed ↔ Left (s.ready.getD ∅) (s'.ready.getD ∅) op) ∧
      ∀ hash ∈ hashes, (s'.ready.getD ∅).lookup hash = none :=
  removeSubtreeWithTagFilter_removed hs hashes none

-- The ready queue's counters, and the operation `enforce_limits` picks from it.

-- The references of the ready operations, in the order of the map.
def refs (s : ReadyOperations H T) : List (OperationRef H T) :=
  (s.ready.getD ∅).entries.map fun e => e.2.operation

section Counters

variable {s : ReadyOperations H T}

omit [DecidableEq H] [DecidableEq T] in
theorem len_eq (h : s.Counted) : s.len = (s.ready.getD ∅).entries.length :=
  (len_bytes_of_counted h).1

omit [DecidableEq H] [DecidableEq T] in
theorem bytes_eq (h : s.Counted) :
    s.bytes = ((s.ready.getD ∅).entries.map fun e => e.2.operation.operation.bytes).sum :=
  (len_bytes_of_counted h).2

variable (s)

omit [DecidableEq T] in
theorem contains_iff {hash : H} :
    s.contains hash = true ↔ ∃ tx, (s.ready.getD ∅).lookup hash = some tx := by
  cases hr : s.ready <;> simp [contains, hr, Option.isSome_iff_exists]

omit [DecidableEq T] in
theorem mem_refs {r : OperationRef H T} :
    r ∈ s.refs ↔ ∃ hash tx, (s.ready.getD ∅).lookup hash = some tx ∧ tx.operation = r := by
  simp only [refs, List.mem_map]
  constructor
  · rintro ⟨⟨hash, tx⟩, he, rfl⟩
    exact ⟨hash, tx, AList.mem_lookup_iff.mpr he, rfl⟩
  · rintro ⟨hash, tx, hl, rfl⟩
    exact ⟨⟨hash, tx⟩, AList.mem_lookup_iff.mp hl, rfl⟩

omit [DecidableEq H] [DecidableEq T] in
-- A queue with no ready operation counts none and no bytes.
theorem len_bytes_of_refs_nil {s : ReadyOperations H T} (hc : s.Counted) (h : s.refs = []) :
    s.len = 0 ∧ s.bytes = 0 := by
  have hnil : (s.ready.getD ∅).entries = [] := List.map_eq_nil_iff.mp h
  simp [len_eq hc, bytes_eq hc, hnil]

omit [DecidableEq H] [DecidableEq T] in
-- The fold of `enforce_limits` over the ready map keeps the first operation of least insertion id:
-- `List.argmin`.
theorem minimalReady_eq_argmin : BasePool.minimalReady s = s.refs.argmin (·.insertionId.toNat) := by
  cases hr : s.ready with
  | none => simp [BasePool.minimalReady, refs, hr, List.argmin]
  | some ready =>
    simp only [BasePool.minimalReady, refs, hr, Option.getD_some, List.argmin, List.foldl_map]
    congr 1
    funext minimal current
    cases minimal <;> rfl

end Counters

end ReadyOperations

namespace FutureTrustedOperations

-- An operation of `waiting`, under a hash that `waiting'` no longer has.
def Left (waiting waiting' : AList fun _ : H => WaitingTrustedOperations H T)
    (op : TrustedOperation H T) : Prop :=
  ∃ hash tx, waiting.lookup hash = some tx ∧ waiting'.lookup hash = none ∧ tx.operation = op

-- `remove` on a future queue of its shape: it returns the operations of the waiting map that the
-- map it leaves lacks, which keeps its other entries and none of the hashes it was given.
theorem remove_removed {s : FutureTrustedOperations H T} (hs : s.Shaped) (hashes : List H) :
    ∃ removed s', (remove hashes).run s = .ok removed s' ∧
      (∀ hash tx, (s'.waiting.getD ∅).lookup hash = some tx → (s.waiting.getD ∅).lookup hash = some tx) ∧
      (∀ op, op ∈ removed ↔ Left (s.waiting.getD ∅) (s'.waiting.getD ∅) op) ∧
      ∀ hash ∈ hashes, (s'.waiting.getD ∅).lookup hash = none := by
  cases hw : s.waiting with
  | none =>
    refine ⟨[], s, remove_of_none (.inl hw) hashes, ?_⟩
    simp only [hw, Option.getD_none, AList.lookup_empty]
    refine ⟨fun _ _ h => h, fun op => iff_of_false List.not_mem_nil ?_, fun _ _ => trivial⟩
    rintro ⟨hash, tx, hl, -⟩
    cases hl
  | some waiting =>
    obtain ⟨wanted, ht⟩ := Option.isSome_iff_exists.mp (hs.present (by simp [hw]))
    obtain ⟨waiting', wanted', removed, hrun, hlook, hmem⟩ := remove_run hw ht hashes
    refine ⟨removed, _, hrun, fun hash tx hl => ?_, fun op => ?_, fun hash hh => ?_⟩
    · -- the entries left are entries of the old map
      simp only [Option.getD_some, hlook] at hl ⊢
      split at hl
      · cases hl
      · exact hl
    · simp only [Option.getD_some, hmem, Left, hlook]
      constructor
      · rintro ⟨hash, hh, tx, hl, rfl⟩
        exact ⟨hash, tx, hl, by simp [hh], rfl⟩
      · rintro ⟨hash, tx, hl, hgone, rfl⟩
        by_cases hh : hash ∈ hashes
        · exact ⟨hash, hh, tx, hl, rfl⟩
        · simp [hh, hl] at hgone
    · simp [hlook, hh]

section Counters

variable (s : FutureTrustedOperations H T)

omit [DecidableEq H] [DecidableEq T] in
theorem len_eq : s.len = (s.waiting.getD ∅).entries.length := by
  cases hw : s.waiting <;> simp [len, hw]

omit [DecidableEq H] [DecidableEq T] in
theorem bytes_eq : s.bytes = ((s.waiting.getD ∅).entries.map fun e => e.2.operation.bytes).sum := by
  cases hw : s.waiting <;> simp [bytes, hw]

omit [DecidableEq T] in
-- The fold of `enforce_limits` over the waiting map stops at its first operation.
theorem firstFuture_lookup {s : FutureTrustedOperations H T} (hs : s.Shaped)
    {tx : WaitingTrustedOperations H T} (h : BasePool.firstFuture s = some tx) :
    (s.waiting.getD ∅).lookup tx.operation.hash = some tx := by
  have hmem : tx ∈ (s.waiting.getD ∅).entries.map fun e => e.2 := by
    cases hw : s.waiting with
    | none => simp [BasePool.firstFuture, hw] at h
    | some waiting =>
      rw [BasePool.firstFuture, hw] at h
      exact List.mem_of_mem_head? h
  obtain ⟨⟨hash, tx'⟩, he, rfl⟩ := List.mem_map.mp hmem
  have hl := AList.mem_lookup_iff.mpr he
  rw [hs.keyed hash tx' hl]
  exact hl

omit [DecidableEq H] [DecidableEq T] in
theorem len_bytes_of_firstFuture_none (h : BasePool.firstFuture s = none) : s.len = 0 ∧ s.bytes = 0 := by
  have hnil : (s.waiting.getD ∅).entries = [] := by
    cases hw : s.waiting <;> simp_all [BasePool.firstFuture]
  simp [len_eq, bytes_eq, hnil]

end Counters

end FutureTrustedOperations


namespace Limit

@[simp]
theorem isExceeded_zero (limit : Limit) : limit.isExceeded 0 0 = false := by
  simp [isExceeded]

-- Fewer operations and bytes stay within a limit.
theorem isExceeded_eq_false_of_le (limit : Limit) {count count' bytes bytes' : Nat}
    (h : limit.isExceeded count bytes = false) (hc : count' ≤ count) (hb : bytes' ≤ bytes) :
    limit.isExceeded count' bytes' = false := by
  simp only [isExceeded, Bool.or_eq_false_iff, decide_eq_false_iff_not, Nat.not_lt] at h ⊢
  omega

end Limit

namespace BasePool

-- The operations of the shard, ready and waiting: what `ready` and `futures` iterate over.
def operations (s : BasePool H T) : List (TrustedOperation H T) :=
  s.ready.refs.map (·.operation) ++ (s.future.waiting.getD ∅).entries.map fun e => e.2.operation

section Operations

variable {s s₁ s' : BasePool H T} {op : TrustedOperation H T}

omit [DecidableEq T] in
theorem mem_operations :
    op ∈ s.operations ↔
      (∃ hash tx, (s.ready.ready.getD ∅).lookup hash = some tx ∧ tx.operation.operation = op) ∨
        ∃ hash tx, (s.future.waiting.getD ∅).lookup hash = some tx ∧ tx.operation = op := by
  simp only [operations, List.mem_append, List.mem_map, ReadyOperations.mem_refs]
  refine or_congr ⟨?_, ?_⟩ ⟨?_, ?_⟩
  · rintro ⟨r, ⟨hash, tx, hl, rfl⟩, rfl⟩
    exact ⟨hash, tx, hl, rfl⟩
  · rintro ⟨hash, tx, hl, rfl⟩
    exact ⟨_, ⟨hash, tx, hl, rfl⟩, rfl⟩
  · rintro ⟨⟨hash, tx⟩, he, rfl⟩
    exact ⟨hash, tx, AList.mem_lookup_iff.mpr he, rfl⟩
  · rintro ⟨hash, tx, hl, rfl⟩
    exact ⟨⟨hash, tx⟩, AList.mem_lookup_iff.mp hl, rfl⟩

omit [DecidableEq T] in
-- No hash of a shard of its shape is in both queues.
theorem Shaped.future_lookup_eq_none (hs : s.Shaped) {hash : H} {tx : ReadyTx H T}
    (hr : (s.ready.ready.getD ∅).lookup hash = some tx) : (s.future.waiting.getD ∅).lookup hash = none := by
  have hin : s.ready.contains hash = true := (ReadyOperations.contains_iff _).mpr ⟨tx, hr⟩
  exact FutureTrustedOperations.contains_eq_false_iff.mp (hs.disjoint hash hin)

omit [DecidableEq T] in
-- In a shard of its shape, an operation sits under its own hash.
theorem Shaped.mem_operations_iff (hs : s.Shaped) :
    op ∈ s.operations ↔
      (∃ tx, (s.ready.ready.getD ∅).lookup op.hash = some tx ∧ tx.operation.operation = op) ∨
        ∃ tx, (s.future.waiting.getD ∅).lookup op.hash = some tx ∧ tx.operation = op := by
  rw [mem_operations]
  refine or_congr ⟨?_, fun ⟨tx, hl, heq⟩ => ⟨op.hash, tx, hl, heq⟩⟩
    ⟨?_, fun ⟨tx, hl, heq⟩ => ⟨op.hash, tx, hl, heq⟩⟩
  · rintro ⟨hash, tx, hl, rfl⟩
    rw [hs.ready.keyed hash tx hl]
    exact ⟨tx, hl, rfl⟩
  · rintro ⟨hash, tx, hl, rfl⟩
    rw [hs.future.keyed hash tx hl]
    exact ⟨tx, hl, rfl⟩

end Operations

-- `s'` holds a part of the queues of `s`: its ready entries are ready entries of `s` that shed at
-- most their own hash, and its waiting entries are waiting entries of `s`.
structure Shrinks (s s' : BasePool H T) : Prop where
  ready  : ReadyOperations.Retains (s.ready.ready.getD ∅) (s'.ready.ready.getD ∅)
  future : ∀ hash tx, (s'.future.waiting.getD ∅).lookup hash = some tx →
    (s.future.waiting.getD ∅).lookup hash = some tx

namespace Shrinks

variable {s s₁ s' : BasePool H T}

omit [DecidableEq T] in
theorem refl (s : BasePool H T) : Shrinks s s :=
  ⟨ReadyOperations.Retains.refl _, fun _ _ h => h⟩

omit [DecidableEq T] in
theorem trans (h₁ : Shrinks s s₁) (h₂ : Shrinks s₁ s') : Shrinks s s' :=
  ⟨h₁.ready.trans h₂.ready, fun hash tx h => h₁.future hash tx (h₂.future hash tx h)⟩

omit [DecidableEq T] in
theorem mem_operations (h : Shrinks s s') {op : TrustedOperation H T} (hop : op ∈ s'.operations) :
    op ∈ s.operations := by
  rw [BasePool.mem_operations] at hop ⊢
  rcases hop with ⟨hash, tx', hl, rfl⟩ | ⟨hash, tx, hl, rfl⟩
  · obtain ⟨tx, hl', hsh⟩ := h.ready hash tx' hl
    exact .inl ⟨hash, tx, hl', by rw [hsh.operation]⟩
  · exact .inr ⟨hash, tx, h.future hash tx hl, rfl⟩

omit [DecidableEq T] in
theorem ready_mem (h : Shrinks s s') {hash : H} (hin : hash ∈ s'.ready.ready.getD ∅) :
    hash ∈ s.ready.ready.getD ∅ := by
  obtain ⟨tx', hl⟩ := Option.isSome_iff_exists.mp (AList.lookup_isSome.mpr hin)
  obtain ⟨tx, hl', -⟩ := h.ready hash tx' hl
  exact AList.lookup_isSome.mp (by simp [hl'])

omit [DecidableEq T] in
theorem future_mem (h : Shrinks s s') {hash : H} (hin : hash ∈ s'.future.waiting.getD ∅) :
    hash ∈ s.future.waiting.getD ∅ := by
  obtain ⟨tx, hl⟩ := Option.isSome_iff_exists.mp (AList.lookup_isSome.mpr hin)
  exact AList.lookup_isSome.mp (by simp [h.future hash tx hl])

omit [DecidableEq T] in
theorem ready_len_le (h : Shrinks s s') (hs : s.Shaped) (hs' : s'.Shaped) :
    s'.ready.len ≤ s.ready.len := by
  rw [ReadyOperations.len_eq hs'.ready.counted, ReadyOperations.len_eq hs.ready.counted]
  exact AList.length_entries_le fun _ => h.ready_mem

omit [DecidableEq T] in
theorem ready_bytes_le (h : Shrinks s s') (hs : s.Shaped) (hs' : s'.Shaped) :
    s'.ready.bytes ≤ s.ready.bytes := by
  rw [ReadyOperations.bytes_eq hs'.ready.counted, ReadyOperations.bytes_eq hs.ready.counted]
  refine AList.sum_map_le_of_entries fun ⟨hash, tx'⟩ he => ?_
  obtain ⟨tx, hl, hsh⟩ := h.ready hash tx' (AList.mem_lookup_iff.mpr he)
  exact ⟨⟨hash, tx⟩, AList.mem_lookup_iff.mp hl, rfl, by simp [hsh.operation]⟩

omit [DecidableEq T] in
-- A shrinking that drops a ready hash shortens the ready queue.
theorem ready_len_lt (h : Shrinks s s') (hs : s.Shaped) (hs' : s'.Shaped) {hash : H}
    (hin : hash ∈ s.ready.ready.getD ∅) (hout : hash ∉ s'.ready.ready.getD ∅) :
    s'.ready.len < s.ready.len := by
  rw [ReadyOperations.len_eq hs'.ready.counted, ReadyOperations.len_eq hs.ready.counted]
  exact AList.length_entries_lt (fun _ => h.ready_mem) hin hout

omit [DecidableEq T] in
theorem future_len_lt (h : Shrinks s s') {hash : H} (hin : hash ∈ s.future.waiting.getD ∅)
    (hout : hash ∉ s'.future.waiting.getD ∅) : s'.future.len < s.future.len := by
  rw [FutureTrustedOperations.len_eq, FutureTrustedOperations.len_eq]
  exact AList.length_entries_lt (fun _ => h.future_mem) hin hout

omit [DecidableEq T] in
-- Over a shrinking of a shard of its shape, the operations that leave it are the operations whose
-- hash leaves the queue they are in: each sits under its own hash, and no hash is in both queues.
theorem left_iff (hs : s.Shaped) (hs' : s'.Shaped) (h : Shrinks s s') (op : TrustedOperation H T) :
    ReadyOperations.Left (s.ready.ready.getD ∅) (s'.ready.ready.getD ∅) op ∨
        FutureTrustedOperations.Left (s.future.waiting.getD ∅) (s'.future.waiting.getD ∅) op ↔
      op ∈ s.operations ∧ op ∉ s'.operations := by
  constructor
  · rintro (⟨hash, tx, hl, hl', rfl⟩ | ⟨hash, tx, hl, hl', rfl⟩)
    · have hh : tx.operation.operation.hash = hash := hs.ready.keyed hash tx hl
      subst hh
      refine ⟨BasePool.mem_operations.mpr (.inl ⟨_, tx, hl, rfl⟩), fun hin => ?_⟩
      rcases hs'.mem_operations_iff.mp hin with ⟨tx', hl₂, -⟩ | ⟨tx', hl₂, -⟩
      · rw [hl'] at hl₂
        cases hl₂
      · -- left waiting, the operation would have been waiting beside its ready entry
        have hwas := h.future _ tx' hl₂
        rw [hs.future_lookup_eq_none hl] at hwas
        cases hwas
    · have hh : tx.operation.hash = hash := hs.future.keyed hash tx hl
      subst hh
      refine ⟨BasePool.mem_operations.mpr (.inr ⟨_, tx, hl, rfl⟩), fun hin => ?_⟩
      rcases hs'.mem_operations_iff.mp hin with ⟨tx', hl₂, -⟩ | ⟨tx', hl₂, -⟩
      · obtain ⟨t, hlt, -⟩ := h.ready _ tx' hl₂
        rw [hs.future_lookup_eq_none hlt] at hl
        cases hl
      · rw [hl'] at hl₂
        cases hl₂
  · rintro ⟨hin, hout⟩
    -- an entry left under the hash would hold the same operation
    rcases BasePool.mem_operations.mp hin with ⟨hash, tx, hl, rfl⟩ | ⟨hash, tx, hl, rfl⟩
    · refine .inl ⟨hash, tx, hl, ?_, rfl⟩
      cases hl' : (s'.ready.ready.getD ∅).lookup hash with
      | none => rfl
      | some tx' =>
        obtain ⟨t, hlt, hsh⟩ := h.ready hash tx' hl'
        rw [hl] at hlt
        cases hlt
        exact absurd (BasePool.mem_operations.mpr (.inl ⟨hash, tx', hl', by rw [hsh.operation]⟩)) hout
    · refine .inr ⟨hash, tx, hl, ?_, rfl⟩
      cases hl' : (s'.future.waiting.getD ∅).lookup hash with
      | none => rfl
      | some tx' =>
        have hwas := h.future hash tx' hl'
        rw [hl] at hwas
        cases hwas
        exact absurd (BasePool.mem_operations.mpr (.inr ⟨hash, _, hl', rfl⟩)) hout

-- Two shrinkings in a row, each returning the operations that left, return together the operations
-- that left over both.
theorem mem_append_iff (h₁ : Shrinks s s₁) (h₂ : Shrinks s₁ s') {r₁ r₂ : List (TrustedOperation H T)}
    (hr₁ : ∀ op, op ∈ r₁ ↔ op ∈ s.operations ∧ op ∉ s₁.operations)
    (hr₂ : ∀ op, op ∈ r₂ ↔ op ∈ s₁.operations ∧ op ∉ s'.operations) (op : TrustedOperation H T) :
    op ∈ r₁ ++ r₂ ↔ op ∈ s.operations ∧ op ∉ s'.operations := by
  -- the operations of `s'` are operations of `s₁`, which are operations of `s`
  have hsub₁ : op ∈ s₁.operations → op ∈ s.operations := h₁.mem_operations
  have hsub₂ : op ∈ s'.operations → op ∈ s₁.operations := h₂.mem_operations
  rw [List.mem_append, hr₁, hr₂]
  tauto

end Shrinks

-- One `remove_subtree` on a shard of its shape returns, and leaves a shard of its shape that holds
-- part of the queues and none of the hashes it was given; it returns the operations that left.
theorem removeSubtree_round {s : BasePool H T} (hs : s.Shaped) (hashes : List H) :
    ∃ removed s', (removeSubtree hashes).run s = .ok removed s' ∧ s'.Shaped ∧ Shrinks s s' ∧
      (∀ op, op ∈ removed ↔ op ∈ s.operations ∧ op ∉ s'.operations) ∧
      ∀ hash ∈ hashes, (s'.ready.ready.getD ∅).lookup hash = none ∧
        (s'.future.waiting.getD ∅).lookup hash = none := by
  obtain ⟨removedReady, ready', hready, hret, hmemReady, hgoneReady⟩ :=
    ReadyOperations.removeSubtree_removed hs.ready hashes
  obtain ⟨removedFuture, future', hfuture, hsub, hmemFuture, hgoneFuture⟩ :=
    FutureTrustedOperations.remove_removed hs.future hashes
  have hrun : (removeSubtree hashes).run s =
      .ok (removedReady ++ removedFuture) { s with ready := ready', future := future' } := by
    simp only [removeSubtree, liftReady, liftFuture, EStateM.run_bind, EStateM.run_zoom, hready]
    rw [hfuture]
    rfl
  have hs' := ((removeSubtree_keeps_shaped hashes).ok hs hrun).1
  have hsh : Shrinks s { s with ready := ready', future := future' } := ⟨hret, hsub⟩
  refine ⟨_, _, hrun, hs', hsh, fun op => ?_, fun hash hh => ⟨hgoneReady hash hh, hgoneFuture hash hh⟩⟩
  rw [List.mem_append, hmemReady, hmemFuture]
  exact hsh.left_iff hs hs' op


-- The loops of `enforce_limits`, round by round.

-- The condition of the ready loop.
def readyExceeded (ready : Limit) (s : BasePool H T) : Bool :=
  ready.isExceeded s.ready.len s.ready.bytes

-- The condition of the future loop.
def futureExceeded (future : Limit) (s : BasePool H T) : Bool :=
  future.isExceeded s.future.len s.future.bytes

-- `hash` is the hash of a ready operation of least insertion id.
def FirstInserted (s : BasePool H T) (hash : H) : Prop :=
  ∃ r ∈ s.ready.refs, r.operation.hash = hash ∧
    ∀ r' ∈ s.ready.refs, r.insertionId.toNat ≤ r'.insertionId.toNat

-- `hash` is the hash of the waiting operation that the fold over the future queue meets first.
def FirstWaiting (s : BasePool H T) (hash : H) : Prop :=
  ∃ tx, firstFuture s.future = some tx ∧ tx.operation.hash = hash

-- The rounds of a loop of `enforce_limits` from `s` to `s'`: while the shard is `Over` a limit, the
-- removal of the subtree of a hash that the loop `Picks`, with what the removals return.
inductive Rounds (Over : BasePool H T → Bool) (Picks : BasePool H T → H → Prop) :
    BasePool H T → List (TrustedOperation H T) → BasePool H T → Prop
  | stop {s : BasePool H T} : Over s = false → Rounds Over Picks s [] s
  | round {s s₁ s' : BasePool H T} {hash : H} {removed rest : List (TrustedOperation H T)} :
      Over s = true → Picks s hash → (removeSubtree [hash]).run s = .ok removed s₁ →
      Rounds Over Picks s₁ rest s' → Rounds Over Picks s (removed ++ rest) s'

section Rounds

variable {Over : BasePool H T → Bool} {Picks : BasePool H T → H → Prop}
  {s s' : BasePool H T} {removed : List (TrustedOperation H T)}

-- The rounds end when the shard is no longer over the limit.
theorem Rounds.over_eq_false (h : Rounds Over Picks s removed s') : Over s' = false := by
  induction h with
  | stop hover => exact hover
  | round _ _ _ _ ih => exact ih

-- Rounds from a shard of its shape leave one that holds part of its queues, and return exactly the
-- operations that left.
theorem Rounds.removed_left (h : Rounds Over Picks s removed s') (hs : s.Shaped) :
    s'.Shaped ∧ Shrinks s s' ∧ ∀ op, op ∈ removed ↔ op ∈ s.operations ∧ op ∉ s'.operations := by
  induction h with
  | stop _ => exact ⟨hs, Shrinks.refl _, fun op => by simp⟩
  | @round s s₁ s' hash removed rest _ _ hrun _ ih =>
    obtain ⟨removed₀, s₀, hrun₀, hs₀, hsh₀, hmem₀, -⟩ := removeSubtree_round hs [hash]
    rw [hrun] at hrun₀
    cases hrun₀
    obtain ⟨hs', hsh', hmem'⟩ := ih hs₀
    exact ⟨hs', hsh₀.trans hsh', hsh₀.mem_append_iff hsh' hmem₀ hmem'⟩

end Rounds

section Loop

variable {α : Type} (Over : BasePool H T → Bool) (Picks : BasePool H T → H → Prop)
  (pick : BasePool H T → Option α) (hashOf : α → H) (measure : BasePool H T → Nat)
  (loop : Nat → List (TrustedOperation H T) → PoolM H T (List (TrustedOperation H T)))

-- A loop of `enforce_limits`, over its condition and its pick, as its two kinds of step: it stops
-- when the shard is within the limit, and otherwise removes the subtree of the hash it picks and
-- goes on.
theorem loop_rounds
    (hstop : ∀ fuel removed s, Over s = false → (loop (fuel + 1) removed).run s = .ok removed s)
    (hround : ∀ fuel removed s m, Over s = true → pick s = some m →
      (loop (fuel + 1) removed).run s =
        (removeSubtree [hashOf m] >>= fun r => loop fuel (removed ++ r)).run s)
    (hpick : ∀ s m, s.Shaped → Over s = true → pick s = some m → Picks s (hashOf m))
    (hnone : ∀ s, s.Shaped → pick s = none → Over s = false)
    (hlower : ∀ s m s₁, s.Shaped → s₁.Shaped → pick s = some m → Shrinks s s₁ →
      (s₁.ready.ready.getD ∅).lookup (hashOf m) = none →
      (s₁.future.waiting.getD ∅).lookup (hashOf m) = none → measure s₁ < measure s) :
    ∀ fuel removed s, s.Shaped → measure s < fuel →
      ∃ r s', (loop fuel removed).run s = .ok (removed ++ r) s' ∧ Rounds Over Picks s r s' := by
  intro fuel
  induction fuel with
  | zero => exact fun _ _ _ hlen => absurd hlen (Nat.not_lt_zero _)
  | succ fuel ih =>
    intro removed s hs hlen
    cases hover : Over s with
    | false => exact ⟨[], s, by rw [hstop fuel removed s hover, List.append_nil], .stop hover⟩
    | true =>
      cases hm : pick s with
      | none => cases (hnone s hs hm).symm.trans hover
      | some m =>
        -- the round removes the picked hash, so the measure drops below the fuel left
        obtain ⟨removed₁, s₁, hrun₁, hs₁, hsh₁, -, hgone⟩ := removeSubtree_round hs [hashOf m]
        obtain ⟨hready, hfuture⟩ := hgone (hashOf m) List.mem_cons_self
        have hlt := hlower s m s₁ hs hs₁ hm hsh₁ hready hfuture
        obtain ⟨r, s', hrun', hrounds⟩ := ih (removed ++ removed₁) s₁ hs₁ (by omega)
        refine ⟨removed₁ ++ r, s', ?_, .round hover (hpick s m hs hover hm) hrun₁ hrounds⟩
        rw [hround fuel removed s m hover hm, EStateM.run_bind, hrun₁]
        simp [hrun']

end Loop

section Picks

variable {s : BasePool H T}

omit [DecidableEq T] in
-- The ready operation the fold picks is one of least insertion id, under its own hash.
theorem firstInserted_of_minimalReady (hs : s.Shaped) {minimal : OperationRef H T}
    (h : minimalReady s.ready = some minimal) :
    FirstInserted s minimal.operation.hash ∧ minimal.operation.hash ∈ s.ready.ready.getD ∅ := by
  rw [ReadyOperations.minimalReady_eq_argmin] at h
  have hmem : minimal ∈ s.ready.refs := List.argmin_mem h
  have hle : ∀ r' ∈ s.ready.refs, minimal.insertionId.toNat ≤ r'.insertionId.toNat := by
    intro r' hr'
    have hmin := List.le_of_mem_argmin hr' h
    exact hmin
  refine ⟨⟨minimal, hmem, rfl, hle⟩, ?_⟩
  obtain ⟨hash, tx, hl, rfl⟩ := (ReadyOperations.mem_refs _).mp hmem
  rw [hs.ready.keyed hash tx hl]
  exact AList.lookup_isSome.mp (by simp [hl])

omit [DecidableEq T] in
theorem readyExceeded_of_minimalReady_none (ready : Limit) (hs : s.Shaped)
    (h : minimalReady s.ready = none) : readyExceeded ready s = false := by
  rw [ReadyOperations.minimalReady_eq_argmin, List.argmin_eq_none] at h
  obtain ⟨hlen, hbytes⟩ := ReadyOperations.len_bytes_of_refs_nil hs.ready.counted h
  simp [readyExceeded, hlen, hbytes]

omit [DecidableEq T] in
theorem mem_of_firstFuture (hs : s.Shaped) {tx : WaitingTrustedOperations H T}
    (h : firstFuture s.future = some tx) : tx.operation.hash ∈ s.future.waiting.getD ∅ :=
  AList.lookup_isSome.mp (by simp [FutureTrustedOperations.firstFuture_lookup hs.future h])

omit [DecidableEq H] [DecidableEq T] in
theorem futureExceeded_of_firstFuture_none (future : Limit) (h : firstFuture s.future = none) :
    futureExceeded future s = false := by
  obtain ⟨hlen, hbytes⟩ := FutureTrustedOperations.len_bytes_of_firstFuture_none _ h
  simp [futureExceeded, hlen, hbytes]

end Picks

-- The ready loop, with more fuel than ready operations, removes the subtree of the ready operation
-- inserted first until the ready queue is within its limit.
theorem enforceReadyLoop_rounds (ready : Limit) :
    ∀ (fuel : Nat) (removed : List (TrustedOperation H T)) (s : BasePool H T), s.Shaped →
      s.ready.len < fuel →
      ∃ r s', (enforceReadyLoop ready fuel removed).run s = .ok (removed ++ r) s' ∧
        Rounds (readyExceeded ready) FirstInserted s r s' :=
  loop_rounds (readyExceeded ready) FirstInserted (fun s => minimalReady s.ready) (·.operation.hash)
    (·.ready.len) (enforceReadyLoop ready)
    (fun _ _ _ hover => by simp_all [enforceReadyLoop, readyExceeded])
    (fun _ _ _ _ hover hm => by simp_all [enforceReadyLoop, readyExceeded])
    (fun _ _ hs _ hm => (firstInserted_of_minimalReady hs hm).1)
    (fun _ hs hm => readyExceeded_of_minimalReady_none ready hs hm)
    (fun _ _ _ hs hs₁ hm hsh hgone _ =>
      hsh.ready_len_lt hs hs₁ (firstInserted_of_minimalReady hs hm).2 (AList.lookup_eq_none.mp hgone))

-- The future loop, with more fuel than waiting operations, removes the subtree of the first waiting
-- operation until the future queue is within its limit.
theorem enforceFutureLoop_rounds (future : Limit) :
    ∀ (fuel : Nat) (removed : List (TrustedOperation H T)) (s : BasePool H T), s.Shaped →
      s.future.len < fuel →
      ∃ r s', (enforceFutureLoop future fuel removed).run s = .ok (removed ++ r) s' ∧
        Rounds (futureExceeded future) FirstWaiting s r s' :=
  loop_rounds (futureExceeded future) FirstWaiting (fun s => firstFuture s.future) (·.operation.hash)
    (·.future.len) (enforceFutureLoop future)
    (fun _ _ _ hover => by simp_all [enforceFutureLoop, futureExceeded])
    (fun _ _ _ _ hover hm => by simp_all [enforceFutureLoop, futureExceeded])
    (fun _ _ _ _ hm => ⟨_, hm, rfl⟩)
    (fun _ _ hm => futureExceeded_of_firstFuture_none future hm)
    (fun _ _ _ hs _ hm hsh _ hgone =>
      hsh.future_len_lt (mem_of_firstFuture hs hm) (AList.lookup_eq_none.mp hgone))

-- `enforce_limits` on a shard of its shape returns after the rounds of the ready loop and then
-- those of the future loop.
theorem enforceLimits_rounds {s : BasePool H T} (hs : s.Shaped) (ready future : Limit) :
    ∃ r₁ s₁ r₂ s', (enforceLimits ready future).run s = .ok (r₁ ++ r₂) s' ∧
      Rounds (readyExceeded ready) FirstInserted s r₁ s₁ ∧
      Rounds (futureExceeded future) FirstWaiting s₁ r₂ s' := by
  obtain ⟨r₁, s₁, hrun₁, hrounds₁⟩ := enforceReadyLoop_rounds ready _ [] s hs (Nat.lt_succ_self _)
  have hs₁ := (hrounds₁.removed_left hs).1
  obtain ⟨r₂, s', hrun₂, hrounds₂⟩ :=
    enforceFutureLoop_rounds future _ r₁ s₁ hs₁ (Nat.lt_succ_self _)
  refine ⟨r₁, s₁, r₂, s', ?_, hrounds₁, hrounds₂⟩
  simp only [enforceLimits, EStateM.run_bind, EStateM.run_get, hrun₁, List.nil_append, hrun₂]

end BasePool

namespace ShardedPool

-- `enforce_limits` on a shard of a reachable pool returns and leaves the shard within both limits.
theorem enforceLimits_within_limits {p : ShardedPool S H T} (hp : p.Reachable) (shard : S)
    (ready future : Limit) :
    ∃ removed p', (onShard shard (BasePool.enforceLimits ready future)).run p = .ok removed p' ∧
      ready.isExceeded (p'.status shard).ready (p'.status shard).readyBytes = false ∧
      future.isExceeded (p'.status shard).future (p'.status shard).futureBytes = false ∧
      (∀ op, op ∈ removed ↔ op ∈ (p.view shard).operations ∧ op ∉ (p'.view shard).operations) ∧
      ∃ r₁ mid r₂, removed = r₁ ++ r₂ ∧
        BasePool.Rounds (BasePool.readyExceeded ready) BasePool.FirstInserted (p.view shard) r₁ mid ∧
        BasePool.Rounds (BasePool.futureExceeded future) BasePool.FirstWaiting mid r₂
          (p'.view shard) := by
  have hs := hp.shaped shard
  obtain ⟨r₁, s₁, r₂, s', hrun, hrounds₁, hrounds₂⟩ := BasePool.enforceLimits_rounds hs ready future
  obtain ⟨hs₁, hsh₁, hmem₁⟩ := hrounds₁.removed_left hs
  obtain ⟨hs', hsh₂, hmem₂⟩ := hrounds₂.removed_left hs₁
  refine ⟨r₁ ++ r₂, p.update shard s', by rw [onShard, EStateM.run_zoom, hrun], ?_, ?_, fun op => ?_,
    r₁, s₁, r₂, rfl, hrounds₁, by rwa [view_update_self]⟩
  · -- the future loop only shrinks the ready queue, which the ready loop left within its limit
    have hready : BasePool.readyExceeded ready s₁ = false := hrounds₁.over_eq_false
    simp only [status, view_update_self, BasePool.status]
    exact ready.isExceeded_eq_false_of_le hready (hsh₂.ready_len_le hs₁ hs') (hsh₂.ready_bytes_le hs₁ hs')
  · simp only [status, view_update_self, BasePool.status]
    exact hrounds₂.over_eq_false
  · rw [view_update_self]
    exact hsh₁.mem_append_iff hsh₂ hmem₁ hmem₂ op

-- Two operations on shard `0` that require nothing, imported one after the other. With room for one
-- ready operation, `enforce_limits` removes the first.

def twoImports : List (Nat × Op Nat Nat) :=
  [(0, .import ⟨1, 1, 1, 2, [], [1]⟩), (0, .import ⟨1, 2, 1, 2, [], [2]⟩)]

theorem enforceLimits_within_limits_twoImports :
    (runOps twoImports (new false .listed)).2.Reachable ∧
      ∃ removed p', (onShard 0 (BasePool.enforceLimits ⟨1, 10⟩ ⟨0, 0⟩)).run
          (runOps twoImports (new false .listed)).2 = .ok removed p' ∧
        Limit.isExceeded ⟨1, 10⟩ (p'.status 0).ready (p'.status 0).readyBytes = false ∧
        Limit.isExceeded ⟨0, 0⟩ (p'.status 0).future (p'.status 0).futureBytes = false ∧
        (∀ op, op ∈ removed ↔
          op ∈ ((runOps twoImports (new false .listed)).2.view 0).operations ∧ op ∉ (p'.view 0).operations) ∧
        ∃ r₁ mid r₂, removed = r₁ ++ r₂ ∧
          BasePool.Rounds (BasePool.readyExceeded ⟨1, 10⟩) BasePool.FirstInserted
            ((runOps twoImports (new false .listed)).2.view 0) r₁ mid ∧
          BasePool.Rounds (BasePool.futureExceeded ⟨0, 0⟩) BasePool.FirstWaiting mid r₂ (p'.view 0) :=
  ⟨reachable_runOps twoImports (.new false .listed),
    enforceLimits_within_limits (reachable_runOps twoImports (.new false .listed)) 0 ⟨1, 10⟩ ⟨0, 0⟩⟩

example :
    (runOps (twoImports ++ [(0, .enforceLimits ⟨1, 10⟩ ⟨0, 0⟩)]) (new false .listed)).1.getLast? =
      some (0, .ok (.removed [⟨1, 1, 1, 2, [], [1]⟩])) := by
  decide

end ShardedPool

end Pool
