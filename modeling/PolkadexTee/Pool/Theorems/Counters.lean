import PolkadexTee.Lib.Map
import PolkadexTee.Pool.Ready

/-! The counters of a shard's `TrackedMap` (`tracked_map.rs`). `len` and `bytes` read the two
counters, not the map, so they are right only where the counters count the map. -/

namespace Pool.ReadyOperations

variable {H T : Type}

section Fields

variable (s : ReadyOperations H T) (tx : ReadyTx H T)

@[simp] theorem countOut_best : (s.countOut tx).best = s.best := rfl

end Fields

-- What `bytes` should read: the sizes of the entries, summed.
def totalSize (ready : AList fun _ : H => ReadyTx H T) : Nat :=
  (ready.entries.map fun e => e.2.size).sum

-- The counters of `s` count the map `ready`: its entries, and their sizes summed.
structure Tracks (s : ReadyOperations H T) (ready : AList fun _ : H => ReadyTx H T) : Prop where
  length : s.readyLength = ready.entries.length
  bytes  : s.readyBytes = totalSize ready

-- The counters count the shard's own map; a shard without one has them at zero.
abbrev Counted (s : ReadyOperations H T) : Prop :=
  Tracks s (s.ready.getD ∅)

-- The counters count the map they are written back with.
theorem Tracks.withReady {s : ReadyOperations H T} {ready : AList fun _ : H => ReadyTx H T}
    (h : Tracks s ready) : Counted { s with ready := some ready } :=
  ⟨h.length, h.bytes⟩

theorem Counted.tracks {s : ReadyOperations H T} {ready : AList fun _ : H => ReadyTx H T}
    (h : Counted s) (hr : s.ready = some ready) : Tracks s ready := by
  have h' : Tracks s (s.ready.getD ∅) := h
  rwa [hr, Option.getD_some] at h'

-- The two counters, length first.
def counters (s : ReadyOperations H T) : Int × Int :=
  (s.readyLength, s.readyBytes)

-- What counters that count `ready` read.
def counts (ready : AList fun _ : H => ReadyTx H T) : Int × Int :=
  (ready.entries.length, totalSize ready)

theorem tracks_iff {s : ReadyOperations H T} {ready : AList fun _ : H => ReadyTx H T} :
    Tracks s ready ↔ s.counters = counts ready := by
  constructor
  · rintro ⟨hl, hb⟩
    rw [counters, counts, hl, hb]
  · intro h
    simp only [counters, counts, Prod.mk.injEq] at h
    exact ⟨h.1, h.2⟩

-- A write that replaces `ready` by `ready'` moves the counters by the difference.
theorem Tracks.moved {s s' : ReadyOperations H T} {ready ready' : AList fun _ : H => ReadyTx H T}
    (h : Tracks s ready)
    (hl : s'.readyLength = s.readyLength + ready'.entries.length - ready.entries.length)
    (hb : s'.readyBytes = s.readyBytes + totalSize ready' - totalSize ready) : Tracks s' ready' where
  length := by
    rw [hl, h.length]
    omega
  bytes := by
    rw [hb, h.bytes]
    omega

-- Where the counters count the map, `len` and `bytes` read what the map holds.
theorem len_bytes_of_counted {s : ReadyOperations H T} (h : Counted s) :
    s.len = (s.ready.getD ∅).entries.length ∧ s.bytes = totalSize (s.ready.getD ∅) := by
  cases hr : s.ready with
  | none => simp [len, bytes, hr, totalSize]
  | some ready =>
    have hc := h.tracks hr
    simp [len, bytes, hr, hc.length, hc.bytes]

variable [DecidableEq H]

section Tracked

variable (s : ReadyOperations H T) (tx : ReadyTx H T) (ready : AList fun _ : H => ReadyTx H T) (hash : H)

@[simp] theorem trackedInsert_ready : (s.trackedInsert ready hash tx).ready = some (ready.insert hash tx) :=
  rfl

@[simp] theorem trackedRemove_ready : (s.trackedRemove ready hash).ready = some (ready.erase hash) :=
  rfl

@[simp] theorem trackedInsert_providedTags :
    (s.trackedInsert ready hash tx).providedTags = s.providedTags := by
  unfold trackedInsert
  split <;> rfl

@[simp] theorem trackedInsert_best : (s.trackedInsert ready hash tx).best = s.best := by
  unfold trackedInsert
  split <;> rfl

@[simp] theorem trackedRemove_providedTags :
    (s.trackedRemove ready hash).providedTags = s.providedTags := by
  unfold trackedRemove
  split <;> rfl

@[simp] theorem trackedRemove_best : (s.trackedRemove ready hash).best = s.best := by
  unfold trackedRemove
  split <;> rfl

end Tracked

section Sizes

variable {ready : AList fun _ : H => ReadyTx H T} {hash : H} {tx tx' : ReadyTx H T}

theorem totalSize_erase_add (hl : ready.lookup hash = some tx) :
    totalSize (ready.erase hash) + tx.size = totalSize ready :=
  AList.sum_map_erase_add hl

-- An entry changed in place keeps its size, so the sum stays.
theorem totalSize_insert_of_size (hl : ready.lookup hash = some tx) (hsize : tx'.size = tx.size) :
    totalSize (ready.insert hash tx') = totalSize ready := by
  have h : totalSize (ready.insert hash tx') + tx.size = totalSize ready + tx'.size :=
    AList.sum_map_insert_add hl
  omega

theorem totalSize_insert_of_lookup_none (hn : ready.lookup hash = none) :
    totalSize (ready.insert hash tx) = totalSize ready + tx.size :=
  AList.sum_map_insert_of_lookup_none hn

theorem counts_insert_in_place (hl : ready.lookup hash = some tx) (hsize : tx'.size = tx.size) :
    counts (ready.insert hash tx') = counts ready := by
  rw [counts, counts, AList.length_insert_of_lookup hl, totalSize_insert_of_size hl hsize]

theorem erase_entries_of_lookup_none (hn : ready.lookup hash = none) :
    (ready.erase hash).entries = ready.entries :=
  List.kerase_of_notMem_keys fun hk => (AList.lookup_eq_none.mp hn) (AList.mem_keys.mp hk)

end Sizes

-- Each write of the access keeps the counters counting its map.

section Tracks

variable {s : ReadyOperations H T} {ready : AList fun _ : H => ReadyTx H T} {hash : H}
  {tx tx' : ReadyTx H T}

theorem Tracks.countOut (h : Tracks s ready) (hl : ready.lookup hash = some tx) :
    Tracks (s.countOut tx) (ready.erase hash) where
  length := by
    have hlen := AList.length_erase_add_one hl
    simp only [ReadyOperations.countOut, h.length]
    omega
  bytes := by
    have hsize := totalSize_erase_add hl
    simp only [ReadyOperations.countOut, h.bytes]
    omega

theorem Tracks.countIn (h : Tracks s ready) (hn : ready.lookup hash = none) :
    Tracks (s.countIn tx) (ready.insert hash tx) where
  length := by
    simp only [ReadyOperations.countIn, h.length, AList.length_insert_of_lookup_none hn]
    omega
  bytes := by
    simp only [ReadyOperations.countIn, h.bytes, totalSize_insert_of_lookup_none hn]
    omega

-- An insert over an entry counts the new one in and the old one out.
theorem Tracks.replace {old : ReadyTx H T} (h : Tracks s ready) (hl : ready.lookup hash = some old) :
    Tracks ((s.countIn tx).countOut old) (ready.insert hash tx) where
  length := by
    simp only [ReadyOperations.countIn, ReadyOperations.countOut, h.length,
      AList.length_insert_of_lookup hl]
    omega
  bytes := by
    have hsum : totalSize (ready.insert hash tx) + old.size = totalSize ready + tx.size :=
      AList.sum_map_insert_add hl
    simp only [ReadyOperations.countIn, ReadyOperations.countOut, h.bytes]
    omega

theorem Tracks.counted_trackedInsert (h : Tracks s ready) : Counted (s.trackedInsert ready hash tx) := by
  unfold trackedInsert
  split
  · next old hl => exact (h.replace hl).withReady
  · next hn => exact (h.countIn hn).withReady

theorem Tracks.counted_trackedRemove (h : Tracks s ready) : Counted (s.trackedRemove ready hash) := by
  unfold trackedRemove
  split
  · next tx hl => exact (h.countOut hl).withReady
  · next hn =>
    have he := erase_entries_of_lookup_none hn
    exact Tracks.withReady ⟨by rw [h.length, he], by rw [h.bytes, totalSize, totalSize, he]⟩

end Tracks

end Pool.ReadyOperations
