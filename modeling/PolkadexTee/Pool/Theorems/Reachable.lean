import PolkadexTee.Pool.Sharded
import PolkadexTee.Pool.Theorems.Shape

/-! The shape of a shard, and the pools the methods reach. -/

namespace Pool

open EStateM

variable {S H T : Type} [DecidableEq S] [DecidableEq H] [DecidableEq T]

namespace BasePool

-- The shape of a shard: both queues have theirs, and no hash is in both.
structure Shaped (s : BasePool H T) : Prop where
  ready    : s.ready.Shaped
  future   : s.future.Shaped
  disjoint : ∀ hash, s.ready.contains hash = true → s.future.contains hash = false

namespace Shaped

variable {s : BasePool H T}

omit [DecidableEq T] in
theorem new (rejectFutureOperations : Bool) (hashOrder : IterOrder H) :
    (BasePool.new rejectFutureOperations hashOrder : BasePool H T).Shaped :=
  ⟨ReadyOperations.Shaped.empty, FutureTrustedOperations.Shaped.empty hashOrder, fun _ h => by
    simp [BasePool.new, ReadyOperations.empty, ReadyOperations.contains] at h⟩

-- Each queue keeps to the hashes the other does not hold.
omit [DecidableEq T] in
theorem readyIn (h : s.Shaped) : s.ready.ShapedIn fun hash => s.future.contains hash = false :=
  ⟨h.ready, ReadyOperations.within_iff.mpr h.disjoint⟩

omit [DecidableEq T] in
theorem futureIn (h : s.Shaped) : s.future.ShapedIn fun hash => s.ready.contains hash = false := by
  refine ⟨h.future, FutureTrustedOperations.within_iff.mpr fun hash hin => ?_⟩
  cases hr : s.ready.contains hash
  · rfl
  · rw [h.disjoint hash hr] at hin
    cases hin

omit [DecidableEq T] in
theorem of_readyIn {r : ReadyOperations H T} (hf : s.future.Shaped)
    (hr : r.ShapedIn fun hash => s.future.contains hash = false) : Shaped { s with ready := r } :=
  ⟨hr.1, hf, ReadyOperations.within_iff.mp hr.2⟩

omit [DecidableEq T] in
theorem of_futureIn {f : FutureTrustedOperations H T} (hr : s.ready.Shaped)
    (hf : f.ShapedIn fun hash => s.ready.contains hash = false) : Shaped { s with future := f } := by
  refine ⟨hr, hf.1, fun hash hin => ?_⟩
  cases hc : f.contains hash
  · rfl
  · have hout := FutureTrustedOperations.within_iff.mp hf.2 hash hc
    rw [hin] at hout
    cases hout

end Shaped

-- The methods of the two queues, run on their part of the shard.

section Lift

variable {α : Type} (inv : BasePool H T → Prop) {post : α → Prop} {C : (H → Prop) → Prop}

omit [DecidableEq T] in
-- A method of the ready queue that keeps its shape within every bound of `C` keeps an invariant of
-- the shard that gives it such a bound, the hashes the future queue does not hold, and that the
-- write-back of a ready queue of that shape keeps.
theorem liftReady_keeps {x : ReadyM H T α} (hx : ∀ K, C K → Keeps (ReadyOperations.ShapedIn K) x post)
    (hinv : ∀ s, inv s → s.Shaped ∧ C fun hash => s.future.contains hash = false)
    (hupdate : ∀ s r, inv s → r.ShapedIn (fun hash => s.future.contains hash = false) →
      inv { s with ready := r }) :
    Keeps inv (liftReady x) post :=
  Keeps.zoom_dep (fun s hs => hx _ (hinv s hs).2) (fun s hs => (hinv s hs).1.readyIn) hupdate

omit [DecidableEq T] in
theorem liftFuture_keeps {x : FutureM H T α}
    (hx : ∀ K, C K → Keeps (FutureTrustedOperations.ShapedIn K) x post)
    (hinv : ∀ s, inv s → s.Shaped ∧ C fun hash => s.ready.contains hash = false)
    (hupdate : ∀ s f, inv s → f.ShapedIn (fun hash => s.ready.contains hash = false) →
      inv { s with future := f }) :
    Keeps inv (liftFuture x) post :=
  Keeps.zoom_dep (fun s hs => hx _ (hinv s hs).2) (fun s hs => (hinv s hs).1.futureIn) hupdate

end Lift

omit [DecidableEq T] in
theorem liftReady_keeps_shaped {α : Type} {x : ReadyM H T α} {post : α → Prop}
    (hx : ∀ K, Keeps (ReadyOperations.ShapedIn K) x post) : Keeps Shaped (liftReady x) post :=
  liftReady_keeps Shaped (fun K (_ : True) => hx K) (fun _ hs => ⟨hs, trivial⟩)
    fun _ _ hs hr => Shaped.of_readyIn hs.future hr

omit [DecidableEq T] in
theorem liftFuture_keeps_shaped {α : Type} {x : FutureM H T α} {post : α → Prop}
    (hx : ∀ K, Keeps (FutureTrustedOperations.ShapedIn K) x post) : Keeps Shaped (liftFuture x) post :=
  liftFuture_keeps Shaped (fun K (_ : True) => hx K) (fun _ hs => ⟨hs, trivial⟩)
    fun _ _ hs hf => Shaped.of_futureIn hs.ready hf

-- The imports into the ready queue.

section Import

-- The released operations are not waiting, nor is any of `L` that was not.
theorem liftFuture_satisfyTags_triple (tags : List T) (L : List (WaitingTrustedOperations H T)) :
    Triple (fun s => s.Shaped ∧ s.future.Fresh L)
      (liftFuture (FutureTrustedOperations.satisfyTags tags []))
      (fun r s => s.Shaped ∧ s.future.Fresh (L ++ r)) fun s => s.Shaped ∧ s.future.Fresh L := by
  refine Triple.zoom fun s ⟨hs, hL⟩ => ?_
  refine (FutureTrustedOperations.satisfyTags_triple (fun hash => s.ready.contains hash = false)
    tags [] L).conseq (fun _ h => h ▸ ⟨hs.futureIn, by rwa [List.append_nil]⟩)
    (fun _ _ h => ⟨Shaped.of_futureIn hs.ready h.1, h.2⟩) fun _ h => ⟨Shaped.of_futureIn hs.ready h.1, h.2⟩

omit [DecidableEq H] [DecidableEq T] in
-- What is left to import after the last operation was popped, with the ones it released.
theorem mem_of_mem_dropLast_append {L toImport becameReady : List (WaitingTrustedOperations H T)}
    {x : WaitingTrustedOperations H T} (hx : x ∈ L ++ (toImport.dropLast ++ becameReady)) :
    x ∈ L ++ toImport ++ becameReady := by
  simp only [List.mem_append] at hx ⊢
  rcases hx with hx | hx | hx
  · exact .inl (.inl hx)
  · exact .inl (.inr (List.dropLast_subset _ hx))
  · exact .inr hx

-- An operation that is not waiting may go to the ready queue.
theorem liftReady_import_keeps (tx : WaitingTrustedOperations H T) {L : List (WaitingTrustedOperations H T)}
    (htx : tx ∈ L) :
    Keeps (fun s => s.Shaped ∧ s.future.Fresh L)
      (liftReady (EStateM.attempt Error.isPanic (ReadyOperations.import tx))) fun _ => True :=
  liftReady_keeps (fun s => s.Shaped ∧ s.future.Fresh L)
    (fun K (hK : K tx.operation.hash) =>
      ((ReadyOperations.import_keeps_shaped K tx hK).attempt Error.isPanic).mono fun _ _ => trivial)
    (fun _ hs => ⟨hs.1, hs.2 tx htx⟩) fun _ _ hs hr => ⟨Shaped.of_readyIn hs.1.future hr, hs.2⟩

theorem importToReadyLoop_triple :
    ∀ (fuel : Nat) (first : Bool) (toImport : List (WaitingTrustedOperations H T))
      (promoted failed : List H) (removed : List (TrustedOperation H T))
      (L : List (WaitingTrustedOperations H T)),
      Triple (fun s => s.Shaped ∧ s.future.Fresh (L ++ toImport))
        (importToReadyLoop fuel first toImport promoted failed removed)
        (fun _ s => s.Shaped ∧ s.future.Fresh L) fun s => s.Shaped ∧ s.future.Fresh L
  | 0, _, _, _, _, _, _ => Triple.pure fun _ h => ⟨h.1, h.2.mono fun _ => List.mem_append_left _⟩
  | fuel + 1, first, toImport, promoted, failed, removed, L => by
    rw [importToReadyLoop]
    split
    · exact Triple.pure fun _ h => ⟨h.1, h.2.mono fun _ => List.mem_append_left _⟩
    · next tx hlast =>
      have htx : tx ∈ toImport := List.mem_of_getLast? hlast
      refine ((liftFuture_satisfyTags_triple tx.operation.provides (L ++ toImport)).conseq
        (fun _ h => h) (fun _ _ h => h) fun _ h => ⟨h.1, h.2.left⟩).bind fun becameReady => ?_
      dsimp only
      -- the popped operation is not waiting, so its hash may go to the ready queue
      have himport := liftReady_import_keeps tx (show tx ∈ L ++ toImport ++ becameReady by simp [htx])
      refine ((Triple.of_keeps himport).conseq (fun _ h => h) (fun _ _ h => h)
        fun _ h => ⟨h.1, h.2.left.left⟩).bind fun res => ?_
      have hnext : ∀ first' promoted' failed' removed',
          Triple (fun s => (s.Shaped ∧ s.future.Fresh (L ++ toImport ++ becameReady)) ∧ True)
            (importToReadyLoop fuel first' (toImport.dropLast ++ becameReady) promoted' failed' removed')
            (fun _ s => s.Shaped ∧ s.future.Fresh L) fun s => s.Shaped ∧ s.future.Fresh L :=
        fun _ _ _ _ => (importToReadyLoop_triple fuel _ _ _ _ _ L).conseq
          (fun _ h => ⟨h.1.1, h.1.2.mono fun _ => mem_of_mem_dropLast_append⟩) (fun _ _ h => h)
          fun _ h => h
      rcases res with e | replaced
      · dsimp only
        split
        · exact Triple.throw fun _ h => ⟨h.1.1, h.1.2.left.left⟩
        · exact hnext _ _ _ _
      · exact hnext _ _ _ _

theorem importToReady_triple (tx : WaitingTrustedOperations H T) (L : List (WaitingTrustedOperations H T)) :
    Triple (fun s => s.Shaped ∧ s.future.Fresh (L ++ [tx])) (importToReady tx)
      (fun _ s => s.Shaped ∧ s.future.Fresh L) fun s => s.Shaped ∧ s.future.Fresh L := by
  rw [importToReady]
  refine Triple.get_bind fun s hs => ?_
  refine ((importToReadyLoop_triple _ true [tx] [] [] [] L).conseq (fun st (h : st = s) => h ▸ hs)
    (fun _ _ h => h) fun _ h => h).bind fun r => ?_
  obtain ⟨promoted, failed, removed⟩ := r
  dsimp only
  split
  · -- a cycle: the promoted operations leave the ready queue again
    have hremove := liftReady_keeps (fun s => s.Shaped ∧ s.future.Fresh L)
      (fun K (_ : True) => ReadyOperations.removeSubtree_keeps_shaped K promoted)
      (fun _ hs => ⟨hs.1, trivial⟩) fun _ _ hs hr => ⟨Shaped.of_readyIn hs.1.future hr, hs.2⟩
    exact (Triple.of_keeps hremove).bind fun _ => Triple.throw fun _ h => h.1
  · exact Triple.pure fun _ h => h

-- `import` takes a hash neither queue holds, into the queue its missing tags decide.
theorem import_triple (tx : TrustedOperation H T) :
    Triple Shaped (BasePool.import tx) (fun _ s => s.Shaped) Shaped := by
  rw [BasePool.import]
  refine Triple.get_bind fun s hs => ?_
  dsimp only
  split
  · exact Triple.throw_bind fun _ h => h ▸ hs
  · next hnew =>
    obtain ⟨hfuture, hready⟩ : s.future.contains tx.hash = false ∧ s.ready.contains tx.hash = false := by
      simpa [isImported] using hnew
    split
    · split
      · exact Triple.throw_bind fun _ h => h ▸ hs
      · have hwait := liftFuture_keeps (fun s => s.Shaped ∧ s.ready.contains tx.hash = false)
          (fun K (hK : K tx.hash) => FutureTrustedOperations.import_keeps_shaped K
            (WaitingTrustedOperations.new tx s.ready.providedTags [s.recentlyPruned 0, s.recentlyPruned 1]) hK)
          (fun _ h => h) fun _ _ h hf => ⟨Shaped.of_futureIn h.1.ready hf, h.2⟩
        refine ((Triple.of_keeps hwait).conseq (fun st h => ?_) (fun _ _ h => h) fun _ h => h.1).bind
          fun _ => Triple.pure fun _ h => h.1.1
        subst h
        exact ⟨hs, hready⟩
    · refine (importToReady_triple _ []).conseq (fun st h => ?_) (fun _ _ h => h.1) fun _ h => h.1
      subst h
      refine ⟨hs, fun w hw => ?_⟩
      rw [List.mem_singleton.mp hw]
      exact hfuture

end Import

-- `prune_tags`: the operations the pruned tags release wait for import in a list, which stays clear
-- of the future queue while the loop prunes the ready queue.

section Prune

theorem pruneEach_triple (index : Fin 2) :
    ∀ (tags : List T) (toImport : List (WaitingTrustedOperations H T))
      (pruned : List (TrustedOperation H T)),
      Triple (fun s => s.Shaped ∧ s.future.Fresh toImport) (pruneEach index tags toImport pruned)
        (fun r s => s.Shaped ∧ s.future.Fresh r.1) fun s => s.Shaped
  | [], _, _ => Triple.pure fun _ h => h
  | tag :: rest, toImport, pruned => by
    rw [pruneEach]
    refine ((liftFuture_satisfyTags_triple [tag] toImport).conseq (fun _ h => h) (fun _ _ h => h)
      fun _ h => h.1).bind fun becameReady => ?_
    have hprune := liftReady_keeps (fun s => s.Shaped ∧ s.future.Fresh (toImport ++ becameReady))
      (fun K (_ : True) => ReadyOperations.pruneTags_keeps_shaped K tag)
      (fun _ hs => ⟨hs.1, trivial⟩) fun _ _ hs hr => ⟨Shaped.of_readyIn hs.1.future hr, hs.2⟩
    refine ((Triple.of_keeps hprune).conseq (fun _ h => h) (fun _ _ h => h) fun _ h => h.1).bind
      fun prunedNow => ?_
    refine Triple.bind ?_ fun _ => pruneEach_triple index rest _ _
    -- recording the pruned tag changes neither queue
    exact Triple.modify fun _ h => ⟨⟨h.1.1.ready, h.1.1.future, h.1.1.disjoint⟩, h.1.2⟩

theorem promoteAll_triple :
    ∀ (toImport : List (WaitingTrustedOperations H T)) (promoted : List (Imported H T))
      (failed : List H),
      Triple (fun s => s.Shaped ∧ s.future.Fresh toImport) (promoteAll toImport promoted failed)
        (fun _ s => s.Shaped) fun s => s.Shaped
  | [], _, _ => Triple.pure fun _ h => h.1
  | tx :: rest, promoted, failed => by
    rw [promoteAll]
    -- each import leaves the operations after it clear of the future queue
    refine (((importToReady_triple tx rest).attempt Error.isPanic).conseq
      (fun _ h => ⟨h.1, h.2.mono fun _ hx => by simp at hx ⊢; tauto⟩) (fun _ _ h => h)
      fun _ h => h.1).bind fun res => ?_
    rcases res with e | imported
    · exact promoteAll_triple rest _ _
    · exact promoteAll_triple rest _ _

theorem pruneTags_triple (tags : List T) :
    Triple Shaped (BasePool.pruneTags tags : PoolM H T _) (fun _ s => s.Shaped) Shaped := by
  rw [BasePool.pruneTags]
  refine Triple.get_bind fun s hs => ?_
  dsimp only
  -- the ring of recently pruned tags moves on; the queues stay as they are
  have hset : Triple (· = s)
      (set { s with recentlyPrunedIndex := s.recentlyPrunedIndex + 1,
                    recentlyPruned := Function.update s.recentlyPruned s.recentlyPrunedIndex [] } :
        PoolM H T PUnit)
      (fun _ st => st.Shaped ∧ st.future.Fresh []) Shaped :=
    Triple.set fun _ _ => ⟨⟨hs.ready, hs.future, hs.disjoint⟩, fun _ hx => by cases hx⟩
  refine hset.bind fun _ => (pruneEach_triple _ tags [] []).bind fun ⟨toImport, pruned⟩ => ?_
  exact (promoteAll_triple toImport [] []).bind fun _ => Triple.pure fun _ h => h

end Prune

-- The removals.

section Removal

theorem removeSubtree_keeps_shaped (hashes : List H) :
    Keeps Shaped (BasePool.removeSubtree hashes : PoolM H T _) fun _ => True := by
  rw [BasePool.removeSubtree]
  refine (liftReady_keeps_shaped fun K => ReadyOperations.removeSubtree_keeps_shaped K hashes).bind
    fun _ _ => ?_
  exact (liftFuture_keeps_shaped fun K => FutureTrustedOperations.remove_keeps_shaped K hashes).bind
    fun _ _ => Keeps.pure trivial

theorem enforceReadyLoop_keeps_shaped (ready : Limit) :
    ∀ (fuel : Nat) (removed : List (TrustedOperation H T)),
      Keeps Shaped (enforceReadyLoop ready fuel removed) fun _ => True
  | 0, _ => Keeps.pure trivial
  | fuel + 1, removed => by
    rw [enforceReadyLoop]
    refine Keeps.bind Keeps.get fun s _ => ?_
    split
    · exact Keeps.pure trivial
    · split
      · exact (removeSubtree_keeps_shaped _).bind fun _ _ => enforceReadyLoop_keeps_shaped ready fuel _
      · exact Keeps.pure trivial

theorem enforceFutureLoop_keeps_shaped (future : Limit) :
    ∀ (fuel : Nat) (removed : List (TrustedOperation H T)),
      Keeps Shaped (enforceFutureLoop future fuel removed) fun _ => True
  | 0, _ => Keeps.pure trivial
  | fuel + 1, removed => by
    rw [enforceFutureLoop]
    refine Keeps.bind Keeps.get fun s _ => ?_
    split
    · exact Keeps.pure trivial
    · split
      · exact (removeSubtree_keeps_shaped _).bind fun _ _ => enforceFutureLoop_keeps_shaped future fuel _
      · exact Keeps.pure trivial

theorem enforceLimits_keeps_shaped (ready future : Limit) :
    Keeps Shaped (enforceLimits ready future : PoolM H T _) fun _ => True := by
  refine Keeps.bind Keeps.get fun s _ => ?_
  refine (enforceReadyLoop_keeps_shaped ready _ []).bind fun _ _ => ?_
  exact Keeps.bind Keeps.get fun s _ => enforceFutureLoop_keeps_shaped future _ _

end Removal

end BasePool

-- Every method keeps the shape of the shard, whatever it returns.
theorem Op.run_keeps_shaped : ∀ op : Op H T, Keeps BasePool.Shaped op.run fun _ => True
  | .import tx => Keeps.map ((BasePool.import_triple tx).conseq (fun _ h => h)
      (fun _ _ h => ⟨h, trivial⟩) (fun _ h => h)).keeps
  | .pruneTags tags => Keeps.map ((BasePool.pruneTags_triple tags).conseq (fun _ h => h)
      (fun _ _ h => ⟨h, trivial⟩) (fun _ h => h)).keeps
  | .removeSubtree hashes => Keeps.map (BasePool.removeSubtree_keeps_shaped hashes)
  | .enforceLimits ready future => Keeps.map (BasePool.enforceLimits_keeps_shaped ready future)
  | .clearFuture => Keeps.map (BasePool.liftFuture_keeps_shaped fun K =>
      FutureTrustedOperations.clear_keeps_shaped K)

namespace ShardedPool

-- Every shard of the pool has its shape.
def Shaped (p : ShardedPool S H T) : Prop :=
  ∀ shard, (p.view shard).Shaped

omit [DecidableEq S] [DecidableEq T] in
theorem shaped_new (rejectFutureOperations : Bool) (hashOrder : IterOrder H) :
    (new rejectFutureOperations hashOrder : ShardedPool S H T).Shaped :=
  fun _ => BasePool.Shaped.new rejectFutureOperations hashOrder

-- A method called on one shard leaves the queues of the others as they were.
omit [DecidableEq T] in
theorem onShard_keeps_shaped {α : Type} {x : PoolM H T α} {post : α → Prop}
    (hx : Keeps BasePool.Shaped x post) (shard : S) : Keeps Shaped (onShard shard x) post := by
  refine Keeps.zoom_part hx (fun p hp => hp shard) fun p s hp hs other => ?_
  by_cases heq : other = shard
  · subst heq
    rw [view_update_self]
    exact hs
  · rw [view_update_of_ne _ _ heq]
    exact ⟨(hp other).ready, (hp other).future, (hp other).disjoint⟩

-- The pools that calls of the methods, each on some shard, reach from a new pool.
inductive Reachable : ShardedPool S H T → Prop
  | new (rejectFutureOperations : Bool) (hashOrder : IterOrder H) :
      Reachable (ShardedPool.new rejectFutureOperations hashOrder)
  | step {p : ShardedPool S H T} (shard : S) (op : Op H T) :
      Reachable p → Reachable ((onShard shard op.run).run p).state

theorem Reachable.shaped {p : ShardedPool S H T} (h : Reachable p) : p.Shaped := by
  induction h with
  | new rejectFutureOperations hashOrder => exact shaped_new rejectFutureOperations hashOrder
  | step shard op _ ih => exact (onShard_keeps_shaped (Op.run_keeps_shaped op) shard).state ih

-- The calls of `runOps` go from reachable pools to reachable pools.
theorem reachable_runOps :
    ∀ (ops : List (S × Op H T)) {p : ShardedPool S H T}, Reachable p → Reachable (runOps ops p).2
  | [], _, h => h
  | (shard, op) :: rest, _, h => reachable_runOps rest (.step shard op h)

-- On every reachable pool the `TrackedMap` counters of each shard count its ready map, so `status`
-- reports the number of ready operations and their bytes summed.
theorem Reachable.status_counts {p : ShardedPool S H T} (h : Reachable p) (shard : S) :
    (p.view shard).ready.counters = ReadyOperations.counts ((p.view shard).ready.ready.getD ∅) ∧
      (p.status shard).ready = ((p.view shard).ready.ready.getD ∅).entries.length ∧
      (p.status shard).readyBytes = ReadyOperations.totalSize ((p.view shard).ready.ready.getD ∅) := by
  have hc := (h.shaped shard).ready.counted
  obtain ⟨hlen, hbytes⟩ := ReadyOperations.len_bytes_of_counted hc
  exact ⟨ReadyOperations.tracks_iff.mp hc, hlen, hbytes⟩

-- One import on shard `0` of a new pool.
def oneImport : List (Nat × Op Nat Nat) :=
  [(0, .import ⟨1, 1, 1, 2, [], [1]⟩)]

theorem Reachable.status_counts_oneImport :
    (runOps oneImport (ShardedPool.new false .listed)).2.Reachable ∧
      ((runOps oneImport (ShardedPool.new false .listed)).2.view 0).ready.counters =
          ReadyOperations.counts (((runOps oneImport (ShardedPool.new false .listed)).2.view 0).ready.ready.getD ∅) ∧
        ((runOps oneImport (ShardedPool.new false .listed)).2.status 0).ready =
          (((runOps oneImport (ShardedPool.new false .listed)).2.view 0).ready.ready.getD ∅).entries.length ∧
        ((runOps oneImport (ShardedPool.new false .listed)).2.status 0).readyBytes =
          ReadyOperations.totalSize (((runOps oneImport (ShardedPool.new false .listed)).2.view 0).ready.ready.getD ∅) :=
  ⟨reachable_runOps oneImport (.new false .listed), Reachable.status_counts (reachable_runOps oneImport (.new false .listed)) 0⟩

end ShardedPool

end Pool
