import PolkadexTee.Pool.Theorems.Reachable
import PolkadexTee.Pool.Theorems.Waiting

/-! The future queue of a shard as the pool drives it. -/

namespace Pool

open EStateM

variable {S H T : Type} [DecidableEq S] [DecidableEq H] [DecidableEq T]

namespace FutureTrustedOperations

-- Every operation waiting in `s'` waited in `s` under the same hash, and misses no tag it did not
-- miss there.
def Shrinks (s s' : FutureTrustedOperations H T) : Prop :=
  ∀ hash w', (s'.waiting.getD ∅).lookup hash = some w' →
    ∃ w, (s.waiting.getD ∅).lookup hash = some w ∧ ∀ t ∈ w'.missingTags, t ∈ w.missingTags

-- No waiting operation misses any of `tags`.
def NoneMissing (tags : List T) (s : FutureTrustedOperations H T) : Prop :=
  ∀ hash w, (s.waiting.getD ∅).lookup hash = some w → ∀ t ∈ tags, t ∉ w.missingTags

-- `x` returns from every queue the methods reach, into one they reach, which has shrunk.
def Shrinking {α : Type} (x : FutureM H T α) : Prop :=
  ∀ s, s.Reachable → ∃ a s', x.run s = .ok a s' ∧ s'.Reachable ∧ s.Shrinks s'

section Shrinks

variable {s s' : FutureTrustedOperations H T}

omit [DecidableEq T] in
theorem Shrinks.refl (s : FutureTrustedOperations H T) : s.Shrinks s :=
  fun _ w h => ⟨w, h, fun _ ht => ht⟩

omit [DecidableEq T] in
theorem NoneMissing.of_shrinks {tags : List T} (h : s.NoneMissing tags) (hs : s.Shrinks s') :
    s'.NoneMissing tags := by
  intro hash w' hw' t ht hmiss
  obtain ⟨w, hw, hsub⟩ := hs hash w' hw'
  exact h hash w hw t ht (hsub t hmiss)

omit [DecidableEq T] in
theorem noneMissing_nil (s : FutureTrustedOperations H T) : s.NoneMissing [] :=
  fun _ _ _ _ ht => nomatch ht

omit [DecidableEq T] in
theorem NoneMissing.append {tags tags' : List T} (h : s.NoneMissing tags) (h' : s.NoneMissing tags') :
    s.NoneMissing (tags ++ tags') := by
  intro hash w hw t ht
  rcases List.mem_append.mp ht with ht | ht
  · exact h hash w hw t ht
  · exact h' hash w hw t ht

end Shrinks

-- The queue's methods, each from a reachable queue.

section Methods

variable {s : FutureTrustedOperations H T}

-- `satisfy_tags` from a reachable queue returns, and leaves no operation waiting that misses one of
-- the tags: each is left as satisfying all of them leaves it.
theorem satisfyTags_reaches (tags : List T) (hs : s.Reachable) :
    ∃ released s', (satisfyTags tags []).run s = .ok released s' ∧ s'.Reachable ∧ s.Shrinks s' ∧
      s'.NoneMissing tags := by
  obtain ⟨released, s', hrun, -, hlook, -⟩ := satisfyTags_run tags [] s hs.linked
  -- each operation left waiting is one that waited, with the tags taken off
  have hafter : ∀ hash w', (s'.waiting.getD ∅).lookup hash = some w' →
      ∃ w, (s.waiting.getD ∅).lookup hash = some w ∧ w.afterSatisfying tags = some w' := by
    intro hash w' hw'
    rw [hlook] at hw'
    exact Option.bind_eq_some_iff.mp hw'
  refine ⟨_, s', hrun, .satisfies tags hs hrun, fun hash w' hw' => ?_, fun hash w' hw' t ht hmiss => ?_⟩
  · obtain ⟨w, hw, hsat⟩ := hafter hash w' hw'
    exact ⟨w, hw, fun t hmiss => ((WaitingTrustedOperations.mem_of_afterSatisfying hsat).mp hmiss).1⟩
  · obtain ⟨w, -, hsat⟩ := hafter hash w' hw'
    exact ((WaitingTrustedOperations.mem_of_afterSatisfying hsat).mp hmiss).2 ht

theorem satisfyTags_shrinking (tags : List T) : Shrinking (satisfyTags tags [] : FutureM H T _) :=
  fun _ hs =>
    have ⟨released, s', hrun, hs', hshrinks, _⟩ := satisfyTags_reaches tags hs
    ⟨released, s', hrun, hs', hshrinks⟩

theorem remove_shrinking (hashes : List H) : Shrinking (remove hashes : FutureM H T _) := by
  intro s hs
  cases hw : s.waiting with
  | none => exact ⟨[], s, remove_of_none (.inl hw) hashes, hs, Shrinks.refl s⟩
  | some waiting =>
    cases ht : s.wantedTags with
    | none => exact ⟨[], s, remove_of_none (.inr ht) hashes, hs, Shrinks.refl s⟩
    | some wanted =>
      obtain ⟨waiting', wanted', removed, hrun, hlook, -⟩ := remove_run hw ht hashes
      refine ⟨removed, _, hrun, .removes hashes hs hrun, fun hash w' hw' => ?_⟩
      -- the entries left are entries of the old map
      simp only [Option.getD_some, hlook] at hw'
      split at hw'
      · cases hw'
      · exact ⟨w', by rw [hw, Option.getD_some]; exact hw', fun _ ht => ht⟩

theorem clear_shrinking : Shrinking (clear : FutureM H T _) := by
  intro s hs
  cases ht : s.wantedTags with
  | none => exact ⟨[], s, by simp [clear, ht], hs, Shrinks.refl s⟩
  | some wanted =>
    -- the waiting map is there with the wanted tags, so `unwrap` finds it
    obtain ⟨waiting, hw⟩ := Option.isSome_iff_exists.mp (hs.linked.present.mp (by simp [ht]))
    have hrun : clear.run s = .ok (waiting.entries.map fun e => e.2.operation)
        ({ s with wantedTags := some ∅, waiting := some ∅ } : FutureTrustedOperations H T) := by
      simp only [clear, run_bind, run_get, ht, hw]
      rfl
    exact ⟨_, _, hrun, .clears hs hrun, fun hash w' hw' => by simp at hw'⟩

theorem Shrinking.keeps {α : Type} {x : FutureM H T α} (hx : Shrinking x)
    (P : FutureTrustedOperations H T → Prop)
    (hP : ∀ {f f' : FutureTrustedOperations H T}, P f → f.Shrinks f' → P f') :
    Keeps (fun f => f.Reachable ∧ P f) x fun _ => True := by
  intro f ⟨hr, hp⟩
  obtain ⟨a, f', hrun, hr', hshrinks⟩ := hx f hr
  rw [hrun]
  exact ⟨⟨hr', hP hp hshrinks⟩, trivial⟩

end Methods

end FutureTrustedOperations

open FutureTrustedOperations

omit [DecidableEq H] in
-- `WaitingTrustedOperations::new` collects the missing tags into a `HashSet`.
theorem WaitingTrustedOperations.nodup_missingTags_new (tx : TrustedOperation H T)
    (provided : Option (AList fun _ : T => H)) (recentlyPruned : List (List T)) :
    (WaitingTrustedOperations.new tx provided recentlyPruned).missingTags.Nodup :=
  List.nodup_eraseDups _

namespace BasePool

-- The shard's future queue is one its methods reach, and satisfies `P`.
def FutureWith (P : FutureTrustedOperations H T → Prop) (s : BasePool H T) : Prop :=
  s.future.Reachable ∧ P s.future

-- Every method but `import` reaches the future queue through calls that shrink it, so it keeps any
-- property of the queue that shrinking keeps.

section Shrinking

variable (P : FutureTrustedOperations H T → Prop)
  (hP : ∀ {f f' : FutureTrustedOperations H T}, P f → f.Shrinks f' → P f')

include hP

theorem liftFuture_keeps_with {α : Type} {x : FutureM H T α} (hx : Shrinking x) :
    Keeps (FutureWith P) (liftFuture x) fun _ => True :=
  Keeps.zoom_part (Shrinking.keeps hx P hP) (fun _ hs => hs) fun _ _ _ ht => ht

omit hP in
-- The ready queue's methods leave the future queue as it is.
theorem liftReady_keeps_with {α : Type} (x : ReadyM H T α) :
    Keeps (FutureWith P) (liftReady x) fun _ => True :=
  Keeps.zoom fun _ _ hs => hs

omit hP in
-- A call that keeps more than `P` keeps `P` where it fails.
theorem triple_of_keeps_with {Q : FutureTrustedOperations H T → Prop} (hQ : ∀ f, Q f → P f)
    {α : Type} {x : PoolM H T α} (h : Keeps (FutureWith Q) x fun _ => True) :
    Triple (FutureWith Q) x (fun _ s => s.FutureWith Q) (FutureWith P) :=
  (Triple.of_keeps h).conseq (fun _ h => h) (fun _ _ h => h.1) fun _ h => ⟨h.1, hQ _ h.2⟩

-- `satisfy_tags` keeps `P`, and no operation is left waiting that misses one of the tags.
theorem liftFuture_satisfyTags_with (tags : List T) :
    Triple (FutureWith P) (liftFuture (satisfyTags tags []))
      (fun _ s => s.FutureWith P ∧ s.future.NoneMissing tags) (FutureWith P) := by
  refine Triple.zoom fun s ⟨hr, hp⟩ => ?_
  obtain ⟨released, f', hrun, hr', hshrinks, hnone⟩ := satisfyTags_reaches tags hr
  exact Triple.of_run_ok hrun ⟨⟨hr', hP hp hshrinks⟩, hnone⟩

theorem importToReadyLoop_keeps_with :
    ∀ (fuel : Nat) (first : Bool) (toImport : List (WaitingTrustedOperations H T))
      (promoted failed : List H) (removed : List (TrustedOperation H T)),
      Keeps (FutureWith P) (importToReadyLoop fuel first toImport promoted failed removed)
        fun _ => True
  | 0, _, _, _, _, _ => Keeps.pure trivial
  | fuel + 1, first, toImport, promoted, failed, removed => by
    rw [importToReadyLoop]
    split
    · exact Keeps.pure trivial
    · refine (liftFuture_keeps_with P hP (satisfyTags_shrinking _)).bind fun _ _ => ?_
      refine (liftReady_keeps_with P _).bind fun res _ => ?_
      rcases res with e | replaced
      · dsimp only
        split
        · exact Keeps.throw
        · exact importToReadyLoop_keeps_with fuel false _ _ _ _
      · exact importToReadyLoop_keeps_with fuel false _ _ _ _

theorem importToReady_keeps_with (tx : WaitingTrustedOperations H T) :
    Keeps (FutureWith P) (importToReady tx) fun _ => True := by
  rw [importToReady]
  refine Keeps.bind Keeps.get fun _ _ => ?_
  refine (importToReadyLoop_keeps_with P hP _ true [tx] [] [] []).bind fun r _ => ?_
  obtain ⟨promoted, failed, removed⟩ := r
  dsimp only
  split
  · exact (liftReady_keeps_with P _).bind fun _ _ => Keeps.throw
  · exact Keeps.pure trivial

theorem promoteAll_keeps_with :
    ∀ (toImport : List (WaitingTrustedOperations H T)) (promoted : List (Imported H T))
      (failed : List H), Keeps (FutureWith P) (promoteAll toImport promoted failed) fun _ => True
  | [], _, _ => Keeps.pure trivial
  | tx :: rest, promoted, failed => by
    rw [promoteAll]
    refine ((importToReady_keeps_with P hP tx).attempt Error.isPanic).bind fun res _ => ?_
    rcases res with e | imported
    · exact promoteAll_keeps_with rest _ _
    · exact promoteAll_keeps_with rest _ _

-- The loop of `prune_tags` satisfies its tags one after the other: none is missed afterwards, nor
-- any satisfied before.
theorem pruneEach_with (index : Fin 2) :
    ∀ (done tags : List T) (toImport : List (WaitingTrustedOperations H T))
      (pruned : List (TrustedOperation H T)),
      Triple (FutureWith fun f => P f ∧ f.NoneMissing done) (pruneEach index tags toImport pruned)
        (fun _ s => s.FutureWith P ∧ s.future.NoneMissing (done ++ tags)) (FutureWith P)
  | done, [], _, _ => Triple.pure fun _ h => ⟨⟨h.1, h.2.1⟩, by rw [List.append_nil]; exact h.2.2⟩
  | done, tag :: rest, toImport, pruned => by
    rw [pruneEach]
    -- the tags satisfied so far are a property of the queue that shrinking keeps
    have hP' : ∀ {f f' : FutureTrustedOperations H T}, P f ∧ f.NoneMissing done → f.Shrinks f' →
        P f' ∧ f'.NoneMissing done := fun h hs => ⟨hP h.1 hs, h.2.of_shrinks hs⟩
    refine ((liftFuture_satisfyTags_with _ hP' [tag]).conseq (fun _ h => h)
      (fun _ (s : BasePool H T) h => (⟨h.1.1, h.1.2.1, h.1.2.2.append h.2⟩ :
        FutureWith (fun f => P f ∧ f.NoneMissing (done ++ [tag])) s))
      fun _ h => ⟨h.1, h.2.1⟩).bind fun _ => ?_
    refine (triple_of_keeps_with P (Q := fun f => P f ∧ f.NoneMissing (done ++ [tag])) (fun _ h => h.1)
      (liftReady_keeps_with _ _)).bind fun _ => ?_
    -- recording the pruned tag leaves the future queue as it is
    refine (triple_of_keeps_with P (Q := fun f => P f ∧ f.NoneMissing (done ++ [tag])) (fun _ h => h.1)
      (Keeps.modify fun _ hs => by exact hs)).bind fun _ => ?_
    refine (pruneEach_with index (done ++ [tag]) rest _ _).conseq (fun _ h => h) (fun _ _ h => ⟨h.1, ?_⟩)
      fun _ h => h
    rw [List.append_assoc, List.singleton_append] at h
    exact h.2

theorem pruneTags_with (tags : List T) :
    Triple (FutureWith P) (pruneTags tags : PoolM H T _)
      (fun _ s => s.FutureWith P ∧ s.future.NoneMissing tags) (FutureWith P) := by
  have hP' : ∀ {f f' : FutureTrustedOperations H T}, P f ∧ f.NoneMissing tags → f.Shrinks f' →
      P f' ∧ f'.NoneMissing tags := fun h hs => ⟨hP h.1 hs, h.2.of_shrinks hs⟩
  rw [BasePool.pruneTags]
  refine Triple.get_bind fun s hs => ?_
  dsimp only
  -- the ring of recently pruned tags moves on; the queues stay as they are
  have hset : Triple (· = s)
      (set { s with recentlyPrunedIndex := s.recentlyPrunedIndex + 1,
                    recentlyPruned := Function.update s.recentlyPruned s.recentlyPrunedIndex [] } :
        PoolM H T PUnit)
      (fun _ st => st.FutureWith P) (FutureWith P) :=
    Triple.set fun _ _ => hs
  refine hset.bind fun _ => ?_
  refine ((pruneEach_with P hP _ [] tags [] []).conseq (fun _ h => ⟨h.1, h.2, noneMissing_nil _⟩)
    (fun _ _ h => h) fun _ h => h).bind fun r => ?_
  obtain ⟨toImport, pruned⟩ := r
  -- the promotions keep the pruned tags satisfied
  refine ((Triple.of_keeps (promoteAll_keeps_with _ hP' toImport [] [])).conseq
    (fun _ h => ⟨h.1.1, h.1.2, h.2⟩) (fun _ _ h => h.1) fun _ h => ⟨h.1, h.2.1⟩).bind fun _ => ?_
  exact Triple.pure fun _ h => ⟨⟨h.1, h.2.1⟩, h.2.2⟩

theorem removeSubtree_keeps_with (hashes : List H) :
    Keeps (FutureWith P) (removeSubtree hashes : PoolM H T _) fun _ => True := by
  rw [removeSubtree]
  refine (liftReady_keeps_with P _).bind fun _ _ => ?_
  exact (liftFuture_keeps_with P hP (remove_shrinking hashes)).bind fun _ _ => Keeps.pure trivial

theorem enforceReadyLoop_keeps_with (ready : Limit) :
    ∀ (fuel : Nat) (removed : List (TrustedOperation H T)),
      Keeps (FutureWith P) (enforceReadyLoop ready fuel removed) fun _ => True
  | 0, _ => Keeps.pure trivial
  | fuel + 1, removed => by
    rw [enforceReadyLoop]
    refine Keeps.bind Keeps.get fun s _ => ?_
    split
    · exact Keeps.pure trivial
    · split
      · exact (removeSubtree_keeps_with P hP _).bind fun _ _ => enforceReadyLoop_keeps_with ready fuel _
      · exact Keeps.pure trivial

theorem enforceFutureLoop_keeps_with (future : Limit) :
    ∀ (fuel : Nat) (removed : List (TrustedOperation H T)),
      Keeps (FutureWith P) (enforceFutureLoop future fuel removed) fun _ => True
  | 0, _ => Keeps.pure trivial
  | fuel + 1, removed => by
    rw [enforceFutureLoop]
    refine Keeps.bind Keeps.get fun s _ => ?_
    split
    · exact Keeps.pure trivial
    · split
      · exact (removeSubtree_keeps_with P hP _).bind fun _ _ =>
          enforceFutureLoop_keeps_with future fuel _
      · exact Keeps.pure trivial

theorem enforceLimits_keeps_with (ready future : Limit) :
    Keeps (FutureWith P) (enforceLimits ready future : PoolM H T _) fun _ => True := by
  refine Keeps.bind Keeps.get fun _ _ => ?_
  refine (enforceReadyLoop_keeps_with P hP ready _ []).bind fun _ _ => ?_
  exact Keeps.bind Keeps.get fun _ _ => enforceFutureLoop_keeps_with P hP future _ _

end Shrinking

-- `import`, the one method that hands the future queue a new operation.

section Import

-- The first round of the loop of `import_to_ready` pops the imported operation and satisfies the
-- tags it provides; the rounds after it only shrink the queue.
theorem importToReadyLoop_unblocks (fuel : Nat) (tx : WaitingTrustedOperations H T) :
    Triple (FutureWith fun _ => True) (importToReadyLoop (fuel + 1) true [tx] [] [] [])
      (fun _ s => s.FutureWith (NoneMissing tx.operation.provides)) (FutureWith fun _ => True) := by
  have hP : ∀ {f f' : FutureTrustedOperations H T}, f.NoneMissing tx.operation.provides →
      f.Shrinks f' → f'.NoneMissing tx.operation.provides := fun h hs => h.of_shrinks hs
  rw [importToReadyLoop]
  simp only [List.getLast?_singleton]
  refine ((liftFuture_satisfyTags_with (fun _ => True) (fun _ _ => trivial) _).conseq
    (fun _ h => h) (fun _ _ h => show FutureWith (NoneMissing _) _ from ⟨h.1.1, h.2⟩)
    fun _ h => h).bind fun _ => ?_
  refine ((Triple.of_keeps (liftReady_keeps_with (NoneMissing tx.operation.provides) _)).conseq
    (fun _ h => h) (fun _ _ h => h.1) fun _ h => ⟨h.1, trivial⟩).bind fun res => ?_
  rcases res with e | replaced
  · -- the first import's error is the loop's
    exact Triple.throw fun _ h => ⟨h.1, trivial⟩
  · exact (Triple.of_keeps (importToReadyLoop_keeps_with _ hP fuel false _ _ _ _)).conseq
      (fun _ h => h) (fun _ _ h => h.1) fun _ h => ⟨h.1, trivial⟩

theorem importToReady_unblocks (tx : WaitingTrustedOperations H T) :
    Triple (FutureWith fun _ => True) (importToReady tx)
      (fun _ s => s.FutureWith (NoneMissing tx.operation.provides)) (FutureWith fun _ => True) := by
  rw [importToReady]
  refine Triple.get_bind fun s hs => ?_
  refine ((importToReadyLoop_unblocks (s.future.len + 1) tx).conseq (fun st (h : st = s) => h ▸ hs)
    (fun _ _ h => h) fun _ h => h).bind fun r => ?_
  obtain ⟨promoted, failed, removed⟩ := r
  dsimp only
  split
  · -- a cycle: the promoted operations leave the ready queue again
    exact ((Triple.of_keeps (liftReady_keeps_with (NoneMissing tx.operation.provides) _)).conseq
      (fun _ h => h) (fun _ _ h => h) fun _ h => ⟨h.1, trivial⟩).bind
      fun _ => Triple.throw fun _ h => ⟨h.1.1, trivial⟩
  · exact Triple.pure fun _ h => h

-- `import` hands the future queue a waiting operation only under a hash neither queue holds, and an
-- import into the ready queue leaves no operation waiting for a tag the operation provides.
theorem import_triple_with (tx : TrustedOperation H T) :
    Triple (FutureWith fun _ => True) (BasePool.import tx)
      (fun r s => s.FutureWith (fun _ => True) ∧
        ∀ hash promoted failed removed, r = .ready hash promoted failed removed →
          s.future.NoneMissing tx.provides)
      (FutureWith fun _ => True) := by
  rw [BasePool.import]
  refine Triple.get_bind fun s hs => ?_
  dsimp only
  split
  · exact Triple.throw_bind fun _ h => h ▸ hs
  · next hnew =>
    obtain ⟨hfresh, -⟩ : s.future.contains tx.hash = false ∧ s.ready.contains tx.hash = false := by
      simpa [isImported] using hnew
    split
    · split
      · exact Triple.throw_bind fun _ h => h ▸ hs
      · next hwait _ =>
        have hready : (WaitingTrustedOperations.new tx s.ready.providedTags
            [s.recentlyPruned 0, s.recentlyPruned 1]).isReady = false := by simpa using hwait
        have hrun := FutureTrustedOperations.import_run (s := s.future) hready hfresh
        have hlift : Triple (· = s) (liftFuture (FutureTrustedOperations.import
              (WaitingTrustedOperations.new tx s.ready.providedTags
                [s.recentlyPruned 0, s.recentlyPruned 1])))
            (fun _ st => st.FutureWith fun _ => True) (FutureWith fun _ => True) := by
          refine Triple.zoom fun st hst => ?_
          subst hst
          exact Triple.of_run_ok hrun ⟨.imports _ hs.1 hready hfresh
            (WaitingTrustedOperations.nodup_missingTags_new _ _ _) hrun, trivial⟩
        exact hlift.bind fun _ => Triple.pure fun _ h => ⟨h, fun _ _ _ _ heq => by cases heq⟩
    · exact (importToReady_unblocks _).conseq (fun _ h => h ▸ hs)
        (fun _ _ h => ⟨⟨h.1, trivial⟩, fun _ _ _ _ _ => h.2⟩) fun _ h => h

end Import

-- An import into the ready queue, from a shard whose future queue the queue's methods reach, leaves
-- no operation waiting that misses a tag the imported operation provides: whatever the promotions,
-- replacements and cycles of `import_to_ready`, the operations that waited for those tags were
-- released.
theorem import_unblocks_provided {s s' : BasePool H T} (hs : s.future.Reachable)
    {tx : TrustedOperation H T} {hash : H} {promoted failed : List H}
    {removed : List (TrustedOperation H T)}
    (h : (BasePool.import tx).run s = .ok (.ready hash promoted failed removed) s') :
    s'.future.NoneMissing tx.provides :=
  ((import_triple_with tx).ok ⟨hs, trivial⟩ h).2 hash promoted failed removed rfl

-- A shard whose future queue holds the operation of hash `1`, waiting for the tag `7`, which
-- the operation of hash `2` provides.
def waitingShard : BasePool Nat Nat :=
  { BasePool.new false .listed with
    future := ⟨some (AList.insert 7 [1] ∅), some (AList.insert 1 ⟨⟨1, 1, 1, 2, [7], []⟩, [7]⟩ ∅), .listed⟩ }

def providerOfSeven : TrustedOperation Nat Nat := ⟨1, 2, 1, 2, [], [7]⟩

theorem waitingShard_reachable : waitingShard.future.Reachable :=
  .imports ⟨⟨1, 1, 1, 2, [7], []⟩, [7]⟩ (.empty .listed) (by decide) (by decide) (by decide) rfl

theorem import_unblocks_provided_waitingShard :
    waitingShard.future.Reachable ∧
      (BasePool.import providerOfSeven).run waitingShard =
        .ok (.ready 2 [1] [] []) ((BasePool.import providerOfSeven).run waitingShard).state ∧
      ((BasePool.import providerOfSeven).run waitingShard).state.future.NoneMissing
        providerOfSeven.provides :=
  have hrun : (BasePool.import providerOfSeven).run waitingShard =
      .ok (.ready 2 [1] [] []) ((BasePool.import providerOfSeven).run waitingShard).state := rfl
  ⟨waitingShard_reachable, hrun, import_unblocks_provided waitingShard_reachable hrun⟩

-- `prune_tags`, when it returns, leaves no operation waiting that misses a pruned tag.
theorem pruneTags_unblocks_pruned {s s' : BasePool H T} (hs : s.future.Reachable) {tags : List T}
    {status : PruneStatus H T} (h : (BasePool.pruneTags tags).run s = .ok status s') :
    s'.future.NoneMissing tags :=
  ((pruneTags_with (fun _ => True) (fun _ _ => trivial) tags).ok ⟨hs, trivial⟩ h).2

theorem pruneTags_unblocks_pruned_waitingShard :
    waitingShard.future.Reachable ∧
      (BasePool.pruneTags [7]).run waitingShard =
        .ok ⟨[.ready 1 [] [] []], [], []⟩ ((BasePool.pruneTags [7]).run waitingShard).state ∧
      ((BasePool.pruneTags [7]).run waitingShard).state.future.NoneMissing [7] :=
  have hrun : (BasePool.pruneTags [7]).run waitingShard =
      .ok ⟨[.ready 1 [] [] []], [], []⟩ ((BasePool.pruneTags [7]).run waitingShard).state := rfl
  ⟨waitingShard_reachable, hrun, pruneTags_unblocks_pruned waitingShard_reachable hrun⟩

end BasePool

-- Every method keeps the future queue of the shard one that the queue's methods reach.
theorem Op.run_keeps_future : ∀ op : Op H T,
    Keeps (BasePool.FutureWith fun _ => True) op.run fun _ => True
  | .import tx => Keeps.map ((BasePool.import_triple_with tx).conseq (fun _ h => h)
      (fun _ _ h => ⟨h.1, trivial⟩) (fun _ h => h)).keeps
  | .pruneTags tags => Keeps.map ((BasePool.pruneTags_with _ (fun _ _ => trivial) tags).conseq
      (fun _ h => h) (fun _ _ h => ⟨h.1, trivial⟩) (fun _ h => h)).keeps
  | .removeSubtree hashes => Keeps.map (BasePool.removeSubtree_keeps_with _ (fun _ _ => trivial) hashes)
  | .enforceLimits ready future =>
    Keeps.map (BasePool.enforceLimits_keeps_with _ (fun _ _ => trivial) ready future)
  | .clearFuture => Keeps.map (BasePool.liftFuture_keeps_with _ (fun _ _ => trivial) clear_shrinking)

namespace ShardedPool

-- A method called on one shard leaves the future queues of the others as they were.
theorem onShard_keeps_future {α : Type} {x : PoolM H T α} {post : α → Prop}
    (hx : Keeps (BasePool.FutureWith fun _ => True) x post) (shard : S) :
    Keeps (fun p : ShardedPool S H T => ∀ shard, (p.view shard).FutureWith fun _ => True)
      (onShard shard x) post := by
  refine Keeps.zoom_part hx (fun p hp => hp shard) fun p s hp hs other => ?_
  by_cases heq : other = shard
  · subst heq
    rw [view_update_self]
    exact hs
  · rw [view_update_of_ne _ _ heq]
    exact hp other

-- The future queue of every shard of a pool that calls of the methods reach from a new pool is one
-- that the queue's own methods reach from an empty queue, each called under the preconditions it
-- states.
theorem Reachable.future_reachable {p : ShardedPool S H T} (h : p.Reachable) (shard : S) :
    (p.future shard).Reachable := by
  have hall : ∀ shard, (p.view shard).FutureWith fun _ => True := by
    induction h with
    | new rejectFutureOperations hashOrder => exact fun _ => ⟨.empty hashOrder, trivial⟩
    | step shard op _ ih => exact (onShard_keeps_future (Op.run_keeps_future op) shard).state ih
  exact (hall shard).1

-- A pool in which an operation waits for the tag `7` on shard `0`.
def waitingImport : List (Nat × Op Nat Nat) := [(0, .import ⟨1, 1, 1, 2, [7], []⟩)]

theorem Reachable.future_reachable_waitingImport :
    (runOps waitingImport (ShardedPool.new false .listed)).2.Reachable ∧
      ((runOps waitingImport (ShardedPool.new false .listed)).2.future 0).Reachable :=
  ⟨reachable_runOps waitingImport (.new false .listed),
    Reachable.future_reachable (reachable_runOps waitingImport (.new false .listed)) 0⟩

end ShardedPool

end Pool
