import PolkadexTee.Pool.Sharded

/-! Shard isolation. A method called on one shard returns what that shard's view decides and leaves
the queues of every other shard alone. Of what the shards share, only `prune_tags` changes
something: the ring of recently pruned tags. -/

namespace Pool

open EStateM

variable {S H T : Type} [DecidableEq S] [DecidableEq H] [DecidableEq T]

namespace BasePool

-- What the methods of all shards share.
def globals (self : BasePool H T) : Bool × (Fin 2 → List T) × Fin 2 :=
  (self.rejectFutureOperations, self.recentlyPruned, self.recentlyPrunedIndex)

section Globals

variable (g : Bool × (Fin 2 → List T) × Fin 2)

omit [DecidableEq H] [DecidableEq T] in
theorem liftReady_keeps_globals {α : Type} (x : ReadyM H T α) :
    Keeps (·.globals = g) (liftReady x) fun _ => True :=
  Keeps.zoom fun _ _ h => h

omit [DecidableEq H] [DecidableEq T] in
theorem liftFuture_keeps_globals {α : Type} (x : FutureM H T α) :
    Keeps (·.globals = g) (liftFuture x) fun _ => True :=
  Keeps.zoom fun _ _ h => h

theorem importToReadyLoop_keeps_globals : ∀ (fuel : Nat) (first : Bool)
    (toImport : List (WaitingTrustedOperations H T)) (promoted failed : List H)
    (removed : List (TrustedOperation H T)),
    Keeps (·.globals = g) (importToReadyLoop fuel first toImport promoted failed removed)
      fun _ => True
  | 0, _, _, _, _, _ => Keeps.pure trivial
  | fuel + 1, first, toImport, promoted, failed, removed => by
    rw [importToReadyLoop]
    split
    · exact Keeps.pure trivial
    · apply Keeps.bind (liftFuture_keeps_globals g _)
      intro becameReady _
      apply Keeps.bind (liftReady_keeps_globals g _)
      rintro (e | replaced) - <;> dsimp only
      · split
        · exact Keeps.throw
        · exact importToReadyLoop_keeps_globals fuel _ _ _ _ _
      · exact importToReadyLoop_keeps_globals fuel _ _ _ _ _

theorem importToReady_keeps_globals (tx : WaitingTrustedOperations H T) :
    Keeps (·.globals = g) (importToReady tx) fun _ => True := by
  apply Keeps.bind Keeps.get
  intro s _
  apply Keeps.bind (importToReadyLoop_keeps_globals g _ _ _ _ _ _)
  rintro ⟨promoted, failed, removed⟩ -
  dsimp only
  split
  · apply Keeps.bind (liftReady_keeps_globals g _)
    exact fun _ _ => Keeps.throw_bind
  · exact Keeps.pure trivial

theorem import_keeps_globals (tx : TrustedOperation H T) :
    Keeps (·.globals = g) (BasePool.import tx) fun _ => True := by
  apply Keeps.bind Keeps.get
  intro s _
  dsimp only
  split
  · exact Keeps.throw_bind
  · split
    · split
      · exact Keeps.throw_bind
      · exact Keeps.bind (liftFuture_keeps_globals g _) fun _ _ => Keeps.pure trivial
    · exact importToReady_keeps_globals g _

theorem removeSubtree_keeps_globals (hashes : List H) :
    Keeps (·.globals = g) (removeSubtree hashes) fun _ => True := by
  apply Keeps.bind (liftReady_keeps_globals g _)
  intro _ _
  apply Keeps.bind (liftFuture_keeps_globals g _)
  exact fun _ _ => Keeps.pure trivial

theorem enforceReadyLoop_keeps_globals (ready : Limit) :
    ∀ (fuel : Nat) (removed : List (TrustedOperation H T)),
      Keeps (·.globals = g) (enforceReadyLoop ready fuel removed) fun _ => True
  | 0, _ => Keeps.pure trivial
  | fuel + 1, removed => by
    rw [enforceReadyLoop]
    apply Keeps.bind Keeps.get
    intro s _
    split
    · exact Keeps.pure trivial
    · split
      · apply Keeps.bind (removeSubtree_keeps_globals g _)
        exact fun _ _ => enforceReadyLoop_keeps_globals ready fuel _
      · exact Keeps.pure trivial

theorem enforceFutureLoop_keeps_globals (future : Limit) :
    ∀ (fuel : Nat) (removed : List (TrustedOperation H T)),
      Keeps (·.globals = g) (enforceFutureLoop future fuel removed) fun _ => True
  | 0, _ => Keeps.pure trivial
  | fuel + 1, removed => by
    rw [enforceFutureLoop]
    apply Keeps.bind Keeps.get
    intro s _
    split
    · exact Keeps.pure trivial
    · split
      · apply Keeps.bind (removeSubtree_keeps_globals g _)
        exact fun _ _ => enforceFutureLoop_keeps_globals future fuel _
      · exact Keeps.pure trivial

theorem enforceLimits_keeps_globals (ready future : Limit) :
    Keeps (·.globals = g) (enforceLimits ready future : PoolM H T _) fun _ => True := by
  apply Keeps.bind Keeps.get
  intro s _
  apply Keeps.bind (enforceReadyLoop_keeps_globals g ready (s.ready.len + 1) [])
  intro _ _
  apply Keeps.bind Keeps.get
  exact fun s _ => enforceFutureLoop_keeps_globals g future (s.future.len + 1) _

end Globals

end BasePool

-- Every method but `prune_tags` leaves what the shards share as it was.
theorem Op.run_keeps_globals (g : Bool × (Fin 2 → List T) × Fin 2) :
    ∀ op : Op H T, op.prunes = false → Keeps (·.globals = g) op.run fun _ => True
  | .import tx, _ => Keeps.map (BasePool.import_keeps_globals g tx)
  | .removeSubtree hashes, _ => Keeps.map (BasePool.removeSubtree_keeps_globals g hashes)
  | .enforceLimits ready future, _ => Keeps.map (BasePool.enforceLimits_keeps_globals g ready future)
  | .clearFuture, _ => Keeps.map (BasePool.liftFuture_keeps_globals g _)

namespace ShardedPool

section Agree

variable {α : Type} {shard : S}

omit [DecidableEq H] [DecidableEq T] in
theorem toExcept_run_onShard (p : ShardedPool S H T) (x : PoolM H T α) :
    ((onShard shard x).run p).toExcept = (x.run (p.view shard)).toExcept :=
  toExcept_run_zoom _ _ x p

omit [DecidableEq H] [DecidableEq T] in
theorem state_run_onShard (p : ShardedPool S H T) (x : PoolM H T α) :
    ((onShard shard x).run p).state = p.update shard (x.run (p.view shard)).state :=
  state_run_zoom _ _ x p

-- The two pools differ at most in the queues of `shard`.
def AgreeOff (shard : S) (p q : ShardedPool S H T) : Prop :=
  ∀ other, other ≠ shard → p.view other = q.view other

omit [DecidableEq S] [DecidableEq H] [DecidableEq T] in
theorem AgreeOff.refl (p : ShardedPool S H T) : AgreeOff shard p p :=
  fun _ _ => rfl

-- A call on another shard, made on both sides, keeps the pools agreeing.
omit [DecidableEq H] [DecidableEq T] in
theorem AgreeOff.update {p q : ShardedPool S H T} {t : S} (h : AgreeOff shard p q) (ht : t ≠ shard)
    (s : BasePool H T) : AgreeOff shard (p.update t s) (q.update t s) := by
  intro other hother
  by_cases hot : other = t
  · subst hot
    simp only [view_update_self]
  · have hv := h other hother
    simp only [view, BasePool.mk.injEq] at hv
    rw [view_update_of_ne p s hot, view_update_of_ne q s hot, hv.2.1, hv.2.2.1]

-- A call on `shard` that keeps what the shards share leaves the others as they were.
omit [DecidableEq H] [DecidableEq T] in
theorem AgreeOff.update_left {p q : ShardedPool S H T} {s : BasePool H T} (h : AgreeOff shard p q)
    (hs : s.globals = (p.view shard).globals) : AgreeOff shard (p.update shard s) q := by
  intro other hother
  have hg : s.rejectFutureOperations = p.rejectFutureOperations ∧ s.recentlyPruned = p.recentlyPruned ∧
      s.recentlyPrunedIndex = p.recentlyPrunedIndex := by
    simpa only [BasePool.globals, view, Prod.mk.injEq] using hs
  rw [view_update_of_ne p s hother, ← h other hother, hg.1, hg.2.1, hg.2.2]
  rfl

end Agree

section Runs

variable {shard : S}

theorem runOps_cons (t : S) (op : Op H T) (rest : List (S × Op H T)) (p : ShardedPool S H T) :
    runOps ((t, op) :: rest) p =
      ((t, ((onShard t op.run).run p).toExcept) :: (runOps rest ((onShard t op.run).run p).state).1,
        (runOps rest ((onShard t op.run).run p).state).2) :=
  rfl

-- The run lemma: with no prune among the calls on `shard`, the run without them gives the other
-- shards the same results, and ends agreeing with the full run off `shard`.
theorem runOps_agreeOff : ∀ (ops : List (S × Op H T)) {p q : ShardedPool S H T},
    (∀ op, (shard, op) ∈ ops → op.prunes = false) → AgreeOff shard p q →
    (runOps ops p).1.filter (·.1 ≠ shard) = (runOps (ops.filter (·.1 ≠ shard)) q).1 ∧
      AgreeOff shard (runOps ops p).2 (runOps (ops.filter (·.1 ≠ shard)) q).2
  | [], _, _, _, h => ⟨rfl, h⟩
  | (t, op) :: rest, p, q, hops, h => by
    have hrest : ∀ op', (shard, op') ∈ rest → op'.prunes = false :=
      fun op' hm => hops op' (List.mem_cons_of_mem _ hm)
    rw [runOps_cons]
    by_cases ht : t = shard
    · subst t
      -- the second run skips this call
      have hkeeps : (op.run.run (p.view shard)).state.globals = (p.view shard).globals :=
        (Op.run_keeps_globals _ op (hops op List.mem_cons_self)).state rfl
      have hagree := h.update_left hkeeps
      rw [← state_run_onShard] at hagree
      obtain ⟨ih₁, ih₂⟩ := runOps_agreeOff rest hrest hagree
      simp only [List.filter_cons, ne_eq, not_true_eq_false, decide_false, Bool.false_eq_true,
        ↓reduceIte]
      exact ⟨ih₁, ih₂⟩
    · -- both runs make this call, from the same view of `t`
      have hv := h t ht
      have hagree := h.update ht (op.run.run (p.view t)).state
      rw [← state_run_onShard, hv, ← state_run_onShard] at hagree
      obtain ⟨ih₁, ih₂⟩ := runOps_agreeOff rest hrest hagree
      simp only [List.filter_cons, ne_eq, ht, not_false_eq_true, decide_true, ↓reduceIte, runOps_cons,
        toExcept_run_onShard, hv]
      exact ⟨congrArg _ ih₁, ih₂⟩

-- Deleting the calls on `shard`, none of them a prune, changes neither the results of the calls on
-- another shard nor what that shard holds at the end.
theorem runOps_isolated_of_not_prunes {other : S} (hne : other ≠ shard) (ops : List (S × Op H T))
    (hops : ∀ op, (shard, op) ∈ ops → op.prunes = false) (p : ShardedPool S H T) :
    (runOps ops p).1.filter (·.1 = other) =
        (runOps (ops.filter (·.1 ≠ shard)) p).1.filter (·.1 = other) ∧
      (runOps ops p).2.view other = (runOps (ops.filter (·.1 ≠ shard)) p).2.view other := by
  obtain ⟨h₁, h₂⟩ := runOps_agreeOff ops hops (AgreeOff.refl p)
  have hfilter : ∀ results : List (S × Except Error (Response H T)),
      results.filter (·.1 = other) = (results.filter (·.1 ≠ shard)).filter (·.1 = other) := by
    intro results
    rw [List.filter_filter]
    congr 1
    funext r
    by_cases hr : r.1 = other
    · simp [hr, hne]
    · simp [hr]
  rw [hfilter, h₁]
  exact ⟨rfl, h₂ other hne⟩

end Runs

end ShardedPool

-- A prune where the shards meet: the tag `7` pruned on shard `0` is taken as provided for an
-- operation imported on shard `1`, which goes to the ready queue there; without the prune it waits
-- in the future queue.

def requiresSeven : TrustedOperation Nat Nat := ⟨1, 1, 1, 2, [7], []⟩

def pruneThenImport : List (Nat × Op Nat Nat) := [(0, .pruneTags [7]), (1, .import requiresSeven)]

theorem runOps_prune_on_other_shard_readies_import :
    (ShardedPool.runOps pruneThenImport (ShardedPool.new false .listed)).1.filter (·.1 = 1) =
        [(1, .ok (.imported (.ready 1 [] [] [])))] ∧
      (ShardedPool.runOps (pruneThenImport.filter (·.1 ≠ 0)) (ShardedPool.new false .listed)).1.filter
        (·.1 = 1) = [(1, .ok (.imported (.future 1)))] := by
  decide

-- Calls on shard `0`, none a prune, between them an import on shard `1`: shard `1` answers and ends
-- as it does without them.

def importOnBoth : List (Nat × Op Nat Nat) :=
  [(0, .import requiresSeven), (1, .import requiresSeven), (0, .clearFuture)]

theorem runOps_isolated_of_not_prunes_importOnBoth :
    (∀ op, ((0 : Nat), op) ∈ importOnBoth → op.prunes = false) ∧
      (ShardedPool.runOps importOnBoth (ShardedPool.new false .listed)).1.filter (·.1 = 1) =
        (ShardedPool.runOps (importOnBoth.filter (·.1 ≠ 0)) (ShardedPool.new false .listed)).1.filter
          (·.1 = 1) ∧
      (ShardedPool.runOps importOnBoth (ShardedPool.new false .listed)).2.view 1 =
        (ShardedPool.runOps (importOnBoth.filter (·.1 ≠ 0)) (ShardedPool.new false .listed)).2.view 1 :=
  have hops : ∀ op, ((0 : Nat), op) ∈ importOnBoth → op.prunes = false := by
    intro op hop
    simp only [importOnBoth, List.mem_cons, Prod.mk.injEq, List.not_mem_nil, or_false] at hop
    rcases hop with ⟨-, rfl⟩ | ⟨h, -⟩ | ⟨-, rfl⟩
    · rfl
    · cases h
    · rfl
  ⟨hops, ShardedPool.runOps_isolated_of_not_prunes (by decide) importOnBoth hops (ShardedPool.new false .listed)⟩

end Pool
