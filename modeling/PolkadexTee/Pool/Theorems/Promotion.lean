import PolkadexTee.Pool.Theorems.Limits

/-! The promotion of the future operations that an import or a prune releases. -/

namespace Pool

open EStateM

variable {S H T : Type} [DecidableEq S] [DecidableEq H] [DecidableEq T]

namespace ReadyOperations

variable {s s' : ReadyOperations H T}

-- The links only append to unlock lists, whatever they find.
theorem linkRequires_extends (hash : H) (tagMap : AList fun _ : T => H) :
    ∀ (tags : List T) (ready : AList fun _ : H => ReadyTx H T) (goesToBest : Bool)
      (requiresOffset : Nat),
      Keeps (fun _ => True) (linkRequires hash tagMap ready goesToBest requiresOffset tags)
        fun r => Extends ready r.1
  | [], ready, _, _ => Keeps.pure (Extends.refl ready)
  | tag :: rest, ready, goesToBest, requiresOffset => by
    rw [linkRequires]
    split
    · split
      · next tx hl =>
        exact (linkRequires_extends hash tagMap rest _ false requiresOffset).mono fun _ h =>
          (extends_insert_append hl).trans h
      · exact Keeps.throw
    · exact linkRequires_extends hash tagMap rest ready goesToBest (requiresOffset + 1)

-- `replace_previous` on a ready queue of its shape, when it goes through, returns the operations of
-- the ready map that the map it leaves lacks.
theorem replacePrevious_removed (hs : s.Shaped) {tx : TrustedOperation H T}
    {r : List (TrustedOperation H T) × List H} (h : (replacePrevious tx).run s = .ok r s') :
    Retains (s.ready.getD ∅) (s'.ready.getD ∅) ∧
      ∀ op, op ∈ r.1 ↔ Left (s.ready.getD ∅) (s'.ready.getD ∅) op := by
  -- nothing replaced, nothing changed
  have hsame : Retains (s.ready.getD ∅) (s.ready.getD ∅) ∧
      ∀ op, op ∈ ([] : List (TrustedOperation H T)) ↔ Left (s.ready.getD ∅) (s.ready.getD ∅) op :=
    ⟨Retains.refl _, fun op => iff_of_false List.not_mem_nil (not_left_self op)⟩
  cases htags : s.providedTags with
  | none =>
    rw [replacePrevious_of_tags_none htags] at h
    obtain ⟨rfl, rfl⟩ := Result.ok.inj h
    exact hsame
  | some tags =>
    by_cases hnil : replacedHashes tags tx = []
    · rw [replacePrevious_of_nil htags hnil] at h
      obtain ⟨rfl, rfl⟩ := Result.ok.inj h
      exact hsame
    · cases hr : s.ready with
      | none =>
        -- `unwrap_ready` panics on a shard without a ready map
        simp only [replacedHashes] at hnil
        simp [replacePrevious, htags, hnil, unwrapReady, hr] at h
      | some ready =>
        by_cases hlt : replacedPriority tags ready tx < tx.priority
        · -- the removal of the replaced providers runs on the shard as it is
          obtain ⟨removed, s₂, hrun, hret, hmem, -⟩ :=
            removeSubtreeWithTagFilter_removed hs (replacedHashes tags tx) (some tx.provides)
          simp only [replacedPriority, replacedHashes] at hnil hlt hrun
          simp only [replacePrevious, EStateM.run_bind, EStateM.run_get, htags, List.isEmpty_iff, hnil,
            if_false, unwrapReady_run hr, ge_iff_le, not_le.mpr hlt, hrun] at h
          obtain ⟨rfl, rfl⟩ := Result.ok.inj h
          rw [hr] at hret hmem
          exact ⟨hret, hmem⟩
        · rw [replacePrevious_refuses htags hr hnil (not_lt.mp hlt)] at h
          cases h

-- An import that goes through leaves the new hash in the queue, and every hash it held before,
-- unless the operation under it was replaced.
theorem import_contains (hs : s.Shaped) {tx : WaitingTrustedOperations H T}
    {replaced : List (TrustedOperation H T)} (h : (ReadyOperations.import tx).run s = .ok replaced s') :
    s'.contains tx.operation.hash = true ∧
      ∀ hash, s.contains hash = true → s'.contains hash = true ∨ ∃ op ∈ replaced, op.hash = hash := by
  cases hready : tx.isReady
  · rw [import_run_of_not_ready hready] at h
    cases h
  cases hin : s.contains tx.operation.hash
  · rw [import_run hready hin] at h
    split at h
    · next r s₂ hrp =>
      split at h
      · next linked s₃ hlink =>
        obtain ⟨rfl, rfl⟩ := Result.ok.inj h
        obtain ⟨-, hmem⟩ := replacePrevious_removed (hs.withInsertionId _) hrp
        have hext := ((linkRequires_extends _ _ _ _ _ _).ok trivial hlink).2
        refine ⟨by simp [contains], fun hash hold => ?_⟩
        by_cases heq : hash = tx.operation.hash
        · subst heq
          exact .inl (by simp [contains])
        obtain ⟨t, hl⟩ := (contains_iff s).mp hold
        cases hl₂ : (s₂.ready.getD ∅).lookup hash with
        | none =>
          -- the replacement took the operation under the hash
          exact .inr ⟨t.operation.operation, (hmem _).mpr ⟨hash, t, hl, hl₂, rfl⟩, hs.keyed hash t hl⟩
        | some t₂ =>
          obtain ⟨t₃, hl₃, -⟩ := hext.keeps hash t₂ hl₂
          exact .inl (by simp [contains, AList.lookup_insert_ne heq, hl₃])
      · cases h
    · cases h
  · rw [import_run_of_contains hready hin] at h
    cases h

end ReadyOperations

namespace BasePool

-- Each of `hashes` is in the ready queue of `s`, or names an operation of `removed`.
def Promoted (s : BasePool H T) (removed : List (TrustedOperation H T)) (hashes : List H) : Prop :=
  ∀ hash ∈ hashes, s.ready.contains hash = true ∨ ∃ op ∈ removed, op.hash = hash

section Promoted

variable {s s₁ : BasePool H T} {removed : List (TrustedOperation H T)} {hashes : List H}

omit [DecidableEq T] in
theorem Promoted.mono (h : s.Promoted removed hashes) {hashes' : List H}
    (hsub : ∀ hash ∈ hashes', hash ∈ hashes) : s.Promoted removed hashes' :=
  fun hash hh => h hash (hsub hash hh)

omit [DecidableEq T] in
theorem Promoted.of_ready_eq (h : s.Promoted removed hashes) (heq : s₁.ready = s.ready) :
    s₁.Promoted removed hashes :=
  fun hash hh => heq ▸ h hash hh

omit [DecidableEq H] [DecidableEq T] in
theorem liftFuture_run_ready {α : Type} (x : FutureM H T α) (s : BasePool H T) :
    ((liftFuture x).run s).state.ready = s.ready := by
  rw [liftFuture, state_run_zoom]

-- One import of the loop of `import_to_ready`, on a shard of its shape. One that goes through adds
-- its hash to the promoted ones and what it replaced to the removed ones; one that fails without a
-- panic leaves the ready map as it was.
theorem liftReady_import_promoted (hs : s.Shaped) (hP : s.Promoted removed hashes)
    {tx : WaitingTrustedOperations H T} {res : Except Error (List (TrustedOperation H T))}
    (h : (liftReady (attempt Error.isPanic (ReadyOperations.import tx))).run s = .ok res s₁) :
    match res with
    | .ok replaced => s₁.Promoted (removed ++ replaced) (hashes ++ [tx.operation.hash])
    | .error _ => s₁.Promoted removed hashes := by
  obtain ⟨t, hrun, rfl⟩ := run_zoom_eq_ok h
  cases res with
  | ok replaced =>
    obtain ⟨hnew, hold⟩ := ReadyOperations.import_contains hs.ready (run_attempt_eq_ok_ok hrun)
    intro hash hh
    rcases List.mem_append.mp hh with hh | hh
    · rcases hP hash hh with hin | ⟨op, hop, rfl⟩
      · rcases hold hash hin with hin' | ⟨op, hop, rfl⟩
        · exact .inl hin'
        · exact .inr ⟨op, List.mem_append_right _ hop, rfl⟩
      · exact .inr ⟨op, List.mem_append_left _ hop, rfl⟩
    · rw [List.mem_singleton.mp hh]
      exact .inl hnew
  | error e =>
    obtain ⟨himp, hfatal⟩ := run_attempt_eq_ok_error hrun
    -- a refusal only counted the insertion id
    rcases ReadyOperations.import_error himp with hpanic | ⟨-, rfl⟩
    · rw [hpanic] at hfatal
      cases hfatal
    · exact hP

end Promoted

-- The loop of `import_to_ready`, from a shard of its shape, keeps every promoted hash in the ready
-- queue or among the hashes of the removed operations.
theorem importToReadyLoop_promoted :
    ∀ (fuel : Nat) (first : Bool) (toImport : List (WaitingTrustedOperations H T))
      (promoted failed : List H) (removed : List (TrustedOperation H T))
      (L : List (WaitingTrustedOperations H T)) {s s' : BasePool H T}
      {r : List H × List H × List (TrustedOperation H T)},
      s.Shaped → s.future.Fresh (L ++ toImport) → s.Promoted removed promoted →
      (importToReadyLoop fuel first toImport promoted failed removed).run s = .ok r s' →
      s'.Promoted r.2.2 r.1
  | 0, _, _, _, _, _, _, _, _, _, _, _, hP, h => by
    obtain ⟨rfl, rfl⟩ := Result.ok.inj h
    exact hP
  | fuel + 1, first, toImport, promoted, failed, removed, L, s, s', r, hs, hfresh, hP, h => by
    rw [importToReadyLoop] at h
    split at h
    · obtain ⟨rfl, rfl⟩ := Result.ok.inj h
      exact hP
    · next tx hlast =>
      have htx : tx ∈ toImport := List.mem_of_getLast? hlast
      rw [run_bind] at h
      cases hsat : (liftFuture (FutureTrustedOperations.satisfyTags tx.operation.provides [])).run s with
      | error e s₁ =>
        rw [hsat] at h
        cases h
      | ok becameReady s₁ =>
        rw [hsat] at h
        -- the release only takes operations out of the future queue
        obtain ⟨hs₁, hfresh₁⟩ :=
          (liftFuture_satisfyTags_triple tx.operation.provides (L ++ toImport)).ok ⟨hs, hfresh⟩ hsat
        have hready := liftFuture_run_ready (FutureTrustedOperations.satisfyTags tx.operation.provides []) s
        rw [hsat, Result.state_ok] at hready
        have hP₁ : s₁.Promoted removed promoted := hP.of_ready_eq hready
        dsimp only at h
        rw [run_bind] at h
        cases himp : (liftReady (attempt Error.isPanic (ReadyOperations.import tx))).run s₁ with
        | error e s₂ =>
          rw [himp] at h
          cases h
        | ok res s₂ =>
          rw [himp] at h
          obtain ⟨hs₂, hfresh₂⟩ := ((liftReady_import_keeps tx
            (show tx ∈ L ++ toImport ++ becameReady by simp [htx])).ok ⟨hs₁, hfresh₁⟩ himp).1
          have hnext : s₂.future.Fresh (L ++ (toImport.dropLast ++ becameReady)) :=
            hfresh₂.mono fun _ => mem_of_mem_dropLast_append
          have hstep := liftReady_import_promoted hs₁ hP₁ himp
          rcases res with e | replaced
          · dsimp only at h
            split at h
            · cases h
            · exact importToReadyLoop_promoted fuel false _ promoted _ removed L hs₂ hnext hstep h
          · -- the first operation is not counted as promoted
            refine importToReadyLoop_promoted fuel false _ _ failed _ L hs₂ hnext
              (hstep.mono fun hash hh => ?_) h
            split at hh
            · exact List.mem_append_left _ hh
            · exact hh

-- `import_to_ready` of an operation that is not waiting, on a shard of its shape, reports the
-- operation's hash and promoted hashes that the ready queue holds or that name a removed operation.
theorem importToReady_promoted {s s' : BasePool H T} (hs : s.Shaped) {tx : WaitingTrustedOperations H T}
    (hfresh : s.future.contains tx.operation.hash = false) {res : Imported H T}
    (h : (importToReady tx).run s = .ok res s') :
    ∃ promoted failed removed, res = .ready tx.operation.hash promoted failed removed ∧
      s'.Promoted removed promoted := by
  rw [importToReady, run_bind, run_get] at h
  dsimp only at h
  rw [run_bind] at h
  cases hloop : (importToReadyLoop (s.future.len + 2) true [tx] [] [] []).run s with
  | error e s₁ =>
    rw [hloop] at h
    cases h
  | ok r s₁ =>
    rw [hloop] at h
    obtain ⟨promoted, failed, removed⟩ := r
    have hP := importToReadyLoop_promoted _ true [tx] [] [] [] [] hs
      (fun w hw => by rw [List.nil_append, List.mem_singleton] at hw; rw [hw]; exact hfresh)
      (fun _ hh => absurd hh List.not_mem_nil) hloop
    dsimp only at h
    split at h
    · -- a cycle ends in an error
      rw [run_bind] at h
      split at h <;> cases h
    · obtain ⟨rfl, rfl⟩ := Result.ok.inj h
      exact ⟨promoted, failed, removed, rfl, hP⟩

-- The hashes an import on a shard of its shape reports promoted are in the ready queue, or name an
-- operation it reports removed.
theorem import_promoted {s s' : BasePool H T} (hs : s.Shaped) {tx : TrustedOperation H T}
    {hash : H} {promoted failed : List H} {removed : List (TrustedOperation H T)}
    (h : (BasePool.import tx).run s = .ok (.ready hash promoted failed removed) s') :
    s'.Promoted removed promoted := by
  rw [BasePool.import, run_bind, run_get] at h
  dsimp only at h
  split at h
  · cases h
  · next hnew =>
    have hfuture : s.future.contains tx.hash = false := by
      simp only [isImported, Bool.or_eq_true, not_or, Bool.not_eq_true] at hnew
      exact hnew.1
    split at h
    · -- a waiting operation is refused or reported as `Imported::Future`
      split at h
      · cases h
      · rw [run_bind] at h
        split at h
        · obtain ⟨hres, -⟩ := Result.ok.inj h
          cases hres
        · cases h
    · obtain ⟨_, _, _, hres, hP⟩ := importToReady_promoted hs hfuture h
      cases hres
      exact hP

end BasePool

-- An import on a shard of a reachable pool reports promoted hashes that the shard's ready queue
-- holds afterwards, or that name an operation it reports removed.
theorem ShardedPool.import_promoted_ready_or_removed {p p' : ShardedPool S H T} (hp : p.Reachable)
    (shard : S) {tx : TrustedOperation H T} {hash : H} {promoted failed : List H}
    {removed : List (TrustedOperation H T)}
    (h : (onShard shard (BasePool.import tx)).run p = .ok (.ready hash promoted failed removed) p') :
    ∀ promotedHash ∈ promoted, (p'.ready shard).contains promotedHash = true ∨
      ∃ op ∈ removed, op.hash = promotedHash := by
  obtain ⟨s', hrun, rfl⟩ := run_zoom_eq_ok h
  have hP := BasePool.import_promoted (hp.shaped shard) hrun
  intro promotedHash hh
  simpa [update] using hP promotedHash hh

-- On shard `0` the operation of hash `1` waits for the tag `7`; the import of a provider of `7`
-- promotes it into the ready queue.

def waitsForSeven : ShardedPool Nat Nat Nat :=
  (ShardedPool.runOps [(0, .import ⟨1, 1, 1, 2, [7], []⟩)] (ShardedPool.new false .listed)).2

def releasesSeven : TrustedOperation Nat Nat := ⟨1, 2, 1, 2, [], [7]⟩

theorem import_promoted_ready_or_removed_waitsForSeven :
    waitsForSeven.Reachable ∧
      (ShardedPool.onShard 0 (BasePool.import releasesSeven)).run waitsForSeven =
        .ok (.ready 2 [1] [] []) ((ShardedPool.onShard 0 (BasePool.import releasesSeven)).run waitsForSeven).state ∧
      ∀ promotedHash ∈ [1],
        (((ShardedPool.onShard 0 (BasePool.import releasesSeven)).run waitsForSeven).state.ready 0).contains
            promotedHash = true ∨
          ∃ op ∈ ([] : List (TrustedOperation Nat Nat)), op.hash = promotedHash :=
  have hp : waitsForSeven.Reachable := ShardedPool.reachable_runOps _ (.new false .listed)
  have hrun : (ShardedPool.onShard 0 (BasePool.import releasesSeven)).run waitsForSeven =
      .ok (.ready 2 [1] [] []) ((ShardedPool.onShard 0 (BasePool.import releasesSeven)).run waitsForSeven).state :=
    rfl
  ⟨hp, hrun, ShardedPool.import_promoted_ready_or_removed hp 0 hrun⟩


-- Two future operations that compete for the tag `5`, both released by `X`.

def releaserX : TrustedOperation Nat Nat := ⟨1, 1, 1, 2, [], [1]⟩

def competitorF₁ : TrustedOperation Nat Nat := ⟨1, 2, 2, 2, [1], [5]⟩

def competitorF₂ : TrustedOperation Nat Nat := ⟨1, 3, 1, 2, [1], [5]⟩

def competitorsPool : BasePool Nat Nat :=
  ((do
    let _ ← BasePool.import competitorF₁
    let _ ← BasePool.import competitorF₂ : PoolM Nat Nat Unit).run (BasePool.new false .listed)).state

theorem import_reports_replaced_promotion :
    ((BasePool.import releaserX).run competitorsPool).toExcept =
        .ok (.ready 1 [3, 2] [] [competitorF₂]) ∧
      ((BasePool.import releaserX).run competitorsPool).state.ready.contains 3 = false ∧
      ((BasePool.import releaserX).run competitorsPool).state.future.contains 3 = false := by
  decide +kernel

-- A prune that promotes a provider of a pruned tag: `B` waits for the tag `2` and provides `1`,
-- which the ready `A` provides too. `prune_tags([2, 1])` releases `B` at `2`, prunes `A` at `1`,
-- and then imports `B`, which provides `1` in the ready queue.

def readyProviderA : TrustedOperation Nat Nat := ⟨1, 1, 1, 2, [], [1]⟩

def waitingProviderB : TrustedOperation Nat Nat := ⟨1, 2, 1, 2, [2], [1]⟩

def providersPool : BasePool Nat Nat :=
  ((do
    let _ ← BasePool.import readyProviderA
    let _ ← BasePool.import waitingProviderB : PoolM Nat Nat Unit).run (BasePool.new false .listed)).state

theorem pruneTags_promotes_provider_of_pruned_tag :
    ((BasePool.pruneTags [2, 1]).run providersPool).toExcept =
        .ok ⟨[.ready 2 [] [] []], [], [readyProviderA]⟩ ∧
      ((((BasePool.pruneTags [2, 1]).run providersPool).state.ready.ready.getD ∅).lookup 2).map
        (fun tx => tx.operation.operation.provides) = some [1] := by
  decide +kernel

end Pool
