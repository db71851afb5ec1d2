import PolkadexTee.Pool.Base
import PolkadexTee.Pool.Theorems.Import
import PolkadexTee.Pool.Theorems.Prune

/-! Where the pool's `expect` and `assert_eq!` calls fire. -/

namespace Pool

namespace ReadyOperations

variable {H T : Type} [DecidableEq H] [DecidableEq T]

-- `import` on a shard satisfying `HashReady` fires `expect(HASH_READY)` whenever the new operation
-- requires a tag it also provides and replaces that tag's provider.
theorem import_panics_of_replaced_requirement {s : ReadyOperations H T} (h : HashReady s)
    {tx : WaitingTrustedOperations H T} (hready : tx.isReady = true)
    (hfresh : s.contains tx.operation.hash = false) {tags : AList fun _ : T => H}
    (hs : s.providedTags = some tags) {tag : T} {other : H} (hreq : tag ∈ tx.operation.requires)
    (hprov : tag ∈ tx.operation.provides) (hl : tags.lookup tag = some other)
    (hprio : replacedPriority tags (s.ready.getD ∅) tx.operation < tx.operation.priority) :
    ∃ s', (ReadyOperations.import tx).run s = .error (.panic hashReady) s' := by
  -- the provider is in the ready map, so the shard has all three maps
  obtain ⟨_, hother, -⟩ := h.lookup (show (s.providedTags.getD ∅).lookup tag = some other by simp [hs, hl])
  obtain ⟨ready, hr⟩ : ∃ ready, s.ready = some ready := by
    cases hr : s.ready with
    | none => simp [hr] at hother
    | some ready => exact ⟨ready, rfl⟩
  obtain ⟨-, hb⟩ := h.present (by simp [hr])
  obtain ⟨best, hb⟩ := Option.isSome_iff_exists.mp hb
  -- the replacement removes the provider, but keeps the tag mapped to it
  obtain ⟨removed, unlocks, ready', tags', best', hrp, hrem⟩ := replacePrevious_replaces
    (show ({ s with insertionId := some (s.insertionId.getD 0 + 1) } : ReadyOperations H T).providedTags =
      some tags from hs) hr hb (.inr (by simpa [hr] using hprio))
  have hgone : ready'.lookup other = none :=
    hrem.removes_all other (mem_replacedHashes.mpr ⟨tag, hprov, hl⟩)
  have hkept : tags'.lookup tag = some other := (hrem.tags_kept tag ⟨_, rfl, hprov⟩).trans hl
  rw [import_run hready hfresh, hrp]
  simp only [Option.getD_some, linkRequires_panics _ tx.operation.hash tags' hkept ready' true 0
    tx.operation.requires hreq hgone]
  exact ⟨_, rfl⟩

-- `prune_tags` fires its `assert_eq!` whenever the operation providing the pruned tag lists another
-- tag twice.
theorem pruneTags_panics_of_repeated_tag {s : ReadyOperations H T} {tags : AList fun _ : T => H}
    {ready : AList fun _ : H => ReadyTx H T} {best : List (OperationRef H T)}
    (hs : s.providedTags = some tags) (hr : s.ready = some ready) (hb : s.best = some best)
    {tag x : T} {hash : H} {tx : ReadyTx H T} (hl : tags.lookup tag = some hash)
    (htx : ready.lookup hash = some tx) (hx : x ≠ tag)
    (hcount : 2 ≤ tx.operation.operation.provides.count x) :
    ∃ s', (ReadyOperations.pruneTags tag).run s = .error (.panic pruneAssertMsg) s' := by
  obtain ⟨fuel, hfuel⟩ : ∃ fuel, pruneFuel ready = fuel + 1 := ⟨_, rfl⟩
  rw [ReadyOperations.pruneTags, EStateM.run_bind, EStateM.run_get]
  dsimp only
  rw [hs, hr, Option.getD_some, hfuel]
  -- the first round of the loop pops the tag and removes its provider
  simp only [pruneTagsLoop, EStateM.run_bind, List.getLast?_singleton, unwrapProvidedTags_run hs,
    setProvidedTags_run, hl, unwrapReady, hr, EStateM.run_get, EStateM.run_pure, EStateM.run_modify,
    trackedRemove, countOut, htx,
    unwrapBest, hb, setBest_run, List.dropLast_singleton]
  -- what comes before the assertion returns, and keeps the tag map
  split
  · next toRemove s₄ hfind =>
    have h₄ := (findPreviousAll_returns (tags.erase tag) _ _ _).inv_of_ok ⟨rfl, rfl, rfl⟩ hfind
    split
    · next _ s₅ hprom =>
      have h₅ := (promoteUnlocked_returns (tags.erase tag) _).inv_of_ok h₄ hprom
      obtain ⟨s₆, hclear⟩ : ∃ s', (clearProvides tag tx.operation.operation.hash
          tx.operation.operation.provides).run s₅ = .error (.panic pruneAssertMsg) s' :=
        clearProvides_panics_of_repeated hx _ s₅ _ h₅.1 hcount
      simp only [hclear]
      exact ⟨_, rfl⟩
    · next _ _ hprom => exact absurd hprom ((promoteUnlocked_returns (tags.erase tag) _).ne_error h₄)
  · next _ _ hfind =>
    exact absurd hfind ((findPreviousAll_returns (tags.erase tag) _ _ _).ne_error ⟨rfl, rfl, rfl⟩)

end ReadyOperations

-- `A` provides the tag `7`; `B` requires and provides it, with a higher priority.
def providerA : TrustedOperation Nat Nat := ⟨1, 1, 1, 2, [], [7]⟩

def replacerB : TrustedOperation Nat Nat := ⟨1, 2, 2, 2, [7], [7]⟩

-- The ready queue once `A` is imported.
def providedByA : ReadyOperations Nat Nat :=
  ((ReadyOperations.import ⟨providerA, []⟩).run .empty).state

theorem import_panics_of_replaced_requirement_replacerB :
    ∃ s', (ReadyOperations.import ⟨replacerB, []⟩).run providedByA = .error (.panic hashReady) s' :=
  ReadyOperations.import_panics_of_replaced_requirement (by decide) rfl (by decide) rfl
    (show 7 ∈ replacerB.requires by decide) (by decide) (show AList.lookup 7 _ = some 1 by decide)
    (by decide)

-- `D` provides the tags `7`, `8` and `8` again.
def twiceD : TrustedOperation Nat Nat := ⟨1, 1, 1, 2, [], [7, 8, 8]⟩

-- The ready queue once `D` is imported.
def providedByD : ReadyOperations Nat Nat :=
  ((ReadyOperations.import ⟨twiceD, []⟩).run .empty).state

theorem pruneTags_panics_of_repeated_tag_twiceD :
    ∃ s', (ReadyOperations.pruneTags 7).run providedByD =
      .error (.panic ReadyOperations.pruneAssertMsg) s' :=
  ReadyOperations.pruneTags_panics_of_repeated_tag rfl rfl rfl
    (show AList.lookup 7 _ = some 1 by decide) (show AList.lookup 1 _ = some ⟨⟨twiceD, 1⟩, [], 0⟩ by decide)
    (show (8 : Nat) ≠ 7 by decide) (by decide)

def replaceProvider : PoolM Nat Nat Unit := do
  let _ ← BasePool.import providerA
  let _ ← BasePool.import replacerB

def pruneTwice : PoolM Nat Nat Unit := do
  let _ ← BasePool.import twiceD
  let _ ← BasePool.pruneTags [7]

theorem basePool_panics_on_replaced_provider_and_repeated_tag :
    (replaceProvider.run (BasePool.new false .listed)).toExcept = .error (.panic hashReady) ∧
    (pruneTwice.run (BasePool.new false .listed)).toExcept =
      .error (.panic ReadyOperations.pruneAssertMsg) := by
  refine ⟨?_, ?_⟩ <;> rfl

end Pool
