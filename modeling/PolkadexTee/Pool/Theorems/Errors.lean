import PolkadexTee.Pool.Base
import PolkadexTee.Pool.Theorems.Import

/-! The errors of `BasePool::import`. The methods of the two queues only panic, but for the
`TooLowPriority` of `replace_previous`, which changes nothing. -/

namespace Pool

open EStateM

variable {H T : Type} [DecidableEq H] [DecidableEq T]

namespace FutureTrustedOperations

theorem satisfyHashes_throws (tag : T) :
    ∀ (hashes : List H) (waiting : AList fun _ : H => WaitingTrustedOperations H T)
      (becameReady : List (WaitingTrustedOperations H T)),
      Throws (·.isPanic) (satisfyHashes tag hashes waiting becameReady)
  | [], _, _ => Throws.pure
  | hash :: rest, waiting, becameReady => by
    rw [satisfyHashes]
    split
    · exact Throws.throw rfl
    · dsimp only
      split
      · exact satisfyHashes_throws tag rest _ _
      · exact satisfyHashes_throws tag rest _ _

theorem satisfyTags_throws :
    ∀ (tags : List T) (becameReady : List (WaitingTrustedOperations H T)),
      Throws (·.isPanic) (satisfyTags tags becameReady)
  | [], _ => Throws.pure
  | tag :: rest, becameReady => by
    rw [satisfyTags]
    refine Throws.bind Throws.get fun s => ?_
    split
    · exact satisfyTags_throws rest _
    · split
      · exact satisfyTags_throws rest _
      · refine Throws.bind Throws.set fun _ => ?_
        split
        · exact satisfyTags_throws rest _
        · refine Throws.bind (satisfyHashes_throws _ _ _ _) fun ⟨waiting, becameReady⟩ => ?_
          exact Throws.bind Throws.modify fun _ => satisfyTags_throws rest _

theorem import_throws (tx : WaitingTrustedOperations H T) :
    Throws (·.isPanic) (FutureTrustedOperations.import tx) := by
  rw [FutureTrustedOperations.import]
  split
  · exact Throws.throw_bind rfl
  · refine Throws.bind Throws.get fun s => ?_
    dsimp only
    split
    · split
      · exact Throws.throw_bind rfl
      · exact Throws.bind Throws.get fun _ => Throws.set
    · exact Throws.bind Throws.get fun _ => Throws.set

end FutureTrustedOperations

namespace ReadyOperations

omit [DecidableEq H] [DecidableEq T] in
theorem unwrapReady_throws : Throws (·.isPanic) (unwrapReady : ReadyM H T _) := by
  refine Throws.bind Throws.get fun s => ?_
  split
  · exact Throws.pure
  · exact Throws.throw rfl

omit [DecidableEq H] [DecidableEq T] in
theorem unwrapProvidedTags_throws : Throws (·.isPanic) (unwrapProvidedTags : ReadyM H T _) := by
  refine Throws.bind Throws.get fun s => ?_
  split
  · exact Throws.pure
  · exact Throws.throw rfl

omit [DecidableEq H] [DecidableEq T] in
theorem unwrapBest_throws : Throws (·.isPanic) (unwrapBest : ReadyM H T _) := by
  refine Throws.bind Throws.get fun s => ?_
  split
  · exact Throws.pure
  · exact Throws.throw rfl

omit [DecidableEq H] in
theorem removeProvided_throws : ∀ tags : List T, Throws (·.isPanic) (removeProvided tags : ReadyM H T _)
  | [] => Throws.pure
  | _ :: rest =>
    Throws.bind unwrapProvidedTags_throws fun _ =>
      Throws.bind Throws.modify fun _ => removeProvided_throws rest

theorem removeFromUnlocks_throws (ready : AList fun _ : H => ReadyTx H T) :
    ∀ tags : List T, Throws (·.isPanic) (removeFromUnlocks ready tags)
  | [] => Throws.pure
  | _ :: rest => Throws.bind unwrapProvidedTags_throws fun _ => removeFromUnlocks_throws _ rest

theorem removeSubtreeLoop_throws (filter : Option (List T)) :
    ∀ (fuel : Nat) (ready : AList fun _ : H => ReadyTx H T) (toRemove : List H)
      (removed : List (TrustedOperation H T)),
      Throws (·.isPanic) (removeSubtreeLoop filter fuel ready toRemove removed)
  | 0, _, _, _ => Throws.pure
  | fuel + 1, ready, toRemove, removed => by
    rw [removeSubtreeLoop]
    split
    · exact Throws.pure
    · dsimp only
      split
      · exact removeSubtreeLoop_throws filter fuel _ _ _
      · refine Throws.bind Throws.modify fun _ => Throws.bind (removeProvided_throws _) fun _ => ?_
        refine Throws.bind (removeFromUnlocks_throws _ _) fun _ => ?_
        refine Throws.bind unwrapBest_throws fun _ => ?_
        exact Throws.bind Throws.modify fun _ => removeSubtreeLoop_throws filter fuel _ _ _

theorem removeSubtreeWithTagFilter_throws (toRemove : List H) (filter : Option (List T)) :
    Throws (·.isPanic) (removeSubtreeWithTagFilter toRemove filter) := by
  refine Throws.bind Throws.get fun s => ?_
  split
  · exact Throws.pure
  · refine Throws.bind (removeSubtreeLoop_throws _ _ _ _ _) fun ⟨_, _⟩ => ?_
    exact Throws.bind Throws.modify fun _ => Throws.pure

theorem linkRequires_throws (hash : H) (tagMap : AList fun _ : T => H) :
    ∀ (ready : AList fun _ : H => ReadyTx H T) (goesToBest : Bool) (requiresOffset : Nat)
      (tags : List T), Throws (·.isPanic) (linkRequires hash tagMap ready goesToBest requiresOffset tags)
  | _, _, _, [] => Throws.pure
  | ready, goesToBest, requiresOffset, tag :: rest => by
    rw [linkRequires]
    split
    · split
      · exact linkRequires_throws hash tagMap _ _ _ rest
      · exact Throws.throw rfl
    · exact linkRequires_throws hash tagMap _ _ _ rest

-- `replace_previous` fails only by a panic, or by refusing `tx`, which leaves the queue as it was.
theorem replacePrevious_error {s s' : ReadyOperations H T} {tx : TrustedOperation H T} {e : Error}
    (h : (replacePrevious tx).run s = .error e s') :
    e.isPanic ∨ (e = .tooLowPriority tx.priority ∧ s' = s) := by
  simp only [replacePrevious, run_bind, run_get] at h
  split at h
  · cases h
  · split at h
    · cases h
    · rcases run_bind_eq_error h with h₁ | ⟨ready, s₁, hready, h₁⟩
      · exact .inl (unwrapReady_throws s e s' h₁)
      · -- `unwrap_ready` only reads the queue
        have hs₁ : s₁ = s := by
          simp only [unwrapReady, run_bind, run_get] at hready
          split at hready
          · exact (Result.ok.inj hready).2.symm
          · cases hready
        subst hs₁
        split at h₁
        · rw [run_bind, run_throw_error] at h₁
          obtain ⟨rfl, rfl⟩ := Result.error.inj h₁
          exact .inr ⟨rfl, rfl⟩
        · refine .inl (Throws.bind unwrapReady_throws (fun _ => Throws.bind
            (removeSubtreeWithTagFilter_throws _ _) fun _ => Throws.pure) s₁ e s' h₁)

section Import

variable {s s' : ReadyOperations H T} {tx : WaitingTrustedOperations H T} {e : Error}

theorem import_run_of_not_ready (hready : tx.isReady = false) :
    (ReadyOperations.import tx).run s = .error (.panic "Only ready operations can be imported.") s := by
  simp [ReadyOperations.import, hready]

theorem import_run_of_contains (hready : tx.isReady = true) (hin : s.contains tx.operation.hash = true) :
    (ReadyOperations.import tx).run s = .error (.panic "TrustedOperation is already imported.") s := by
  cases hr : s.ready with
  | none => simp [contains, hr] at hin
  | some ready =>
    simp only [contains, hr] at hin
    simp [ReadyOperations.import, hready, hr, hin]

-- The import of a ready operation fails by a panic, or by the refusal of `replace_previous`, after
-- the insertion id has been counted.
theorem import_error (h : (ReadyOperations.import tx).run s = .error e s') :
    e.isPanic ∨ (e = .tooLowPriority tx.operation.priority ∧
      s' = { s with insertionId := some (s.insertionId.getD 0 + 1) }) := by
  cases hready : tx.isReady
  · rw [import_run_of_not_ready hready] at h
    obtain ⟨rfl, -⟩ := Result.error.inj h
    exact .inl rfl
  cases hin : s.contains tx.operation.hash
  · rw [import_run hready hin] at h
    split at h
    · -- past the replacement only the links can fail, by a panic
      split at h
      · cases h
      · next hlink =>
        obtain ⟨rfl, rfl⟩ := Result.error.inj h
        exact .inl (linkRequires_throws _ _ _ _ _ _ _ _ _ hlink)
    · next hrep =>
      obtain ⟨rfl, rfl⟩ := Result.error.inj h
      exact replacePrevious_error hrep
  · rw [import_run_of_contains hready hin] at h
    obtain ⟨rfl, -⟩ := Result.error.inj h
    exact .inl rfl

end Import

end ReadyOperations

namespace BasePool

section Import

variable {s s' : BasePool H T} {e : Error}

omit [DecidableEq H] [DecidableEq T] in
theorem liftReady_throws {α : Type} {x : ReadyM H T α} (h : Throws (·.isPanic) x) :
    Throws (·.isPanic) (liftReady x) :=
  Throws.zoom h

omit [DecidableEq H] [DecidableEq T] in
theorem liftFuture_throws {α : Type} {x : FutureM H T α} (h : Throws (·.isPanic) x) :
    Throws (·.isPanic) (liftFuture x) :=
  Throws.zoom h

-- After the first operation, the loop of `import_to_ready` counts a failed import as failed, and
-- only a panic gets out.
theorem importToReadyLoop_throws : ∀ (fuel : Nat) (toImport : List (WaitingTrustedOperations H T))
    (promoted failed : List H) (removed : List (TrustedOperation H T)),
    Throws (·.isPanic) (importToReadyLoop fuel false toImport promoted failed removed)
  | 0, _, _, _, _ => Throws.pure
  | fuel + 1, toImport, promoted, failed, removed => by
    rw [importToReadyLoop]
    split
    · exact Throws.pure
    · refine Throws.bind (liftFuture_throws (FutureTrustedOperations.satisfyTags_throws _ _))
        fun _ => ?_
      refine Throws.bind (Throws.zoom (Throws.attempt _ _)) fun r => ?_
      cases r with
      | error e => exact importToReadyLoop_throws fuel _ _ _ _
      | ok replaced => exact importToReadyLoop_throws fuel _ _ _ _

-- What the loop of `import_to_ready` throws, other than a panic, is the error of the first ready
-- import, from the state that `satisfy_tags` and that import left.
theorem importToReadyLoop_first_error {fuel : Nat} {tx : WaitingTrustedOperations H T}
    (h : (importToReadyLoop (fuel + 1) true [tx] [] [] []).run s = .error e s') :
    e.isPanic ∨ ∃ becameReady future ready,
      (FutureTrustedOperations.satisfyTags tx.operation.provides []).run s.future =
        .ok becameReady future ∧
      (ReadyOperations.import tx).run s.ready = .error e ready ∧
      s' = { s with future := future, ready := ready } := by
  rw [importToReadyLoop] at h
  simp only [List.getLast?_singleton] at h
  rcases run_bind_eq_error h with h₁ | ⟨becameReady, s₁, hlift, h₁⟩
  · exact .inl (liftFuture_throws (FutureTrustedOperations.satisfyTags_throws _ _) s e s' h₁)
  obtain ⟨future, hfut, rfl⟩ := run_zoom_eq_ok hlift
  rcases run_bind_eq_error h₁ with h₂ | ⟨r, s₂, hlift, h₂⟩
  · exact .inl (Throws.zoom (Throws.attempt _ _) _ e s' h₂)
  obtain ⟨ready, hattempt, rfl⟩ := run_zoom_eq_ok hlift
  cases r with
  | ok replaced => exact .inl (importToReadyLoop_throws _ _ _ _ _ _ e s' h₂)
  | error e₁ =>
    -- the first operation's error is thrown as it is
    obtain ⟨hrun, -⟩ := run_attempt_eq_ok_error hattempt
    dsimp only at h₂
    rw [if_pos trivial, run_throw_error] at h₂
    obtain ⟨rfl, rfl⟩ := Result.error.inj h₂
    exact .inr ⟨becameReady, future, ready, hfut, hrun, rfl⟩

theorem importToReady_error {tx : WaitingTrustedOperations H T}
    (h : (importToReady tx).run s = .error e s') :
    e.isPanic ∨ e = .cycleDetected ∨ ∃ becameReady future ready,
      (FutureTrustedOperations.satisfyTags tx.operation.provides []).run s.future =
        .ok becameReady future ∧
      (ReadyOperations.import tx).run s.ready = .error e ready ∧
      s' = { s with future := future, ready := ready } := by
  rw [importToReady] at h
  rcases run_bind_eq_error h with h₁ | ⟨_, s₁, hget, h₁⟩
  · cases h₁
  obtain ⟨-, rfl⟩ := Result.ok.inj hget
  rcases run_bind_eq_error h₁ with h₂ | ⟨⟨promoted, failed, removed⟩, s₂, -, h₂⟩
  · rcases importToReadyLoop_first_error h₂ with hp | hfirst
    · exact .inl hp
    · exact .inr (.inr hfirst)
  · dsimp only at h₂
    split at h₂
    · -- a cycle: the promoted operations are removed again
      rcases run_bind_eq_error h₂ with h₃ | ⟨_, s₃, -, h₃⟩
      · exact .inl (liftReady_throws (ReadyOperations.removeSubtreeWithTagFilter_throws _ _) _ e _ h₃)
      · rw [run_throw_bind] at h₃
        exact .inr (.inl (Result.error.inj h₃).1.symm)
    · cases h₂

-- The errors of `import`: the two refusals, before anything changes; the cycle found after the
-- promotions; a panic; or the refusal of the first ready import, from the state in which
-- `satisfy_tags` has taken the operations that `tx` releases out of the future queue.
theorem import_error_cases {tx : TrustedOperation H T} (h : (BasePool.import tx).run s = .error e s') :
    (e = .alreadyImported ∧ s' = s) ∨ (e = .rejectedFutureTrustedOperation ∧ s' = s) ∨
      e = .cycleDetected ∨ e.isPanic ∨
      (e = .tooLowPriority tx.priority ∧ ∃ becameReady future,
        (FutureTrustedOperations.satisfyTags tx.provides []).run s.future = .ok becameReady future ∧
        s' = { s with future := future,
                      ready := { s.ready with insertionId := some (s.ready.insertionId.getD 0 + 1) } }) := by
  rw [BasePool.import] at h
  rcases run_bind_eq_error h with h₁ | ⟨_, s₁, hget, h₁⟩
  · cases h₁
  obtain ⟨-, rfl⟩ := Result.ok.inj hget
  dsimp only at h₁
  split at h₁
  · rw [run_throw_bind] at h₁
    obtain ⟨rfl, rfl⟩ := Result.error.inj h₁
    exact .inl ⟨rfl, rfl⟩
  · split at h₁
    · split at h₁
      · rw [run_throw_bind] at h₁
        obtain ⟨rfl, rfl⟩ := Result.error.inj h₁
        exact .inr (.inl ⟨rfl, rfl⟩)
      · -- the import into the future queue only panics
        refine .inr (.inr (.inr (.inl ?_)))
        exact Throws.bind (liftFuture_throws (FutureTrustedOperations.import_throws _))
          (fun _ => Throws.pure) _ _ _ h₁
    · rcases importToReady_error h₁ with hp | hc | ⟨becameReady, future, ready, hfut, hrdy, rfl⟩
      · exact .inr (.inr (.inr (.inl hp)))
      · exact .inr (.inr (.inl hc))
      · rcases ReadyOperations.import_error hrdy with hp | ⟨rfl, rfl⟩
        · exact .inr (.inr (.inr (.inl hp)))
        · exact .inr (.inr (.inr (.inr ⟨rfl, becameReady, future, hfut, rfl⟩)))

end Import

end BasePool

-- A refused import that has already released a future operation: `C` waits for the tag `2`, which
-- the low-priority `B` provides along with `1`, whose provider `A` has the higher priority.

def highProviderA : TrustedOperation Nat Nat := ⟨1, 1, 10, 2, [], [1]⟩

def waiterC : TrustedOperation Nat Nat := ⟨1, 3, 1, 2, [2], []⟩

def lowReplacerB : TrustedOperation Nat Nat := ⟨1, 2, 1, 2, [], [1, 2]⟩

def providerAndWaiter : PoolM Nat Nat Unit := do
  let _ ← BasePool.import highProviderA
  let _ ← BasePool.import waiterC

def waiterPool : BasePool Nat Nat :=
  (providerAndWaiter.run (BasePool.new false .listed)).state

theorem import_tooLowPriority_drops_released_operation :
    waiterPool.future.contains 3 = true ∧
      ((BasePool.import lowReplacerB).run waiterPool).toExcept = .error (.tooLowPriority 1) ∧
      ((BasePool.import lowReplacerB).run waiterPool).state.future.contains 3 = false ∧
      ((BasePool.import lowReplacerB).run waiterPool).state.ready.contains 3 = false := by
  decide

-- The refusal of `B` is the last case of `import_error_cases`.
theorem import_error_cases_lowReplacerB :
    let refused := (BasePool.import lowReplacerB).run waiterPool
    refused = .error (.tooLowPriority 1) refused.state ∧
      ((Error.tooLowPriority 1 = .alreadyImported ∧ refused.state = waiterPool) ∨
        (Error.tooLowPriority 1 = .rejectedFutureTrustedOperation ∧ refused.state = waiterPool) ∨
        Error.tooLowPriority 1 = .cycleDetected ∨ (Error.tooLowPriority 1).isPanic ∨
        (Error.tooLowPriority 1 = .tooLowPriority lowReplacerB.priority ∧ ∃ becameReady future,
          (FutureTrustedOperations.satisfyTags lowReplacerB.provides []).run waiterPool.future =
            .ok becameReady future ∧
          refused.state =
            { waiterPool with future := future,
                              ready := { waiterPool.ready with
                                         insertionId := some (waiterPool.ready.insertionId.getD 0 + 1) } })) :=
  have hrun : (BasePool.import lowReplacerB).run waiterPool =
      .error (.tooLowPriority 1) ((BasePool.import lowReplacerB).run waiterPool).state :=
    rfl
  ⟨hrun, BasePool.import_error_cases hrun⟩

end Pool
