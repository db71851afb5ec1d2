import PolkadexTee.Pool.Resubmit
import PolkadexTee.Pool.Theorems.Isolation
import PolkadexTee.Pool.Theorems.Limits

/-! What `resubmit` does to the shard. -/

namespace Pool

open EStateM

variable {H T : Type} [DecidableEq H] [DecidableEq T]

namespace BasePool

variable {s s' : BasePool H T}

omit [DecidableEq T] in
theorem Shaped.withReject (h : s.Shaped) (b : Bool) :
    ({ s with rejectFutureOperations := b } : BasePool H T).Shaped :=
  ⟨h.ready, h.future, h.disjoint⟩

omit [DecidableEq T] in
-- No two operations of a shard of its shape share a hash.
theorem Shaped.eq_of_hash_eq (hs : s.Shaped) {op op' : TrustedOperation H T} (h : op ∈ s.operations)
    (h' : op' ∈ s.operations) (heq : op.hash = op'.hash) : op = op' := by
  rcases hs.mem_operations_iff.mp h with ⟨tx, hl, rfl⟩ | ⟨tx, hl, rfl⟩ <;>
    rcases hs.mem_operations_iff.mp h' with ⟨tx', hl', rfl⟩ | ⟨tx', hl', rfl⟩ <;>
    rw [heq] at hl
  · rw [hl] at hl'
    cases hl'
    rfl
  · rw [hs.future_lookup_eq_none hl] at hl'
    cases hl'
  · rw [hs.future_lookup_eq_none hl'] at hl
    cases hl
  · rw [hl] at hl'
    cases hl'
    rfl

omit [DecidableEq T] in
-- A hash that neither queue has entered is the hash of no operation of the shard.
theorem Shaped.hash_ne (hs : s.Shaped) {hash : H} (hr : (s.ready.ready.getD ∅).lookup hash = none)
    (hf : (s.future.waiting.getD ∅).lookup hash = none) : ∀ op ∈ s.operations, op.hash ≠ hash := by
  intro op hop heq
  subst heq
  rcases hs.mem_operations_iff.mp hop with ⟨tx, hl, -⟩ | ⟨tx, hl, -⟩
  · rw [hr] at hl
    cases hl
  · rw [hf] at hl
    cases hl

omit [DecidableEq T] in
theorem clearFuture_keeps_shaped : Keeps Shaped (clearFuture : PoolM H T _) fun _ => True :=
  liftFuture_keeps_shaped fun K => FutureTrustedOperations.clear_keeps_shaped K

omit [DecidableEq T] in
-- `clear_future` on a shard of its shape leaves no operation waiting.
theorem clearFuture_empties (hs : s.Shaped) {cleared : List (TrustedOperation H T)}
    (h : (clearFuture : PoolM H T _).run s = .ok cleared s') : ∀ hash, s'.future.contains hash = false := by
  obtain ⟨f, hrun, rfl⟩ := run_zoom_eq_ok h
  simp only [FutureTrustedOperations.clear, run_bind, run_get] at hrun
  intro hash
  split at hrun
  · -- no wanted tags: then no waiting map either
    next hw =>
    cases hrun
    cases hwait : s.future.waiting with
    | none => simp [FutureTrustedOperations.contains, hwait]
    | some _ =>
      have := hs.future.present (by simp [hwait])
      rw [hw] at this
      cases this
  · split at hrun
    · cases hrun
    · cases hrun
      simp [FutureTrustedOperations.contains]

omit [DecidableEq H] [DecidableEq T] in
-- `with_futures_enabled` keeps what every run of its closure keeps, if the flag does not matter to
-- it.
theorem withFuturesEnabled_keeps {α : Type} {inv : BasePool H T → Prop} {post : α → Prop}
    {closure : Bool → PoolM H T α}
    (hinv : ∀ s b, inv s → inv { s with rejectFutureOperations := b })
    (hc : ∀ b, Keeps inv (closure b) post) : Keeps inv (withFuturesEnabled closure) post := by
  apply Keeps.bind Keeps.get
  intro s _
  apply Keeps.bind (Keeps.modify fun s hs => hinv s false hs)
  intro _ _
  apply Keeps.bind (hc _)
  intro a ha
  exact (Keeps.modify fun s hs => hinv s _ hs).bind fun _ _ => Keeps.pure ha

omit [DecidableEq H] [DecidableEq T] in
-- The closure runs from the shard with the flag cleared, given the flag as it was, which is set
-- back where it returns.
theorem run_withFuturesEnabled_eq_ok {α : Type} {closure : Bool → PoolM H T α} {a : α}
    (h : (withFuturesEnabled closure).run s = .ok a s') :
    ∃ s₁, (closure s.rejectFutureOperations).run { s with rejectFutureOperations := false } = .ok a s₁ ∧
      s' = { s₁ with rejectFutureOperations := s.rejectFutureOperations } := by
  simp only [withFuturesEnabled, run_bind, run_get, run_modify] at h
  split at h
  · next a₁ s₁ hc =>
    simp only [run_pure] at h
    obtain ⟨rfl, rfl⟩ := Result.ok.inj h
    exact ⟨s₁, hc, rfl⟩
  · cases h

end BasePool

namespace ValidatedPool

open BasePool

-- The first loop.

section RemoveLoop

variable {s s₁ s' : BasePool H T}

theorem removeLoop_nil {updated : Updates H T} (h : updated.entries = []) (initialStatuses : Statuses H)
    (txsToResubmit : List (H × ValidatedOperation H T)) :
    removeLoop updated initialStatuses txsToResubmit = pure (initialStatuses, txsToResubmit) := by
  rw [removeLoop]
  split
  · rfl
  · next heq =>
    rw [h] at heq
    cases heq

theorem removeLoop_cons {updated : Updates H T} {hash : H} {tx : ValidatedOperation H T}
    {rest : List (Sigma fun _ : H => ValidatedOperation H T)} (h : updated.entries = ⟨hash, tx⟩ :: rest)
    (initialStatuses : Statuses H) (txsToResubmit : List (H × ValidatedOperation H T)) :
    removeLoop updated initialStatuses txsToResubmit = (do
      let removed ← BasePool.removeSubtree [hash]
      let acc := removed.foldl keepRemoved (updated, initialStatuses, txsToResubmit)
      removeLoop (acc.1.erase hash) acc.2.1 acc.2.2) := by
  rw [removeLoop]
  split
  · next heq =>
    rw [h] at heq
    cases heq
  · next heq =>
    rw [h] at heq
    cases heq
    rfl

omit [DecidableEq T] in
theorem keepRemoved_cases (updated : Updates H T) (initialStatuses : Statuses H)
    (txsToResubmit : List (H × ValidatedOperation H T)) (removedTx : TrustedOperation H T) :
    ∃ v, keepRemoved (updated, initialStatuses, txsToResubmit) removedTx =
        (updated.erase removedTx.hash, initialStatuses.insert removedTx.hash .ready,
          txsToResubmit ++ [(removedTx.hash, v)]) ∧
      (updated.lookup removedTx.hash = some v ∨
        updated.lookup removedTx.hash = none ∧ v = .valid removedTx) := by
  cases hl : updated.lookup removedTx.hash with
  | none => exact ⟨.valid removedTx, by simp [keepRemoved, hl], .inr ⟨rfl, rfl⟩⟩
  | some v => exact ⟨v, by simp [keepRemoved, hl], .inl rfl⟩

omit [DecidableEq T] in
-- What the first loop keeps of the operations one `remove_subtree` returned: an entry for each, in
-- order, under its hash, with the update the map has for that hash or the operation itself. The map
-- loses their hashes, and the start statuses gain them.
theorem foldl_keepRemoved (removed : List (TrustedOperation H T)) :
    ∀ (updated : Updates H T) (initialStatuses : Statuses H)
      (txsToResubmit : List (H × ValidatedOperation H T)),
      ∃ kept, removed.foldl keepRemoved (updated, initialStatuses, txsToResubmit) =
          ((removed.map (·.hash)).foldl (fun u hash => u.erase hash) updated,
            (removed.map (·.hash)).foldl (fun i hash => i.insert hash .ready) initialStatuses,
            txsToResubmit ++ kept) ∧
        kept.map Prod.fst = removed.map (·.hash) ∧
        (∀ e ∈ kept, ∃ op ∈ removed, e.1 = op.hash ∧
          (updated.lookup op.hash = some e.2 ∨ e.2 = .valid op)) ∧
        ∀ op ∈ removed, ∀ v, updated.lookup op.hash = some v → (op.hash, v) ∈ kept := by
  induction removed with
  | nil => exact fun _ _ _ => ⟨[], by simp, rfl, by simp, by simp⟩
  | cons x rest ih =>
    intro updated initialStatuses txsToResubmit
    obtain ⟨v, hstep, hv⟩ := keepRemoved_cases updated initialStatuses txsToResubmit x
    obtain ⟨kept, hfold, hfst, hkept, hupd⟩ :=
      ih (updated.erase x.hash) (initialStatuses.insert x.hash .ready) (txsToResubmit ++ [(x.hash, v)])
    refine ⟨(x.hash, v) :: kept, ?_, by simp [hfst], fun e he => ?_, fun op hop w hl => ?_⟩
    · rw [List.foldl_cons, hstep, hfold, List.append_assoc]
      rfl
    · rcases List.mem_cons.mp he with rfl | he
      · exact ⟨x, List.mem_cons_self, rfl, hv.imp_right (·.2)⟩
      · -- the rest looked up the map without `x`'s hash
        obtain ⟨op, hop, he₁, he₂⟩ := hkept e he
        refine ⟨op, List.mem_cons_of_mem _ hop, he₁, he₂.imp_left fun hl => ?_⟩
        by_cases hh : op.hash = x.hash
        · rw [hh, AList.lookup_erase] at hl
          cases hl
        · rwa [AList.lookup_erase_ne hh] at hl
    · by_cases hh : op.hash = x.hash
      · rw [hh] at hl ⊢
        rcases hv with hv | ⟨hnone, -⟩
        · rw [hl] at hv
          cases hv
          exact List.mem_cons_self
        · rw [hl] at hnone
          cases hnone
      · rcases List.mem_cons.mp hop with rfl | hop
        · exact absurd rfl hh
        · exact List.mem_cons_of_mem _ (hupd op hop w (by rwa [AList.lookup_erase_ne hh]))

-- What the first loop does to a shard `s` that it leaves as `s'`, keeping `kept` for the second
-- loop: no operation left has a hash of the map, and `kept` has an entry for each operation that
-- left and for nothing else, under its hash, carrying the map's update where the map has one and
-- the operation as the shard had it otherwise.
structure TakesOut (updated : Updates H T) (s s' : BasePool H T)
    (kept : List (H × ValidatedOperation H T)) : Prop where
  shrinks   : Shrinks s s'
  gone      : ∀ hash ∈ updated, ∀ op ∈ s'.operations, op.hash ≠ hash
  kept_left : ∀ e ∈ kept, ∃ op ∈ s.operations, op ∉ s'.operations ∧ e.1 = op.hash ∧
    (updated.lookup op.hash = some e.2 ∨ e.2 = .valid op)
  left_kept : ∀ op ∈ s.operations, op ∉ s'.operations → ∃ v, (op.hash, v) ∈ kept
  updates   : ∀ op ∈ s.operations, ∀ v, updated.lookup op.hash = some v → (op.hash, v) ∈ kept

namespace TakesOut

omit [DecidableEq T] in
theorem nil {updated : Updates H T} (h : updated.entries = []) (s : BasePool H T) : TakesOut updated s s [] where
  shrinks := Shrinks.refl s
  gone hash hmem := by
    rw [AList.mem_keys, AList.keys, h] at hmem
    cases hmem
  kept_left _ he := nomatch he
  left_kept _ hop hout := absurd hop hout
  updates op _ v hl := by
    have hmem : op.hash ∈ updated := AList.lookup_isSome.mp (by rw [hl]; rfl)
    rw [AList.mem_keys, AList.keys, h] at hmem
    cases hmem

omit [DecidableEq T] in
-- One round of the first loop, from the first hash of the map, followed by the rounds after it on
-- the map without the hashes this round took out.
theorem round {updated : Updates H T} {hash : H} (hs : s.Shaped)
    {removed : List (TrustedOperation H T)} (hsh : Shrinks s s₁)
    (hmem : ∀ op, op ∈ removed ↔ op ∈ s.operations ∧ op ∉ s₁.operations)
    (hgone : ∀ op ∈ s₁.operations, op.hash ≠ hash) {kept₁ kept₂ : List (H × ValidatedOperation H T)}
    (hfst : kept₁.map Prod.fst = removed.map (·.hash))
    (hkept : ∀ e ∈ kept₁, ∃ op ∈ removed, e.1 = op.hash ∧
      (updated.lookup op.hash = some e.2 ∨ e.2 = .valid op))
    (hupd : ∀ op ∈ removed, ∀ v, updated.lookup op.hash = some v → (op.hash, v) ∈ kept₁)
    (h : TakesOut (((removed.map (·.hash)).foldl (fun u hash => u.erase hash) updated).erase hash)
      s₁ s' kept₂) :
    TakesOut updated s s' (kept₁ ++ kept₂) := by
  -- an operation still in `s₁` has a hash that no operation taken out in this round had
  have hstays : ∀ op ∈ s₁.operations, op.hash ∉ removed.map (·.hash) := by
    intro op hop hin
    obtain ⟨op', hop', heq⟩ := List.mem_map.mp hin
    have ⟨hin', hout'⟩ := (hmem op').mp hop'
    exact hout' (hs.eq_of_hash_eq hin' (hsh.mem_operations hop) heq ▸ hop)
  have hlookup : ∀ op ∈ s₁.operations,
      (((removed.map (·.hash)).foldl (fun u hash => u.erase hash) updated).erase hash).lookup op.hash =
        updated.lookup op.hash := by
    intro op hop
    rw [AList.lookup_erase_ne (hgone op hop), AList.lookup_foldl_erase, if_neg (hstays op hop)]
  refine ⟨hsh.trans h.shrinks, fun hash' hmem' op hop => ?_, fun e he => ?_, fun op hop hout => ?_,
    fun op hop v hl => ?_⟩
  · have hop₁ := h.shrinks.mem_operations hop
    by_cases hh : hash' = hash
    · exact hh ▸ hgone op hop₁
    · by_cases hr : hash' ∈ removed.map (·.hash)
      · exact fun heq => hstays op hop₁ (heq ▸ hr)
      · exact h.gone hash' (AList.mem_erase.mpr ⟨hh, AList.mem_foldl_erase.mpr ⟨hr, hmem'⟩⟩) op hop
  · rcases List.mem_append.mp he with he | he
    · obtain ⟨op, hop, he₁, he₂⟩ := hkept e he
      have ⟨hin, hout⟩ := (hmem op).mp hop
      exact ⟨op, hin, fun h' => hout (h.shrinks.mem_operations h'), he₁, he₂⟩
    · obtain ⟨op, hop, hout, he₁, he₂⟩ := h.kept_left e he
      refine ⟨op, hsh.mem_operations hop, hout, he₁, he₂.imp_left fun hl => ?_⟩
      rwa [hlookup op hop] at hl
  · by_cases hop₁ : op ∈ s₁.operations
    · obtain ⟨v, hv⟩ := h.left_kept op hop₁ hout
      exact ⟨v, List.mem_append_right _ hv⟩
    · have hin : op.hash ∈ kept₁.map Prod.fst := hfst ▸ List.mem_map_of_mem ((hmem op).mpr ⟨hop, hop₁⟩)
      obtain ⟨e, he, heq⟩ := List.mem_map.mp hin
      exact ⟨e.2, List.mem_append_left _ (heq ▸ he)⟩
  · by_cases hop₁ : op ∈ s₁.operations
    · exact List.mem_append_right _ (h.updates op hop₁ v (by rwa [hlookup op hop₁]))
    · exact List.mem_append_left _ (hupd op ((hmem op).mpr ⟨hop, hop₁⟩) v hl)

end TakesOut

-- On a shard of its shape the first loop returns: the shard keeps its shape and what the loop
-- shares with the rest of the pool, the loop takes out what `TakesOut` says, and each kept entry is
-- appended to the operations to resubmit and starts as ready.
theorem removeLoop_run (updated : Updates H T) (initialStatuses : Statuses H)
    (txsToResubmit : List (H × ValidatedOperation H T)) {s : BasePool H T} (hs : s.Shaped) :
    ∃ kept s', (removeLoop updated initialStatuses txsToResubmit).run s =
        .ok ((kept.map Prod.fst).foldl (fun i hash => i.insert hash .ready) initialStatuses,
          txsToResubmit ++ kept) s' ∧
      s'.Shaped ∧ s'.globals = s.globals ∧ TakesOut updated s s' kept := by
  induction updated, initialStatuses, txsToResubmit using removeLoop.induct generalizing s with
  | case1 updated initialStatuses txsToResubmit hnil =>
    refine ⟨[], s, ?_, hs, rfl, TakesOut.nil hnil s⟩
    rw [removeLoop_nil hnil]
    simp
  | case2 updated initialStatuses txsToResubmit hash tx rest hcons ih =>
    obtain ⟨removed, s₁, hrun, hs₁, hsh, hmem, hgone⟩ := BasePool.removeSubtree_round hs [hash]
    have hglobals : s₁.globals = s.globals := ((removeSubtree_keeps_globals _ [hash]).ok rfl hrun).1
    obtain ⟨kept₁, hfold, hfst, hkept, hupd⟩ :=
      foldl_keepRemoved removed updated initialStatuses txsToResubmit
    have ih := ih removed hs₁
    simp only [hfold] at ih
    obtain ⟨kept₂, s', hrun', hs', hglobals', htakes⟩ := ih
    refine ⟨kept₁ ++ kept₂, s', ?_, hs', hglobals'.trans hglobals, ?_⟩
    · rw [removeLoop_cons hcons, run_bind_of_ok hrun]
      simp only [hfold]
      rw [hrun', List.map_append, List.foldl_append, hfst, List.append_assoc]
    · have hgone₁ := hs₁.hash_ne (hgone hash List.mem_cons_self).1 (hgone hash List.mem_cons_self).2
      exact TakesOut.round hs hsh hmem hgone₁ hfst hkept hupd htakes

-- The first loop, as `resubmit` starts it, returns on every shard of its shape, leaving one of its
-- shape that holds part of its queues and no operation under a hash of the map; it keeps for the
-- second loop an entry for each operation that left and for nothing else, under its hash, carrying
-- the map's revalidation of it where the map has one and the operation as the shard had it
-- otherwise, and each of those hashes starts as ready.
theorem removeLoop_takes_out {s : BasePool H T} (hs : s.Shaped) (updated : Updates H T) :
    ∃ kept s', (removeLoop updated ∅ []).run s =
        .ok ((kept.map Prod.fst).foldl (fun i hash => i.insert hash .ready) ∅, kept) s' ∧
      s'.Shaped ∧ TakesOut updated s s' kept := by
  obtain ⟨kept, s', hrun, hs', -, htakes⟩ := removeLoop_run updated ∅ [] hs
  exact ⟨kept, s', by simpa using hrun, hs', htakes⟩

-- An update of the operation of hash `1`, on a new shard.
def updateOfOne : Updates Nat Nat :=
  (∅ : Updates Nat Nat).insert 1 (.valid ⟨1, 1, 2, 2, [], [7]⟩)

theorem removeLoop_takes_out_updateOfOne :
    (BasePool.new false .listed : BasePool Nat Nat).Shaped ∧
      ∃ kept s', (removeLoop updateOfOne ∅ []).run (BasePool.new false .listed) =
          .ok ((kept.map Prod.fst).foldl (fun i hash => i.insert hash .ready) ∅, kept) s' ∧
        s'.Shaped ∧ TakesOut updateOfOne (BasePool.new false .listed) s' kept :=
  ⟨Shaped.new false .listed, removeLoop_takes_out (Shaped.new false .listed) updateOfOne⟩

end RemoveLoop

-- The second loop, and `resubmit` as a whole.

section ImportLoop

theorem importOne_keeps {inv : BasePool H T → Prop}
    (himport : ∀ tx : TrustedOperation H T, Keeps inv (BasePool.import tx) fun _ => True)
    (finalStatuses : Statuses H) (entry : H × ValidatedOperation H T) :
    Keeps inv (importOne finalStatuses entry) fun _ => True := by
  obtain ⟨hash, tx⟩ := entry
  cases tx with
  | valid tx =>
    rw [importOne]
    refine ((himport tx).attempt Error.isPanic).bind fun r _ => ?_
    rcases r with _ | (_ | _) <;> exact Keeps.pure trivial
  | invalid => exact Keeps.pure trivial
  | unknown => exact Keeps.pure trivial

theorem importLoop_keeps {inv : BasePool H T → Prop}
    (himport : ∀ tx : TrustedOperation H T, Keeps inv (BasePool.import tx) fun _ => True) :
    ∀ (txsToResubmit : List (H × ValidatedOperation H T)) (finalStatuses : Statuses H),
      Keeps inv (importLoop txsToResubmit finalStatuses) fun _ => True
  | [], _ => Keeps.pure trivial
  | entry :: rest, finalStatuses =>
    (importOne_keeps himport finalStatuses entry).bind fun _ _ => importLoop_keeps himport rest _

theorem import_keeps_shaped (tx : TrustedOperation H T) :
    Keeps Shaped (BasePool.import tx) fun _ => True :=
  (BasePool.import_triple tx).conseq (fun _ h => h) (fun _ _ h => ⟨h, trivial⟩) (fun _ h => h) |>.keeps

end ImportLoop

theorem resubmitStatuses_keeps_shaped (updated : Updates H T) :
    Keeps Shaped (resubmitStatuses updated) fun _ => True := by
  rw [resubmitStatuses]
  have hremove : Keeps Shaped (removeLoop updated ∅ []) fun _ => True := fun s hs => by
    obtain ⟨kept, s', hrun, hs', -⟩ := removeLoop_run updated ∅ [] hs
    rw [hrun]
    exact ⟨hs', trivial⟩
  refine hremove.bind fun r _ => ?_
  obtain ⟨initialStatuses, txsToResubmit⟩ := r
  refine withFuturesEnabled_keeps (fun s b hs => hs.withReject b) fun reject => ?_
  refine (importLoop_keeps import_keeps_shaped txsToResubmit ∅).bind fun _ _ => ?_
  split
  · exact clearFuture_keeps_shaped.bind fun _ _ => Keeps.pure trivial
  · exact Keeps.pure trivial

-- `resubmit` keeps the shape of the shard, whatever it returns, a panic of an import included.
theorem resubmit_keeps_shaped (updated : Updates H T) :
    Keeps (fun v : ValidatedPool H T => v.pool.Shaped) (resubmit updated) fun _ => True :=
  (Keeps.zoom_part (resubmitStatuses_keeps_shaped updated) (fun _ hv => hv) fun _ _ _ ht => ht).bind
    fun _ _ => Keeps.pure trivial

omit [DecidableEq H] [DecidableEq T] in
theorem reject_of_globals {s s' : BasePool H T} (h : s'.globals = s.globals) :
    s'.rejectFutureOperations = s.rejectFutureOperations :=
  congrArg Prod.fst h

-- Under the pool's lock, `resubmit` on a shard of its shape that rejects future operations leaves
-- the flag set and no operation waiting.
theorem resubmitStatuses_rejects {s s' : BasePool H T} (hs : s.Shaped) (hreject : s.rejectFutureOperations = true)
    {updated : Updates H T} {r : Statuses H × Statuses H} (h : (resubmitStatuses updated).run s = .ok r s') :
    s'.rejectFutureOperations = true ∧ ∀ hash, s'.future.contains hash = false := by
  obtain ⟨kept, s₁, hrun, hs₁, hg, -⟩ := removeLoop_run updated ∅ [] hs
  rw [resubmitStatuses, run_bind_of_ok hrun] at h
  obtain ⟨s₂, hc, rfl⟩ := run_withFuturesEnabled_eq_ok h
  rw [(reject_of_globals hg).trans hreject] at hc ⊢
  refine ⟨rfl, ?_⟩
  -- the closure imports the kept operations again, then clears the future queue
  rw [run_bind] at hc
  split at hc
  · next finalStatuses s₃ himport =>
    have hs₃ : s₃.Shaped :=
      ((importLoop_keeps import_keeps_shaped _ _).ok (hs₁.withReject false) himport).1
    simp only [if_true, run_bind] at hc
    split at hc
    · next cleared s₄ hclear =>
      simp only [run_pure, Result.ok.injEq] at hc
      obtain ⟨-, rfl⟩ := hc
      have hempty := clearFuture_empties hs₃ hclear
      exact hempty
    · cases hc
  · cases hc

-- `resubmit` on a shard of its shape that rejects future operations leaves the flag set and no
-- operation waiting: those it imported into the future queue while futures were enabled are cleared
-- again.
theorem resubmit_restores_reject (updated : Updates H T) :
    Triple (fun v : ValidatedPool H T => v.pool.Shaped ∧ v.pool.rejectFutureOperations = true)
      (resubmit updated)
      (fun _ v' => v'.pool.rejectFutureOperations = true ∧ ∀ hash, v'.pool.future.contains hash = false)
      fun _ => True := by
  intro v ⟨hs, hreject⟩
  split
  · next notes v' h =>
    rw [resubmit, run_bind] at h
    split at h
    · next r v₁ hpool =>
      obtain ⟨t, hrun, rfl⟩ := run_zoom_eq_ok hpool
      simp only [run_pure, Result.ok.injEq] at h
      obtain ⟨-, rfl⟩ := h
      exact resubmitStatuses_rejects hs hreject hrun
    · cases h
  · trivial

-- A new shard that rejects futures, resubmitting the update of `updateOfOne`.
theorem resubmit_restores_reject_updateOfOne :
    (BasePool.new true .listed : BasePool Nat Nat).Shaped ∧
      Triple (· = ⟨Options.default, BasePool.new true .listed, [], .listed⟩) (resubmit updateOfOne)
        (fun _ v' => v'.pool.rejectFutureOperations = true ∧ ∀ hash, v'.pool.future.contains hash = false)
        fun _ => True :=
  ⟨Shaped.new true .listed, (resubmit_restores_reject updateOfOne).conseq
    (fun _ hv => hv ▸ ⟨Shaped.new true .listed, rfl⟩) (fun _ _ h => h) fun _ h => h⟩

end ValidatedPool

end Pool
