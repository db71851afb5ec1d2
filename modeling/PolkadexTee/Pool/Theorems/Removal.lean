import PolkadexTee.Pool.Theorems.Counters

/-! The subtree removal of `ready.rs` (`remove_subtree_with_tag_filter`) on a shard whose maps are
present. -/

namespace Pool

variable {H T : Type}

section RemoveItem

variable {α : Type} [DecidableEq α]

theorem removeItem_perm (vec : List α) (item : α) : (removeItem vec item).Perm (vec.erase item) := by
  rw [List.erase_eq_eraseIdx]
  unfold removeItem
  cases h : vec.idxOf? item with
  | none => rfl
  | some idx =>
    obtain ⟨hidx, -, -⟩ := List.idxOf?_eq_some_iff.mp h
    exact Rust.swapRemove_perm hidx

theorem count_removeItem_of_ne {vec : List α} {item x : α} (h : x ≠ item) :
    (removeItem vec item).count x = vec.count x := by
  rw [(removeItem_perm vec item).count_eq, List.count_erase]
  simp [Ne.symm h]

theorem length_removeItem_le (vec : List α) (item : α) :
    (removeItem vec item).length ≤ vec.length :=
  (removeItem_perm vec item).length_eq ▸ List.length_erase_le

end RemoveItem

section Sheds

variable [DecidableEq H]

-- `tx'` is the ready operation `tx` after the unlock cleanup of a removal: the same operation and
-- offset, unlocking the same operations as often, except perhaps its own `hash`.
structure ReadyTx.Sheds (hash : H) (tx tx' : ReadyTx H T) : Prop where
  operation      : tx'.operation = tx.operation
  requiresOffset : tx'.requiresOffset = tx.requiresOffset
  count          : ∀ x, x ≠ hash → tx'.unlocks.count x = tx.unlocks.count x

namespace ReadyTx.Sheds

theorem refl (hash : H) (tx : ReadyTx H T) : tx.Sheds hash tx :=
  ⟨rfl, rfl, fun _ _ => rfl⟩

theorem trans {hash : H} {tx₁ tx₂ tx₃ : ReadyTx H T} (h₁ : tx₁.Sheds hash tx₂)
    (h₂ : tx₂.Sheds hash tx₃) : tx₁.Sheds hash tx₃ :=
  ⟨h₂.operation.trans h₁.operation, h₂.requiresOffset.trans h₁.requiresOffset,
    fun x hx => (h₂.count x hx).trans (h₁.count x hx)⟩

theorem removeItem (tx : ReadyTx H T) (hash : H) :
    tx.Sheds hash { tx with unlocks := Pool.removeItem tx.unlocks hash } :=
  ⟨rfl, rfl, fun _ hx => count_removeItem_of_ne hx⟩

end ReadyTx.Sheds

namespace ReadyOperations

-- Relations between two ready maps of one run.

-- Each entry of `ready'` is an entry of `ready` that has shed at most its own hash.
def Retains (ready ready' : AList fun _ : H => ReadyTx H T) : Prop :=
  ∀ hash tx', ready'.lookup hash = some tx' → ∃ tx, ready.lookup hash = some tx ∧ tx.Sheds hash tx'

-- `ready'` has the entries of `ready` and no others, each of them having shed at most its own hash.
structure ShedsAll (ready ready' : AList fun _ : H => ReadyTx H T) : Prop where
  retains : Retains ready ready'
  keeps   : ∀ hash tx, ready.lookup hash = some tx →
    ∃ tx', ready'.lookup hash = some tx' ∧ tx.Sheds hash tx'

section Relations

variable {ready ready₁ ready₂ : AList fun _ : H => ReadyTx H T} {hash : H}

theorem Retains.refl (ready : AList fun _ : H => ReadyTx H T) : Retains ready ready :=
  fun hash tx' hl => ⟨tx', hl, ReadyTx.Sheds.refl hash tx'⟩

theorem Retains.trans (h₁ : Retains ready ready₁) (h₂ : Retains ready₁ ready₂) :
    Retains ready ready₂ := fun hash tx₂ hl => by
  obtain ⟨tx₁, hl₁, hs₂⟩ := h₂ hash tx₂ hl
  obtain ⟨tx, hl, hs₁⟩ := h₁ hash tx₁ hl₁
  exact ⟨tx, hl, hs₁.trans hs₂⟩

theorem Retains.lookup_eq_none (h : Retains ready ready') (hn : ready.lookup hash = none) :
    ready'.lookup hash = none := by
  cases hl : ready'.lookup hash with
  | none => rfl
  | some tx' =>
    obtain ⟨tx, hl', -⟩ := h hash tx' hl
    rw [hn] at hl'
    cases hl'

theorem ShedsAll.refl (ready : AList fun _ : H => ReadyTx H T) : ShedsAll ready ready :=
  ⟨Retains.refl ready, fun hash tx hl => ⟨tx, hl, ReadyTx.Sheds.refl hash tx⟩⟩

theorem ShedsAll.trans (h₁ : ShedsAll ready ready₁) (h₂ : ShedsAll ready₁ ready₂) :
    ShedsAll ready ready₂ where
  retains := h₁.retains.trans h₂.retains
  keeps := fun hash tx hl => by
    obtain ⟨tx₁, hl₁, hs₁⟩ := h₁.keeps hash tx hl
    obtain ⟨tx₂, hl₂, hs₂⟩ := h₂.keeps hash tx₁ hl₁
    exact ⟨tx₂, hl₂, hs₁.trans hs₂⟩

-- The cleanup changes only unlock lists: the map keeps its entries and their sizes.
theorem ShedsAll.length_eq (h : ShedsAll ready ready') : ready'.entries.length = ready.entries.length := by
  refine le_antisymm (AList.length_entries_le fun a ha => ?_) (AList.length_entries_le fun a ha => ?_)
  · obtain ⟨tx', hl'⟩ := Option.isSome_iff_exists.mp (AList.lookup_isSome.mpr ha)
    obtain ⟨tx, hl, -⟩ := h.retains a tx' hl'
    exact AList.lookup_isSome.mp (by simp [hl])
  · obtain ⟨tx, hl⟩ := Option.isSome_iff_exists.mp (AList.lookup_isSome.mpr ha)
    obtain ⟨tx', hl', -⟩ := h.keeps a tx hl
    exact AList.lookup_isSome.mp (by simp [hl'])

theorem ShedsAll.totalSize_eq (h : ShedsAll ready ready') : totalSize ready' = totalSize ready := by
  refine le_antisymm (AList.sum_map_le_of_entries fun x hx => ?_) (AList.sum_map_le_of_entries fun x hx => ?_)
  · obtain ⟨tx, hl, hs⟩ := h.retains x.1 x.2 (AList.mem_lookup_iff.mpr hx)
    exact ⟨⟨x.1, tx⟩, AList.mem_lookup_iff.mp hl, rfl, by simp [ReadyTx.size, hs.operation]⟩
  · obtain ⟨tx', hl', hs⟩ := h.keeps x.1 x.2 (AList.mem_lookup_iff.mpr hx)
    exact ⟨⟨x.1, tx'⟩, AList.mem_lookup_iff.mp hl', rfl, by simp [ReadyTx.size, hs.operation]⟩

theorem retains_erase (ready : AList fun _ : H => ReadyTx H T) (hash : H) :
    Retains ready (ready.erase hash) := fun h tx' hl => by
  by_cases heq : h = hash
  · subst heq
    rw [AList.lookup_erase] at hl
    cases hl
  · rw [AList.lookup_erase_ne heq] at hl
    exact ⟨tx', hl, ReadyTx.Sheds.refl h tx'⟩

theorem shedsAll_insert_removeItem {tx : ReadyTx H T} (hl : ready.lookup hash = some tx) :
    ShedsAll ready (ready.insert hash { tx with unlocks := removeItem tx.unlocks hash }) where
  retains := fun h tx' hl' => by
    by_cases heq : h = hash
    · subst heq
      rw [AList.lookup_insert] at hl'
      cases hl'
      exact ⟨tx, hl, ReadyTx.Sheds.removeItem tx h⟩
    · rw [AList.lookup_insert_ne heq] at hl'
      exact ⟨tx', hl', ReadyTx.Sheds.refl h tx'⟩
  keeps := fun h tx' hl' => by
    by_cases heq : h = hash
    · subst heq
      rw [hl] at hl'
      cases hl'
      exact ⟨_, AList.lookup_insert ready, ReadyTx.Sheds.removeItem tx h⟩
    · exact ⟨tx', (AList.lookup_insert_ne heq).trans hl', ReadyTx.Sheds.refl h tx'⟩

end Relations

-- The unlock lists of a ready map, which bound the pops of a removal.

theorem unlocksTotal_erase {ready : AList fun _ : H => ReadyTx H T} {hash : H} {tx : ReadyTx H T}
    (hl : ready.lookup hash = some tx) :
    unlocksTotal (ready.erase hash) + tx.unlocks.length = unlocksTotal ready :=
  AList.sum_map_erase_add hl

theorem unlocksTotal_insert_removeItem_le {ready : AList fun _ : H => ReadyTx H T} {hash : H}
    {tx : ReadyTx H T} (hl : ready.lookup hash = some tx) :
    unlocksTotal (ready.insert hash { tx with unlocks := removeItem tx.unlocks hash }) ≤
      unlocksTotal ready := by
  have hsum : unlocksTotal (ready.insert hash { tx with unlocks := removeItem tx.unlocks hash }) +
      tx.unlocks.length = unlocksTotal ready + (removeItem tx.unlocks hash).length :=
    AList.sum_map_insert_add hl
  have hle := length_removeItem_le tx.unlocks hash
  omega

end ReadyOperations

end Sheds

namespace ReadyOperations

-- The accessors and updates of one shard's maps.

section Access

variable {s : ReadyOperations H T}

theorem unwrapProvidedTags_run {tags : AList fun _ : T => H} (h : s.providedTags = some tags) :
    unwrapProvidedTags.run s = .ok tags s := by
  simp [unwrapProvidedTags, h]

theorem unwrapReady_run {ready : AList fun _ : H => ReadyTx H T} (h : s.ready = some ready) :
    unwrapReady.run s = .ok ready s := by
  simp [unwrapReady, h]

@[simp]
theorem setProvidedTags_run (tags : AList fun _ : T => H) :
    (setProvidedTags tags).run s = .ok () { s with providedTags := some tags } :=
  rfl

@[simp]
theorem setReady_run (ready : AList fun _ : H => ReadyTx H T) :
    (setReady ready).run s = .ok () { s with ready := some ready } :=
  rfl

@[simp]
theorem setBest_run (best : List (OperationRef H T)) :
    (setBest best).run s = .ok () { s with best := some best } :=
  rfl

theorem with_tags_best_self {tags : AList fun _ : T => H} {best : List (OperationRef H T)}
    (hs : s.providedTags = some tags) (hb : s.best = some best) :
    { s with providedTags := some tags, best := some best } = s := by
  cases s
  simp_all

end Access

section Tags

variable [DecidableEq T] {s : ReadyOperations H T}

theorem removeProvided_run {tags : AList fun _ : T => H} (h : s.providedTags = some tags)
    (l : List T) :
    (removeProvided l).run s =
      .ok () { s with providedTags := some (l.foldl (fun tags tag => tags.erase tag) tags) } := by
  induction l generalizing s tags with
  | nil =>
    cases s
    simp_all [removeProvided]
  | cons tag rest ih =>
    simp only [removeProvided, EStateM.run_bind, unwrapProvidedTags_run h, setProvidedTags_run]
    rw [ih rfl]
    rfl

-- What the removal loop establishes.

-- A tag the removal keeps in `provided_tags`: one of the filter's.
def Kept (filter : Option (List T)) (tag : T) : Prop :=
  ∃ tags, filter = some tags ∧ tag ∈ tags

theorem invalidates_iff (filter : Option (List T)) (tag : T) :
    (filter.map fun filter => !filter.contains tag).getD true = true ↔ ¬ Kept filter tag := by
  cases filter <;> simp [Kept]

omit [DecidableEq T] in
theorem not_kept_none (tag : T) : ¬ Kept none tag := by
  simp [Kept]

-- The tags a removed operation gives up: those of its own outside the filter.
abbrev invalidated (filter : Option (List T)) (provides : List T) : List T :=
  provides.filter fun tag => (filter.map fun filter => !filter.contains tag).getD true

theorem mem_invalidated {filter : Option (List T)} {provides : List T} {tag : T} :
    tag ∈ invalidated filter provides ↔ tag ∈ provides ∧ ¬ Kept filter tag := by
  simp only [invalidated, List.mem_filter, invalidates_iff]

end Tags

section Loop

variable [DecidableEq H] [DecidableEq T]

-- The unlock cleanup for the tags a removed operation requires: every provider sheds its own hash,
-- and nothing else changes.
theorem removeFromUnlocks_run {s : ReadyOperations H T} {tags : AList fun _ : T => H} (h : s.providedTags = some tags) :
    ∀ (ready : AList fun _ : H => ReadyTx H T) (l : List T), ∃ ready',
      (removeFromUnlocks ready l).run s = .ok ready' s ∧ ShedsAll ready ready' ∧
        unlocksTotal ready' ≤ unlocksTotal ready
  | ready, [] => ⟨ready, rfl, ShedsAll.refl ready, le_rfl⟩
  | ready, tag :: rest => by
    simp only [removeFromUnlocks, EStateM.run_bind, unwrapProvidedTags_run h]
    split
    · split
      next tx htx =>
        obtain ⟨ready', hrun, hsh, hU⟩ := removeFromUnlocks_run h _ rest
        exact ⟨ready', hrun, (shedsAll_insert_removeItem htx).trans hsh,
          Nat.le_trans hU (unlocksTotal_insert_removeItem_le htx)⟩
      next => exact removeFromUnlocks_run h ready rest
    · exact removeFromUnlocks_run h ready rest

-- Each tag of `tags` outside the filter is mapped to an operation of `ready` that provides it.
def Owned (filter : Option (List T)) (tags : AList fun _ : T => H)
    (ready : AList fun _ : H => ReadyTx H T) : Prop :=
  ∀ tag hash, tags.lookup tag = some hash →
    Kept filter tag ∨ ∃ tx, ready.lookup hash = some tx ∧ tag ∈ tx.operation.operation.provides

-- What a run of the removal loop with `fuel`, from the hashes `toRemove`, the ready map `ready` and
-- the tag map `tags`, to the ready map `ready'` and the tag map `tags'` establishes.
structure Removal (filter : Option (List T)) (fuel : Nat) (toRemove : List H)
    (ready : AList fun _ : H => ReadyTx H T) (tags : AList fun _ : T => H)
    (ready' : AList fun _ : H => ReadyTx H T) (tags' : AList fun _ : T => H) : Prop where
  retains   : Retains ready ready'
  tags_sub  : ∀ tag hash, tags'.lookup tag = some hash → tags.lookup tag = some hash
  tags_kept : ∀ tag, Kept filter tag → tags'.lookup tag = tags.lookup tag
  owned     : Owned filter tags ready → Owned filter tags' ready'
  removes   : toRemove.length + unlocksTotal ready < fuel → ∀ hash ∈ toRemove, ready'.lookup hash = none

namespace Removal

variable {filter : Option (List T)} {fuel : Nat} {init : List H} {hash : H}
  {ready ready' : AList fun _ : H => ReadyTx H T} {tags tags' : AList fun _ : T => H}

-- A loop that stops at once: out of fuel, or with nothing to remove.
theorem of_stop {toRemove : List H}
    (h : toRemove.length + unlocksTotal ready < fuel → toRemove = []) :
    Removal filter fuel toRemove ready tags ready tags where
  retains := Retains.refl ready
  tags_sub := fun _ _ => id
  tags_kept := fun _ _ => rfl
  owned := id
  removes := fun hf hash hmem => by simp [h hf] at hmem

-- A popped hash that is not in the map.
theorem skip (hn : ready.lookup hash = none) (h : Removal filter fuel init ready tags ready' tags') :
    Removal filter (fuel + 1) (init ++ [hash]) ready tags ready' tags' where
  retains := h.retains
  tags_sub := h.tags_sub
  tags_kept := h.tags_kept
  owned := h.owned
  removes := fun hf x hx => by
    simp only [List.length_append, List.length_singleton] at hf
    rcases List.mem_append.mp hx with hx | hx
    · exact h.removes (by omega) x hx
    · rw [List.mem_singleton.mp hx]
      exact h.retains.lookup_eq_none hn

-- One round's effect on the tag map keeps every tag outside the filter owned: a tag the removed
-- operation provided is either kept by the filter or erased with it.
theorem owned_pop {tx : ReadyTx H T} {ready₂ : AList fun _ : H => ReadyTx H T}
    (hl : ready.lookup hash = some tx) (hsh : ShedsAll (ready.erase hash) ready₂)
    (ho : Owned filter tags ready) :
    Owned filter ((invalidated filter tx.operation.operation.provides).foldl (fun tags tag => tags.erase tag) tags)
      ready₂ := by
  intro tag h htag
  rw [AList.lookup_foldl_erase] at htag
  split_ifs at htag with hinv
  rcases ho tag h htag with hk | ⟨txh, hlh, hprov⟩
  · exact .inl hk
  · by_cases heq : h = hash
    · -- the removed operation's tag survived the erasure, so the filter keeps it
      subst heq
      rw [hl] at hlh
      cases hlh
      left
      by_contra hk
      exact hinv (mem_invalidated.mpr ⟨hprov, hk⟩)
    · -- another operation's entry is still there, with the same operation
      rw [← AList.lookup_erase_ne heq] at hlh
      obtain ⟨txh', hl', hs⟩ := hsh.keeps h txh hlh
      exact .inr ⟨txh', hl', hs.operation ▸ hprov⟩

-- A popped hash whose operation is in the map: it is erased, its tags outside the filter go, its
-- providers shed their own hash, and what it unlocks is queued when it gave up a tag.
theorem pop {tx : ReadyTx H T} {ready₂ : AList fun _ : H => ReadyTx H T}
    (hl : ready.lookup hash = some tx) (hsh : ShedsAll (ready.erase hash) ready₂)
    (hU : unlocksTotal ready₂ ≤ unlocksTotal (ready.erase hash))
    (h : Removal filter fuel
      (if (invalidated filter tx.operation.operation.provides).isEmpty then init
        else init ++ tx.unlocks)
      ready₂
      ((invalidated filter tx.operation.operation.provides).foldl (fun tags tag => tags.erase tag) tags)
      ready' tags') :
    Removal filter (fuel + 1) (init ++ [hash]) ready tags ready' tags' where
  retains := ((retains_erase ready hash).trans hsh.retains).trans h.retains
  tags_sub := fun tag x hx => by
    have hx := h.tags_sub tag x hx
    rw [AList.lookup_foldl_erase] at hx
    split_ifs at hx
    exact hx
  tags_kept := fun tag hk => by
    rw [h.tags_kept tag hk, AList.lookup_foldl_erase, if_neg]
    intro hmem
    exact (mem_invalidated.mp hmem).2 hk
  owned := fun ho => h.owned (owned_pop hl hsh ho)
  removes := fun hf x hx => by
    have herase := unlocksTotal_erase hl
    -- the queue grows by at most what the removed operation unlocked
    have hlen : (if (invalidated filter tx.operation.operation.provides).isEmpty then init
        else init ++ tx.unlocks).length ≤ init.length + tx.unlocks.length := by
      split <;> simp
    simp only [List.length_append, List.length_singleton] at hf
    have hinit : ∀ y ∈ init, y ∈ (if (invalidated filter tx.operation.operation.provides).isEmpty then init
        else init ++ tx.unlocks) := fun y hy => by
      split
      · exact hy
      · exact List.mem_append_left _ hy
    rcases List.mem_append.mp hx with hx | hx
    · exact h.removes (by omega) x (hinit x hx)
    · rw [List.mem_singleton.mp hx]
      exact h.retains.lookup_eq_none (hsh.retains.lookup_eq_none (AList.lookup_erase hash ready))

end Removal

-- A run of the removal loop from a state with a tag map and a best set never fails, and establishes
-- `Removal`. It changes the tag map and the best set, and moves the counters of the write access as
-- its map moves.
theorem removeSubtreeLoop_run (filter : Option (List T)) :
    ∀ (fuel : Nat) (ready : AList fun _ : H => ReadyTx H T) (toRemove : List H)
      (removed : List (TrustedOperation H T)) (s : ReadyOperations H T)
      (tags : AList fun _ : T => H) (best : List (OperationRef H T)),
      s.providedTags = some tags → s.best = some best →
      ∃ ready' removed' tags' best', (removeSubtreeLoop filter fuel ready toRemove removed).run s =
          .ok (ready', removed') { s with
            providedTags := some tags'
            best         := some best'
            readyBytes   := s.readyBytes + totalSize ready' - totalSize ready
            readyLength  := s.readyLength + ready'.entries.length - ready.entries.length } ∧
        Removal filter fuel toRemove ready tags ready' tags' := by
  intro fuel
  induction fuel with
  | zero =>
    intro ready toRemove removed s tags best hs hb
    refine ⟨ready, removed, tags, best, ?_, .of_stop fun hf => absurd hf (Nat.not_lt_zero _)⟩
    rw [add_sub_cancel_right, add_sub_cancel_right, with_tags_best_self hs hb]
    rfl
  | succ fuel ih =>
    intro ready toRemove removed s tags best hs hb
    cases hlast : toRemove.getLast? with
    | none =>
      have hnil : toRemove = [] := List.getLast?_eq_none_iff.mp hlast
      refine ⟨ready, removed, tags, best, ?_, .of_stop fun _ => hnil⟩
      simp [removeSubtreeLoop, hlast, with_tags_best_self hs hb]
    | some hash =>
      obtain ⟨init, rfl⟩ := List.getLast?_eq_some_iff.mp hlast
      cases hl : ready.lookup hash with
      | none =>
        obtain ⟨ready', removed', tags', best', hrun, hrem⟩ := ih ready init removed s tags best hs hb
        refine ⟨ready', removed', tags', best', ?_, hrem.skip hl⟩
        simp [removeSubtreeLoop, hlast, hl, hrun]
      | some tx =>
        -- the popped operation's tags outside the filter are erased first
        obtain ⟨ready₂, hrun₂, hsh, hU⟩ := removeFromUnlocks_run
          (show ({ s.countOut tx with providedTags := some ((invalidated filter tx.operation.operation.provides).foldl
              (fun tags tag => tags.erase tag) tags) } : ReadyOperations H T).providedTags =
            some ((invalidated filter tx.operation.operation.provides).foldl
              (fun tags tag => tags.erase tag) tags) from rfl)
          (ready.erase hash) tx.operation.operation.requires
        obtain ⟨ready', removed', tags', best', hrun, hrem⟩ := ih ready₂
          (if (invalidated filter tx.operation.operation.provides).isEmpty then init
            else init ++ tx.unlocks)
          (removed ++ [tx.operation.operation])
          { s.countOut tx with
            providedTags := some ((invalidated filter tx.operation.operation.provides).foldl
              (fun tags tag => tags.erase tag) tags)
            best := some (Rust.BTreeSet.remove OperationRef.cmp tx.operation best) }
          _ _ rfl rfl
        refine ⟨ready', removed', tags', best', ?_, hrem.pop hl hsh hU⟩
        simp only [removeSubtreeLoop, hlast, hl, EStateM.run_bind, EStateM.run_modify,
          removeProvided_run (show (s.countOut tx).providedTags = some tags from hs)]
        rw [hrun₂]
        simp only [unwrapBest, EStateM.run_bind, EStateM.run_get, countOut_best, hb, EStateM.run_pure,
          setBest_run, List.dropLast_concat]
        rw [hrun]
        -- the round counted the popped entry out, and the cleanup kept the sizes
        have hsize := totalSize_erase_add hl
        have hlen := AList.length_erase_add_one hl
        have hsize₂ := hsh.totalSize_eq
        have hlen₂ := hsh.length_eq
        simp only [countOut, EStateM.Result.ok.injEq, true_and, ReadyOperations.mk.injEq]
        omega

end Loop

-- The whole removal.

section Subtree

variable [DecidableEq H] [DecidableEq T] {s : ReadyOperations H T}

theorem Removal.removes_all {filter : Option (List T)} {toRemove : List H}
    {ready ready' : AList fun _ : H => ReadyTx H T} {tags tags' : AList fun _ : T => H}
    (h : Removal filter (toRemove.length + unlocksTotal ready + 1) toRemove ready tags ready' tags') :
    ∀ hash ∈ toRemove, ready'.lookup hash = none :=
  h.removes (Nat.lt_succ_self _)

theorem removeSubtreeWithTagFilter_of_none (hr : s.ready = none) (toRemove : List H)
    (filter : Option (List T)) : (removeSubtreeWithTagFilter toRemove filter).run s = .ok [] s := by
  simp [removeSubtreeWithTagFilter, hr]

-- `remove_subtree_with_tag_filter` on a shard with its three maps never fails, and changes nothing
-- but them; its fuel is enough to remove every hash it is given.
theorem removeSubtreeWithTagFilter_run {ready : AList fun _ : H => ReadyTx H T}
    {tags : AList fun _ : T => H} {best : List (OperationRef H T)} (hr : s.ready = some ready)
    (hs : s.providedTags = some tags) (hb : s.best = some best) (toRemove : List H)
    (filter : Option (List T)) :
    ∃ ready' removed tags' best', (removeSubtreeWithTagFilter toRemove filter).run s =
        .ok removed { s with
          providedTags := some tags'
          ready        := some ready'
          best         := some best'
          readyBytes   := s.readyBytes + totalSize ready' - totalSize ready
          readyLength  := s.readyLength + ready'.entries.length - ready.entries.length } ∧
      Removal filter (toRemove.length + unlocksTotal ready + 1) toRemove ready tags ready' tags' := by
  obtain ⟨ready', removed, tags', best', hrun, hrem⟩ :=
    removeSubtreeLoop_run filter _ ready toRemove [] s tags best hs hb
  refine ⟨ready', removed, tags', best', ?_, hrem⟩
  simp only [removeSubtreeWithTagFilter, EStateM.run_bind, EStateM.run_get, hr]
  rw [hrun]
  rfl

end Subtree

-- `HashReady`.

section HashReady

variable [DecidableEq H] [DecidableEq T]

-- The invariant behind `HASH_READY`: every tag in `provided_tags` is mapped to an operation of the
-- ready map that provides it; and a shard with a ready map has a tag map and a best set.
structure HashReady (s : ReadyOperations H T) : Prop where
  provided : ∀ e ∈ (s.providedTags.getD ∅).entries,
    ∃ tx ∈ (s.ready.getD ∅).lookup e.2, e.1 ∈ tx.operation.operation.provides
  present  : s.ready.isSome → s.providedTags.isSome ∧ s.best.isSome

instance (s : ReadyOperations H T) : Decidable (HashReady s) :=
  decidable_of_iff (_ ∧ _) ⟨fun ⟨h₁, h₂⟩ => ⟨h₁, h₂⟩, fun h => ⟨h.provided, h.present⟩⟩

namespace HashReady

variable {s : ReadyOperations H T}

theorem lookup (h : HashReady s) {tag : T} {hash : H}
    (hl : (s.providedTags.getD ∅).lookup tag = some hash) :
    ∃ tx, (s.ready.getD ∅).lookup hash = some tx ∧ tag ∈ tx.operation.operation.provides :=
  h.provided ⟨tag, hash⟩ (AList.mem_lookup_iff.mp hl)

theorem of_lookup
    (hp : ∀ tag hash, (s.providedTags.getD ∅).lookup tag = some hash →
      ∃ tx, (s.ready.getD ∅).lookup hash = some tx ∧ tag ∈ tx.operation.operation.provides)
    (hpr : s.ready.isSome → s.providedTags.isSome ∧ s.best.isSome) : HashReady s :=
  ⟨fun e he => hp e.1 e.2 (AList.mem_lookup_iff.mpr he), hpr⟩

theorem owned (h : HashReady s) {tags : AList fun _ : T => H} {ready : AList fun _ : H => ReadyTx H T}
    (hs : s.providedTags = some tags) (hr : s.ready = some ready) (filter : Option (List T)) :
    Owned filter tags ready := fun tag hash hl => by
  have hl : (s.providedTags.getD ∅).lookup tag = some hash := by simpa [hs] using hl
  exact .inr (by simpa [hr] using h.lookup hl)

end HashReady

omit [DecidableEq T] in
theorem hashReady_empty : HashReady (empty : ReadyOperations H T) :=
  ⟨by simp [empty], by simp [empty]⟩

-- `remove_subtree` never fails on a shard satisfying `HashReady`, and keeps it: with no filter,
-- every tag left in `provided_tags` belongs to an operation the removal kept.
theorem removeSubtree_hashReady {s : ReadyOperations H T} (h : HashReady s) (hashes : List H) :
    ∃ removed s', (removeSubtree hashes).run s = .ok removed s' ∧ HashReady s' := by
  cases hr : s.ready with
  | none => exact ⟨[], s, removeSubtreeWithTagFilter_of_none hr hashes none, h⟩
  | some ready =>
    obtain ⟨hs, hb⟩ := h.present (by simp [hr])
    obtain ⟨tags, hs⟩ := Option.isSome_iff_exists.mp hs
    obtain ⟨best, hb⟩ := Option.isSome_iff_exists.mp hb
    obtain ⟨ready', removed, tags', best', hrun, hrem⟩ :=
      removeSubtreeWithTagFilter_run hr hs hb hashes none
    refine ⟨removed, _, hrun, .of_lookup (fun tag hash htag => ?_) (by simp)⟩
    rcases hrem.owned (h.owned hs hr none) tag hash (by simpa using htag) with hk | hx
    · exact absurd hk (not_kept_none tag)
    · simpa using hx

end HashReady

-- A queue holding one operation, which provides the tag `1`.
def oneProvider : ReadyOperations Nat Nat :=
  ((ReadyOperations.import ⟨⟨1, 1, 1, 2, [], [1]⟩, []⟩).run empty).state

theorem removeSubtree_hashReady_oneProvider :
    HashReady oneProvider ∧
      ∃ removed s', (removeSubtree [1]).run oneProvider = .ok removed s' ∧ HashReady s' :=
  have h : HashReady oneProvider := by decide
  ⟨h, removeSubtree_hashReady h [1]⟩

end ReadyOperations

end Pool
