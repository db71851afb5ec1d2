import PolkadexTee.Pool.Theorems.Shape

/-! The representation invariant of a shard's future queue, the one `WAITING_PROOF` argues for: the
wanted tags index the waiting operations by the tags they miss, each hash once, and every waiting
operation misses some tag, each once. -/

namespace Pool

open EStateM

variable {H T : Type} [DecidableEq H] [DecidableEq T]

-- A waiting operation once `tags` are satisfied: the tags are no longer missing, and an operation
-- that misses no other tag has left the queue.
def WaitingTrustedOperations.afterSatisfying (tags : List T) (tx : WaitingTrustedOperations H T) :
    Option (WaitingTrustedOperations H T) :=
  if ∀ tag ∈ tx.missingTags, tag ∈ tags then none
  else some ⟨tx.operation, tx.missingTags.filter fun tag => tag ∉ tags⟩

namespace WaitingTrustedOperations

variable {tx tx' : WaitingTrustedOperations H T} {tag : T} {tags : List T}

omit [DecidableEq H] in
theorem afterSatisfying_operation (h : tx.afterSatisfying tags = some tx') :
    tx'.operation = tx.operation := by
  unfold afterSatisfying at h
  split at h
  · cases h
  · cases h
    rfl

omit [DecidableEq H] in
theorem afterSatisfying_nil (hne : tx.missingTags ≠ []) : tx.afterSatisfying [] = some tx := by
  obtain ⟨tag, htag⟩ := List.exists_mem_of_ne_nil _ hne
  have hnot : ¬ ∀ t ∈ tx.missingTags, t ∈ ([] : List T) := fun h => List.not_mem_nil (h tag htag)
  rw [afterSatisfying, if_neg hnot]
  simp

omit [DecidableEq H] in
-- A tag the operation does not miss changes nothing.
theorem afterSatisfying_of_not_mem (hne : tx.missingTags ≠ []) (h : tag ∉ tx.missingTags) :
    tx.afterSatisfying [tag] = some tx := by
  obtain ⟨t, ht⟩ := List.exists_mem_of_ne_nil _ hne
  have hnot : ¬ ∀ t ∈ tx.missingTags, t ∈ [tag] := fun hall => by
    rw [List.mem_singleton.mp (hall t ht)] at ht
    exact h ht
  have hfilter : tx.missingTags.filter (fun t => t ∉ [tag]) = tx.missingTags :=
    List.filter_eq_self.mpr fun t ht' => by
      simp only [List.mem_singleton, decide_eq_true_eq]
      rintro rfl
      exact h ht'
  rw [afterSatisfying, if_neg hnot, hfilter]

omit [DecidableEq H] in
-- The missing tags left once `tag` is satisfied, when each is missed once.
theorem erase_eq_filter_not_mem (hnd : tx.missingTags.Nodup) :
    tx.missingTags.erase tag = tx.missingTags.filter fun t => t ∉ [tag] := by
  rw [hnd.erase_eq_filter]
  exact List.filter_congr fun t _ => by by_cases ht : t = tag <;> simp [ht]

omit [DecidableEq H] in
-- Satisfying a tag the operation misses is what `satisfy_tag` and `is_ready` compute.
theorem afterSatisfying_of_mem (hnd : tx.missingTags.Nodup) :
    tx.afterSatisfying [tag] = if (tx.satisfyTag tag).isReady then none else some (tx.satisfyTag tag) := by
  have hready : (tx.satisfyTag tag).isReady ↔ ∀ t ∈ tx.missingTags, t ∈ [tag] := by
    rw [isReady, satisfyTag, erase_eq_filter_not_mem hnd, List.isEmpty_iff, List.filter_eq_nil_iff]
    exact forall₂_congr fun t _ => by simp
  by_cases hall : ∀ t ∈ tx.missingTags, t ∈ [tag]
  · rw [afterSatisfying, if_pos hall, if_pos (hready.mpr hall)]
  · rw [afterSatisfying, if_neg hall, if_neg (mt hready.mp hall), satisfyTag,
      erase_eq_filter_not_mem hnd]

omit [DecidableEq H] in
-- Satisfying the tags one after the other.
theorem afterSatisfying_cons :
    (tx.afterSatisfying [tag]).bind (afterSatisfying tags) = tx.afterSatisfying (tag :: tags) := by
  by_cases h₁ : ∀ t ∈ tx.missingTags, t ∈ [tag]
  · have h₂ : ∀ t ∈ tx.missingTags, t ∈ tag :: tags := fun t ht =>
      List.mem_cons.mpr (.inl (List.mem_singleton.mp (h₁ t ht)))
    rw [afterSatisfying.eq_1 [tag], if_pos h₁, Option.bind_none, afterSatisfying.eq_1 (tag :: tags),
      if_pos h₂]
  · -- the tags left after `tag` are missed as before, and are all among `tags` or not
    have hiff : (∀ t ∈ tx.missingTags.filter fun t => t ∉ [tag], t ∈ tags) ↔
        ∀ t ∈ tx.missingTags, t ∈ tag :: tags := by
      constructor
      · intro h t ht
        by_cases hne : t = tag
        · exact hne ▸ List.mem_cons_self
        · exact List.mem_cons_of_mem _ (h t (List.mem_filter.mpr ⟨ht, by simpa using hne⟩))
      · intro h t ht
        obtain ⟨ht, hne⟩ := List.mem_filter.mp ht
        have hne : t ≠ tag := by simpa using hne
        exact (List.mem_cons.mp (h t ht)).resolve_left hne
    have hfilter : (tx.missingTags.filter fun t => t ∉ [tag]).filter (fun t => t ∉ tags) =
        tx.missingTags.filter fun t => t ∉ tag :: tags := by
      rw [List.filter_filter]
      exact List.filter_congr fun t _ => by
        by_cases ht : t = tag <;> by_cases hts : t ∈ tags <;> simp [ht, hts]
    rw [afterSatisfying.eq_1 [tag], if_neg h₁, Option.bind_some, afterSatisfying.eq_1 tags,
      afterSatisfying.eq_1 (tag :: tags)]
    by_cases h₂ : ∀ t ∈ tx.missingTags, t ∈ tag :: tags
    · rw [if_pos (hiff.mpr h₂), if_pos h₂]
    · rw [if_neg (mt hiff.mp h₂), if_neg h₂, hfilter]

omit [DecidableEq H] in
theorem afterSatisfying_eq_none :
    tx.afterSatisfying tags = none ↔ ∀ t ∈ tx.missingTags, t ∈ tags := by
  unfold afterSatisfying
  split
  · next h => exact iff_of_true rfl h
  · next h => exact iff_of_false (by simp) h

omit [DecidableEq H] in
theorem afterSatisfying_eq_some :
    tx.afterSatisfying tags = some tx' ↔ ¬ (∀ t ∈ tx.missingTags, t ∈ tags) ∧
      tx' = ⟨tx.operation, tx.missingTags.filter fun t => t ∉ tags⟩ := by
  unfold afterSatisfying
  split
  · next h =>
    simp only [reduceCtorEq, false_iff, not_and]
    exact fun hnot => absurd h hnot
  · next h => simp [h, eq_comm]

omit [DecidableEq H] in
-- The tags still missing afterwards are the ones missed before and not satisfied.
theorem mem_of_afterSatisfying (h : tx.afterSatisfying tags = some tx') {t : T} :
    t ∈ tx'.missingTags ↔ t ∈ tx.missingTags ∧ t ∉ tags := by
  obtain ⟨-, rfl⟩ := afterSatisfying_eq_some.mp h
  simp

omit [DecidableEq H] in
theorem missingTags_ne_nil_of_afterSatisfying (h : tx.afterSatisfying tags = some tx') :
    tx'.missingTags ≠ [] := by
  obtain ⟨hnot, -⟩ := afterSatisfying_eq_some.mp h
  obtain ⟨t, ht, htags⟩ : ∃ t ∈ tx.missingTags, t ∉ tags := by simpa using hnot
  exact List.ne_nil_of_mem ((mem_of_afterSatisfying h).mpr ⟨ht, htags⟩)

omit [DecidableEq H] in
theorem nodup_of_afterSatisfying (hnd : tx.missingTags.Nodup) (h : tx.afterSatisfying tags = some tx') :
    tx'.missingTags.Nodup := by
  obtain ⟨-, rfl⟩ := afterSatisfying_eq_some.mp h
  exact hnd.filter _

omit [DecidableEq H] in
-- An operation `satisfy_tag` leaves ready has no missing tag left.
theorem satisfyTag_eq_of_isReady (h : (tx.satisfyTag tag).isReady) :
    tx.satisfyTag tag = ⟨tx.operation, []⟩ := by
  have hnil : tx.missingTags.erase tag = [] := List.isEmpty_iff.mp h
  rw [satisfyTag, hnil]

end WaitingTrustedOperations

namespace FutureTrustedOperations

-- `wanted` indexes `waiting`: the hashes listed for a tag, each once, are those of the waiting
-- operations that miss it; a waiting operation is stored under its own hash and misses some tags,
-- each once (`missing_tags` is a `HashSet`).
structure Indexed (wanted : AList fun _ : T => List H)
    (waiting : AList fun _ : H => WaitingTrustedOperations H T) : Prop where
  nodup   : ∀ tag, ((wanted.lookup tag).getD []).Nodup
  wanted  : ∀ tag hash, hash ∈ (wanted.lookup tag).getD [] ↔
    ∃ tx, waiting.lookup hash = some tx ∧ tag ∈ tx.missingTags
  waiting : ∀ hash tx, waiting.lookup hash = some tx →
    tx.operation.hash = hash ∧ tx.missingTags.Nodup ∧ tx.missingTags ≠ []

-- The invariant of a shard's future queue: its two maps are there together, and the wanted tags
-- index the waiting operations.
structure Linked (s : FutureTrustedOperations H T) : Prop where
  present : s.wantedTags.isSome ↔ s.waiting.isSome
  indexed : Indexed (s.wantedTags.getD ∅) (s.waiting.getD ∅)

section Index

variable {wanted : AList fun _ : T => List H} {waiting : AList fun _ : H => WaitingTrustedOperations H T}

theorem Indexed.empty : Indexed (∅ : AList fun _ : T => List H)
    (∅ : AList fun _ : H => WaitingTrustedOperations H T) where
  nodup _ := by simp
  wanted _ _ := by simp
  waiting _ _ h := by simp at h

-- The wanted tags after `import` added `hash` under each tag of `tags`.
theorem lookup_foldl_insertHash (hash : H) (tags : List T) (wanted : AList fun _ : T => List H)
    (tag : T) :
    ((tags.foldl (fun wanted tag => wanted.insert tag (insertHash hash ((wanted.lookup tag).getD [])))
        wanted).lookup tag).getD [] =
      if tag ∈ tags then insertHash hash ((wanted.lookup tag).getD []) else (wanted.lookup tag).getD [] := by
  induction tags generalizing wanted with
  | nil => simp
  | cons t tags ih =>
    rw [List.foldl_cons, ih]
    by_cases ht : tag = t
    · subst ht
      simp [AList.lookup_insert, insertHash_insertHash]
    · by_cases hin : tag ∈ tags <;> simp [ht, hin, AList.lookup_insert_ne ht]

-- `import` of an operation under a fresh hash lists the hash under each tag it misses.
theorem Indexed.import (h : Indexed wanted waiting) {tx : WaitingTrustedOperations H T}
    (hfresh : waiting.lookup tx.operation.hash = none) (hnodup : tx.missingTags.Nodup)
    (hne : tx.missingTags ≠ []) :
    Indexed (tx.missingTags.foldl (fun wanted tag =>
        wanted.insert tag (insertHash tx.operation.hash ((wanted.lookup tag).getD []))) wanted)
      (waiting.insert tx.operation.hash tx) where
  nodup tag := by
    rw [lookup_foldl_insertHash]
    split
    · exact nodup_insertHash (h.nodup tag)
    · exact h.nodup tag
  wanted tag hash := by
    rw [lookup_foldl_insertHash]
    by_cases hh : hash = tx.operation.hash
    · rw [hh, AList.lookup_insert]
      -- the fresh hash was listed nowhere before
      have hold : tx.operation.hash ∉ (wanted.lookup tag).getD [] := fun hin => by
        obtain ⟨_, hl, -⟩ := (h.wanted tag _).mp hin
        rw [hfresh] at hl
        cases hl
      split
      · next hmem => simp [mem_insertHash, hmem]
      · next hmem => simp [hold, hmem]
    · rw [AList.lookup_insert_ne hh, ← h.wanted tag hash]
      split
      · simp [mem_insertHash, hh]
      · rfl
  waiting hash tx' hl := by
    by_cases hh : hash = tx.operation.hash
    · rw [hh, AList.lookup_insert, Option.some_inj] at hl
      rw [hh, ← hl]
      exact ⟨rfl, hnodup, hne⟩
    · rw [AList.lookup_insert_ne hh] at hl
      exact h.waiting hash tx' hl

-- The wanted tags after `remove` took `hash` out of the lists of `tags`.
theorem lookup_removeWanted (hash : H) {tags : List T} (htags : tags.Nodup)
    (wanted : AList fun _ : T => List H) (tag : T) :
    ((removeWanted hash tags wanted).lookup tag).getD [] =
      if tag ∈ tags then ((wanted.lookup tag).getD []).erase hash else (wanted.lookup tag).getD [] := by
  induction tags generalizing wanted with
  | nil => simp [removeWanted]
  | cons t tags ih =>
    obtain ⟨hnot, htags⟩ := List.nodup_cons.mp htags
    -- one step: the list of `t` loses `hash`, and goes when it is left empty
    have hstep : ∀ tag', ((removeWanted hash [t] wanted).lookup tag').getD [] =
        if tag' = t then ((wanted.lookup t).getD []).erase hash else (wanted.lookup tag').getD [] := by
      intro tag'
      rcases hl : wanted.lookup t with _ | hashes
      · by_cases ht : tag' = t
        · subst ht
          simp [removeWanted, hl]
        · simp [removeWanted, hl, ht]
      · by_cases ht : tag' = t
        · subst ht
          simp only [removeWanted, hl, if_true, Option.getD_some]
          split
          · next hempty => simp [List.isEmpty_iff.mp hempty]
          · simp
        · simp only [removeWanted, hl, if_neg ht]
          split <;> simp [ht, AList.lookup_erase_ne, AList.lookup_insert_ne]
    have hcons : removeWanted hash (t :: tags) wanted =
        removeWanted hash tags (removeWanted hash [t] wanted) := rfl
    rw [hcons, ih htags, hstep]
    by_cases ht : tag = t
    · subst ht
      simp [hnot]
    · simp [ht]

-- `remove` of a waiting operation takes its hash out of the lists of the tags it misses, the only
-- lists that hold it.
theorem Indexed.erase (h : Indexed wanted waiting) {hash : H} {tx : WaitingTrustedOperations H T}
    (hl : waiting.lookup hash = some tx) :
    Indexed (removeWanted hash tx.missingTags wanted) (waiting.erase hash) where
  nodup tag := by
    rw [lookup_removeWanted hash (h.waiting hash tx hl).2.1]
    split
    · exact (h.nodup tag).erase hash
    · exact h.nodup tag
  wanted tag hash' := by
    rw [lookup_removeWanted hash (h.waiting hash tx hl).2.1]
    by_cases hh : hash' = hash
    · subst hh
      rw [AList.lookup_erase]
      split
      · simp [(h.nodup tag).mem_erase_iff]
      · next hmem =>
        simp only [reduceCtorEq, false_and, exists_false, iff_false]
        exact fun hin => hmem (by
          obtain ⟨tx', hl', hmem'⟩ := (h.wanted tag hash').mp hin
          rw [hl, Option.some_inj] at hl'
          exact hl' ▸ hmem')
    · rw [AList.lookup_erase_ne hh, ← h.wanted tag hash']
      split
      · simp [(h.nodup tag).mem_erase_iff, hh]
      · rfl
  waiting hash' tx' hl' := by
    by_cases hh : hash' = hash
    · subst hh
      simp at hl'
    · rw [AList.lookup_erase_ne hh] at hl'
      exact h.waiting hash' tx' hl'

-- `satisfy_tags` after one tag: the operations that missed it miss it no longer, and those that
-- missed nothing else have left. The wanted tags without the tag index what is left.
theorem Indexed.satisfy (h : Indexed wanted waiting) {tag : T}
    {waiting' : AList fun _ : H => WaitingTrustedOperations H T}
    (hlook : ∀ hash, waiting'.lookup hash = (waiting.lookup hash).bind (·.afterSatisfying [tag])) :
    Indexed (wanted.erase tag) waiting' where
  nodup t := by
    by_cases ht : t = tag
    · rw [ht, AList.lookup_erase]
      exact List.nodup_nil
    · rw [AList.lookup_erase_ne ht]
      exact h.nodup t
  wanted t hash := by
    rw [hlook hash]
    by_cases ht : t = tag
    · -- the satisfied tag is missed by no one any more
      rw [ht, AList.lookup_erase]
      simp only [Option.getD_none, List.not_mem_nil, false_iff, not_exists, not_and]
      intro tx' hl' hmem
      obtain ⟨tx, -, htx⟩ := Option.bind_eq_some_iff.mp hl'
      exact ((WaitingTrustedOperations.mem_of_afterSatisfying htx).mp hmem).2 (List.mem_singleton_self _)
    · rw [AList.lookup_erase_ne ht, h.wanted t hash]
      constructor
      · rintro ⟨tx, hl, hmem⟩
        rw [hl, Option.bind_some]
        cases htx : tx.afterSatisfying [tag] with
        | none =>
          -- an operation that leaves missed only `tag`
          have hall : ∀ t' ∈ tx.missingTags, t' ∈ [tag] := by
            by_contra hnot
            rw [WaitingTrustedOperations.afterSatisfying, if_neg hnot] at htx
            cases htx
          exact absurd (List.mem_singleton.mp (hall t hmem)) ht
        | some tx' =>
          exact ⟨tx', rfl, (WaitingTrustedOperations.mem_of_afterSatisfying htx).mpr
            ⟨hmem, fun h' => ht (List.mem_singleton.mp h')⟩⟩
      · rintro ⟨tx', hl', hmem⟩
        obtain ⟨tx, hl, htx⟩ := Option.bind_eq_some_iff.mp hl'
        exact ⟨tx, hl, ((WaitingTrustedOperations.mem_of_afterSatisfying htx).mp hmem).1⟩
  waiting hash tx' hl' := by
    rw [hlook hash] at hl'
    obtain ⟨tx, hl, htx⟩ := Option.bind_eq_some_iff.mp hl'
    obtain ⟨hhash, hnd, -⟩ := h.waiting hash tx hl
    exact ⟨(WaitingTrustedOperations.afterSatisfying_operation htx).symm ▸ hhash,
      WaitingTrustedOperations.nodup_of_afterSatisfying hnd htx,
      WaitingTrustedOperations.missingTags_ne_nil_of_afterSatisfying htx⟩

-- An operation that no wanted list holds under `tag` does not miss it.
theorem Indexed.afterSatisfying_of_not_wanted (h : Indexed wanted waiting) {tag : T} {hash : H}
    (hnot : hash ∉ (wanted.lookup tag).getD []) :
    (waiting.lookup hash).bind (·.afterSatisfying [tag]) = waiting.lookup hash := by
  cases hl : waiting.lookup hash with
  | none => rfl
  | some tx =>
    have hmem : tag ∉ tx.missingTags := fun hmem => hnot ((h.wanted tag hash).mpr ⟨tx, hl, hmem⟩)
    exact WaitingTrustedOperations.afterSatisfying_of_not_mem (h.waiting hash tx hl).2.2 hmem

end Index

-- Each method keeps the invariant: `import` and `clear` from their run, `remove` over its fold, and
-- `satisfy_tags` tag by tag, where the loop over the hashes of a tag is a map over them.

section Methods

variable {s s' : FutureTrustedOperations H T}

theorem Linked.empty (hashOrder : IterOrder H) :
    (FutureTrustedOperations.empty hashOrder : FutureTrustedOperations H T).Linked :=
  ⟨by simp [FutureTrustedOperations.empty], Indexed.empty⟩

theorem import_run {tx : WaitingTrustedOperations H T} (hready : tx.isReady = false)
    (hfresh : s.contains tx.operation.hash = false) :
    (FutureTrustedOperations.import tx).run s = .ok () { s with
      waiting := some ((s.waiting.getD ∅).insert tx.operation.hash tx),
      wantedTags := some (tx.missingTags.foldl (fun wanted tag =>
        wanted.insert tag (insertHash tx.operation.hash ((wanted.lookup tag).getD [])))
        (s.wantedTags.getD ∅)) } := by
  cases hw : s.waiting with
  | none => simp [FutureTrustedOperations.import, hready, hw]
  | some waiting =>
    have hl : waiting.lookup tx.operation.hash = none := by
      simpa [hw] using contains_eq_false_iff.mp hfresh
    simp [FutureTrustedOperations.import, hready, hw, hl]

theorem import_linked (hs : s.Linked) {tx : WaitingTrustedOperations H T} (hready : tx.isReady = false)
    (hfresh : s.contains tx.operation.hash = false) (hset : tx.missingTags.Nodup)
    (h : (FutureTrustedOperations.import tx).run s = .ok () s') : s'.Linked := by
  rw [import_run hready hfresh] at h
  obtain ⟨-, rfl⟩ := Result.ok.inj h
  have hne : tx.missingTags ≠ [] := by simpa [WaitingTrustedOperations.isReady] using hready
  exact ⟨by simp, hs.indexed.import (contains_eq_false_iff.mp hfresh) hset hne⟩

-- The fold of `remove` keeps the index, one erased operation at a time.
theorem foldl_remove_indexed
    {f : (AList fun _ : H => WaitingTrustedOperations H T) × (AList fun _ : T => List H) ×
      List (TrustedOperation H T) → H →
      (AList fun _ : H => WaitingTrustedOperations H T) × (AList fun _ : T => List H) ×
        List (TrustedOperation H T)}
    (hf : ∀ waiting wanted removed hash, f (waiting, wanted, removed) hash =
      match waiting.lookup hash with
      | some tx => (waiting.erase hash, removeWanted hash tx.missingTags wanted, removed ++ [tx.operation])
      | none => (waiting, wanted, removed)) :
    ∀ (hashes : List H) (waiting : AList fun _ : H => WaitingTrustedOperations H T)
      (wanted : AList fun _ : T => List H) (removed : List (TrustedOperation H T)),
      Indexed wanted waiting →
      Indexed (hashes.foldl f (waiting, wanted, removed)).2.1 (hashes.foldl f (waiting, wanted, removed)).1
  | [], _, _, _, h => h
  | hash :: rest, waiting, wanted, removed, h => by
    rw [List.foldl_cons, hf]
    cases hl : waiting.lookup hash with
    | none => exact foldl_remove_indexed hf rest waiting wanted removed h
    | some tx => exact foldl_remove_indexed hf rest _ _ _ (h.erase hl)

theorem remove_linked (hs : s.Linked) {hashes : List H} {removed : List (TrustedOperation H T)}
    (h : (remove hashes).run s = .ok removed s') : s'.Linked := by
  cases hw : s.waiting with
  | none =>
    rw [remove_of_none (.inl hw)] at h
    obtain ⟨-, rfl⟩ := Result.ok.inj h
    exact hs
  | some waiting =>
    cases ht : s.wantedTags with
    | none =>
      rw [remove_of_none (.inr ht)] at h
      obtain ⟨-, rfl⟩ := Result.ok.inj h
      exact hs
    | some wanted =>
      have hidx : Indexed wanted waiting := by simpa [hw, ht] using hs.indexed
      simp only [remove, run_bind, run_get, hw, ht] at h
      obtain ⟨-, rfl⟩ := Result.ok.inj h
      exact ⟨by simp, foldl_remove_indexed (fun _ _ _ _ => rfl) hashes waiting wanted [] hidx⟩

theorem clear_linked (hs : s.Linked) {removed : List (TrustedOperation H T)}
    (h : clear.run s = .ok removed s') : s'.Linked := by
  cases ht : s.wantedTags with
  | none =>
    simp only [clear, run_bind, run_get, ht] at h
    obtain ⟨-, rfl⟩ := Result.ok.inj h
    exact hs
  | some wanted =>
    -- the waiting map is there with the wanted tags, so `unwrap` finds it
    obtain ⟨waiting, hw⟩ := Option.isSome_iff_exists.mp (hs.present.mp (by simp [ht]))
    simp only [clear, run_bind, run_get, ht, hw] at h
    obtain ⟨-, rfl⟩ := Result.ok.inj h
    exact ⟨by simp, Indexed.empty⟩

section Loop

variable {tag : T} {hash : H} {rest : List H}
  {waiting waiting₁ waiting' : AList fun _ : H => WaitingTrustedOperations H T}

-- A round of the loop over the hashes of a tag, read through the map before it: the head hash as
-- satisfying the tag leaves it, the others of the rest as the rest of the loop leaves them.
theorem lookup_satisfyHashes_step (hnot : hash ∉ rest)
    (hhead : waiting₁.lookup hash = (waiting.lookup hash).bind (·.afterSatisfying [tag]))
    (hother : ∀ h, h ≠ hash → waiting₁.lookup h = waiting.lookup h)
    (hlook : ∀ h, waiting'.lookup h = if h ∈ rest then
      (waiting₁.lookup h).bind (·.afterSatisfying [tag]) else waiting₁.lookup h) (h : H) :
    waiting'.lookup h = if h ∈ hash :: rest then
      (waiting.lookup h).bind (·.afterSatisfying [tag]) else waiting.lookup h := by
  rw [hlook h]
  by_cases hh : h = hash
  · rw [hh, if_neg hnot, if_pos List.mem_cons_self, hhead]
  · rw [hother h hh]
    by_cases hin : h ∈ rest
    · rw [if_pos hin, if_pos (List.mem_cons_of_mem _ hin)]
    · rw [if_neg hin, if_neg (by simpa [hh] using hin)]

-- The operations the rest of the loop releases are read the same in the map before the round.
theorem released_satisfyHashes_step (hnot : hash ∉ rest)
    (hother : ∀ h, h ≠ hash → waiting₁.lookup h = waiting.lookup h)
    (tx : WaitingTrustedOperations H T) :
    (∃ h ∈ rest, ∃ w, waiting₁.lookup h = some w ∧ w.afterSatisfying [tag] = none ∧
        tx = ⟨w.operation, []⟩) ↔
      ∃ h ∈ rest, ∃ w, waiting.lookup h = some w ∧ w.afterSatisfying [tag] = none ∧
        tx = ⟨w.operation, []⟩ := by
  refine exists_congr fun h => and_congr_right fun hh => ?_
  rw [hother h fun heq => hnot (heq ▸ hh)]

end Loop

-- The loop over the hashes of one tag is a map over them: each operation listed has the tag
-- satisfied, and leaves when nothing else is missing. None is looked up twice, so the
-- `expect(WAITING_PROOF)` calls find each.
theorem satisfyHashes_run (tag : T) (s : FutureTrustedOperations H T) :
    ∀ (hashes : List H) (waiting : AList fun _ : H => WaitingTrustedOperations H T)
      (becameReady : List (WaitingTrustedOperations H T)), hashes.Nodup →
      (∀ hash ∈ hashes, ∃ tx, waiting.lookup hash = some tx ∧ tx.missingTags.Nodup) →
      ∃ waiting' released, (satisfyHashes tag hashes waiting becameReady).run s =
          .ok (waiting', becameReady ++ released) s ∧
        (∀ hash, waiting'.lookup hash = if hash ∈ hashes then
          (waiting.lookup hash).bind (·.afterSatisfying [tag]) else waiting.lookup hash) ∧
        ∀ tx, tx ∈ released ↔ ∃ hash ∈ hashes, ∃ w, waiting.lookup hash = some w ∧
          w.afterSatisfying [tag] = none ∧ tx = ⟨w.operation, []⟩
  | [], waiting, becameReady, _, _ =>
    ⟨waiting, [], by simp [satisfyHashes], fun _ => by simp, fun _ => by simp⟩
  | hash :: rest, waiting, becameReady, hnd, hall => by
    obtain ⟨hnot, hrest⟩ := List.nodup_cons.mp hnd
    obtain ⟨w, hl, hwnd⟩ := hall hash List.mem_cons_self
    have hne : ∀ h ∈ rest, h ≠ hash := fun h hh heq => hnot (heq ▸ hh)
    have hafter : w.afterSatisfying [tag] = _ := WaitingTrustedOperations.afterSatisfying_of_mem hwnd
    rw [satisfyHashes, hl]
    dsimp only
    split
    · next hready =>
      -- the operation is ready: it leaves the map and joins the released ones
      obtain ⟨waiting', released, hrun, hlook, hrel⟩ := satisfyHashes_run tag s rest (waiting.erase hash)
        (becameReady ++ [w.satisfyTag tag]) hrest fun h hh => by
          rw [AList.lookup_erase_ne (hne h hh)]
          exact hall h (List.mem_cons_of_mem _ hh)
      rw [if_pos hready] at hafter
      have hother : ∀ h, h ≠ hash → (waiting.erase hash).lookup h = waiting.lookup h :=
        fun h hh => AList.lookup_erase_ne hh
      refine ⟨waiting', ⟨w.operation, []⟩ :: released, ?_,
        lookup_satisfyHashes_step hnot (by rw [AList.lookup_erase, hl, Option.bind_some, hafter])
          hother hlook, fun tx => ?_⟩
      · rw [hrun, WaitingTrustedOperations.satisfyTag_eq_of_isReady hready, List.append_assoc,
          List.singleton_append]
      · rw [List.mem_cons, hrel tx, released_satisfyHashes_step hnot hother, List.exists_mem_cons_iff]
        refine or_congr_left ?_
        simp [hl, hafter]
    · next hready =>
      -- the operation still misses a tag: it is written back with the tag satisfied
      obtain ⟨waiting', released, hrun, hlook, hrel⟩ := satisfyHashes_run tag s rest
        (waiting.insert hash (w.satisfyTag tag)) becameReady hrest fun h hh => by
          rw [AList.lookup_insert_ne (hne h hh)]
          exact hall h (List.mem_cons_of_mem _ hh)
      rw [if_neg hready] at hafter
      have hother : ∀ h, h ≠ hash → (waiting.insert hash (w.satisfyTag tag)).lookup h =
          waiting.lookup h :=
        fun h hh => AList.lookup_insert_ne hh
      refine ⟨waiting', released, hrun,
        lookup_satisfyHashes_step hnot (by rw [AList.lookup_insert, hl, Option.bind_some, hafter])
          hother hlook, fun tx => ?_⟩
      -- the head operation still misses a tag, so it is not released
      rw [hrel tx, released_satisfyHashes_step hnot hother, List.exists_mem_cons_iff]
      exact (or_iff_right (by simp [hl, hafter])).symm

-- One tag of `satisfy_tags`: the operations that miss it have it satisfied, and those that miss
-- nothing else are released; the loop goes on with the rest of the tags from there.
theorem satisfyTags_cons_run (hs : s.Linked) (tag : T) (rest : List T)
    (becameReady : List (WaitingTrustedOperations H T)) :
    ∃ s₁ released, s₁.Linked ∧
      (∀ hash, (s₁.waiting.getD ∅).lookup hash =
        ((s.waiting.getD ∅).lookup hash).bind (·.afterSatisfying [tag])) ∧
      (∀ tx, tx ∈ released ↔ ∃ hash w, (s.waiting.getD ∅).lookup hash = some w ∧
        w.afterSatisfying [tag] = none ∧ tx = ⟨w.operation, []⟩) ∧
      (satisfyTags (tag :: rest) becameReady).run s =
        (satisfyTags rest (becameReady ++ released)).run s₁ := by
  -- a tag that no list holds is missed by no operation, and the loop skips it
  have hskip : (s.wantedTags.getD ∅).lookup tag = none →
      (satisfyTags (tag :: rest) becameReady).run s = (satisfyTags rest becameReady).run s →
      ∃ s₁ released, s₁.Linked ∧
        (∀ hash, (s₁.waiting.getD ∅).lookup hash =
          ((s.waiting.getD ∅).lookup hash).bind (·.afterSatisfying [tag])) ∧
        (∀ tx, tx ∈ released ↔ ∃ hash w, (s.waiting.getD ∅).lookup hash = some w ∧
          w.afterSatisfying [tag] = none ∧ tx = ⟨w.operation, []⟩) ∧
        (satisfyTags (tag :: rest) becameReady).run s =
          (satisfyTags rest (becameReady ++ released)).run s₁ := by
    intro hl hrun
    have hbind : ∀ hash, ((s.waiting.getD ∅).lookup hash).bind (·.afterSatisfying [tag]) =
        (s.waiting.getD ∅).lookup hash :=
      fun hash => hs.indexed.afterSatisfying_of_not_wanted (by simp [hl])
    refine ⟨s, [], hs, fun hash => (hbind hash).symm, fun tx => ?_, by rw [hrun, List.append_nil]⟩
    simp only [List.not_mem_nil, false_iff, not_exists, not_and]
    intro hash w hw hnone
    have hkeep := hbind hash
    rw [hw, Option.bind_some, hnone] at hkeep
    cases hkeep
  cases ht : s.wantedTags with
  | none =>
    refine hskip (by simp [ht]) ?_
    rw [satisfyTags, run_bind, run_get]
    dsimp only
    rw [ht]
  | some wanted =>
    cases hl : wanted.lookup tag with
    | none =>
      refine hskip (by simp [ht, hl]) ?_
      rw [satisfyTags, run_bind, run_get]
      dsimp only
      rw [ht]
      dsimp only
      rw [hl]
    | some hashes =>
      obtain ⟨waiting, hw⟩ := Option.isSome_iff_exists.mp (hs.present.mp (by simp [ht]))
      have hidx : Indexed wanted waiting := by simpa [hw, ht] using hs.indexed
      -- the hashes listed under the tag are those of the operations that miss it
      have hlisted : ∀ hash, hash ∈ hashes ↔ ∃ tx, waiting.lookup hash = some tx ∧ tag ∈ tx.missingTags :=
        fun hash => by simpa [hl] using hidx.wanted tag hash
      -- the loop visits the hashes in the set's order, a permutation of the listed one
      obtain ⟨waiting', released, hrun, hlook, hrel⟩ := satisfyHashes_run tag
        { s with wantedTags := some (wanted.erase tag) } (s.hashOrder.arrange hashes) waiting
        becameReady ((s.hashOrder.perm hashes).nodup_iff.mpr (by simpa [hl] using hidx.nodup tag))
        fun hash hh => by
          obtain ⟨tx, htx, -⟩ := (hlisted hash).mp (s.hashOrder.mem_arrange.mp hh)
          exact ⟨tx, htx, (hidx.waiting hash tx htx).2.1⟩
      have hlook' : ∀ hash, waiting'.lookup hash = (waiting.lookup hash).bind (·.afterSatisfying [tag]) := by
        intro hash
        rw [hlook hash]
        split
        · rfl
        · next hh =>
          have hh : hash ∉ hashes := mt s.hashOrder.mem_arrange.mpr hh
          exact (hidx.afterSatisfying_of_not_wanted (by simpa [hl] using hh)).symm
      refine ⟨{ s with wantedTags := some (wanted.erase tag), waiting := some waiting' }, released,
        ⟨by simp, hidx.satisfy hlook'⟩, fun hash => by simpa [hw] using hlook' hash, fun tx => ?_, ?_⟩
      · rw [hrel tx, hw, Option.getD_some]
        constructor
        · rintro ⟨hash, -, w, hl', hnone, rfl⟩
          exact ⟨hash, w, hl', hnone, rfl⟩
        · rintro ⟨hash, w, hl', hnone, rfl⟩
          -- a released operation missed the tag, so it was listed under it
          have hmem : tag ∈ w.missingTags := by
            by_contra hmem
            rw [WaitingTrustedOperations.afterSatisfying_of_not_mem (hidx.waiting hash w hl').2.2 hmem]
              at hnone
            cases hnone
          exact ⟨hash, s.hashOrder.mem_arrange.mpr ((hlisted hash).mpr ⟨w, hl', hmem⟩), w, hl',
            hnone, rfl⟩
      · -- the run: the tag's entry is erased, its hashes satisfied, and the map written back
        rw [satisfyTags, run_bind_of_ok (run_get _)]
        dsimp only
        rw [ht]
        dsimp only
        rw [hl]
        dsimp only
        rw [run_bind_of_ok (EStateM.run_set _ _), hw]
        dsimp only
        rw [hw] at hrun
        rw [run_bind_of_ok hrun, run_bind, EStateM.run_modify]

-- `satisfy_tags` from a linked queue never panics. It keeps the queue linked, leaves each operation
-- as satisfying all the tags leaves it, and releases exactly the operations whose missing tags are
-- all among them.
theorem satisfyTags_run : ∀ (tags : List T) (becameReady : List (WaitingTrustedOperations H T))
    (s : FutureTrustedOperations H T), s.Linked →
    ∃ released s', (satisfyTags tags becameReady).run s = .ok (becameReady ++ released) s' ∧
      s'.Linked ∧
      (∀ hash, (s'.waiting.getD ∅).lookup hash =
        ((s.waiting.getD ∅).lookup hash).bind (·.afterSatisfying tags)) ∧
      ∀ tx, tx ∈ released ↔ ∃ hash w, (s.waiting.getD ∅).lookup hash = some w ∧
        w.afterSatisfying tags = none ∧ tx = ⟨w.operation, []⟩
  | [], becameReady, s, hs => by
    -- with no tag, every operation stays as it is
    have hbind : ∀ hash, ((s.waiting.getD ∅).lookup hash).bind (·.afterSatisfying []) =
        (s.waiting.getD ∅).lookup hash := by
      intro hash
      cases hl : (s.waiting.getD ∅).lookup hash with
      | none => rfl
      | some w => exact WaitingTrustedOperations.afterSatisfying_nil (hs.indexed.waiting hash w hl).2.2
    refine ⟨[], s, by simp [satisfyTags], hs, fun hash => (hbind hash).symm, fun tx => ?_⟩
    simp only [List.not_mem_nil, false_iff, not_exists, not_and]
    intro hash w hw hnone
    have hkeep := hbind hash
    rw [hw, Option.bind_some, hnone] at hkeep
    cases hkeep
  | tag :: rest, becameReady, s, hs => by
    obtain ⟨s₁, r₁, hs₁, hlook₁, hr₁, hrun₁⟩ := satisfyTags_cons_run hs tag rest becameReady
    obtain ⟨r₂, s', hrun₂, hs', hlook₂, hr₂⟩ := satisfyTags_run rest (becameReady ++ r₁) s₁ hs₁
    refine ⟨r₁ ++ r₂, s', by rw [hrun₁, hrun₂, List.append_assoc], hs', fun hash => ?_, fun tx => ?_⟩
    · rw [hlook₂, hlook₁, Option.bind_assoc]
      congr 1
      funext w
      exact WaitingTrustedOperations.afterSatisfying_cons
    · rw [List.mem_append, hr₁, hr₂]
      constructor
      · rintro (⟨hash, w, hw, hnone, rfl⟩ | ⟨hash, w₁, hw₁, hnone, rfl⟩)
        · refine ⟨hash, w, hw, ?_, rfl⟩
          rw [← WaitingTrustedOperations.afterSatisfying_cons, hnone, Option.bind_none]
        · rw [hlook₁] at hw₁
          obtain ⟨w, hw, hw₁⟩ := Option.bind_eq_some_iff.mp hw₁
          refine ⟨hash, w, hw, ?_, by rw [WaitingTrustedOperations.afterSatisfying_operation hw₁]⟩
          rw [← WaitingTrustedOperations.afterSatisfying_cons, hw₁, Option.bind_some, hnone]
      · rintro ⟨hash, w, hw, hnone, rfl⟩
        rw [← WaitingTrustedOperations.afterSatisfying_cons] at hnone
        cases hw₁ : w.afterSatisfying [tag] with
        | none => exact .inl ⟨hash, w, hw, hw₁, rfl⟩
        | some w₁ =>
          rw [hw₁, Option.bind_some] at hnone
          refine .inr ⟨hash, w₁, by rw [hlook₁, hw, Option.bind_some, hw₁], hnone, ?_⟩
          rw [WaitingTrustedOperations.afterSatisfying_operation hw₁]

end Methods

-- The states of a shard's future queue that its methods reach from an empty one. `import` is given
-- an operation that is not ready, under a hash the queue does not hold; its missing tags are a
-- `HashSet`, so each is there once.
inductive Reachable : FutureTrustedOperations H T → Prop
  | empty (hashOrder : IterOrder H) : Reachable (.empty hashOrder)
  | imports {s s' : FutureTrustedOperations H T} (tx : WaitingTrustedOperations H T)
      (hs : Reachable s) (hready : tx.isReady = false) (hfresh : s.contains tx.operation.hash = false)
      (hset : tx.missingTags.Nodup) (h : (FutureTrustedOperations.import tx).run s = .ok () s') :
      Reachable s'
  | satisfies {s s' : FutureTrustedOperations H T} {released : List (WaitingTrustedOperations H T)}
      (tags : List T) (hs : Reachable s) (h : (satisfyTags tags []).run s = .ok released s') :
      Reachable s'
  | removes {s s' : FutureTrustedOperations H T} {removed : List (TrustedOperation H T)}
      (hashes : List H) (hs : Reachable s) (h : (remove hashes).run s = .ok removed s') :
      Reachable s'
  | clears {s s' : FutureTrustedOperations H T} {removed : List (TrustedOperation H T)}
      (hs : Reachable s) (h : clear.run s = .ok removed s') : Reachable s'

theorem Reachable.linked {s : FutureTrustedOperations H T} (hs : s.Reachable) : s.Linked := by
  induction hs with
  | empty hashOrder => exact Linked.empty hashOrder
  | imports tx _ hready hfresh hset h ih => exact import_linked ih hready hfresh hset h
  | satisfies tags _ h ih =>
    obtain ⟨_, _, hrun, hs', -⟩ := satisfyTags_run tags [] _ ih
    rw [hrun] at h
    obtain ⟨-, rfl⟩ := Result.ok.inj h
    exact hs'
  | removes _ _ h ih => exact remove_linked ih h
  | clears _ h ih => exact clear_linked ih h

-- Every state the methods reach: `wanted_tags` is there exactly when `waiting` is, each lists only
-- waiting operations that miss the tag, each waiting operation is listed under every tag it misses
-- and misses some.
theorem Reachable.wanted_waiting_linked {s : FutureTrustedOperations H T} (hs : s.Reachable) :
    (s.wantedTags.isSome ↔ s.waiting.isSome) ∧
    (∀ tag hashes, (s.wantedTags.getD ∅).lookup tag = some hashes →
      ∀ hash ∈ hashes, ∃ tx, (s.waiting.getD ∅).lookup hash = some tx ∧ tag ∈ tx.missingTags) ∧
    (∀ hash tx, (s.waiting.getD ∅).lookup hash = some tx → ∀ tag ∈ tx.missingTags,
      ∃ hashes, (s.wantedTags.getD ∅).lookup tag = some hashes ∧ tx.operation.hash ∈ hashes) ∧
    (∀ hash tx, (s.waiting.getD ∅).lookup hash = some tx → tx.missingTags ≠ []) ∧
    ∀ tags, ∃ released s', (satisfyTags tags []).run s = .ok released s' ∧
      (∀ tx, tx ∈ released ↔ ∃ hash w, (s.waiting.getD ∅).lookup hash = some w ∧
        (∀ tag ∈ w.missingTags, tag ∈ tags) ∧ tx = ⟨w.operation, []⟩) ∧
      ∀ hash, (s'.waiting.getD ∅).lookup hash =
        ((s.waiting.getD ∅).lookup hash).bind (·.afterSatisfying tags) := by
  have hl := hs.linked
  refine ⟨hl.present, ?_, ?_, fun hash tx hlook => (hl.indexed.waiting hash tx hlook).2.2, fun tags => ?_⟩
  · intro tag hashes hlook hash hh
    exact (hl.indexed.wanted tag hash).mp (by simpa [hlook] using hh)
  · intro hash tx hlook tag hmem
    have hin := (hl.indexed.wanted tag hash).mpr ⟨tx, hlook, hmem⟩
    rw [(hl.indexed.waiting hash tx hlook).1]
    cases hw : (s.wantedTags.getD ∅).lookup tag with
    | none =>
      rw [hw] at hin
      cases hin
    | some hashes =>
      rw [hw, Option.getD_some] at hin
      exact ⟨hashes, rfl, hin⟩
  · obtain ⟨released, s', hrun, -, hlook, hrel⟩ := satisfyTags_run tags [] s hl
    refine ⟨released, s', by rwa [List.nil_append] at hrun, fun tx => ?_, hlook⟩
    simp only [hrel tx, WaitingTrustedOperations.afterSatisfying_eq_none]

-- An operation of hash `1` waiting for tag `7`, imported into an empty queue.
def waitingForSeven : WaitingTrustedOperations Nat Nat := ⟨⟨1, 1, 1, 2, [7], []⟩, [7]⟩

def oneWaiting : FutureTrustedOperations Nat Nat :=
  ⟨some (AList.insert 7 [1] ∅), some (AList.insert 1 waitingForSeven ∅), .listed⟩

theorem Reachable.wanted_waiting_linked_oneWaiting :
    oneWaiting.Reachable ∧
    (oneWaiting.wantedTags.isSome ↔ oneWaiting.waiting.isSome) ∧
    (∀ tag hashes, (oneWaiting.wantedTags.getD ∅).lookup tag = some hashes →
      ∀ hash ∈ hashes, ∃ tx, (oneWaiting.waiting.getD ∅).lookup hash = some tx ∧ tag ∈ tx.missingTags) ∧
    (∀ hash tx, (oneWaiting.waiting.getD ∅).lookup hash = some tx → ∀ tag ∈ tx.missingTags,
      ∃ hashes, (oneWaiting.wantedTags.getD ∅).lookup tag = some hashes ∧ tx.operation.hash ∈ hashes) ∧
    (∀ hash tx, (oneWaiting.waiting.getD ∅).lookup hash = some tx → tx.missingTags ≠ []) ∧
    ∀ tags, ∃ released s', (satisfyTags tags []).run oneWaiting = .ok released s' ∧
      (∀ tx, tx ∈ released ↔ ∃ hash w, (oneWaiting.waiting.getD ∅).lookup hash = some w ∧
        (∀ tag ∈ w.missingTags, tag ∈ tags) ∧ tx = ⟨w.operation, []⟩) ∧
      ∀ hash, (s'.waiting.getD ∅).lookup hash =
        ((oneWaiting.waiting.getD ∅).lookup hash).bind (·.afterSatisfying tags) :=
  have hs : oneWaiting.Reachable :=
    .imports waitingForSeven (.empty .listed) (by decide) (by decide) (by decide) rfl
  ⟨hs, Reachable.wanted_waiting_linked hs⟩

end FutureTrustedOperations

end Pool
