import PolkadexTee.Pool.Theorems.Removal

/-! `import` of `ready.rs` on a shard satisfying `HashReady`. -/

namespace Pool

variable {H T : Type} [DecidableEq H] [DecidableEq T]

namespace ReadyOperations

-- The providers `replace_previous` replaces: those of the tags `tx` provides, each once.
def replacedHashes (tags : AList fun _ : T => H) (tx : TrustedOperation H T) : List H :=
  (tx.provides.filterMap tags.lookup).eraseDups

-- Their total priority, which `tx`'s has to exceed.
def replacedPriority (tags : AList fun _ : T => H) (ready : AList fun _ : H => ReadyTx H T)
    (tx : TrustedOperation H T) : Nat :=
  ((replacedHashes tags tx).filterMap ready.lookup).foldl
    (fun total tx => saturatingAdd total tx.operation.operation.priority) 0

theorem mem_replacedHashes {tags : AList fun _ : T => H} {tx : TrustedOperation H T} {hash : H} :
    hash ∈ replacedHashes tags tx ↔ ∃ tag ∈ tx.provides, tags.lookup tag = some hash := by
  simp [replacedHashes, List.mem_eraseDups]

-- `replace_previous`.

section Replace

variable {s : ReadyOperations H T} {tx : TrustedOperation H T} {tags : AList fun _ : T => H}
  {ready : AList fun _ : H => ReadyTx H T}

theorem replacePrevious_of_tags_none (hs : s.providedTags = none) :
    (replacePrevious tx).run s = .ok ([], []) s := by
  simp [replacePrevious, hs]

theorem replacePrevious_of_nil (hs : s.providedTags = some tags) (hnil : replacedHashes tags tx = []) :
    (replacePrevious tx).run s = .ok ([], []) s := by
  simp only [replacedHashes] at hnil
  simp [replacePrevious, hs, hnil]

theorem replacePrevious_refuses (hs : s.providedTags = some tags) (hr : s.ready = some ready)
    (hne : replacedHashes tags tx ≠ []) (hle : tx.priority ≤ replacedPriority tags ready tx) :
    (replacePrevious tx).run s = .error (.tooLowPriority tx.priority) s := by
  simp only [replacedPriority, replacedHashes] at hne hle
  simp [replacePrevious, hs, hne, unwrapReady_run hr, hle]

-- `replace_previous` goes through with a removal of the replaced providers, filtered by the tags
-- `tx` provides.
theorem replacePrevious_replaces {best : List (OperationRef H T)} (hs : s.providedTags = some tags)
    (hr : s.ready = some ready) (hb : s.best = some best)
    (hlt : replacedHashes tags tx = [] ∨ replacedPriority tags ready tx < tx.priority) :
    ∃ removed unlocks ready' tags' best', (replacePrevious tx).run s =
        .ok (removed, unlocks) { s with
          providedTags := some tags'
          ready        := some ready'
          best         := some best'
          readyBytes   := s.readyBytes + totalSize ready' - totalSize ready
          readyLength  := s.readyLength + ready'.entries.length - ready.entries.length } ∧
      Removal (some tx.provides) ((replacedHashes tags tx).length + unlocksTotal ready + 1)
        (replacedHashes tags tx) ready tags ready' tags' := by
  by_cases hnil : replacedHashes tags tx = []
  · -- nothing to replace: the state is left as it is
    refine ⟨[], [], ready, tags, best, ?_, .of_stop fun _ => hnil⟩
    rw [replacePrevious_of_nil hs hnil]
    cases s
    simp_all
  · have hlt := hlt.resolve_left hnil
    obtain ⟨ready', removed, tags', best', hrun, hrem⟩ :=
      removeSubtreeWithTagFilter_run hr hs hb (replacedHashes tags tx) (some tx.provides)
    refine ⟨removed, ((replacedHashes tags tx).filterMap ready.lookup).foldl
      (fun list tx => list ++ tx.unlocks) [], ready', tags', best', ?_, hrem⟩
    simp only [replacedPriority, replacedHashes] at hnil hlt hrun
    simp only [replacePrevious, EStateM.run_bind, EStateM.run_get, hs, List.isEmpty_iff, hnil,
      if_false, unwrapReady_run hr, ge_iff_le, not_le.mpr hlt, hrun]
    rfl

-- `replace_previous` on a shard satisfying `HashReady` refuses `tx` and changes nothing, or keeps
-- the ready operations that are left and every tag outside `tx`'s owned by one of them.
theorem replacePrevious_hashReady (h : HashReady s) (tx : TrustedOperation H T) :
    (replacePrevious tx).run s = .error (.tooLowPriority tx.priority) s ∨
    ∃ removed unlocks s', (replacePrevious tx).run s = .ok (removed, unlocks) s' ∧
      s'.insertionId = s.insertionId ∧ Retains (s.ready.getD ∅) (s'.ready.getD ∅) ∧
      Owned (some tx.provides) (s'.providedTags.getD ∅) (s'.ready.getD ∅) := by
  cases hs : s.providedTags with
  | none =>
    -- no tag map, no tags to own
    refine .inr ⟨[], [], s, replacePrevious_of_tags_none hs, rfl, Retains.refl _, ?_⟩
    intro tag hash htag
    simp [hs] at htag
  | some tags =>
    by_cases hnil : replacedHashes tags tx = []
    · refine .inr ⟨[], [], s, replacePrevious_of_nil hs hnil, rfl, Retains.refl _, ?_⟩
      intro tag hash htag
      exact .inr (h.lookup htag)
    · -- a replaced provider is in the ready map, so the shard has all three maps
      obtain ⟨hash, hmem⟩ := List.exists_mem_of_ne_nil _ hnil
      obtain ⟨tag, -, htag⟩ := mem_replacedHashes.mp hmem
      obtain ⟨_, hready, -⟩ := h.lookup (show (s.providedTags.getD ∅).lookup tag = some hash by simp [hs, htag])
      obtain ⟨ready, hr⟩ : ∃ ready, s.ready = some ready := by
        cases hr : s.ready with
        | none => simp [hr] at hready
        | some ready => exact ⟨ready, rfl⟩
      obtain ⟨-, hb⟩ := h.present (by simp [hr])
      obtain ⟨best, hb⟩ := Option.isSome_iff_exists.mp hb
      by_cases hlt : replacedPriority tags ready tx < tx.priority
      · obtain ⟨removed, unlocks, ready', tags', best', hrun, hrem⟩ :=
          replacePrevious_replaces hs hr hb (.inr hlt)
        refine .inr ⟨removed, unlocks, _, hrun, rfl, ?_, ?_⟩
        · simpa [hr] using hrem.retains
        · simpa using hrem.owned (h.owned hs hr _)
      · exact .inl (replacePrevious_refuses hs hr hnil (not_lt.mp hlt))

end Replace

-- The links of `import` to the providers of the required tags.

-- `ready'` is `ready` with hashes appended to unlock lists: the same keys with the same operations,
-- each unlocking every operation at least as often.
structure Extends (ready ready' : AList fun _ : H => ReadyTx H T) : Prop where
  retains : ∀ hash tx', ready'.lookup hash = some tx' →
    ∃ tx, ready.lookup hash = some tx ∧ tx'.operation = tx.operation
  keeps   : ∀ hash tx, ready.lookup hash = some tx →
    ∃ tx', ready'.lookup hash = some tx' ∧ tx'.operation = tx.operation ∧
      ∀ x, tx.unlocks.count x ≤ tx'.unlocks.count x

section Link

variable {ready ready₁ ready₂ : AList fun _ : H => ReadyTx H T}

omit [DecidableEq T] in
theorem Extends.refl (ready : AList fun _ : H => ReadyTx H T) : Extends ready ready :=
  ⟨fun _ tx' hl => ⟨tx', hl, rfl⟩, fun _ tx hl => ⟨tx, hl, rfl, fun _ => le_rfl⟩⟩

omit [DecidableEq T] in
theorem Extends.trans (h₁ : Extends ready ready₁) (h₂ : Extends ready₁ ready₂) :
    Extends ready ready₂ where
  retains := fun hash tx₂ hl => by
    obtain ⟨tx₁, hl₁, he₂⟩ := h₂.retains hash tx₂ hl
    obtain ⟨tx, hl, he₁⟩ := h₁.retains hash tx₁ hl₁
    exact ⟨tx, hl, he₂.trans he₁⟩
  keeps := fun hash tx hl => by
    obtain ⟨tx₁, hl₁, he₁, hc₁⟩ := h₁.keeps hash tx hl
    obtain ⟨tx₂, hl₂, he₂, hc₂⟩ := h₂.keeps hash tx₁ hl₁
    exact ⟨tx₂, hl₂, he₂.trans he₁, fun x => Nat.le_trans (hc₁ x) (hc₂ x)⟩

omit [DecidableEq T] in
theorem extends_insert_append {other hash : H} {tx : ReadyTx H T} (hl : ready.lookup other = some tx) :
    Extends ready (ready.insert other { tx with unlocks := tx.unlocks ++ [hash] }) where
  retains := fun h tx' hl' => by
    by_cases heq : h = other
    · subst heq
      rw [AList.lookup_insert] at hl'
      cases hl'
      exact ⟨tx, hl, rfl⟩
    · rw [AList.lookup_insert_ne heq] at hl'
      exact ⟨tx', hl', rfl⟩
  keeps := fun h tx' hl' => by
    by_cases heq : h = other
    · subst heq
      rw [hl] at hl'
      cases hl'
      exact ⟨_, AList.lookup_insert ready, rfl, fun x => by simp⟩
    · exact ⟨tx', (AList.lookup_insert_ne heq).trans hl', rfl, fun _ => le_rfl⟩

variable (s : ReadyOperations H T) (hash : H) (tagMap : AList fun _ : T => H)

-- The links never fail when every provider of a required tag is in the ready map: they only append
-- the new hash to the providers' unlocks, once for each tag it requires of them.
theorem linkRequires_run :
    ∀ (ready : AList fun _ : H => ReadyTx H T) (goesToBest : Bool) (requiresOffset : Nat) (tags : List T),
      (∀ tag ∈ tags, ∀ other, tagMap.lookup tag = some other → (ready.lookup other).isSome) →
      ∃ ready' goesToBest' requiresOffset',
        (linkRequires hash tagMap ready goesToBest requiresOffset tags).run s =
          .ok (ready', goesToBest', requiresOffset') s ∧ Extends ready ready' ∧
        ∀ tag ∈ tags, ∀ other tx, tagMap.lookup tag = some other → ready.lookup other = some tx →
          ∃ tx', ready'.lookup other = some tx' ∧ tx.unlocks.count hash < tx'.unlocks.count hash
  | ready, goesToBest, requiresOffset, [], _ =>
    ⟨ready, goesToBest, requiresOffset, rfl, Extends.refl ready, fun _ h => absurd h List.not_mem_nil⟩
  | ready, goesToBest, requiresOffset, tag :: rest, hall => by
    cases ht : tagMap.lookup tag with
    | none =>
      obtain ⟨ready', g', o', hrun, hext, hcount⟩ := linkRequires_run ready goesToBest
        (requiresOffset + 1) rest fun t ht' => hall t (List.mem_cons_of_mem _ ht')
      refine ⟨ready', g', o', by simp [linkRequires, ht, hrun], hext, ?_⟩
      intro t hmem other tx hto hlo
      rcases List.mem_cons.mp hmem with rfl | hmem
      · rw [ht] at hto
        cases hto
      · exact hcount t hmem other tx hto hlo
    | some other =>
      obtain ⟨tx, hl⟩ := Option.isSome_iff_exists.mp (hall tag List.mem_cons_self other ht)
      -- the provider unlocks the new hash once more; every other entry is as it was
      have hext₁ : Extends ready (ready.insert other { tx with unlocks := tx.unlocks ++ [hash] }) :=
        extends_insert_append hl
      obtain ⟨ready', g', o', hrun, hext, hcount⟩ := linkRequires_run
        (ready.insert other { tx with unlocks := tx.unlocks ++ [hash] }) false requiresOffset rest
        fun t ht' o hto => by
          obtain ⟨txo, hlo⟩ := Option.isSome_iff_exists.mp (hall t (List.mem_cons_of_mem _ ht') o hto)
          obtain ⟨txo', hlo', -⟩ := hext₁.keeps o txo hlo
          simp [hlo']
      refine ⟨ready', g', o', by simp [linkRequires, ht, hl, hrun], hext₁.trans hext, ?_⟩
      intro t hmem o txo hto hlo
      obtain ⟨txo₁, hlo₁, -, hc₁⟩ := hext₁.keeps o txo hlo
      obtain ⟨txo', hlo', -, hc'⟩ := hext.keeps o txo₁ hlo₁
      rcases List.mem_cons.mp hmem with rfl | hmem
      · -- the tag just linked: its provider is `other`
        rw [ht] at hto
        cases hto
        rw [hl] at hlo
        cases hlo
        rw [AList.lookup_insert] at hlo₁
        cases hlo₁
        refine ⟨txo', hlo', ?_⟩
        have := hc' hash
        simp at this
        omega
      · obtain ⟨txo'', hlo'', hlt⟩ := hcount t hmem o txo₁ hto hlo₁
        exact ⟨txo'', hlo'', lt_of_le_of_lt (hc₁ hash) hlt⟩

-- The links fail, with `HASH_READY`, at a required tag whose provider is not in the ready map.
theorem linkRequires_panics {tag : T} {other : H} (hto : tagMap.lookup tag = some other) :
    ∀ (ready : AList fun _ : H => ReadyTx H T) (goesToBest : Bool) (requiresOffset : Nat) (tags : List T),
      tag ∈ tags → ready.lookup other = none →
      (linkRequires hash tagMap ready goesToBest requiresOffset tags).run s = .error (.panic hashReady) s
  | _, _, _, [], hmem, _ => absurd hmem List.not_mem_nil
  | ready, goesToBest, requiresOffset, t :: rest, hmem, hn => by
    by_cases heq : t = tag
    · subst heq
      simp [linkRequires, hto, hn]
    · have hmem : tag ∈ rest := (List.mem_cons.mp hmem).resolve_left (Ne.symm heq)
      cases ht : tagMap.lookup t with
      | none =>
        simp only [linkRequires, ht]
        exact linkRequires_panics hto ready goesToBest (requiresOffset + 1) rest hmem hn
      | some o =>
        cases hl : ready.lookup o with
        | none => simp [linkRequires, ht, hl]
        | some txo =>
          -- the provider linked here is in the map, so it is not `other`
          have hne : other ≠ o := fun h => by rw [h, hl] at hn; cases hn
          simp only [linkRequires, ht, hl]
          exact linkRequires_panics hto _ false requiresOffset rest hmem
            (by rw [AList.lookup_insert_ne hne, hn])

end Link

end ReadyOperations

end Pool

namespace Pool.ReadyOperations

variable {H T : Type} [DecidableEq H] [DecidableEq T]

theorem import_run {s : ReadyOperations H T} {tx : WaitingTrustedOperations H T}
    (hready : tx.isReady = true) (hfresh : s.contains tx.operation.hash = false) :
    (ReadyOperations.import tx).run s =
      match (replacePrevious tx.operation).run { s with insertionId := some (s.insertionId.getD 0 + 1) } with
      | .ok replaced s₂ =>
        match (linkRequires tx.operation.hash (s₂.providedTags.getD ∅) (s₂.ready.getD ∅) true 0
            tx.operation.requires).run s₂ with
        | .ok linked s₃ =>
          .ok replaced.1 (ReadyOperations.trackedInsert { s₃ with
            providedTags := some (tx.operation.provides.foldl
              (fun tags tag => tags.insert tag tx.operation.hash) (s₂.providedTags.getD ∅))
            best := some (if linked.2.1 then
                Rust.BTreeSet.insert OperationRef.cmp ⟨tx.operation, s.insertionId.getD 0 + 1⟩ (s₃.best.getD [])
              else s₃.best.getD []) }
            linked.1 tx.operation.hash ⟨⟨tx.operation, s.insertionId.getD 0 + 1⟩, replaced.2, linked.2.2⟩)
        | .error e s₃ => .error e s₃
      | .error e s₂ => .error e s₂ := by
  -- the two checks pass
  have hcheck : ∀ ready, s.ready = some ready → (ready.lookup tx.operation.hash).isSome = false := by
    intro ready hr
    simpa [contains, hr] using hfresh
  unfold ReadyOperations.import
  -- with or without a ready map, the run goes on to the replacement and the links
  cases hr : s.ready <;>
    simp only [hready, Bool.not_true, Bool.false_eq_true, if_false, EStateM.run_bind, EStateM.run_get, hr,
      hcheck, EStateM.run_modifyGet, setProvidedTags_run, setBest_run, EStateM.run_modify, EStateM.run_pure]
  all_goals
    split
    · next _ _ hrp =>
      simp only [hrp]
      split <;> next _ _ hlink => simp only [hlink]
    · next _ _ hrp => simp only [hrp]

omit [DecidableEq T] in
theorem lookup_of_contains_eq_false {s : ReadyOperations H T} {hash : H}
    (h : s.contains hash = false) : (s.ready.getD ∅).lookup hash = none := by
  cases hr : s.ready with
  | none => simp
  | some ready => simpa [contains, hr] using h

-- `import` of a ready operation that is not in the map and requires none of the tags it provides,
-- on a shard satisfying `HashReady`: no `expect` fires, the only error is the refusal of the
-- replacement, and `HashReady` holds afterwards.
theorem import_hashReady {s : ReadyOperations H T} (h : HashReady s) {tx : WaitingTrustedOperations H T}
    (hready : tx.isReady = true) (hfresh : s.contains tx.operation.hash = false)
    (hdisj : ∀ tag ∈ tx.operation.requires, tag ∉ tx.operation.provides) :
    match (ReadyOperations.import tx).run s with
    | .ok _ s' => HashReady s'
    | .error e _ => e = .tooLowPriority tx.operation.priority := by
  rw [import_run hready hfresh]
  -- the insertion id is not part of the invariant
  have h₁ : HashReady { s with insertionId := some (s.insertionId.getD 0 + 1) } := ⟨h.provided, h.present⟩
  rcases replacePrevious_hashReady h₁ tx.operation with hrefuse | ⟨removed, unlocks, s₂, hrp, -, hret, hown⟩
  · simp only [hrefuse]
  · -- after the replacement every provider of a required tag is in the ready map
    have hall : ∀ tag ∈ tx.operation.requires, ∀ other, (s₂.providedTags.getD ∅).lookup tag = some other →
        ((s₂.ready.getD ∅).lookup other).isSome := by
      intro tag htag other hl
      rcases hown tag other hl with ⟨_, hf, hk⟩ | ⟨rtx, hrl, -⟩
      · cases hf
        exact absurd hk (hdisj tag htag)
      · simp [hrl]
    obtain ⟨ready', g, o, hlink, hext, -⟩ := linkRequires_run s₂ tx.operation.hash (s₂.providedTags.getD ∅)
      (s₂.ready.getD ∅) true 0 tx.operation.requires hall
    simp only [hrp, hlink]
    -- the new operation's hash was in no map before
    have hnew : (s₂.ready.getD ∅).lookup tx.operation.hash = none :=
      hret.lookup_eq_none (lookup_of_contains_eq_false hfresh)
    refine .of_lookup (fun tag hash htag => ?_) (by simp)
    simp only [trackedInsert_providedTags, trackedInsert_ready, Option.getD_some] at htag ⊢
    rw [AList.lookup_foldl_insert _ _ (fun _ => tx.operation.hash)] at htag
    split_ifs at htag with hprov
    · -- a tag of the new operation
      cases htag
      exact ⟨_, AList.lookup_insert _, hprov⟩
    · -- a tag left from before, owned by an operation the replacement kept
      rcases hown tag hash htag with ⟨_, hf, hk⟩ | ⟨rtx, hrl, hmem⟩
      · cases hf
        exact absurd hk hprov
      · obtain ⟨rtx', hrl', hop, -⟩ := hext.keeps hash rtx hrl
        have hne : hash ≠ tx.operation.hash := fun heq => by
          rw [heq, hnew] at hrl
          cases hrl
        exact ⟨rtx', (AList.lookup_insert_ne hne).trans hrl', hop ▸ hmem⟩

theorem import_hashReady_empty :
    match (ReadyOperations.import (⟨⟨1, 1, 1, 2, [], [7]⟩, []⟩ : WaitingTrustedOperations Nat Nat)).run
        .empty with
    | .ok _ s' => HashReady s'
    | .error e _ => e = .tooLowPriority 1 :=
  import_hashReady hashReady_empty
    (show (⟨⟨1, 1, 1, 2, [], [7]⟩, []⟩ : WaitingTrustedOperations Nat Nat).isReady = true from rfl) rfl
    (by decide)

end Pool.ReadyOperations
