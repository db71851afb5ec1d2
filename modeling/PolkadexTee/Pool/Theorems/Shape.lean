import PolkadexTee.Pool.Sharded
import PolkadexTee.Pool.Theorems.Errors

/-! The shape of a shard's maps that every method of the pool keeps, whatever it returns, and where
it panics too: a ready map comes with a tag map and a best set, a waiting map comes with its
wanted tags, and every operation is stored under its own hash. -/

namespace Pool

open EStateM

variable {H T : Type} [DecidableEq H] [DecidableEq T]

namespace ReadyOperations

-- Every ready operation is stored under its own hash.
abbrev Keyed (ready : AList fun _ : H => ReadyTx H T) : Prop :=
  AList.Forall (fun hash tx => tx.operation.operation.hash = hash) ready

-- Every ready operation is stored under a hash that `K` admits.
abbrev Within (K : H → Prop) (ready : AList fun _ : H => ReadyTx H T) : Prop :=
  AList.Forall (fun hash _ => K hash) ready

section Maps

variable {K : H → Prop} {ready ready' : AList fun _ : H => ReadyTx H T}

omit [DecidableEq T] in
theorem Keyed.of_retains (h : Keyed ready) (hr : Retains ready ready') : Keyed ready' :=
  h.of_lookup fun hash tx' hl => by
    obtain ⟨tx, hl', hs⟩ := hr hash tx' hl
    refine ⟨tx, hl', fun htx => ?_⟩
    rw [hs.operation]
    exact htx

omit [DecidableEq T] in
theorem Within.of_retains (h : Within K ready) (hr : Retains ready ready') : Within K ready' :=
  h.of_lookup fun hash tx' hl => by
    obtain ⟨tx, hl', -⟩ := hr hash tx' hl
    exact ⟨tx, hl', id⟩

end Maps

-- The shape of a shard's ready queue: a ready map comes with a tag map and a best set, stores every
-- operation under its hash, and is what the counters count.
structure Shaped (s : ReadyOperations H T) : Prop where
  present : s.ready.isSome → s.providedTags.isSome ∧ s.best.isSome
  keyed   : Keyed (s.ready.getD ∅)
  counted : Counted s

-- `Shaped`, with every ready operation under a hash that `K` admits: the hashes the other queue of
-- the shard does not hold, when the two queues are to stay apart.
def ShapedIn (K : H → Prop) (s : ReadyOperations H T) : Prop :=
  s.Shaped ∧ Within K (s.ready.getD ∅)

namespace Shaped

variable {s : ReadyOperations H T}

omit [DecidableEq T] in
theorem empty : Shaped (ReadyOperations.empty : ReadyOperations H T) :=
  ⟨fun h => by simp [ReadyOperations.empty] at h, AList.forall_empty _, ⟨rfl, rfl⟩⟩

omit [DecidableEq T] in
theorem withTags (h : Shaped s) (tags : AList fun _ : T => H) :
    Shaped { s with providedTags := some tags } :=
  ⟨fun hr => ⟨rfl, (h.present hr).2⟩, h.keyed, h.counted.1, h.counted.2⟩

omit [DecidableEq T] in
theorem withBest (h : Shaped s) (best : List (OperationRef H T)) : Shaped { s with best := some best } :=
  ⟨fun hr => ⟨(h.present hr).1, rfl⟩, h.keyed, h.counted.1, h.counted.2⟩

omit [DecidableEq T] in
theorem withInsertionId (h : Shaped s) (id : Option UInt64) : Shaped { s with insertionId := id } :=
  ⟨h.present, h.keyed, h.counted.1, h.counted.2⟩

-- A ready map may be written where the tag map and the best set are there, and the counters
-- count it.
omit [DecidableEq T] in
theorem withReady (h : Shaped s) (hr : s.ready.isSome) {ready : AList fun _ : H => ReadyTx H T}
    (hk : Keyed ready) (ht : Tracks s ready) : Shaped { s with ready := some ready } :=
  ⟨fun _ => h.present hr, hk, ht.withReady⟩

omit [DecidableEq T] in
theorem keyed_of_some (h : Shaped s) {ready : AList fun _ : H => ReadyTx H T}
    (hr : s.ready = some ready) : Keyed ready := by
  simpa [hr] using h.keyed

end Shaped

omit [DecidableEq T] in
theorem within_of_some {K : H → Prop} {s : ReadyOperations H T} (h : s.ShapedIn K)
    {ready : AList fun _ : H => ReadyTx H T} (hr : s.ready = some ready) : Within K ready := by
  simpa [hr] using h.2

omit [DecidableEq T] in
-- The hashes of the ready map are the ones the queue contains.
theorem within_iff {K : H → Prop} {s : ReadyOperations H T} :
    Within K (s.ready.getD ∅) ↔ ∀ hash, s.contains hash = true → K hash := by
  cases hr : s.ready with
  | none => simp [contains, hr, AList.Forall]
  | some ready =>
    simp only [contains, hr, Option.getD_some, AList.Forall, Option.isSome_iff_exists]
    constructor
    · rintro h hash ⟨tx, hl⟩
      exact h hash tx hl
    · intro h hash tx hl
      exact h hash ⟨tx, hl⟩

-- The methods that only touch the maps a shard has keep `ShapedIn` with the ready map's presence
-- fixed; a write of the ready map then always follows a read of it.

-- `ShapedIn`, with the ready map present exactly when `live`.
def ShapedAs (K : H → Prop) (live : Bool) (s : ReadyOperations H T) : Prop :=
  s.ShapedIn K ∧ s.ready.isSome = live

section ShapedAs

variable {K : H → Prop} {live : Bool}

omit [DecidableEq T] in
theorem keeps_of_shapedAs {α : Type} {x : ReadyM H T α} {post : α → Prop}
    (h : ∀ live, Keeps (ShapedAs K live) x post) : Keeps (ShapedIn K) x post := by
  intro s hs
  have hx := h s.ready.isSome s ⟨hs, rfl⟩
  split at hx
  next => exact ⟨hx.1.1, hx.2⟩
  next => exact hx.1

-- A read keeps every invariant, whether it finds its map or panics.
omit [DecidableEq H] [DecidableEq T] in
theorem unwrapProvidedTags_keeps {inv : ReadyOperations H T → Prop} :
    Keeps inv (unwrapProvidedTags : ReadyM H T _) fun _ => True := by
  refine Keeps.bind Keeps.get fun s _ => ?_
  split
  · exact Keeps.pure trivial
  · exact Keeps.throw

omit [DecidableEq H] [DecidableEq T] in
theorem unwrapBest_keeps {inv : ReadyOperations H T → Prop} :
    Keeps inv (unwrapBest : ReadyM H T _) fun _ => True := by
  refine Keeps.bind Keeps.get fun s _ => ?_
  split
  · exact Keeps.pure trivial
  · exact Keeps.throw

omit [DecidableEq T] in
theorem setProvidedTags_keepsAs (tags : AList fun _ : T => H) :
    Keeps (ShapedAs K live) (setProvidedTags tags) fun _ => True :=
  Keeps.modify fun _ hs => ⟨⟨hs.1.1.withTags tags, hs.1.2⟩, hs.2⟩

omit [DecidableEq T] in
theorem setBest_keepsAs (best : List (OperationRef H T)) :
    Keeps (ShapedAs K live) (setBest best) fun _ => True :=
  Keeps.modify fun _ hs => ⟨⟨hs.1.1.withBest best, hs.1.2⟩, hs.2⟩

omit [DecidableEq T] in
-- A read of the ready map, whose entry under `hash` is then removed through the write access and
-- counted out: what follows runs on a shard that has the map.
theorem trackedRemove_bind_keepsAs {α : Type} (hash : H) {f : Option (ReadyTx H T) → ReadyM H T α}
    {post : α → Prop} (hf : ∀ res, Keeps (ShapedAs K true) (f res) post) :
    Keeps (ShapedAs K live) (unwrapReady >>= fun ready =>
      modify (fun s => s.trackedRemove ready hash) >>= fun _ => pure (ready.lookup hash) >>= f) post := by
  rintro s ⟨hs, hlive⟩
  simp only [unwrapReady, run_bind, run_get]
  cases hr : s.ready with
  | none => exact ⟨hs, hlive⟩
  | some ready =>
    rw [hr, Option.isSome_some] at hlive
    subst hlive
    have hs' : ShapedAs K true (s.trackedRemove ready hash) := by
      refine ⟨⟨⟨fun _ => ?_, ?_, (hs.1.counted.tracks hr).counted_trackedRemove⟩, ?_⟩, rfl⟩
      · simpa using hs.1.present (by simp [hr])
      · simpa using (hs.1.keyed_of_some hr).erase hash
      · simpa using (within_of_some hs hr).erase hash
    simpa only [run_modify, run_pure, run_bind] using hf (ready.lookup hash) _ hs'

end ShapedAs

-- The steps of `prune_tags` that change entries of the ready map in place (`get_mut`) leave the
-- counters where they are: they keep `ShapedAs` with the counters fixed.

-- `ShapedAs` with the ready map present and its counters at `c`.
def ShapedAt (K : H → Prop) (c : Int × Int) (s : ReadyOperations H T) : Prop :=
  ShapedAs K true s ∧ s.counters = c

section ShapedAt

variable {K : H → Prop} {c : Int × Int}

omit [DecidableEq T] in
theorem keeps_of_shapedAt {α : Type} {x : ReadyM H T α} {post : α → Prop}
    (h : ∀ c, Keeps (ShapedAt K c) x post) : Keeps (ShapedAs K true) x post := by
  intro s hs
  have hx := h s.counters s ⟨hs, rfl⟩
  split at hx
  next => exact ⟨hx.1.1, hx.2⟩
  next => exact hx.1

omit [DecidableEq T] in
theorem setProvidedTags_keepsAt (tags : AList fun _ : T => H) :
    Keeps (ShapedAt K c) (setProvidedTags tags) fun _ => True :=
  Keeps.modify fun _ hs => ⟨⟨⟨hs.1.1.1.withTags tags, hs.1.1.2⟩, hs.1.2⟩, hs.2⟩

omit [DecidableEq T] in
theorem setBest_keepsAt (best : List (OperationRef H T)) :
    Keeps (ShapedAt K c) (setBest best) fun _ => True :=
  Keeps.modify fun _ hs => ⟨⟨⟨hs.1.1.1.withBest best, hs.1.1.2⟩, hs.1.2⟩, hs.2⟩

omit [DecidableEq T] in
-- A map the counters at `c` count may be written back without moving them.
theorem setReady_keepsAt {ready : AList fun _ : H => ReadyTx H T} (hk : Keyed ready)
    (hw : Within K ready) (hc : counts ready = c) :
    Keeps (ShapedAt K c) (setReady ready) fun _ => True :=
  Keeps.modify fun _ hs =>
    ⟨⟨⟨hs.1.1.1.withReady hs.1.2 hk (tracks_iff.mpr (hs.2.trans hc.symm)), hw⟩, rfl⟩, hs.2⟩

omit [DecidableEq T] in
-- What follows a read of the ready map runs on a shard that has one, which the counters count.
theorem unwrapReady_bind_keepsAt {α : Type} {f : AList (fun _ : H => ReadyTx H T) → ReadyM H T α}
    {post : α → Prop}
    (hf : ∀ ready, Keyed ready → Within K ready → counts ready = c → Keeps (ShapedAt K c) (f ready) post) :
    Keeps (ShapedAt K c) (unwrapReady >>= f) post := by
  rintro s ⟨⟨hs, hlive⟩, hc⟩
  simp only [unwrapReady, run_bind, run_get]
  cases hr : s.ready with
  | none => simp [hr] at hlive
  | some ready =>
    have hcounts : counts ready = c := (tracks_iff.mp (hs.1.counted.tracks hr)).symm.trans hc
    exact hf ready (hs.1.keyed_of_some hr) (within_of_some hs hr) hcounts s ⟨⟨hs, hlive⟩, hc⟩

end ShapedAt

-- The removal and the import, from their run lemmas.

section Runs

variable (K : H → Prop)

theorem removeSubtreeWithTagFilter_keeps_shaped (toRemove : List H) (filter : Option (List T)) :
    Keeps (ShapedIn K) (removeSubtreeWithTagFilter toRemove filter) fun _ => True := by
  intro s hs
  cases hr : s.ready with
  | none =>
    rw [removeSubtreeWithTagFilter_of_none hr]
    exact ⟨hs, trivial⟩
  | some ready =>
    obtain ⟨htags, hbest⟩ := hs.1.present (by simp [hr])
    obtain ⟨tags, htags⟩ := Option.isSome_iff_exists.mp htags
    obtain ⟨best, hbest⟩ := Option.isSome_iff_exists.mp hbest
    obtain ⟨ready', removed, tags', best', hrun, hrem⟩ :=
      removeSubtreeWithTagFilter_run hr htags hbest toRemove filter
    -- the removal keeps entries of the ready map only, and counts out those it removes
    have hk : Keyed ready' := (hs.1.keyed_of_some hr).of_retains hrem.retains
    have hw : Within K ready' := (within_of_some hs hr).of_retains hrem.retains
    rw [hrun]
    exact ⟨⟨⟨fun _ => ⟨rfl, rfl⟩, hk, (hs.1.counted.tracks hr).moved rfl rfl⟩, hw⟩, trivial⟩

theorem removeSubtree_keeps_shaped (hashes : List H) :
    Keeps (ShapedIn K) (removeSubtree hashes : ReadyM H T _) fun _ => True :=
  removeSubtreeWithTagFilter_keeps_shaped K hashes none

-- `replace_previous` unwraps the ready map once it has providers to replace.
theorem replacePrevious_of_ready_none {s : ReadyOperations H T} {tx : TrustedOperation H T}
    {tags : AList fun _ : T => H} (hs : s.providedTags = some tags) (hr : s.ready = none)
    (hne : replacedHashes tags tx ≠ []) :
    (replacePrevious tx).run s = .error (.panic unwrapNone) s := by
  simp only [replacedHashes] at hne
  simp [replacePrevious, hs, hne, unwrapReady, hr]

theorem replacePrevious_keeps_shaped (tx : TrustedOperation H T) :
    Keeps (ShapedIn K) (replacePrevious tx) fun _ => True := by
  intro s hs
  cases htags : s.providedTags with
  | none =>
    rw [replacePrevious_of_tags_none htags]
    exact ⟨hs, trivial⟩
  | some tags =>
    by_cases hnil : replacedHashes tags tx = []
    · rw [replacePrevious_of_nil htags hnil]
      exact ⟨hs, trivial⟩
    · cases hr : s.ready with
      | none =>
        rw [replacePrevious_of_ready_none htags hr hnil]
        exact hs
      | some ready =>
        obtain ⟨-, hbest⟩ := hs.1.present (by simp [hr])
        obtain ⟨best, hbest⟩ := Option.isSome_iff_exists.mp hbest
        by_cases hlt : replacedPriority tags ready tx < tx.priority
        · -- the replaced providers are removed with the filter of `tx`'s tags
          obtain ⟨removed, unlocks, ready', tags', best', hrun, hrem⟩ :=
            replacePrevious_replaces htags hr hbest (.inr hlt)
          have hk : Keyed ready' := (hs.1.keyed_of_some hr).of_retains hrem.retains
          have hw : Within K ready' := (within_of_some hs hr).of_retains hrem.retains
          rw [hrun]
          exact ⟨⟨⟨fun _ => ⟨rfl, rfl⟩, hk, (hs.1.counted.tracks hr).moved rfl rfl⟩, hw⟩, trivial⟩
        · rw [replacePrevious_refuses htags hr hnil (not_lt.mp hlt)]
          exact hs

-- The links only compute on the map they are given: the state stays as it is. Each link changes a
-- provider in place, so the map keeps what the counters read.
theorem linkRequires_keeps (inv : ReadyOperations H T → Prop) (hash : H)
    (tagMap : AList fun _ : T => H) :
    ∀ (ready : AList fun _ : H => ReadyTx H T) (goesToBest : Bool) (requiresOffset : Nat)
      (tags : List T), Keyed ready → Within K ready →
      Keeps inv (linkRequires hash tagMap ready goesToBest requiresOffset tags)
        fun r => Keyed r.1 ∧ Within K r.1 ∧ counts r.1 = counts ready
  | _, _, _, [], hk, hw => Keeps.pure ⟨hk, hw, rfl⟩
  | ready, goesToBest, requiresOffset, tag :: rest, hk, hw => by
    rw [linkRequires]
    split
    · next other _ =>
      split
      · next tx hl =>
        -- the provider of the tag is written back under its own hash
        refine (linkRequires_keeps inv hash tagMap
          (ready.insert other { tx with unlocks := tx.unlocks ++ [hash] }) false requiresOffset rest
          (hk.insert (hk other tx hl)) (hw.insert (hw other tx hl))).mono fun r hr => ?_
        exact ⟨hr.1, hr.2.1, hr.2.2.trans (counts_insert_in_place hl rfl)⟩
      · exact Keeps.throw
    · exact linkRequires_keeps inv hash tagMap ready goesToBest (requiresOffset + 1) rest hk hw

theorem import_keeps_shaped (tx : WaitingTrustedOperations H T) (hK : K tx.operation.hash) :
    Keeps (ShapedIn K) (ReadyOperations.import tx) fun _ => True := by
  intro s hs
  cases hready : tx.isReady
  · rw [import_run_of_not_ready hready]
    exact hs
  cases hin : s.contains tx.operation.hash
  · rw [import_run hready hin]
    have hrp := replacePrevious_keeps_shaped K tx.operation _
      ⟨hs.1.withInsertionId (some (s.insertionId.getD 0 + 1)), hs.2⟩
    revert hrp
    cases (replacePrevious tx.operation).run { s with insertionId := some (s.insertionId.getD 0 + 1) } with
    | ok replaced s₂ =>
      rintro ⟨hs₂, -⟩
      dsimp only
      have hlink := linkRequires_keeps K (· = s₂) tx.operation.hash (s₂.providedTags.getD ∅)
        (s₂.ready.getD ∅) true 0 tx.operation.requires hs₂.1.keyed hs₂.2 s₂ rfl
      revert hlink
      cases (linkRequires tx.operation.hash (s₂.providedTags.getD ∅) (s₂.ready.getD ∅) true 0
          tx.operation.requires).run s₂ with
      | ok linked s₃ =>
        -- all three maps are written, the new operation under its own hash and counted in
        rintro ⟨rfl, hk, hw, hc⟩
        dsimp only
        refine ⟨⟨⟨fun _ => ⟨by simp, by simp⟩, ?_, ?_⟩, ?_⟩, trivial⟩
        · simp only [trackedInsert_ready, Option.getD_some]
          exact hk.insert rfl
        · exact Tracks.counted_trackedInsert (tracks_iff.mpr ((tracks_iff.mp hs₂.1.counted).trans hc.symm))
        · simp only [trackedInsert_ready, Option.getD_some]
          exact hw.insert hK
      | error e s₃ =>
        rintro rfl
        exact hs₂
    | error e s₂ => exact id
  · rw [import_run_of_contains hready hin]
    exact hs

end Runs

-- `prune_tags`, whose writes of the ready map each follow a read of it.

section Prune

variable (K : H → Prop)

theorem findPrevious_keepsAt (c : Int × Int) (hash : H) (tag : T) :
    Keeps (ShapedAt K c) (findPrevious hash tag) fun _ => True := by
  unfold findPrevious
  refine unwrapProvidedTags_keeps.bind fun tags _ => ?_
  split
  · next prevHash _ =>
    refine unwrapReady_bind_keepsAt fun ready hk hw hc => ?_
    split
    · next tx2 hl =>
      -- the previous provider loses `hash` from its unlocks, in place and under its own hash
      refine (setReady_keepsAt (hk.insert ?_) (hw.insert (hw prevHash tx2 hl)) ?_).bind fun _ _ =>
        Keeps.pure trivial
      · exact hk prevHash tx2 hl
      · exact (counts_insert_in_place hl rfl).trans hc
    · exact Keeps.pure trivial
  · exact Keeps.pure trivial

theorem findPreviousAll_keepsAt (c : Int × Int) (hash : H) :
    ∀ (toRemove l : List T), Keeps (ShapedAt K c) (findPreviousAll hash toRemove l) fun _ => True
  | _, [] => Keeps.pure trivial
  | _, tag :: rest => (findPrevious_keepsAt K c hash tag).bind fun _ _ =>
      findPreviousAll_keepsAt c hash _ rest

omit [DecidableEq T] in
theorem promoteUnlocked_keepsAt (c : Int × Int) :
    ∀ l : List H, Keeps (ShapedAt K c) (promoteUnlocked l : ReadyM H T _) fun _ => True
  | [] => Keeps.pure trivial
  | hash :: rest => by
    rw [promoteUnlocked]
    refine unwrapReady_bind_keepsAt fun ready hk hw hc => ?_
    dsimp only
    split
    · next tx hl =>
      -- the unlocked operation counts one more provided tag, and may join the best set
      refine (setReady_keepsAt (hk.insert ?_) (hw.insert (hw hash tx hl)) ?_).bind fun _ _ => ?_
      · exact hk hash tx hl
      · exact (counts_insert_in_place hl rfl).trans hc
      split
      · exact unwrapBest_keeps.bind fun _ _ => (setBest_keepsAt _).bind fun _ _ =>
          promoteUnlocked_keepsAt c rest
      · exact promoteUnlocked_keepsAt c rest
    · exact promoteUnlocked_keepsAt c rest

theorem clearProvides_keepsAt (c : Int × Int) (currentTag : T) (hash : H) :
    ∀ l : List T, Keeps (ShapedAt K c) (clearProvides currentTag hash l) fun _ => True
  | [] => Keeps.pure trivial
  | tag :: rest => by
    rw [clearProvides]
    generalize (if currentTag = tag then none else some hash) = expected
    refine unwrapProvidedTags_keeps.bind fun tags _ => (setProvidedTags_keepsAt _).bind fun _ _ => ?_
    dsimp only
    split
    · exact Keeps.throw_bind
    · exact clearProvides_keepsAt c currentTag hash rest

theorem pruneTagsLoop_keepsAs (live : Bool) :
    ∀ (fuel : Nat) (toRemove : List T) (removed : List (TrustedOperation H T)),
      Keeps (ShapedAs K live) (pruneTagsLoop fuel toRemove removed) fun _ => True
  | 0, _, _ => Keeps.pure trivial
  | fuel + 1, toRemove, removed => by
    rw [pruneTagsLoop]
    split
    · exact Keeps.pure trivial
    · refine unwrapProvidedTags_keeps.bind fun tags _ => (setProvidedTags_keepsAs _).bind fun _ _ => ?_
      dsimp only
      split
      · next hash _ =>
        -- the provider of the tag leaves the ready map and is counted out; what it linked to
        -- changes in place
        refine trackedRemove_bind_keepsAs hash fun res => ?_
        split
        · exact pruneTagsLoop_keepsAs true fuel _ removed
        · exact unwrapBest_keeps.bind fun _ _ => (setBest_keepsAs _).bind fun _ _ =>
            (keeps_of_shapedAt fun c => findPreviousAll_keepsAt K c _ _ _).bind fun _ _ =>
              (keeps_of_shapedAt fun c => promoteUnlocked_keepsAt K c _).bind fun _ _ =>
                (keeps_of_shapedAt fun c => clearProvides_keepsAt K c _ _ _).bind fun _ _ =>
                  pruneTagsLoop_keepsAs true fuel _ _
      · exact Keeps.pure_bind (pruneTagsLoop_keepsAs live fuel _ removed)

theorem pruneTags_keeps_shaped (tag : T) :
    Keeps (ShapedIn K) (pruneTags tag : ReadyM H T _) fun _ => True := by
  refine keeps_of_shapedAs fun live => Keeps.bind Keeps.get fun s _ => ?_
  split
  · exact Keeps.pure trivial
  · exact pruneTagsLoop_keepsAs K live _ _ _

end Prune

end ReadyOperations

namespace FutureTrustedOperations

-- Every waiting operation is stored under its own hash.
abbrev Keyed (waiting : AList fun _ : H => WaitingTrustedOperations H T) : Prop :=
  AList.Forall (fun hash tx => tx.operation.hash = hash) waiting

-- Every waiting operation is stored under a hash that `K` admits.
abbrev Within (K : H → Prop) (waiting : AList fun _ : H => WaitingTrustedOperations H T) : Prop :=
  AList.Forall (fun hash _ => K hash) waiting

-- The shape of a shard's future queue: a waiting map comes with its wanted tags, and stores every
-- operation under its hash.
structure Shaped (s : FutureTrustedOperations H T) : Prop where
  present : s.waiting.isSome → s.wantedTags.isSome
  keyed   : Keyed (s.waiting.getD ∅)

def ShapedIn (K : H → Prop) (s : FutureTrustedOperations H T) : Prop :=
  s.Shaped ∧ Within K (s.waiting.getD ∅)

-- None of the operations of `L` is waiting: so it may go to the ready queue.
def Fresh (L : List (WaitingTrustedOperations H T)) (s : FutureTrustedOperations H T) : Prop :=
  ∀ tx ∈ L, s.contains tx.operation.hash = false

section Shapes

variable {K : H → Prop} {s s' : FutureTrustedOperations H T}

omit [DecidableEq T] in
theorem Shaped.empty (hashOrder : IterOrder H) :
    Shaped (FutureTrustedOperations.empty hashOrder : FutureTrustedOperations H T) :=
  ⟨fun h => by simp [FutureTrustedOperations.empty] at h, AList.forall_empty _⟩

omit [DecidableEq T] in
theorem contains_eq_false_iff {hash : H} :
    s.contains hash = false ↔ (s.waiting.getD ∅).lookup hash = none := by
  cases hw : s.waiting <;> simp [contains, hw]

omit [DecidableEq T] in
theorem Fresh.mono {L L' : List (WaitingTrustedOperations H T)} (h : s.Fresh L)
    (hsub : ∀ tx ∈ L', tx ∈ L) : s.Fresh L' :=
  fun tx htx => h tx (hsub tx htx)

omit [DecidableEq T] in
theorem Fresh.left {L M : List (WaitingTrustedOperations H T)} (h : s.Fresh (L ++ M)) : s.Fresh L :=
  h.mono fun _ => List.mem_append_left _

omit [DecidableEq T] in
-- A queue that keeps no hash `s` does not have keeps what `s` lacks.
theorem Fresh.of_within {L : List (WaitingTrustedOperations H T)} (h : s.Fresh L)
    (hw : Within (fun hash => s.contains hash = true) (s'.waiting.getD ∅)) : s'.Fresh L := by
  intro tx htx
  rw [contains_eq_false_iff]
  refine hw.lookup_eq_none fun _ (hin : s.contains tx.operation.hash = true) => ?_
  rw [h tx htx] at hin
  cases hin

omit [DecidableEq T] in
theorem Shaped.keyed_of_some (h : s.Shaped) {waiting : AList fun _ : H => WaitingTrustedOperations H T}
    (hw : s.waiting = some waiting) : Keyed waiting := by
  simpa [hw] using h.keyed

omit [DecidableEq T] in
theorem within_of_some (h : s.ShapedIn K) {waiting : AList fun _ : H => WaitingTrustedOperations H T}
    (hw : s.waiting = some waiting) : Within K waiting := by
  simpa [hw] using h.2

omit [DecidableEq T] in
theorem within_iff : Within K (s.waiting.getD ∅) ↔ ∀ hash, s.contains hash = true → K hash := by
  cases hw : s.waiting with
  | none => simp [contains, hw, AList.Forall]
  | some waiting =>
    simp only [contains, hw, Option.getD_some, AList.Forall, Option.isSome_iff_exists]
    constructor
    · rintro h hash ⟨tx, hl⟩
      exact h hash tx hl
    · intro h hash tx hl
      exact h hash ⟨tx, hl⟩

omit [DecidableEq T] in
-- The hashes of the waiting map are the ones the queue contains.
theorem within_contains {waiting : AList fun _ : H => WaitingTrustedOperations H T}
    (hw : s.waiting = some waiting) : Within (fun hash => s.contains hash = true) waiting :=
  fun hash tx hl => by simp [contains, hw, hl]

end Shapes

-- The future queue's methods keep its shape, and each keeps the hashes it is bound to; the releases
-- of `satisfy_tags` also hand back operations that are no longer waiting.

section Methods

variable (K : H → Prop)

theorem import_keeps_shaped (tx : WaitingTrustedOperations H T) (hK : K tx.operation.hash) :
    Keeps (ShapedIn K) (FutureTrustedOperations.import tx) fun _ => True := by
  rw [FutureTrustedOperations.import]
  -- after the two checks, both maps are written, the new operation under its own hash
  have hset : Keeps (ShapedIn K) (get >>= fun s => set { s with
      waiting := some ((s.waiting.getD ∅).insert tx.operation.hash tx),
      wantedTags := some (tx.missingTags.foldl (fun wanted tag => wanted.insert tag
        (insertHash tx.operation.hash ((wanted.lookup tag).getD []))) (s.wantedTags.getD ∅)) }
      : FutureM H T Unit) fun _ => True :=
    Keeps.bind Keeps.get fun s hs => Keeps.set ⟨⟨fun _ => rfl, hs.1.keyed.insert rfl⟩, hs.2.insert hK⟩
  split
  · exact Keeps.throw_bind
  · refine Keeps.bind Keeps.get fun s _ => ?_
    dsimp only
    split
    · split
      · exact Keeps.throw_bind
      · exact hset
    · exact hset

-- `satisfy_hashes` computes on the map it is given. The operations it releases leave the map for
-- good: a hash that is no longer waiting makes the loop panic, and is never written back.
theorem satisfyHashes_keeps (inv : FutureTrustedOperations H T → Prop) (tag : T) :
    ∀ (K : H → Prop) (hashes : List H) (waiting : AList fun _ : H => WaitingTrustedOperations H T)
      (becameReady : List (WaitingTrustedOperations H T)), Keyed waiting → Within K waiting →
      Keeps inv (satisfyHashes tag hashes waiting becameReady) fun r =>
        Keyed r.1 ∧ Within K r.1 ∧ ∀ tx ∈ r.2, tx ∈ becameReady ∨ r.1.lookup tx.operation.hash = none
  | _, [], _, _, hk, hw => Keeps.pure ⟨hk, hw, fun _ h => .inl h⟩
  | K, hash :: rest, waiting, becameReady, hk, hw => by
    rw [satisfyHashes]
    split
    · exact Keeps.throw
    · next tx hl =>
      dsimp only
      split
      · -- the released operation is erased, and the rest of the loop keeps its hash out
        have ih := satisfyHashes_keeps inv tag (fun h => K h ∧ h ≠ hash) rest (waiting.erase hash)
          (becameReady ++ [tx.satisfyTag tag]) (hk.erase hash)
          ((hw.erase hash).and (AList.forall_ne_erase waiting hash))
        refine ih.mono fun r hr => ?_
        obtain ⟨hk', hw', hfresh⟩ := hr
        refine ⟨hk', hw'.imp fun _ _ h => h.1, fun t ht => ?_⟩
        rcases hfresh t ht with h | h
        · rcases List.mem_append.mp h with h | h
          · exact .inl h
          · rw [List.mem_singleton.mp h]
            have hhash : (tx.satisfyTag tag).operation.hash = hash := hk hash tx hl
            rw [hhash]
            exact .inr (hw'.lookup_eq_none fun _ h => h.2 rfl)
        · exact .inr h
      · exact satisfyHashes_keeps inv tag K rest _ becameReady (hk.insert (hk hash tx hl))
          (hw.insert (hw hash tx hl))

-- `satisfy_tags` keeps the shape, and the operations it releases are no longer waiting when it
-- returns, as none of `L` and of those it was given is.
theorem satisfyTags_triple :
    ∀ (tags : List T) (acc L : List (WaitingTrustedOperations H T)),
      Triple (fun s => s.ShapedIn K ∧ s.Fresh (L ++ acc)) (satisfyTags tags acc)
        (fun r s => s.ShapedIn K ∧ s.Fresh (L ++ r)) fun s => s.ShapedIn K ∧ s.Fresh L
  | [], _, _ => Triple.pure fun _ h => h
  | tag :: rest, acc, L => by
    rw [satisfyTags]
    refine Triple.get_bind fun s hs => ?_
    -- each branch goes on from a state that satisfies the precondition
    have hfrom : ∀ s' acc', s'.ShapedIn K ∧ s'.Fresh (L ++ acc') →
        Triple (· = s') (satisfyTags rest acc') (fun r s => s.ShapedIn K ∧ s.Fresh (L ++ r))
          fun s => s.ShapedIn K ∧ s.Fresh L :=
      fun s' acc' hs' => (satisfyTags_triple rest acc' L).conseq (fun _ h => h ▸ hs')
        (fun _ _ h => h) fun _ h => h
    have herr : ∀ s' : FutureTrustedOperations H T, s'.ShapedIn K ∧ s'.Fresh (L ++ acc) →
        s'.ShapedIn K ∧ s'.Fresh L :=
      fun _ h => ⟨h.1, h.2.mono fun _ htx => List.mem_append_left _ htx⟩
    split
    · exact hfrom s acc hs
    · next wanted _ =>
      split
      · exact hfrom s acc hs
      · next hashes _ =>
        -- the tag is no longer wanted; the waiting map stays as it was
        let s₁ : FutureTrustedOperations H T := { s with wantedTags := some (wanted.erase tag) }
        have hs₁ : s₁.ShapedIn K ∧ s₁.Fresh (L ++ acc) :=
          ⟨⟨⟨fun _ => rfl, hs.1.1.keyed⟩, hs.1.2⟩, hs.2⟩
        have hset : Triple (· = s) (set s₁ : FutureM H T PUnit) (fun _ st => st = s₁)
            fun s => s.ShapedIn K ∧ s.Fresh L :=
          Triple.set fun _ _ => rfl
        refine hset.bind fun _ => ?_
        split
        · exact hfrom s₁ acc hs₁
        · next waiting hw =>
          -- the released operations leave the waiting map, which keeps only hashes it had
          have hh := satisfyHashes_keeps (· = s₁) tag (fun hash => K hash ∧ s.contains hash = true)
            (s.hashOrder.arrange hashes) waiting acc (hs.1.1.keyed_of_some hw)
            ((within_of_some hs.1 hw).and (within_contains hw))
          refine ((Triple.of_keeps hh).conseq (fun _ h => h) (fun _ _ h => h)
            fun _ h => herr _ (h ▸ hs₁)).bind fun ⟨waiting', acc'⟩ =>
              Triple.and_pre fun ⟨hk, hw', hfr⟩ => ?_
          let s₂ : FutureTrustedOperations H T := { s₁ with waiting := some waiting' }
          have hs₂ : s₂.ShapedIn K ∧ s₂.Fresh (L ++ acc') := by
            refine ⟨⟨⟨fun _ => rfl, hk⟩, hw'.imp fun _ _ h => h.1⟩, fun tx htx => ?_⟩
            have hold : s₂.Fresh (L ++ acc) := hs.2.of_within (hw'.imp fun _ _ h => h.2)
            rcases List.mem_append.mp htx with hL | hacc
            · exact hold tx (List.mem_append_left _ hL)
            · rcases hfr tx hacc with hin | hnone
              · exact hold tx (List.mem_append_right _ hin)
              · exact contains_eq_false_iff.mpr hnone
          have hmod : Triple (· = s₁) (modify fun s => { s with waiting := some waiting' } :
              FutureM H T PUnit) (fun _ st => st = s₂) fun s => s.ShapedIn K ∧ s.Fresh L :=
            Triple.modify fun _ h => h ▸ rfl
          exact hmod.bind fun _ => hfrom s₂ acc' hs₂

-- The fold of `remove` over the hashes, for a step that erases each hash it finds and collects its
-- operation: the map loses the hashes, and the collected operations are those it held under them.
theorem foldl_remove
    {f : (AList fun _ : H => WaitingTrustedOperations H T) × (AList fun _ : T => List H) ×
      List (TrustedOperation H T) → H →
      (AList fun _ : H => WaitingTrustedOperations H T) × (AList fun _ : T => List H) ×
        List (TrustedOperation H T)}
    (hf : ∀ waiting wanted removed hash, f (waiting, wanted, removed) hash =
      match waiting.lookup hash with
      | some tx => (waiting.erase hash, removeWanted hash tx.missingTags wanted, removed ++ [tx.operation])
      | none => (waiting, wanted, removed)) :
    ∀ (hashes : List H) (waiting : AList fun _ : H => WaitingTrustedOperations H T)
      (wanted : AList fun _ : T => List H) (removed : List (TrustedOperation H T)),
      (∀ hash, (hashes.foldl f (waiting, wanted, removed)).1.lookup hash =
        if hash ∈ hashes then none else waiting.lookup hash) ∧
      ∀ op, op ∈ (hashes.foldl f (waiting, wanted, removed)).2.2 ↔
        op ∈ removed ∨ ∃ hash ∈ hashes, ∃ tx, waiting.lookup hash = some tx ∧ tx.operation = op
  | [], _, _, _ => ⟨fun _ => rfl, fun _ => by simp⟩
  | hash :: rest, waiting, wanted, removed => by
    rw [List.foldl_cons, hf]
    cases hl : waiting.lookup hash with
    | none =>
      obtain ⟨hlook, hmem⟩ := foldl_remove hf rest waiting wanted removed
      refine ⟨fun h => ?_, fun op => ?_⟩
      · rw [hlook h]
        by_cases heq : h = hash
        · subst heq
          simp [hl]
        · simp [heq]
      · rw [hmem op]
        constructor
        · rintro (h | ⟨h, hh, tx, htx, rfl⟩)
          · exact .inl h
          · exact .inr ⟨h, List.mem_cons_of_mem _ hh, tx, htx, rfl⟩
        · rintro (h | ⟨h, hh, tx, htx, rfl⟩)
          · exact .inl h
          · rcases List.mem_cons.mp hh with rfl | hh
            · rw [hl] at htx
              cases htx
            · exact .inr ⟨h, hh, tx, htx, rfl⟩
    | some tx =>
      obtain ⟨hlook, hmem⟩ := foldl_remove hf rest (waiting.erase hash) _ (removed ++ [tx.operation])
      refine ⟨fun h => ?_, fun op => ?_⟩
      · rw [hlook h]
        by_cases heq : h = hash
        · subst heq
          simp
        · simp [heq, AList.lookup_erase_ne heq]
      · rw [hmem op]
        constructor
        · rintro (h | ⟨h, hh, tx', htx, rfl⟩)
          · rcases List.mem_append.mp h with h | h
            · exact .inl h
            · rw [List.mem_singleton.mp h]
              exact .inr ⟨hash, List.mem_cons_self, tx, hl, rfl⟩
          · have hne : h ≠ hash := fun heq => by
              subst heq
              simp at htx
            rw [AList.lookup_erase_ne hne] at htx
            exact .inr ⟨h, List.mem_cons_of_mem _ hh, tx', htx, rfl⟩
        · rintro (h | ⟨h, hh, tx', htx, rfl⟩)
          · exact .inl (List.mem_append_left _ h)
          · by_cases heq : h = hash
            · subst heq
              rw [hl] at htx
              cases htx
              exact .inl (List.mem_append_right _ List.mem_cons_self)
            · have hh' : h ∈ rest := (List.mem_cons.mp hh).resolve_left heq
              exact .inr ⟨h, hh', tx', by rwa [AList.lookup_erase_ne heq], rfl⟩

theorem remove_of_none {s : FutureTrustedOperations H T} (h : s.waiting = none ∨ s.wantedTags = none)
    (hashes : List H) : (remove hashes).run s = .ok [] s := by
  rcases h with h | h <;> simp [remove, h]

-- `remove` on a queue with both maps: the waiting map loses the hashes, and the operations it
-- returns are those it held under them.
theorem remove_run {s : FutureTrustedOperations H T}
    {waiting : AList fun _ : H => WaitingTrustedOperations H T} {wanted : AList fun _ : T => List H}
    (hw : s.waiting = some waiting) (ht : s.wantedTags = some wanted) (hashes : List H) :
    ∃ waiting' wanted' removed, (remove hashes).run s =
        .ok removed { s with waiting := some waiting', wantedTags := some wanted' } ∧
      (∀ hash, waiting'.lookup hash = if hash ∈ hashes then none else waiting.lookup hash) ∧
      ∀ op, op ∈ removed ↔ ∃ hash ∈ hashes, ∃ tx, waiting.lookup hash = some tx ∧ tx.operation = op := by
  simp only [remove, run_bind, run_get, hw, ht]
  refine ⟨_, _, _, rfl, ?_, fun op => ?_⟩
  · exact (foldl_remove (fun _ _ _ _ => rfl) hashes waiting wanted []).1
  · simpa using (foldl_remove (fun _ _ _ _ => rfl) hashes waiting wanted []).2 op

theorem remove_keeps_shaped (hashes : List H) :
    Keeps (ShapedIn K) (remove hashes : FutureM H T _) fun _ => True := by
  intro s hs
  cases hw : s.waiting with
  | none =>
    rw [remove_of_none (.inl hw)]
    exact ⟨hs, trivial⟩
  | some waiting =>
    cases ht : s.wantedTags with
    | none =>
      rw [remove_of_none (.inr ht)]
      exact ⟨hs, trivial⟩
    | some wanted =>
      obtain ⟨waiting', wanted', removed, hrun, hlook, -⟩ := remove_run hw ht hashes
      -- the entries left are entries of the old map
      have hsub : ∀ hash tx, waiting'.lookup hash = some tx → waiting.lookup hash = some tx := by
        intro hash tx hl
        rw [hlook] at hl
        split at hl
        · cases hl
        · exact hl
      have hk : Keyed waiting' := (hs.1.keyed_of_some hw).of_lookup fun hash tx hl =>
        ⟨tx, hsub hash tx hl, id⟩
      have hK : Within K waiting' := (within_of_some hs hw).of_lookup fun hash tx hl =>
        ⟨tx, hsub hash tx hl, id⟩
      rw [hrun]
      exact ⟨⟨⟨fun _ => rfl, hk⟩, hK⟩, trivial⟩

omit [DecidableEq T] in
theorem clear_keeps_shaped : Keeps (ShapedIn K) (clear : FutureM H T _) fun _ => True := by
  refine Keeps.bind Keeps.get fun s _ => ?_
  split
  · exact Keeps.pure trivial
  · split
    · exact Keeps.throw
    · -- both maps are emptied together
      exact (Keeps.set ⟨⟨fun _ => rfl, AList.forall_empty _⟩, AList.forall_empty _⟩).bind fun _ _ =>
        Keeps.pure trivial

end Methods

end FutureTrustedOperations

end Pool
