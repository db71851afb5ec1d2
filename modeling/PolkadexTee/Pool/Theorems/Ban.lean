import PolkadexTee.Pool.Rotator

/-! What `PoolRotator::ban` keeps, in every order of its map. The keys of the timed map are the list
`ValidatedPool` keeps (`banHashes`), and the map never holds more than twice its expected size. -/

namespace Pool

variable {H : Type} [DecidableEq H]

theorem mem_foldl_insertHash {hash : H} (hashes banned : List H) :
    hash ∈ hashes.foldl (fun banned hash => insertHash hash banned) banned ↔
      hash ∈ banned ∨ hash ∈ hashes := by
  induction hashes generalizing banned with
  | nil => simp
  | cons first rest ih =>
    rw [List.foldl_cons, ih, mem_insertHash, List.mem_cons]
    tauto

namespace PoolRotator

theorem isBanned_iff (self : PoolRotator H) (hash : H) :
    self.isBanned hash = true ↔ hash ∈ self.bannedUntil.map Prod.fst :=
  List.contains_iff_mem

-- The rotator refines the ban list of `ValidatedPool`: its keys after a `ban` are `banHashes`.
theorem keys_ban (self : PoolRotator H) (now : Nat) (hashes : List H) :
    (self.ban now hashes).bannedUntil.map Prod.fst =
      banHashes self.order hashes (self.bannedUntil.map Prod.fst) := by
  have hkeys := keys_insertBans (now + self.banTime) hashes self.bannedUntil
  have hlen := congrArg List.length hkeys
  rw [List.length_map] at hlen
  rw [bannedUntil_ban, banHashes]
  dsimp only
  by_cases hover : (insertBans (now + self.banTime) hashes self.bannedUntil).length > 2 * expectedSize
  · rw [if_pos hover, if_pos (hlen ▸ hover), map_evictTo, hkeys]
  · rw [if_neg hover, if_neg (hlen ▸ hover), hkeys]

theorem length_ban_le (self : PoolRotator H) (now : Nat) (hashes : List H) :
    (self.ban now hashes).bannedUntil.length ≤ 2 * expectedSize := by
  rw [bannedUntil_ban]
  dsimp only
  split
  · rw [length_evictTo]
    omega
  · next hunder => omega

theorem mem_insertEntry_self (hash : H) (instant : Nat) (entries : List (H × Nat)) :
    (hash, instant) ∈ insertEntry hash instant entries := by
  induction entries with
  | nil => exact List.mem_singleton_self _
  | cons entry rest ih =>
    obtain ⟨key, value⟩ := entry
    by_cases hkey : key = hash
    · rw [insertEntry, if_pos hkey]
      exact List.mem_cons_self
    · rw [insertEntry, if_neg hkey]
      exact List.mem_cons_of_mem _ ih

-- An insert with the same instant keeps every entry of that instant.
theorem mem_insertEntry_of_mem {hash key : H} {instant : Nat} {entries : List (H × Nat)}
    (h : (key, instant) ∈ entries) : (key, instant) ∈ insertEntry hash instant entries := by
  induction entries with
  | nil => exact absurd h List.not_mem_nil
  | cons entry rest ih =>
    obtain ⟨key', value⟩ := entry
    rcases List.mem_cons.mp h with hhead | hrest
    · obtain ⟨rfl, rfl⟩ := Prod.mk.inj hhead
      by_cases hkey : key = hash
      · rw [insertEntry, if_pos hkey, hkey]
        exact List.mem_cons_self
      · rw [insertEntry, if_neg hkey]
        exact List.mem_cons_self
    · by_cases hkey : key' = hash
      · rw [insertEntry, if_pos hkey]
        exact List.mem_cons_of_mem _ hrest
      · rw [insertEntry, if_neg hkey]
        exact List.mem_cons_of_mem _ (ih hrest)

theorem mem_insertBans_of_mem {key : H} {instant : Nat} (hashes : List H)
    {banned : List (H × Nat)} (h : (key, instant) ∈ banned) :
    (key, instant) ∈ insertBans instant hashes banned := by
  induction hashes generalizing banned with
  | nil => exact h
  | cons hash rest ih => exact ih (mem_insertEntry_of_mem h)

theorem mem_insertBans {hash : H} {instant : Nat} {hashes : List H} (banned : List (H × Nat))
    (hmem : hash ∈ hashes) : (hash, instant) ∈ insertBans instant hashes banned := by
  induction hashes generalizing banned with
  | nil => exact absurd hmem List.not_mem_nil
  | cons first rest ih =>
    change (hash, instant) ∈ insertBans instant rest (insertEntry first instant banned)
    rcases List.mem_cons.mp hmem with rfl | hrest
    · exact mem_insertBans_of_mem rest (mem_insertEntry_self hash instant banned)
    · exact ih _ hrest

-- Below the bound nothing is evicted, and each hash of the call is banned until `now + ban_time`.
theorem mem_ban_of_le (self : PoolRotator H) (now : Nat) {hashes : List H} {hash : H}
    (hle : (insertBans (now + self.banTime) hashes self.bannedUntil).length ≤ 2 * expectedSize)
    (hmem : hash ∈ hashes) : (hash, now + self.banTime) ∈ (self.ban now hashes).bannedUntil := by
  rw [bannedUntil_ban]
  dsimp only
  rw [if_neg (by omega)]
  exact mem_insertBans _ hmem

omit [DecidableEq H] in
theorem mem_clearTimeouts {self : PoolRotator H} {now : Nat} {entry : H × Nat} :
    entry ∈ (self.clearTimeouts now).bannedUntil ↔ entry ∈ self.bannedUntil ∧ now ≤ entry.2 := by
  simp [clearTimeouts]

-- A ban holds through every `clear_timeouts` up to its instant.
theorem isBanned_clearTimeouts {self : PoolRotator H} {hash : H} {instant now : Nat}
    (hmem : (hash, instant) ∈ self.bannedUntil) (hle : now ≤ instant) :
    (self.clearTimeouts now).isBanned hash = true :=
  (isBanned_iff _ hash).mpr (List.mem_map_of_mem (mem_clearTimeouts.mpr ⟨hmem, hle⟩))

-- Every hash of the call is a key before the eviction.
theorem mem_keys_insertBans {hash : H} (instant : Nat) {hashes : List H}
    (banned : List (H × Nat)) (hmem : hash ∈ hashes) :
    hash ∈ (insertBans instant hashes banned).map Prod.fst := by
  rw [keys_insertBans, mem_foldl_insertHash]
  exact .inr hmem

-- A call that bans more distinct hashes than twice the expected size brings the map over its bound,
-- and the eviction keeps only the expected size of keys: not all of the call's hashes.
theorem exists_not_isBanned_ban (self : PoolRotator H) (now : Nat) {hashes : List H}
    (hnodup : hashes.Nodup) (hlong : hashes.length > 2 * expectedSize) :
    ∃ hash ∈ hashes, (self.ban now hashes).isBanned hash = false := by
  have hover : (insertBans (now + self.banTime) hashes self.bannedUntil).length >
      2 * expectedSize := by
    have hle := (hnodup.subperm fun hash hmem =>
      mem_keys_insertBans (now + self.banTime) self.bannedUntil hmem).length_le
    rw [List.length_map] at hle
    omega
  have hlen : (self.ban now hashes).bannedUntil.length = expectedSize := by
    rw [bannedUntil_ban]
    dsimp only
    rw [if_pos hover, length_evictTo]
    omega
  by_contra hall
  -- then every hash of the call is among the `expectedSize` keys that are left
  have hsub : hashes ⊆ (self.ban now hashes).bannedUntil.map Prod.fst := fun hash hmem =>
    (isBanned_iff _ hash).mp (Bool.of_not_eq_false fun hfalse => hall ⟨hash, hmem, hfalse⟩)
  have hle := (hnodup.subperm hsub).length_le
  rw [List.length_map, hlen] at hle
  omega

end PoolRotator

theorem ValidatedPool.checkIsKnown_of_mem_banned {T : Type} [DecidableEq T] {v : ValidatedPool H T}
    {hash : H} (h : hash ∈ v.banned) : v.checkIsKnown hash false = .error .temporarilyBanned := by
  have hbanned : v.isBanned hash = true := List.contains_iff_mem.mpr h
  simp [ValidatedPool.checkIsKnown, hbanned]

namespace PoolRotator

-- `ban`, whatever the order of its map: the map stays within twice its expected size.
theorem ban_bans_or_collects (self : PoolRotator H) (now : Nat) (hashes : List H) :
    let inserted := insertBans (now + self.banTime) hashes self.bannedUntil
    (self.ban now hashes).bannedUntil.length ≤ 2 * expectedSize ∧
      (inserted.length ≤ 2 * expectedSize → ∀ hash ∈ hashes,
        (∀ t ≤ now + self.banTime, ((self.ban now hashes).clearTimeouts t).isBanned hash = true) ∧
          ∀ {T : Type} [DecidableEq T] (v : ValidatedPool H T),
            v.banned = self.bannedUntil.map Prod.fst → v.banOrder = self.order →
            ((ValidatedPool.ban hashes).run v).state.checkIsKnown hash false =
              .error .temporarilyBanned) ∧
      (2 * expectedSize < inserted.length →
        (self.ban now hashes).bannedUntil.length = expectedSize ∧
          (self.ban now hashes).bannedUntil.Sublist inserted) := by
  dsimp only
  refine ⟨length_ban_le self now hashes, fun hle hash hmem => ⟨fun t ht => ?_, ?_⟩, fun hover => ?_⟩
  · exact isBanned_clearTimeouts (mem_ban_of_le self now hle hmem) ht
  · intro T _ v hbanned horder
    apply ValidatedPool.checkIsKnown_of_mem_banned
    -- the pool's list after the ban is the keys of the rotator's map, among them `hash`
    rw [ValidatedPool.ban, EStateM.run_modify, EStateM.Result.state_ok]
    change hash ∈ banHashes v.banOrder hashes v.banned
    rw [hbanned, horder, ← keys_ban self now hashes]
    exact List.mem_map_of_mem (mem_ban_of_le self now hle hmem)
  · rw [bannedUntil_ban]
    dsimp only
    rw [if_pos hover]
    refine ⟨?_, evictTo_sublist _ _ _ _⟩
    rw [length_evictTo]
    omega

theorem ban_bans_or_collects_twoHashes :
    (((default .listed : PoolRotator Nat).ban 0 [1, 2]).clearTimeouts 1800).isBanned 2 = true ∧
      ((ValidatedPool.ban [1, 2]).run
        (ValidatedPool.new .default .listed .listed : ValidatedPool Nat Nat)).state.checkIsKnown 2 false =
        .error .temporarilyBanned :=
  have h := (ban_bans_or_collects (default .listed) 0 [1, 2]).2.1 (by decide) 2 (by simp)
  ⟨h.1 1800 le_rfl, h.2 _ rfl rfl⟩

end PoolRotator

theorem BasePool.isImported_new {T : Type} (rejectFutureOperations : Bool) (hashOrder : IterOrder H)
    (hash : H) : (BasePool.new rejectFutureOperations hashOrder : BasePool H T).isImported hash = false :=
  rfl

-- In whatever order the map is iterated, some hash of a call that overflows the map escapes.
theorem exists_unbanned_after_ban (order : IterOrder Nat) :
    ∃ hash ∈ List.range 4097,
      ((PoolRotator.default order).ban 0 (List.range 4097)).isBanned hash = false ∧
        ((ValidatedPool.ban (List.range 4097)).run
          (ValidatedPool.new .default .listed order : ValidatedPool Nat Nat)).state.checkIsKnown hash false =
          .ok () := by
  obtain ⟨hash, hmem, hunbanned⟩ :=
    PoolRotator.exists_not_isBanned_ban (PoolRotator.default order) 0
      (show (List.range 4097).Nodup from List.nodup_range) (by rw [List.length_range]; decide)
  refine ⟨hash, hmem, hunbanned, ?_⟩
  -- the pool's ban list is the keys of the rotator's map, which lack `hash`
  have hkeys : ((PoolRotator.default order).ban 0 (List.range 4097)).bannedUntil.map Prod.fst =
      banHashes order (List.range 4097) [] :=
    PoolRotator.keys_ban (PoolRotator.default order) 0 (List.range 4097)
  have hpool : (banHashes order (List.range 4097) [] : List Nat).contains hash = false := by
    rw [← hkeys]
    exact hunbanned
  rw [ValidatedPool.ban, EStateM.run_modify, EStateM.Result.state_ok, ValidatedPool.checkIsKnown,
    ValidatedPool.isBanned, ValidatedPool.new]
  dsimp only
  rw [hpool, BasePool.isImported_new]
  rfl

theorem ban_evicts_just_banned :
    ∃ hash ∈ List.range 4097,
      ((PoolRotator.default .listed).ban 0 (List.range 4097)).isBanned hash = false ∧
        ((ValidatedPool.ban (List.range 4097)).run
          (ValidatedPool.new .default .listed .listed : ValidatedPool Nat Nat)).state.checkIsKnown hash false =
          .ok () :=
  exists_unbanned_after_ban .listed

end Pool
