import PolkadexTee.Pool.Validated

/-! `PoolRotator` (`rotator.rs`): the hashes banned from the pool, each with the instant its ban
ends. The `HashMap` is kept as its entries, each key once, with the order its iterator visits the
keys in as a parameter. Instants and durations count seconds. -/

namespace Pool

variable {H : Type} [DecidableEq H]

-- `HashMap::insert`: a key already there keeps its place and takes the new instant.
def insertEntry (hash : H) (instant : Nat) : List (H × Nat) → List (H × Nat)
  | [] => [(hash, instant)]
  | (key, value) :: rest =>
    if key = hash then (hash, instant) :: rest else (key, value) :: insertEntry hash instant rest

theorem keys_insertEntry (hash : H) (instant : Nat) (entries : List (H × Nat)) :
    (insertEntry hash instant entries).map Prod.fst = insertHash hash (entries.map Prod.fst) := by
  induction entries with
  | nil => rfl
  | cons entry rest ih =>
    obtain ⟨key, value⟩ := entry
    by_cases hkey : key = hash
    · have hin : (key :: rest.map Prod.fst).contains hash = true := by simp [hkey]
      rw [insertEntry, if_pos hkey, List.map_cons, List.map_cons, insertHash, if_pos hin, hkey]
    · rw [insertEntry, if_neg hkey, List.map_cons, List.map_cons, ih,
        insertHash_cons_of_ne _ hkey]

-- The `for hash in hashes` loop of `ban`.
def insertBans (instant : Nat) (hashes : List H) (banned : List (H × Nat)) : List (H × Nat) :=
  hashes.foldl (fun banned hash => insertEntry hash instant banned) banned

theorem keys_insertBans (instant : Nat) (hashes : List H) (banned : List (H × Nat)) :
    (insertBans instant hashes banned).map Prod.fst =
      hashes.foldl (fun banned hash => insertHash hash banned) (banned.map Prod.fst) := by
  induction hashes generalizing banned with
  | nil => rfl
  | cons hash rest ih =>
    rw [List.foldl_cons, ← keys_insertEntry hash instant]
    exact ih (insertEntry hash instant banned)

theorem nodup_insertBans (instant : Nat) (hashes : List H) {banned : List (H × Nat)}
    (h : (banned.map Prod.fst).Nodup) : ((insertBans instant hashes banned).map Prod.fst).Nodup := by
  induction hashes generalizing banned with
  | nil => exact h
  | cons hash rest ih =>
    apply ih
    rw [keys_insertEntry]
    exact nodup_insertHash h

structure PoolRotator (H : Type) where
  banTime     : Nat
  bannedUntil : List (H × Nat)
  -- the keys of a `HashMap` are distinct
  nodup       : (bannedUntil.map Prod.fst).Nodup
  order       : IterOrder H

namespace PoolRotator

-- `Default for PoolRotator`: a ban lasts thirty minutes, in a map with a new hasher.
def default (order : IterOrder H) : PoolRotator H := ⟨60 * 30, [], List.nodup_nil, order⟩

def isBanned (self : PoolRotator H) (hash : H) : Bool :=
  (self.bannedUntil.map Prod.fst).contains hash

def ban (self : PoolRotator H) (now : Nat) (hashes : List H) : PoolRotator H :=
  let banned := insertBans (now + self.banTime) hashes self.bannedUntil
  have hnodup : (banned.map Prod.fst).Nodup := nodup_insertBans _ hashes self.nodup
  if banned.length > 2 * expectedSize then
    ⟨self.banTime, evictTo self.order Prod.fst expectedSize banned,
      ((evictTo_sublist _ _ _ _).map _).nodup hnodup, self.order⟩
  else ⟨self.banTime, banned, hnodup, self.order⟩

theorem bannedUntil_ban (self : PoolRotator H) (now : Nat) (hashes : List H) :
    (self.ban now hashes).bannedUntil =
      let banned := insertBans (now + self.banTime) hashes self.bannedUntil
      if banned.length > 2 * expectedSize then evictTo self.order Prod.fst expectedSize banned
      else banned := by
  unfold ban
  dsimp only
  split <;> rfl

-- `ban_if_stale`: the rotator after the call, and whether the operation was stale and got banned.
def banIfStale {T : Type} (self : PoolRotator H) (now currentBlock : Nat)
    (xt : TrustedOperation H T) : PoolRotator H × Bool :=
  if xt.validTill > currentBlock then (self, false) else (self.ban now [xt.hash], true)

-- `banned.retain(|_, &mut v| v >= *now)`
def clearTimeouts (self : PoolRotator H) (now : Nat) : PoolRotator H :=
  ⟨self.banTime, self.bannedUntil.filter (fun entry => entry.2 ≥ now),
    (List.filter_sublist.map _).nodup self.nodup, self.order⟩

end PoolRotator

end Pool
