import Mathlib.Data.List.Nodup

/-! A walk along a partial successor function towards a target: a loop that stops at the target,
fails at a node with no successor and otherwise moves on, as a walk along parent hashes does. Run
with a bound on its rounds, it gives `none` when the bound runs out. -/

namespace Walk

variable {α : Type} [DecidableEq α] (next : α → Option α) (target : α)

-- The walk from `current` in at most `fuel` rounds: `some (some path)` with the nodes it moved to
-- when it reaches the target, `some none` when it stops at a node with no successor.
def walk : Nat → α → Option (Option (List α))
  | 0, _ => none
  | fuel + 1, current =>
    if current = target then some (some [])
    else match next current with
      | none => some none
      | some parent => (walk fuel parent).map (Option.map (parent :: ·))

-- The nodes the walk moves on from, in at most `fuel` rounds.
def trail : Nat → α → List α
  | 0, _ => []
  | fuel + 1, current =>
    if current = target then []
    else match next current with
      | none => []
      | some parent => current :: trail fuel parent

-- `path` leads from `x` to the target: each node before the target moves to the next one, and the
-- target is the last.
inductive Leads : α → List α → Prop
  | target : Leads target []
  | step {x y : α} {path : List α} : x ≠ target → next x = some y → Leads y path →
      Leads x (y :: path)

variable {next target}

section Equations

variable {x y : α} {fuel : Nat}

@[simp]
theorem walk_zero (x : α) : walk next target 0 x = none :=
  rfl

theorem walk_succ_target (fuel : Nat) : walk next target (fuel + 1) target = some (some []) := by
  simp [walk]

theorem walk_succ_none (hx : x ≠ target) (hn : next x = none) :
    walk next target (fuel + 1) x = some none := by
  simp [walk, hx, hn]

theorem walk_succ_some (hx : x ≠ target) (hn : next x = some y) :
    walk next target (fuel + 1) x = (walk next target fuel y).map (Option.map (y :: ·)) := by
  simp [walk, hx, hn]

theorem trail_succ_target (fuel : Nat) : trail next target (fuel + 1) target = [] := by
  simp [trail]

theorem trail_succ_none (hx : x ≠ target) (hn : next x = none) :
    trail next target (fuel + 1) x = [] := by
  simp [trail, hx, hn]

theorem trail_succ_some (hx : x ≠ target) (hn : next x = some y) :
    trail next target (fuel + 1) x = x :: trail next target fuel y := by
  simp [trail, hx, hn]

end Equations

-- More rounds give what fewer give, once the walk has returned.

section Fuel

theorem walk_add : ∀ {fuel : Nat} {x : α}, (walk next target fuel x).isSome → ∀ k,
    walk next target (fuel + k) x = walk next target fuel x
  | 0, _, h, _ => by simp at h
  | fuel + 1, x, h, k => by
    rw [Nat.add_right_comm]
    by_cases hx : x = target
    · subst hx
      rw [walk_succ_target, walk_succ_target]
    · cases hn : next x with
      | none => rw [walk_succ_none hx hn, walk_succ_none hx hn]
      | some y =>
        rw [walk_succ_some hx hn] at h
        rw [walk_succ_some hx hn, walk_succ_some hx hn, walk_add (by simpa using h) k]

theorem trail_add : ∀ {fuel : Nat} {x : α}, (walk next target fuel x).isSome → ∀ k,
    trail next target (fuel + k) x = trail next target fuel x
  | 0, _, h, _ => by simp at h
  | fuel + 1, x, h, k => by
    rw [Nat.add_right_comm]
    by_cases hx : x = target
    · subst hx
      rw [trail_succ_target, trail_succ_target]
    · cases hn : next x with
      | none => rw [trail_succ_none hx hn, trail_succ_none hx hn]
      | some y =>
        rw [walk_succ_some hx hn] at h
        rw [trail_succ_some hx hn, trail_succ_some hx hn, trail_add (by simpa using h) k]

variable {f g : Nat} {x : α}

theorem trail_eq_of_isSome (hf : (walk next target f x).isSome) (hg : (walk next target g x).isSome) :
    trail next target f x = trail next target g x := by
  rcases Nat.le_total f g with hle | hle
  · obtain ⟨k, rfl⟩ := Nat.exists_eq_add_of_le hle
    exact (trail_add hf k).symm
  · obtain ⟨k, rfl⟩ := Nat.exists_eq_add_of_le hle
    exact trail_add hg k

end Fuel

-- The trail of a walk that returns: one round for each node on it, and no node twice.

section Trail

-- A node the walk moves on from has a successor.
theorem next_of_mem_trail : ∀ {fuel : Nat} {x v : α}, v ∈ trail next target fuel x →
    ∃ y, next v = some y
  | 0, _, _, hv => nomatch hv
  | fuel + 1, x, v, hv => by
    by_cases hx : x = target
    · subst hx
      rw [trail_succ_target] at hv
      exact nomatch hv
    · cases hn : next x with
      | none =>
        rw [trail_succ_none hx hn] at hv
        exact nomatch hv
      | some y =>
        rw [trail_succ_some hx hn] at hv
        rcases List.mem_cons.mp hv with rfl | hv
        · exact ⟨y, hn⟩
        · exact next_of_mem_trail hv

-- A walk that returns needs one round for each node of its trail, and one more.
theorem walk_trail : ∀ {fuel : Nat} {x : α}, (walk next target fuel x).isSome →
    walk next target ((trail next target fuel x).length + 1) x = walk next target fuel x
  | 0, _, h => by simp at h
  | fuel + 1, x, h => by
    by_cases hx : x = target
    · subst hx
      rw [trail_succ_target, walk_succ_target, walk_succ_target]
    · cases hn : next x with
      | none => rw [trail_succ_none hx hn, walk_succ_none hx hn, walk_succ_none hx hn]
      | some y =>
        rw [walk_succ_some hx hn] at h
        rw [trail_succ_some hx hn, List.length_cons, walk_succ_some hx hn, walk_succ_some hx hn,
          walk_trail (by simpa using h)]

-- A node on the trail of a walk that returns starts a walk that returns, with a trail no longer.
theorem exists_walk_of_mem_trail : ∀ {fuel : Nat} {x v : α}, (walk next target fuel x).isSome →
    v ∈ trail next target fuel x →
    ∃ f, (walk next target f v).isSome ∧
      (trail next target f v).length ≤ (trail next target fuel x).length
  | 0, _, _, h, _ => by simp at h
  | fuel + 1, x, v, h, hv => by
    by_cases hx : x = target
    · subst hx
      rw [trail_succ_target] at hv
      exact nomatch hv
    · cases hn : next x with
      | none =>
        rw [trail_succ_none hx hn] at hv
        exact nomatch hv
      | some y =>
        rcases List.mem_cons.mp (trail_succ_some hx hn ▸ hv) with rfl | hv'
        · exact ⟨fuel + 1, h, Nat.le_refl _⟩
        · rw [walk_succ_some hx hn] at h
          obtain ⟨f, hf, hlen⟩ := exists_walk_of_mem_trail (by simpa using h) hv'
          refine ⟨f, hf, ?_⟩
          rw [trail_succ_some hx hn, List.length_cons]
          omega

-- A walk that returns passes no node twice: coming back to a node it left, it would go round the
-- same loop forever.
theorem nodup_trail : ∀ {fuel : Nat} {x : α}, (walk next target fuel x).isSome →
    (trail next target fuel x).Nodup
  | 0, _, _ => List.nodup_nil
  | fuel + 1, x, h => by
    by_cases hx : x = target
    · subst hx
      rw [trail_succ_target]
      exact List.nodup_nil
    · cases hn : next x with
      | none =>
        rw [trail_succ_none hx hn]
        exact List.nodup_nil
      | some y =>
        have hy : (walk next target fuel y).isSome := by
          rw [walk_succ_some hx hn] at h
          simpa using h
        rw [trail_succ_some hx hn, List.nodup_cons]
        refine ⟨fun hmem => ?_, nodup_trail hy⟩
        -- from `y` the walk would come back to `x` with a trail shorter than the one from `x`
        obtain ⟨f, hf, hlen⟩ := exists_walk_of_mem_trail hy hmem
        have htrail := trail_eq_of_isSome hf h
        rw [htrail, trail_succ_some hx hn, List.length_cons] at hlen
        omega

-- A walk that returns at all returns within one round more than the nodes with a successor, and
-- gives what it gives with any larger bound.
theorem walk_of_isSome {K : List α} (hK : ∀ a b, next a = some b → a ∈ K) {fuel : Nat} {x : α}
    (h : (walk next target fuel x).isSome) :
    walk next target (K.length + 1) x = walk next target fuel x := by
  have hsub : trail next target fuel x ⊆ K := fun v hv =>
    have ⟨y, hy⟩ := next_of_mem_trail hv
    hK v y hy
  obtain ⟨k, hk⟩ := Nat.exists_eq_add_of_le ((nodup_trail h).length_le_of_subset hsub)
  have hreturns : (walk next target ((trail next target fuel x).length + 1) x).isSome := by
    rw [walk_trail h]
    exact h
  rw [hk, Nat.add_right_comm, walk_add hreturns k, walk_trail h]

-- Where that bound runs out, the loop runs forever.
theorem walk_eq_none {K : List α} (hK : ∀ a b, next a = some b → a ∈ K) {x : α}
    (h : walk next target (K.length + 1) x = none) (fuel : Nat) : walk next target fuel x = none := by
  cases hw : walk next target fuel x with
  | none => rfl
  | some r =>
    have hsome : (walk next target fuel x).isSome := by rw [hw]; rfl
    rw [← walk_of_isSome hK hsome, h] at hw
    exact nomatch hw

end Trail

-- The path a walk returns leads to the target, and a path that leads there is what it returns.

section Leads

theorem leads_of_walk : ∀ {fuel : Nat} {x : α} {path : List α},
    walk next target fuel x = some (some path) → Leads next target x path
  | 0, _, _, h => nomatch h
  | fuel + 1, x, path, h => by
    by_cases hx : x = target
    · subst hx
      rw [walk_succ_target] at h
      cases h
      exact .target
    · cases hn : next x with
      | none =>
        rw [walk_succ_none hx hn] at h
        cases h
      | some y =>
        rw [walk_succ_some hx hn] at h
        obtain ⟨r, hr, hpath⟩ := Option.map_eq_some_iff.mp h
        obtain ⟨rest, rfl, rfl⟩ := Option.map_eq_some_iff.mp hpath
        exact .step hx hn (leads_of_walk hr)

omit [DecidableEq α] in
-- A path from a node other than the target moves at least once.
theorem Leads.dropLast_cons {x : α} {path : List α} (h : Leads next target x path)
    (hx : x ≠ target) : (x :: path).dropLast = x :: path.dropLast := by
  cases h with
  | target => exact absurd rfl hx
  | step => rfl

end Leads

end Walk
