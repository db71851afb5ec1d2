import PolkadexTee.Pool.Theorems.Removal

/-! `prune_tags` of `ready.rs`. -/

namespace Pool.ReadyOperations

open EStateM (Returns)

variable {H T : Type} [DecidableEq H] [DecidableEq T]

-- The maps of a shard are present, with the tag map `tags`.
def PresentWith (tags : AList fun _ : T => H) (s : ReadyOperations H T) : Prop :=
  s.providedTags = some tags ∧ s.ready.isSome ∧ s.best.isSome

section Steps

variable (tags : AList fun _ : T => H)

theorem findPrevious_returns (hash : H) (tag : T) : Returns (PresentWith tags) (findPrevious hash tag) := by
  rintro s ⟨hs, hr, hb⟩
  obtain ⟨ready, hr⟩ := Option.isSome_iff_exists.mp hr
  simp only [findPrevious, EStateM.run_bind, unwrapProvidedTags_run hs]
  cases hl : tags.lookup tag with
  | none => exact ⟨_, _, rfl, hs, by simp [hr], hb⟩
  | some prevHash =>
    simp only [EStateM.run_bind, unwrapReady_run hr]
    cases hp : ready.lookup prevHash with
    | none => exact ⟨_, _, rfl, hs, by simp [hr], hb⟩
    | some tx2 => exact ⟨_, _, rfl, hs, rfl, hb⟩

theorem findPreviousAll_returns (hash : H) :
    ∀ (toRemove : List T) (l : List T), Returns (PresentWith tags) (findPreviousAll hash toRemove l)
  | _, [] => Returns.pure
  | _, tag :: rest => Returns.bind (findPrevious_returns tags hash tag) fun _ =>
      findPreviousAll_returns hash _ rest

omit [DecidableEq T] in
theorem promoteUnlocked_returns : ∀ l : List H, Returns (PresentWith tags) (promoteUnlocked l)
  | [] => Returns.pure
  | hash :: rest => by
    rintro s ⟨hs, hr, hb⟩
    obtain ⟨ready, hr⟩ := Option.isSome_iff_exists.mp hr
    obtain ⟨best, hb⟩ := Option.isSome_iff_exists.mp hb
    simp only [promoteUnlocked, EStateM.run_bind, unwrapReady_run hr]
    cases hl : ready.lookup hash with
    | none => exact promoteUnlocked_returns rest _ ⟨hs, by simp [hr], by simp [hb]⟩
    | some tx =>
      -- the unlocked operation counts one more provided tag, and may join the best set
      simp only [EStateM.run_bind, setReady_run]
      split
      · simp only [unwrapBest, EStateM.run_bind, EStateM.run_get, hb, EStateM.run_pure, setBest_run]
        exact promoteUnlocked_returns rest _ ⟨hs, rfl, rfl⟩
      · exact promoteUnlocked_returns rest _ ⟨hs, rfl, by simp [hb]⟩

end Steps

-- The assertion on the pruned operation's other tags.

section Clear

variable {currentTag x : T} {hash : H}

-- The assertion fails at a tag other than the pruned one that is no longer in the tag map.
theorem clearProvides_panics_of_missing (hx : x ≠ currentTag) :
    ∀ (l : List T) (s : ReadyOperations H T) (tags : AList fun _ : T => H),
      s.providedTags = some tags → tags.lookup x = none → x ∈ l →
      ∃ s', (clearProvides currentTag hash l).run s = .error (.panic pruneAssertMsg) s'
  | [], _, _, _, _, hmem => absurd hmem List.not_mem_nil
  | a :: rest, s, tags, hs, hmiss, hmem => by
    simp only [clearProvides, EStateM.run_bind, unwrapProvidedTags_run hs, setProvidedTags_run]
    by_cases hcheck : tags.lookup a ≠ (if currentTag = a then none else some hash)
    · rw [if_pos hcheck]
      exact ⟨_, rfl⟩
    · rw [if_neg hcheck]
      -- the check passed at `a`, so `a` is not the missing tag
      have hax : a ≠ x := by
        rintro rfl
        simp [hmiss, Ne.symm hx] at hcheck
      exact clearProvides_panics_of_missing hx rest { s with providedTags := some (tags.erase a) }
        (tags.erase a) rfl ((AList.lookup_erase_ne (Ne.symm hax)).trans hmiss)
        ((List.mem_cons.mp hmem).resolve_left (Ne.symm hax))

-- The assertion fails when a tag other than the pruned one is listed twice: its first occurrence
-- takes it out of the tag map.
theorem clearProvides_panics_of_repeated (hx : x ≠ currentTag) :
    ∀ (l : List T) (s : ReadyOperations H T) (tags : AList fun _ : T => H),
      s.providedTags = some tags → 2 ≤ l.count x →
      ∃ s', (clearProvides currentTag hash l).run s = .error (.panic pruneAssertMsg) s'
  | [], _, _, _, hc => by simp at hc
  | a :: rest, s, tags, hs, hc => by
    simp only [clearProvides, EStateM.run_bind, unwrapProvidedTags_run hs, setProvidedTags_run]
    by_cases hcheck : tags.lookup a ≠ (if currentTag = a then none else some hash)
    · rw [if_pos hcheck]
      exact ⟨_, rfl⟩
    · rw [if_neg hcheck]
      by_cases hax : a = x
      · subst hax
        have hrest : a ∈ rest := by simpa using hc
        exact clearProvides_panics_of_missing hx rest { s with providedTags := some (tags.erase a) }
          (tags.erase a) rfl (AList.lookup_erase a tags) hrest
      · exact clearProvides_panics_of_repeated hx rest { s with providedTags := some (tags.erase a) }
          (tags.erase a) rfl (by simpa [List.count_cons, hax] using hc)

end Clear

end Pool.ReadyOperations
