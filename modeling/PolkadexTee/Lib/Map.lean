import Mathlib

/-! Association lists as the hash maps of a program: lookups after a run of erasures or of
insertions, a property of every entry that the writes keep, and sums over the entries when one of
them is taken out or replaced. -/

namespace AList

variable {α : Type} {β : α → Type} [DecidableEq α]

-- Every entry of the map satisfies `p`.
def Forall (p : (a : α) → β a → Prop) (s : AList β) : Prop :=
  ∀ a b, s.lookup a = some b → p a b

section Forall

variable {p q : (a : α) → β a → Prop} {s s' : AList β}

theorem forall_empty (p : (a : α) → β a → Prop) : Forall p (∅ : AList β) :=
  fun _ _ h => by simp at h

theorem Forall.insert (h : Forall p s) {a : α} {b : β a} (hb : p a b) : Forall p (s.insert a b) :=
  fun a' b' hl => by
    by_cases heq : a' = a
    · subst heq
      rw [lookup_insert] at hl
      cases hl
      exact hb
    · rw [lookup_insert_ne heq] at hl
      exact h a' b' hl

theorem Forall.erase (h : Forall p s) (a : α) : Forall p (s.erase a) :=
  fun a' b' hl => by
    by_cases heq : a' = a
    · subst heq
      rw [lookup_erase] at hl
      cases hl
    · rw [lookup_erase_ne heq] at hl
      exact h a' b' hl

theorem Forall.imp (h : Forall p s) (hpq : ∀ a b, p a b → q a b) : Forall q s :=
  fun a b hl => hpq a b (h a b hl)

theorem Forall.and (hp : Forall p s) (hq : Forall q s) : Forall (fun a b => p a b ∧ q a b) s :=
  fun a b hl => ⟨hp a b hl, hq a b hl⟩

-- No entry is left under an erased key.
theorem forall_ne_erase (s : AList β) (a : α) : Forall (fun b _ => b ≠ a) (s.erase a) :=
  fun b _ hl heq => by
    subst heq
    rw [lookup_erase] at hl
    cases hl

-- A key that no value of `p` admits has no entry.
theorem Forall.lookup_eq_none (h : Forall p s) {a : α} (ha : ∀ b, ¬ p a b) : s.lookup a = none := by
  cases hl : s.lookup a with
  | none => rfl
  | some b => exact absurd (h a b hl) (ha b)

-- A map whose entries each stand for an entry of `s` that passes `p` on to them.
theorem Forall.of_lookup (h : Forall p s)
    (hs : ∀ a b', s'.lookup a = some b' → ∃ b, s.lookup a = some b ∧ (p a b → p a b')) :
    Forall p s' :=
  fun a b' hl => by
    obtain ⟨b, hl', hpb⟩ := hs a b' hl
    exact hpb (h a b hl')

end Forall

theorem lookup_foldl_erase (s : AList β) (l : List α) (a : α) :
    (l.foldl (fun s k => s.erase k) s).lookup a = if a ∈ l then none else s.lookup a := by
  induction l generalizing s with
  | nil => simp
  | cons k l ih =>
    rw [List.foldl_cons, ih]
    by_cases hk : a = k
    · subst hk
      simp [lookup_erase]
    · by_cases ha : a ∈ l <;> simp [ha, hk, lookup_erase_ne hk]

-- A key left after a run of erasures is one the run did not erase.
theorem mem_foldl_erase {s : AList β} {l : List α} {a : α} :
    a ∈ l.foldl (fun s k => s.erase k) s ↔ a ∉ l ∧ a ∈ s := by
  induction l generalizing s with
  | nil => simp
  | cons k l ih =>
    rw [List.foldl_cons, ih, mem_erase, List.mem_cons, not_or]
    tauto

theorem lookup_foldl_insert (s : AList β) (l : List α) (b : ∀ a, β a) (a : α) :
    (l.foldl (fun s k => s.insert k (b k)) s).lookup a = if a ∈ l then some (b a) else s.lookup a := by
  induction l generalizing s with
  | nil => simp
  | cons k l ih =>
    rw [List.foldl_cons, ih]
    by_cases hk : a = k
    · subst hk
      simp [lookup_insert]
    · by_cases ha : a ∈ l <;> simp [ha, hk, lookup_insert_ne hk]

-- The keys after a run of insertions of pairs, as collecting an iterator into a map has them.
theorem mem_foldl_insert {γ : Type} (s : AList fun _ : α => γ) (l : List (α × γ)) (a : α) :
    a ∈ l.foldl (fun s r => s.insert r.1 r.2) s ↔ a ∈ s ∨ ∃ r ∈ l, r.1 = a := by
  induction l generalizing s with
  | nil => simp
  | cons r l ih =>
    rw [List.foldl_cons, ih, mem_insert]
    constructor
    · rintro ((rfl | h) | ⟨r', hr', rfl⟩)
      · exact .inr ⟨r, List.mem_cons_self, rfl⟩
      · exact .inl h
      · exact .inr ⟨r', List.mem_cons_of_mem _ hr', rfl⟩
    · rintro (h | ⟨r', hr', rfl⟩)
      · exact .inl (.inr h)
      · rcases List.mem_cons.mp hr' with rfl | hr'
        · exact .inl (.inl rfl)
        · exact .inr ⟨r', hr', rfl⟩

-- A map collected from a list, each element under its key: an entry of the result is one of the
-- start map or an element of the list under its own key.
theorem lookup_foldl_insert_key {γ : Type} (key : γ → α) (s : AList fun _ : α => γ) (l : List γ)
    {a : α} {x : γ} (h : (l.foldl (fun s y => s.insert (key y) y) s).lookup a = some x) :
    s.lookup a = some x ∨ (x ∈ l ∧ key x = a) := by
  induction l generalizing s with
  | nil => exact .inl h
  | cons y l ih =>
    rcases ih _ h with h | ⟨hx, hkey⟩
    · by_cases hk : a = key y
      · subst hk
        rw [lookup_insert] at h
        cases h
        exact .inr ⟨List.mem_cons_self, rfl⟩
      · rw [lookup_insert_ne hk] at h
        exact .inl h
    · exact .inr ⟨List.mem_cons_of_mem _ hx, hkey⟩

-- Erasing a key takes its entry's share out of a sum over the entries.
theorem sum_map_erase_add {f : Sigma β → Nat} {s : AList β} {a : α} {b : β a}
    (h : s.lookup a = some b) : ((s.erase a).entries.map f).sum + f ⟨a, b⟩ = (s.entries.map f).sum := by
  have hmem : ⟨a, b⟩ ∈ s.entries := mem_lookup_iff.mp h
  obtain ⟨b', l₁, l₂, -, hs, herase⟩ := List.exists_of_kerase (List.mem_keys_of_mem hmem)
  have hb : b' = b := s.nodupKeys.eq_of_mk_mem (hs ▸ List.mem_append_right _ List.mem_cons_self) hmem
  change ((s.entries.kerase a).map f).sum + _ = _
  rw [herase, hs]
  simp only [List.map_append, List.map_cons, List.sum_append, List.sum_cons, hb]
  omega

-- Replacing the value of a key replaces its entry's share of a sum over the entries.
theorem sum_map_insert_add {f : Sigma β → Nat} {s : AList β} {a : α} {b b' : β a}
    (h : s.lookup a = some b) :
    ((s.insert a b').entries.map f).sum + f ⟨a, b⟩ = (s.entries.map f).sum + f ⟨a, b'⟩ := by
  have herase : ((s.entries.kerase a).map f).sum + f ⟨a, b⟩ = (s.entries.map f).sum :=
    sum_map_erase_add h
  rw [entries_insert, List.map_cons, List.sum_cons]
  omega

-- Inserting a new key adds its entry's share to a sum over the entries.
theorem sum_map_insert_of_lookup_none {f : Sigma β → Nat} {s : AList β} {a : α} {b : β a}
    (h : s.lookup a = none) : ((s.insert a b).entries.map f).sum = (s.entries.map f).sum + f ⟨a, b⟩ := by
  have hkeys : a ∉ s.entries.keys := fun hk => (lookup_eq_none.mp h) (mem_keys.mp hk)
  rw [entries_insert, List.kerase_of_notMem_keys hkeys, List.map_cons, List.sum_cons]
  omega

theorem length_erase_add_one {s : AList β} {a : α} {b : β a} (h : s.lookup a = some b) :
    (s.erase a).entries.length + 1 = s.entries.length := by
  have hsum : ((s.erase a).entries.map fun _ => 1).sum + 1 = (s.entries.map fun _ => 1).sum :=
    sum_map_erase_add h
  simp only [List.map_const', List.sum_replicate, smul_eq_mul, mul_one] at hsum
  exact hsum

theorem length_insert_of_lookup {s : AList β} {a : α} {b b' : β a} (h : s.lookup a = some b) :
    (s.insert a b').entries.length = s.entries.length := by
  have hsum : ((s.insert a b').entries.map fun _ => 1).sum + 1 = (s.entries.map fun _ => 1).sum + 1 :=
    sum_map_insert_add h
  simp only [List.map_const', List.sum_replicate, smul_eq_mul, mul_one] at hsum
  omega

theorem length_insert_of_lookup_none {s : AList β} {a : α} {b : β a} (h : s.lookup a = none) :
    (s.insert a b).entries.length = s.entries.length + 1 := by
  have hsum : ((s.insert a b).entries.map fun _ => 1).sum = (s.entries.map fun _ => 1).sum + 1 :=
    sum_map_insert_of_lookup_none h
  simp only [List.map_const', List.sum_replicate, smul_eq_mul, mul_one] at hsum
  exact hsum

omit [DecidableEq α] in
-- A map whose entries stand, key for key, for entries of another of the same measure has at most
-- the other's sum of the measure.
theorem sum_map_le_of_entries {f : Sigma β → Nat} {s s' : AList β}
    (h : ∀ x ∈ s'.entries, ∃ y ∈ s.entries, x.1 = y.1 ∧ f x = f y) :
    (s'.entries.map f).sum ≤ (s.entries.map f).sum := by
  -- each entry is tagged with its key, so that the tagged lists have no duplicates
  let g : Sigma β → α × Nat := fun x => (x.1, f x)
  have hnodup : (s'.entries.map g).Nodup := by
    refine List.Nodup.of_map Prod.fst ?_
    rw [List.map_map]
    exact s'.keys_nodup
  have hsub : s'.entries.map g ⊆ s.entries.map g := by
    intro p hp
    obtain ⟨x, hx, rfl⟩ := List.mem_map.mp hp
    obtain ⟨y, hy, hkey, hf⟩ := h x hx
    exact List.mem_map.mpr ⟨y, hy, by simp [g, hkey, hf]⟩
  obtain ⟨l, hperm, hsl⟩ := List.subperm_of_subset hnodup hsub
  have hsum : ∀ t : AList β, (t.entries.map f).sum = ((t.entries.map g).map Prod.snd).sum := by
    intro t
    simp [g, List.map_map, Function.comp_def]
  rw [hsum s', hsum s, ← (hperm.map Prod.snd).sum_eq]
  exact (hsl.map Prod.snd).sum_le_sum fun _ _ => Nat.zero_le _

-- A map whose keys are keys of another has at most as many entries.
theorem length_entries_le {s s' : AList β} (h : ∀ a ∈ s', a ∈ s) :
    s'.entries.length ≤ s.entries.length := by
  have hsub : s'.keys.toFinset ⊆ s.keys.toFinset := fun k hk => by
    simpa [mem_keys] using h k (by simpa [mem_keys] using hk)
  have hcard := Finset.card_le_card hsub
  rw [List.toFinset_card_of_nodup s'.keys_nodup, List.toFinset_card_of_nodup s.keys_nodup] at hcard
  simpa [keys, List.keys] using hcard

-- A map whose keys are keys of another, one of which it lacks, has fewer entries.
theorem length_entries_lt {s s' : AList β} (h : ∀ a ∈ s', a ∈ s) {a : α} (ha : a ∈ s)
    (hn : a ∉ s') : s'.entries.length < s.entries.length := by
  have hssub : s'.keys.toFinset ⊂ s.keys.toFinset := by
    refine Finset.ssubset_iff_subset_ne.mpr ⟨fun k hk => ?_, fun heq => ?_⟩
    · simpa [mem_keys] using h k (by simpa [mem_keys] using hk)
    · have : a ∈ s'.keys.toFinset := heq ▸ List.mem_toFinset.mpr (mem_keys.mpr ha)
      exact hn (mem_keys.mp (List.mem_toFinset.mp this))
  have hcard := Finset.card_lt_card hssub
  rw [List.toFinset_card_of_nodup s'.keys_nodup, List.toFinset_card_of_nodup s.keys_nodup] at hcard
  simpa [keys, List.keys] using hcard

end AList

namespace List

-- Extending a `HashSet` by the elements of a list.
theorem mem_foldl_insert {α : Type} [DecidableEq α] {a : α} :
    ∀ (l s : List α), a ∈ l.foldl (fun s x => s.insert x) s ↔ a ∈ s ∨ a ∈ l
  | [], s => by simp
  | x :: l, s => by
    rw [foldl_cons, mem_foldl_insert l, mem_insert_iff, mem_cons]
    tauto

-- A list collected into a `HashSet`, in the order of first occurrence: each element once.
theorem nodup_eraseDups {α : Type} [DecidableEq α] (l : List α) : l.eraseDups.Nodup := by
  match l with
  | [] => simp
  | a :: rest =>
    rw [eraseDups_cons, nodup_cons]
    refine ⟨fun ha => ?_, nodup_eraseDups _⟩
    have hmem := mem_filter.mp (mem_eraseDups.mp ha)
    simp at hmem
termination_by l.length
decreasing_by exact Nat.lt_succ_of_le (length_filter_le _ _)

end List

-- The order in which the iterator of a hash map or set visits its elements: a permutation of them
-- that the hasher fixes and that the program cannot know.
structure IterOrder (α : Type) where
  arrange : List α → List α
  perm    : ∀ l, (arrange l).Perm l

namespace IterOrder

variable {α : Type} (o : IterOrder α)

-- The order in which the model lists the elements.
def listed : IterOrder α := ⟨id, List.Perm.refl⟩

theorem mem_arrange {a : α} {l : List α} : a ∈ o.arrange l ↔ a ∈ l :=
  (o.perm l).mem_iff

theorem length_arrange (l : List α) : (o.arrange l).length = l.length :=
  (o.perm l).length_eq

theorem arrange_ne_nil {l : List α} (h : l ≠ []) : o.arrange l ≠ [] := by
  rwa [← List.length_pos_iff, length_arrange, List.length_pos_iff]

-- `keys().next()` of a collection that is not empty.
def first (l : List α) (h : l ≠ []) : α :=
  (o.arrange l).head (o.arrange_ne_nil h)

theorem first_mem {l : List α} (h : l ≠ []) : o.first l h ∈ l :=
  o.mem_arrange.mp (List.head_mem _)

end IterOrder
