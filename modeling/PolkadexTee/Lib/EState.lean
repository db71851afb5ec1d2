import Mathlib.Logic.Basic

/-! Computations in `EStateM`, whose errors keep the state they were thrown in, as the effects of a
`&mut` method that returns `Err` are kept; and the rules by which an invariant of the state is
carried through them. -/

namespace EStateM

variable {ε σ τ α β : Type}

def Result.state : Result ε σ α → σ
  | .ok _ s => s
  | .error _ s => s

-- What a run returns or throws, without its final state.
def Result.toExcept : Result ε σ α → Except ε α
  | .ok a _ => .ok a
  | .error e _ => .error e

@[simp]
theorem Result.state_ok (a : α) (s : σ) : (Result.ok a s : Result ε σ α).state = s :=
  rfl

-- Whether a run returned, with a value and a final state that pass `p`: a check that `decide`
-- evaluates on a run of concrete inputs.
def Result.okWith (p : α → σ → Bool) : Result ε σ α → Bool
  | .ok a s => p a s
  | .error _ _ => false

def Result.isError : Result ε σ α → Bool
  | .ok _ _ => false
  | .error _ _ => true

theorem Result.eq_ok_of_okWith {p : α → σ → Bool} {r : Result ε σ α} (h : r.okWith p = true) :
    ∃ a s, r = .ok a s ∧ p a s = true := by
  cases r with
  | ok a s => exact ⟨a, s, rfl, h⟩
  | error e s => cases h

theorem Result.eq_error_of_isError {r : Result ε σ α} (h : r.isError = true) :
    ∃ e s, r = .error e s := by
  cases r with
  | ok a s => cases h
  | error e s => exact ⟨e, s, rfl⟩

-- Core's `run_throw` is stated for `PUnit` only.
@[simp]
theorem run_throw_error (e : ε) (s : σ) : (MonadExcept.throw e : EStateM ε σ α).run s = .error e s :=
  rfl

-- Runs `x` and hands its error back as a value, unless the error is `fatal`, which goes on.
def attempt (fatal : ε → Bool) (x : EStateM ε σ α) : EStateM ε σ (Except ε α) := fun s =>
  match x s with
  | .ok a s => .ok (.ok a) s
  | .error e s => if fatal e then .error e s else .ok (.error e) s

theorem run_attempt (fatal : ε → Bool) (x : EStateM ε σ α) (s : σ) :
    (attempt fatal x).run s =
      match x.run s with
      | .ok a s => .ok (.ok a) s
      | .error e s => if fatal e then .error e s else .ok (.error e) s :=
  rfl

-- Runs `x` on a part of the state, which `view` reads and `update` writes back, on success and on
-- failure alike.
def zoom (view : σ → τ) (update : σ → τ → σ) (x : EStateM ε τ α) : EStateM ε σ α := fun s =>
  match x (view s) with
  | .ok a t => .ok a (update s t)
  | .error e t => .error e (update s t)

theorem run_zoom (view : σ → τ) (update : σ → τ → σ) (x : EStateM ε τ α) (s : σ) :
    (zoom view update x).run s =
      match x.run (view s) with
      | .ok a t => .ok a (update s t)
      | .error e t => .error e (update s t) :=
  rfl

-- What a zoomed computation returns depends on the part it reads only.
theorem toExcept_run_zoom (view : σ → τ) (update : σ → τ → σ) (x : EStateM ε τ α) (s : σ) :
    ((zoom view update x).run s).toExcept = (x.run (view s)).toExcept := by
  rw [run_zoom]
  cases x.run (view s) <;> rfl

theorem state_run_zoom (view : σ → τ) (update : σ → τ → σ) (x : EStateM ε τ α) (s : σ) :
    ((zoom view update x).run s).state = update s (x.run (view s)).state := by
  rw [run_zoom]
  cases x.run (view s) <;> rfl

-- A loop over a list that returns gives one value for each element.
theorem length_of_run_mapM_eq_ok {f : α → EStateM ε σ β} :
    ∀ {xs : List α} {s s' : σ} {ys : List β}, (xs.mapM f).run s = .ok ys s' → ys.length = xs.length
  | [], s, s', ys, h => by
    rw [List.mapM_nil, run_pure] at h
    obtain ⟨rfl, -⟩ := Result.ok.inj h
    rfl
  | x :: xs, s, s', ys, h => by
    rw [List.mapM_cons, run_bind] at h
    split at h
    next y s₁ _ =>
      rw [run_bind] at h
      split at h
      next ys' s₂ hrest =>
        rw [run_pure] at h
        obtain ⟨rfl, -⟩ := Result.ok.inj h
        simp [length_of_run_mapM_eq_ok hrest]
      next => cases h
    next => cases h

-- A step that returns: the run goes on from its value and its state.
theorem run_bind_of_ok {x : EStateM ε σ α} {f : α → EStateM ε σ β} {s s' : σ} {a : α}
    (h : x.run s = .ok a s') : (x >>= f).run s = (f a).run s' := by
  rw [run_bind, h]

-- Inversion of a failed run: which step threw, and from which state.

@[simp]
theorem run_throw_bind (e : ε) (f : α → EStateM ε σ β) (s : σ) :
    (MonadExcept.throw e >>= f).run s = .error e s :=
  rfl

theorem run_bind_eq_error {x : EStateM ε σ α} {f : α → EStateM ε σ β} {s s' : σ} {e : ε}
    (h : (x >>= f).run s = .error e s') :
    x.run s = .error e s' ∨ ∃ a s₁, x.run s = .ok a s₁ ∧ (f a).run s₁ = .error e s' := by
  rw [run_bind] at h
  split at h
  next a s₁ heq => exact .inr ⟨a, s₁, heq, h⟩
  next heq =>
    obtain ⟨rfl, rfl⟩ := Result.error.inj h
    exact .inl heq

theorem run_zoom_eq_ok {view : σ → τ} {update : σ → τ → σ} {x : EStateM ε τ α} {s s' : σ} {a : α}
    (h : (zoom view update x).run s = .ok a s') : ∃ t, x.run (view s) = .ok a t ∧ s' = update s t := by
  rw [run_zoom] at h
  split at h
  next t heq =>
    obtain ⟨rfl, rfl⟩ := Result.ok.inj h
    exact ⟨t, heq, rfl⟩
  next => cases h

-- A value `attempt` returns is one `x` returned.
theorem run_attempt_eq_ok_ok {fatal : ε → Bool} {x : EStateM ε σ α} {s s' : σ} {a : α}
    (h : (attempt fatal x).run s = .ok (.ok a) s') : x.run s = .ok a s' := by
  rw [run_attempt] at h
  split at h
  next a₁ s₁ heq =>
    obtain ⟨⟨⟩, rfl⟩ := Result.ok.inj h
    exact heq
  next =>
    split at h <;> cases h

-- An error `attempt` hands back as a value is one of `x` that is not fatal.
theorem run_attempt_eq_ok_error {fatal : ε → Bool} {x : EStateM ε σ α} {s s' : σ} {e : ε}
    (h : (attempt fatal x).run s = .ok (.error e) s') : x.run s = .error e s' ∧ fatal e = false := by
  rw [run_attempt] at h
  split at h
  next => cases h
  next e₁ s₁ heq =>
    split at h
    next => cases h
    next hf =>
      obtain ⟨⟨⟩, rfl⟩ := Result.ok.inj h
      exact ⟨heq, by simpa using hf⟩

-- `x`, run from a state satisfying `inv`, ends in a state satisfying `inv` whether it returns or
-- throws, and a value it returns satisfies `post`.
def Keeps (inv : σ → Prop) (x : EStateM ε σ α) (post : α → Prop) : Prop :=
  ∀ s, inv s → match x.run s with
    | .ok a s' => inv s' ∧ post a
    | .error _ s' => inv s'

namespace Keeps

variable {inv : σ → Prop}

theorem state {x : EStateM ε σ α} {post : α → Prop} (h : Keeps inv x post) {s : σ} (hs : inv s) :
    inv (x.run s).state := by
  have h := h s hs
  split at h
  next heq => rw [heq]; exact h.1
  next heq => rw [heq]; exact h

theorem ok {x : EStateM ε σ α} {post : α → Prop} (h : Keeps inv x post) {s s' : σ} {a : α}
    (hs : inv s) (hr : x.run s = .ok a s') : inv s' ∧ post a := by
  have h := h s hs
  rwa [hr] at h

theorem mono {x : EStateM ε σ α} {post post' : α → Prop} (h : Keeps inv x post)
    (hp : ∀ a, post a → post' a) : Keeps inv x post' := by
  intro s hs
  have h := h s hs
  split at h
  next => exact ⟨h.1, hp _ h.2⟩
  next => exact h

theorem pure {a : α} {post : α → Prop} (h : post a) : Keeps inv (Pure.pure a : EStateM ε σ α) post :=
  fun _ hs => ⟨hs, h⟩

theorem throw {e : ε} {post : α → Prop} : Keeps inv (MonadExcept.throw e : EStateM ε σ α) post :=
  fun _ hs => hs

theorem bind {x : EStateM ε σ α} {f : α → EStateM ε σ β} {mid : α → Prop} {post : β → Prop}
    (hx : Keeps inv x mid) (hf : ∀ a, mid a → Keeps inv (f a) post) :
    Keeps inv (x >>= f) post := by
  intro s hs
  rw [run_bind]
  cases hr : x.run s with
  | ok a s' =>
    have ⟨hs', ha⟩ := hx.ok hs hr
    exact hf a ha s' hs'
  | error e s' =>
    have h := hx s hs
    rwa [hr] at h

theorem map {x : EStateM ε σ α} {f : α → β} {post : β → Prop} (h : Keeps inv x fun a => post (f a)) :
    Keeps inv (f <$> x) post := by
  rw [map_eq_pure_bind]
  exact bind h fun _ ha => pure ha

theorem pure_bind {a : α} {f : α → EStateM ε σ β} {post : β → Prop} (h : Keeps inv (f a) post) :
    Keeps inv (Pure.pure a >>= f) post :=
  h

theorem throw_bind {e : ε} {f : α → EStateM ε σ β} {post : β → Prop} :
    Keeps inv (MonadExcept.throw e >>= f) post :=
  fun _ hs => hs

theorem modify {f : σ → σ} (hf : ∀ s, inv s → inv (f s)) :
    Keeps inv (modify f : EStateM ε σ PUnit) fun _ => True :=
  fun s hs => ⟨hf s hs, trivial⟩

theorem modifyGet {f : σ → α × σ} (hf : ∀ s, inv s → inv (f s).2) :
    Keeps inv (modifyGet f : EStateM ε σ α) fun _ => True :=
  fun s hs => ⟨hf s hs, trivial⟩

-- A computation on a part of the state keeps whatever writing a part back keeps.
theorem zoom {view : σ → τ} {update : σ → τ → σ} {x : EStateM ε τ α}
    (h : ∀ s t, inv s → inv (update s t)) : Keeps inv (EStateM.zoom view update x) fun _ => True := by
  intro s hs
  rw [run_zoom]
  cases x.run (view s) with
  | ok a t => exact ⟨h s t hs, trivial⟩
  | error e t => exact h s t hs

-- A computation on a part of the state keeps an invariant of the whole when it keeps an invariant
-- of the part, chosen from the start state, that the write-back into that state carries to the
-- whole: the part's invariant may speak of what the computation does not write.
theorem zoom_dep {inner : σ → τ → Prop} {view : σ → τ} {update : σ → τ → σ} {x : EStateM ε τ α}
    {post : α → Prop} (hx : ∀ s, inv s → Keeps (inner s) x post)
    (hview : ∀ s, inv s → inner s (view s)) (hupdate : ∀ s t, inv s → inner s t → inv (update s t)) :
    Keeps inv (EStateM.zoom view update x) post := by
  intro s hs
  have h := hx s hs (view s) (hview s hs)
  rw [run_zoom]
  cases hr : x.run (view s) with
  | ok a t =>
    rw [hr] at h
    exact ⟨hupdate s t hs h.1, h.2⟩
  | error e t =>
    rw [hr] at h
    exact hupdate s t hs h

theorem zoom_part {inner : τ → Prop} {view : σ → τ} {update : σ → τ → σ} {x : EStateM ε τ α}
    {post : α → Prop} (hx : Keeps inner x post) (hview : ∀ s, inv s → inner (view s))
    (hupdate : ∀ s t, inv s → inner t → inv (update s t)) :
    Keeps inv (EStateM.zoom view update x) post :=
  zoom_dep (fun _ _ => hx) hview hupdate

-- The state read satisfies the invariant it was read under.
theorem get : Keeps inv (MonadState.get : EStateM ε σ σ) inv :=
  fun _ hs => ⟨hs, hs⟩

theorem set {s : σ} (h : inv s) : Keeps inv (MonadStateOf.set s : EStateM ε σ PUnit) fun _ => True :=
  fun _ _ => ⟨h, trivial⟩

theorem forM {xs : List α} {f : α → EStateM ε σ PUnit}
    (hf : ∀ a ∈ xs, Keeps inv (f a) fun _ => True) : Keeps inv (forM xs f) fun _ => True := by
  induction xs with
  | nil => exact pure trivial
  | cons a rest ih =>
    rw [List.forM_cons]
    exact bind (hf a List.mem_cons_self) fun _ _ =>
      ih fun b hb => hf b (List.mem_cons_of_mem _ hb)

theorem attempt {x : EStateM ε σ α} {post : α → Prop} (fatal : ε → Bool) (h : Keeps inv x post) :
    Keeps inv (EStateM.attempt fatal x) fun r => ∀ a, r = .ok a → post a := by
  intro s hs
  rw [run_attempt]
  cases hr : x.run s with
  | ok a s' =>
    have ⟨hs', ha⟩ := h.ok hs hr
    exact ⟨hs', fun _ heq => by cases heq; exact ha⟩
  | error e s' =>
    have h := h s hs
    rw [hr] at h
    by_cases hf : fatal e
    · simpa [hf] using h
    · simpa [hf] using h

end Keeps

-- The Hoare triple of a computation that may fail: run from a state satisfying `pre`, `x` returns a
-- value `a` in a state satisfying `post a`, or fails in a state satisfying `err`.
def Triple (pre : σ → Prop) (x : EStateM ε σ α) (post : α → σ → Prop) (err : σ → Prop) : Prop :=
  ∀ s, pre s → match x.run s with
    | .ok a s' => post a s'
    | .error _ s' => err s'

namespace Triple

variable {pre pre' err err' : σ → Prop}

theorem ok {x : EStateM ε σ α} {post : α → σ → Prop} (h : Triple pre x post err) {s s' : σ} {a : α}
    (hs : pre s) (hr : x.run s = .ok a s') : post a s' := by
  have h := h s hs
  rwa [hr] at h

theorem error {x : EStateM ε σ α} {post : α → σ → Prop} (h : Triple pre x post err) {s s' : σ}
    {e : ε} (hs : pre s) (hr : x.run s = .error e s') : err s' := by
  have h := h s hs
  rwa [hr] at h

-- The rule of consequence: a stronger precondition, weaker postconditions.
theorem conseq {x : EStateM ε σ α} {post post' : α → σ → Prop} (h : Triple pre x post err)
    (hpre : ∀ s, pre' s → pre s) (hpost : ∀ a s, post a s → post' a s)
    (herr : ∀ s, err s → err' s) : Triple pre' x post' err' := by
  intro s hs
  cases hr : x.run s with
  | ok a s' => exact hpost a s' (h.ok (hpre s hs) hr)
  | error e s' => exact herr s' (h.error (hpre s hs) hr)

theorem pure {a : α} {post : α → σ → Prop} (h : ∀ s, pre s → post a s) :
    Triple pre (Pure.pure a : EStateM ε σ α) post err :=
  h

theorem throw {e : ε} {post : α → σ → Prop} (h : ∀ s, pre s → err s) :
    Triple pre (MonadExcept.throw e : EStateM ε σ α) post err :=
  h

theorem throw_bind {e : ε} {f : α → EStateM ε σ β} {post : β → σ → Prop} (h : ∀ s, pre s → err s) :
    Triple pre (MonadExcept.throw e >>= f) post err :=
  h

theorem bind {x : EStateM ε σ α} {f : α → EStateM ε σ β} {mid : α → σ → Prop} {post : β → σ → Prop}
    (hx : Triple pre x mid err) (hf : ∀ a, Triple (mid a) (f a) post err) :
    Triple pre (x >>= f) post err := by
  intro s hs
  rw [run_bind]
  cases hr : x.run s with
  | ok a s' => exact hf a s' (hx.ok hs hr)
  | error e s' => exact hx.error hs hr

-- A step that keeps the precondition, and what follows it from there.
theorem keeps_bind {x : EStateM ε σ α} {f : α → EStateM ε σ β} {mid : α → Prop}
    {post : β → σ → Prop} (hx : Keeps pre x mid) (hf : ∀ a, mid a → Triple pre (f a) post err)
    (herr : ∀ s, pre s → err s) : Triple pre (x >>= f) post err := by
  intro s hs
  rw [run_bind]
  cases hr : x.run s with
  | ok a s' =>
    have ⟨hs', ha⟩ := hx.ok hs hr
    exact hf a ha s' hs'
  | error e s' =>
    have h := hx s hs
    rw [hr] at h
    exact herr s' h

-- What follows a read of the state runs from the state it read.
theorem get_bind {f : σ → EStateM ε σ β} {post : β → σ → Prop}
    (h : ∀ s, pre s → Triple (· = s) (f s) post err) :
    Triple pre (MonadState.get >>= f) post err :=
  fun s hs => h s hs s rfl

theorem set {s' : σ} {post : PUnit → σ → Prop} (h : ∀ s, pre s → post ⟨⟩ s') :
    Triple pre (MonadStateOf.set s' : EStateM ε σ PUnit) post err :=
  h

theorem modify {f : σ → σ} {post : PUnit → σ → Prop} (h : ∀ s, pre s → post ⟨⟩ (f s)) :
    Triple pre (modify f : EStateM ε σ PUnit) post err :=
  h

-- `Keeps` is the triple whose three conditions are one invariant.
theorem of_keeps {inv : σ → Prop} {x : EStateM ε σ α} {post : α → Prop} (h : Keeps inv x post) :
    Triple inv x (fun a s => inv s ∧ post a) inv := by
  intro s hs
  have h := h s hs
  split at h
  next => exact h
  next => exact h

-- A fact the precondition carries besides the state.
theorem and_pre {x : EStateM ε σ α} {post : α → σ → Prop} {P : Prop}
    (h : P → Triple pre x post err) : Triple (fun s => pre s ∧ P) x post err :=
  fun s hs => h hs.2 s hs.1

theorem keeps {inv : σ → Prop} {x : EStateM ε σ α} {post : α → Prop}
    (h : Triple inv x (fun a s => inv s ∧ post a) inv) : Keeps inv x post := by
  intro s hs
  have h := h s hs
  split at h
  next => exact h
  next => exact h

-- A run computed to its end gives the triple from its start state.
theorem of_run_ok {x : EStateM ε σ α} {post : α → σ → Prop} {s s' : σ} {a : α}
    (h : x.run s = .ok a s') (hpost : post a s') : Triple (· = s) x post err := by
  intro _ hs
  subst hs
  rw [h]
  exact hpost

-- A computation on a part of the state, from the part the start state has, and with what it leaves
-- written back into that start state.
theorem zoom {view : σ → τ} {update : σ → τ → σ} {x : EStateM ε τ α} {post : α → σ → Prop}
    (h : ∀ s, pre s →
      Triple (· = view s) x (fun a t => post a (update s t)) fun t => err (update s t)) :
    Triple pre (EStateM.zoom view update x) post err := by
  intro s hs
  rw [run_zoom]
  cases hr : x.run (view s) with
  | ok a t => exact (h s hs).ok rfl hr
  | error e t => exact (h s hs).error rfl hr

-- An error that is handed back as a value leaves the state of the failed computation.
theorem attempt {x : EStateM ε σ α} {post : α → σ → Prop} (fatal : ε → Bool)
    (h : Triple pre x post err) :
    Triple pre (EStateM.attempt fatal x)
      (fun r s => match r with
        | .ok a => post a s
        | .error _ => err s) err := by
  intro s hs
  rw [run_attempt]
  cases hr : x.run s with
  | ok a s' => exact h.ok hs hr
  | error e s' =>
    have herr := h.error hs hr
    by_cases hf : fatal e
    · simpa [hf] using herr
    · simpa [hf] using herr

end Triple

-- `x`, run from a state satisfying `inv`, returns, in a state satisfying `inv`: it cannot fail
-- there.
def Returns (inv : σ → Prop) (x : EStateM ε σ α) : Prop :=
  ∀ s, inv s → ∃ a s', x.run s = .ok a s' ∧ inv s'

namespace Returns

variable {inv : σ → Prop}

theorem ne_error {x : EStateM ε σ α} (h : Returns inv x) {s s' : σ} {e : ε} (hs : inv s) :
    x.run s ≠ .error e s' := by
  obtain ⟨a, s'', hr, -⟩ := h s hs
  rw [hr]
  exact fun h => nomatch h

theorem inv_of_ok {x : EStateM ε σ α} (h : Returns inv x) {s s' : σ} {a : α} (hs : inv s)
    (hr : x.run s = .ok a s') : inv s' := by
  obtain ⟨a', s'', hr', hs''⟩ := h s hs
  rw [hr] at hr'
  cases hr'
  exact hs''

theorem pure {a : α} : Returns inv (Pure.pure a : EStateM ε σ α) :=
  fun s hs => ⟨a, s, rfl, hs⟩

theorem bind {x : EStateM ε σ α} {f : α → EStateM ε σ β} (hx : Returns inv x)
    (hf : ∀ a, Returns inv (f a)) : Returns inv (x >>= f) := by
  intro s hs
  obtain ⟨a, s', hr, hs'⟩ := hx s hs
  rw [run_bind_of_ok hr]
  exact hf a s' hs'

end Returns

-- Every error `x` throws satisfies `p`.
def Throws (p : ε → Prop) (x : EStateM ε σ α) : Prop :=
  ∀ s e s', x.run s = .error e s' → p e

namespace Throws

variable {p : ε → Prop}

theorem pure {a : α} : Throws p (Pure.pure a : EStateM ε σ α) :=
  fun _ _ _ hr => nomatch hr

theorem throw {e : ε} (h : p e) : Throws p (MonadExcept.throw e : EStateM ε σ α) := by
  intro s e' s' hr
  rw [run_throw_error] at hr
  cases hr
  exact h

theorem bind {x : EStateM ε σ α} {f : α → EStateM ε σ β} (hx : Throws p x)
    (hf : ∀ a, Throws p (f a)) : Throws p (x >>= f) := by
  intro s e s' hr
  rw [run_bind] at hr
  split at hr
  next a s₁ _ => exact hf a s₁ e s' hr
  next heq =>
    obtain ⟨rfl, -⟩ := Result.error.inj hr
    exact hx s _ _ heq

theorem throw_bind {e : ε} {f : α → EStateM ε σ β} (h : p e) :
    Throws p (MonadExcept.throw e >>= f) := by
  intro s e' s' hr
  cases hr
  exact h

theorem get : Throws p (MonadState.get : EStateM ε σ σ) :=
  fun _ _ _ hr => nomatch hr

theorem set {s : σ} : Throws p (MonadStateOf.set s : EStateM ε σ PUnit) :=
  fun _ _ _ hr => nomatch hr

theorem modify {f : σ → σ} : Throws p (modify f : EStateM ε σ PUnit) :=
  fun _ _ _ hr => nomatch hr

theorem zoom {view : σ → τ} {update : σ → τ → σ} {x : EStateM ε τ α} (h : Throws p x) :
    Throws p (EStateM.zoom view update x) := by
  intro s e s' hr
  rw [run_zoom] at hr
  split at hr
  next => cases hr
  next e₁ t heq =>
    cases hr
    exact h (view s) e t heq

-- What `attempt` lets through is fatal.
theorem attempt (fatal : ε → Bool) (x : EStateM ε σ α) :
    Throws (fatal · = true) (EStateM.attempt fatal x) := by
  intro s e s' hr
  rw [run_attempt] at hr
  split at hr
  next => cases hr
  next =>
    split at hr
    next hf =>
      cases hr
      exact hf
    next => cases hr

end Throws

end EStateM
