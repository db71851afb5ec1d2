import Mathlib.Data.Finset.Card
import PolkadexTee.Lib.Map
import PolkadexTee.Pool.Validated

/-! The results of `submit_at`. -/

namespace Pool

namespace ValidatedPool

open EStateM

variable {X H T : Type} [DecidableEq H] [DecidableEq T]

theorem length_submit {txs : List (ValidatedOperation H T)} {s s' : ValidatedPool H T}
    {rs : List (Except PoolError H)} (h : (submit txs).run s = .ok rs s') : rs.length = txs.length := by
  rw [submit, run_bind] at h
  split at h
  next results s₁ hresults =>
    -- with or without the limits enforced, the results are mapped one to one
    dsimp only at h
    split at h
    · rw [run_bind] at h
      split at h
      · rw [run_pure] at h
        obtain ⟨rfl, -⟩ := Result.ok.inj h
        rw [List.length_map, length_of_run_mapM_eq_ok hresults]
      · cases h
    · rw [pure_bind, run_pure] at h
      obtain ⟨rfl, -⟩ := Result.ok.inj h
      rw [List.length_map, length_of_run_mapM_eq_ok hresults]
  next => cases h

variable (api : ChainApi X H T)

omit [DecidableEq T] in
theorem verifyOne_fst (self : ValidatedPool H T) (ignoreBanned : Bool) (xt : X) :
    (verifyOne api self ignoreBanned xt).1 = (api.hashAndLength xt).1 := by
  rcases hx : api.hashAndLength xt with ⟨hash, bytes⟩
  simp only [verifyOne, hx]
  split
  · rfl
  · split
    · rfl
    · split <;> rfl
    · rfl
    · rfl

omit [DecidableEq T] in
theorem mem_verify (self : ValidatedPool H T) (ignoreBanned : Bool) (xts : List X) (hash : H) :
    hash ∈ verify api self ignoreBanned xts ↔ ∃ xt ∈ xts, (api.hashAndLength xt).1 = hash := by
  rw [verify, AList.mem_foldl_insert]
  simp [AList.notMem_empty, verifyOne_fst]

omit [DecidableEq T] in
-- The map has one entry for each distinct hash.
theorem length_verify (self : ValidatedPool H T) (ignoreBanned : Bool) (xts : List X) :
    (verify api self ignoreBanned xts).entries.length =
      (xts.map fun xt => (api.hashAndLength xt).1).toFinset.card := by
  have hkeys : (verify api self ignoreBanned xts).keys.toFinset =
      (xts.map fun xt => (api.hashAndLength xt).1).toFinset := by
    ext hash
    simp only [List.mem_toFinset, ← AList.mem_keys, mem_verify, List.mem_map]
  rw [← hkeys, List.toFinset_card_of_nodup (AList.keys_nodup _), AList.keys, List.keys,
    List.length_map]

-- `submit_at` returns one result for each distinct hash among the extrinsics, in whatever order the
-- map is iterated.
theorem length_submitAt {order : IterOrder (Sigma fun _ : H => ValidatedOperation H T)} {xts : List X}
    {s s' : ValidatedPool H T} {rs : List (Except PoolError H)}
    (h : (submitAt api order xts).run s = .ok rs s') :
    rs.length = (xts.map fun xt => (api.hashAndLength xt).1).toFinset.card := by
  rw [submitAt, run_bind, run_get] at h
  rw [length_submit h, List.length_map, order.length_arrange, length_verify]

end ValidatedPool

-- A runtime that accepts every extrinsic, each its own hash and tag: the same extrinsic twice gets
-- one result, and two extrinsics get their results in the map's order.

def acceptAll : ChainApi Nat Nat Nat :=
  ⟨fun xt => (xt, 1), fun xt => .ok (.ok ⟨1, [], [xt], 64⟩)⟩

theorem length_submitAt_sevenTwice :
    ∃ rs s', (ValidatedPool.submitAt acceptAll .listed [7, 7]).run
        (ValidatedPool.new .default .listed .listed) = .ok rs s' ∧
      rs.length = ([7, 7].map fun xt => (acceptAll.hashAndLength xt).1).toFinset.card := by
  obtain ⟨rs, s', hrun, -⟩ := EStateM.Result.eq_ok_of_okWith
    (show ((ValidatedPool.submitAt acceptAll .listed [7, 7]).run
      (ValidatedPool.new .default .listed .listed)).okWith (fun _ _ => true) = true by decide)
  exact ⟨rs, s', hrun, ValidatedPool.length_submitAt acceptAll hrun⟩

theorem submitAt_answers_per_hash :
    ((ValidatedPool.submitAt acceptAll .listed [7, 7]).run (ValidatedPool.new .default .listed .listed)).toExcept =
        .ok [.ok 7] ∧
      ((ValidatedPool.submitAt acceptAll .listed [1, 2]).run (ValidatedPool.new .default .listed .listed)).toExcept =
        .ok [.ok 2, .ok 1] := by
  decide +kernel

-- Two operations of one batch that provide the same tag: the second, of higher priority, replaces
-- the first in the ready queue (`replace_previous`), and `submit` still reports both imported.

def replacedOne : TrustedOperation Nat Nat := ⟨1, 1, 1, 64, [], [7]⟩

def replacingTwo : TrustedOperation Nat Nat := ⟨1, 2, 2, 64, [], [7]⟩

theorem submit_reports_replaced_ok :
    ((ValidatedPool.submit [.valid replacedOne, .valid replacingTwo]).run
        (ValidatedPool.new .default .listed .listed)).toExcept = .ok [.ok 1, .ok 2] ∧
      ((ValidatedPool.submit [.valid replacedOne, .valid replacingTwo]).run
        (ValidatedPool.new .default .listed .listed)).state.pool.isImported 1 = false := by
  decide +kernel

end Pool
