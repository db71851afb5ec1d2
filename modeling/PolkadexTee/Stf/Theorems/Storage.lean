import PolkadexTee.Stf.Execute

namespace Stf

-- What `update_storage` leaves at a key: the new value, nothing for a proven absence, and the old
-- value for a key the map does not have.
def updateResult (ext : State) (key : Bytes) : Option (Option Bytes) → Option Bytes
  | some (some value) => some value
  | some none => none
  | none => ext.get key

section UpdateStorage

variable (key : Bytes)

private def storageStep (ext : State) (kv : Sigma fun _ : Bytes => Option Bytes) : State :=
  match kv.2 with
  | some value => ext.set kv.1 value
  | none => ext.clear kv.1

private theorem storageStep_get_ne {ext : State} {kv : Sigma fun _ : Bytes => Option Bytes}
    (h : key ≠ kv.1) : (storageStep ext kv).get key = ext.get key := by
  rcases kv with ⟨k, _ | value⟩
  · exact State.get_clear_ne ext h
  · exact State.get_set_ne ext value h

-- The fold of `update_storage` over entries with distinct keys; the induction is on the entries,
-- and a key written by one entry is not touched by the later ones.
private theorem foldl_storageStep_get (entries : List (Sigma fun _ : Bytes => Option Bytes))
    (hnd : entries.NodupKeys) (ext : State) :
    (entries.foldl storageStep ext).get key = updateResult ext key (entries.dlookup key) := by
  induction entries generalizing ext with
  | nil => rfl
  | cons kv rest ih =>
    have ⟨hkv, hrest⟩ := List.nodupKeys_cons.mp hnd
    rw [List.foldl_cons, ih hrest]
    by_cases hk : key = kv.1
    · subst hk
      have hnone : rest.dlookup kv.1 = none := List.dlookup_eq_none.mpr hkv
      rcases kv with ⟨k, _ | value⟩ <;> simp [hnone, updateResult, storageStep, List.dlookup_cons_eq]
    · rw [List.dlookup_cons_ne rest kv hk]
      cases hl : rest.dlookup key with
      | none => exact storageStep_get_ne key hk
      | some v => cases v <;> rfl

-- `update_storage` sets every key of the map to its value, clears the keys proven absent, and
-- leaves every other key as it was.
theorem updateStorage_get (ext : State) (mapUpdate : AList fun _ : Bytes => Option Bytes) :
    (updateStorage ext mapUpdate).get key = updateResult ext key (mapUpdate.lookup key) :=
  foldl_storageStep_get key mapUpdate.entries mapUpdate.nodupKeys ext

end UpdateStorage

end Stf
