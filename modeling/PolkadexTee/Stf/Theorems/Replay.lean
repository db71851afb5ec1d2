import PolkadexTee.Stf.Reference

/-! Replaying a signed call. `Stf::execute` guards a call by its nonce alone: `validate_nonce` reads
0 for a missing account, and `increment_nonce` skips one. -/

namespace Stf

section Accounts

variable {rt : Runtime} {ext : State} {who a : AccountId}

theorem accountNonce_of_getAccountInfo {info : AccountInfo} (h : getAccountInfo rt ext a = some info) :
    accountNonce rt ext a = info.nonce := by
  simp [accountNonce, h]

theorem getAccountInfo_set_self (hcodec : ∀ info, rt.decodeInfo (rt.encodeInfo info) = some info)
    (info : AccountInfo) :
    getAccountInfo rt (ext.set (accountKeyHash rt who) (rt.encodeInfo info)) who = some info := by
  simp [getAccountInfo, hcodec]

theorem getAccountInfo_set_ne (h : accountKeyHash rt a ≠ accountKeyHash rt who) (value : Bytes) :
    getAccountInfo rt (ext.set (accountKeyHash rt who) value) a = getAccountInfo rt ext a := by
  simp [getAccountInfo, State.get_set_ne ext value h]

@[simp]
theorem getAccountInfo_clear_self : getAccountInfo rt (ext.clear (accountKeyHash rt who)) who = none := by
  simp [getAccountInfo]

theorem getAccountInfo_clear_ne (h : accountKeyHash rt a ≠ accountKeyHash rt who) :
    getAccountInfo rt (ext.clear (accountKeyHash rt who)) a = getAccountInfo rt ext a := by
  simp [getAccountInfo, State.get_clear_ne ext h]

end Accounts

section Execute

variable (rt : Runtime) {ext ext' : State} {call : TrustedCallSigned} {callHash : Hash}
  {calls calls' : List OpaqueCall}

-- Every account that `ext'` has keeps the nonce it has in `ext`.
def NoncesKept (ext ext' : State) : Prop :=
  ∀ a info, getAccountInfo rt ext' a = some info → info.nonce = accountNonce rt ext a

theorem NoncesKept.refl (ext : State) : NoncesKept rt ext ext :=
  fun _ _ h => (accountNonce_of_getAccountInfo h).symm

end Execute

-- The reference runtime: its codec reads back what it writes, and each account has a key of its
-- own, so that its balances pallet keeps the nonce of every account it leaves in place.

section Reference

theorem leEncode_succ (w x : Nat) : leEncode (w + 1) x = (x % 256).toUInt8 :: leEncode w (x / 256) := by
  simp only [leEncode, List.range_succ_eq_map, List.map_cons, List.map_map]
  congr 1
  · simp
  · apply List.map_congr_left
    intro i _
    simp [Function.comp, Nat.pow_succ, Nat.div_div_eq_div_mul, Nat.mul_comm]

@[simp]
theorem length_leEncode (w x : Nat) : (leEncode w x).length = w := by
  simp [leEncode]

theorem leDecode_leEncode (w x : Nat) : leDecode (leEncode w x) = x % 256 ^ w := by
  induction w generalizing x with
  | zero => simp [leEncode, leDecode, Nat.mod_one]
  | succ w ih =>
    -- the low byte, and 256 times what the rest of the bytes read
    rw [leEncode_succ, leDecode, List.foldr_cons, ← leDecode, ih, Nat.pow_succ', Nat.mod_mul]
    simp

theorem leDecode_leEncode_of_lt {w x : Nat} (h : x < 256 ^ w) : leDecode (leEncode w x) = x := by
  rw [leDecode_leEncode, Nat.mod_eq_of_lt h]

theorem reference_decodeInfo_encodeInfo (info : AccountInfo) :
    reference.decodeInfo (reference.encodeInfo info) = some info := by
  have hn : leDecode (leEncode 4 info.nonce.toNat) = info.nonce.toNat :=
    leDecode_leEncode_of_lt (by simpa using info.nonce.toNat_lt)
  have hf : leDecode (leEncode 16 info.data.free.toNat) = info.data.free.toNat :=
    leDecode_leEncode_of_lt (by simpa using info.data.free.isLt)
  have hr : leDecode (leEncode 16 info.data.reserved.toNat) = info.data.reserved.toNat :=
    leDecode_leEncode_of_lt (by simpa using info.data.reserved.isLt)
  have hdrop : (leEncode 4 info.nonce.toNat).drop 20 = [] := List.drop_of_length_le (by simp)
  simp [reference, referenceCodec, List.drop_append, hn, hf, hr, hdrop]

theorem encodeAccountId_injective : Function.Injective encodeAccountId := by
  intro a b h
  -- `encode` is the little-endian encoding of the 32 bytes
  have h' : leDecode (leEncode 32 a.toNat) = leDecode (leEncode 32 b.toNat) := congrArg leDecode h
  rw [leDecode_leEncode_of_lt (by simpa using a.isLt), leDecode_leEncode_of_lt (by simpa using b.isLt)] at h'
  exact BitVec.eq_of_toNat_eq h'

theorem accountKeyHash_reference_injective : Function.Injective (accountKeyHash reference) :=
  fun _ _ h => encodeAccountId_injective (List.append_cancel_left h)

variable {ext : State} {who a : AccountId}

theorem getAccountInfo_referenceWrite (nonce : Index) (data : AccountData) :
    getAccountInfo reference (referenceWrite ext who nonce data) a =
      if a = who then (if data.free = 0 ∧ data.reserved = 0 then none else some ⟨nonce, data⟩)
      else getAccountInfo reference ext a := by
  -- `referenceWrite` names the keys and the codec of `referenceCodec`, which `reference` extends
  change getAccountInfo reference (if data.free = 0 ∧ data.reserved = 0
    then ext.clear (accountKeyHash reference who)
    else ext.set (accountKeyHash reference who) (reference.encodeInfo ⟨nonce, data⟩)) a = _
  by_cases ha : a = who
  · subst ha
    rw [if_pos rfl]
    split_ifs
    · exact getAccountInfo_clear_self
    · exact getAccountInfo_set_self reference_decodeInfo_encodeInfo _
  · have hkey : accountKeyHash reference a ≠ accountKeyHash reference who :=
      mt (fun h => accountKeyHash_reference_injective h) ha
    rw [if_neg ha]
    split_ifs
    · exact getAccountInfo_clear_ne hkey
    · exact getAccountInfo_set_ne hkey _

theorem NoncesKept.referenceWrite {ext₁ : State} {nonce : Index} {data : AccountData}
    (hk : NoncesKept reference ext ext₁) (h : nonce = accountNonce reference ext who) :
    NoncesKept reference ext (referenceWrite ext₁ who nonce data) := by
  intro b info hb
  rw [getAccountInfo_referenceWrite] at hb
  split_ifs at hb with hbw
  · cases hb
    rw [hbw]
    exact h
  · exact hk b info hb

end Reference

section Run

variable (rt : Runtime)

-- A run of `Stf::execute` calls on one shard state; `callHash` is the `blake2_256` of the call,
-- which only the unshielding confirmation reads.
def executeAll (ext : State) : List (TrustedCallSigned × Hash) →
    Option (State × List (Except StfError Unit))
  | [] => some (ext, [])
  | (call, callHash) :: rest =>
    (execute rt ext call callHash []).bind fun (ext, _, r) =>
      (executeAll ext rest).map fun (ext, rs) => (ext, r :: rs)

def aliceFunded : State :=
  State.empty.set (accountKeyHash reference 1) (reference.encodeInfo ⟨0, ⟨100, 0⟩⟩)

-- Account `1` pays its whole balance to `2` with nonce 0; `2` pays it back with its nonce 0.
def payAll : TrustedCallSigned := ⟨.balanceTransfer 1 2 100, 0, [1]⟩

def payBack : TrustedCallSigned := ⟨.balanceTransfer 2 1 100, 0, [2]⟩

-- The nonce check reads 0 for a missing account and `increment_nonce` skips one. Paying out a whole
-- balance removes the account, so its nonce is gone; once it is funded again, the call it signed
-- before passes the nonce check and executes a second time.
theorem execute_replays_after_account_reaped :
    (executeAll reference aliceFunded [(payAll, 0), (payBack, 0), (payAll, 0)]).map Prod.snd =
      some [.ok (), .ok (), .ok ()] := by
  decide

end Run

end Stf
