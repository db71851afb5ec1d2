import PolkadexTee.Stf.Objects

namespace Stf

variable (rt : Runtime)

def getAccountInfo (ext : State) (who : AccountId) : Option AccountInfo :=
  (ext.get (accountKeyHash rt who)).bind rt.decodeInfo

-- A missing account is expected to use nonce 0.
def validateNonce (ext : State) (who : AccountId) (nonce : Index) : Except StfError Unit :=
  let expectedNonce := (getAccountInfo rt ext who).elim 0 (·.nonce)
  if expectedNonce = nonce then .ok () else .error (.invalidNonce nonce)

-- Increments the nonce of an existing account; a missing account is only logged.
def incrementNonce (ext : State) (account : AccountId) : State :=
  match getAccountInfo rt ext account with
  | some accInfo =>
    ext.set (accountKeyHash rt account) (rt.encodeInfo { accInfo with nonce := accInfo.nonce + 1 })
  | none => ext

-- `unwrap()` on a missing `Sudo::Key` panics; that is the `none` result.
def ensureRoot (ext : State) (account : AccountId) : Option (Except StfError Unit) :=
  (ext.get (storageValueKey rt "Sudo" "Key")).map fun key =>
    if key = encodeAccountId account then .ok () else .error (.missingPrivileges account)

def shieldFunds (ext : State) (account : AccountId) (amount : Balance) :
    State × Except StfError Unit :=
  match getAccountInfo rt ext account with
  | some accountInfo =>
    match rt.setBalance ext account (accountInfo.data.free + amount) accountInfo.data.reserved with
    | (ext, .ok ()) => (ext, .ok ())
    | (ext, .error ()) => (ext, .error (.dispatch "shield_funds"))
  | none =>
    match rt.setBalance ext account amount 0 with
    | (ext, .ok ()) => (ext, .ok ())
    | (ext, .error ()) => (ext, .error (.dispatch "shield_funds::set_balance"))

def unshieldFunds (ext : State) (account : AccountId) (amount : Balance) :
    State × Except StfError Unit :=
  match getAccountInfo rt ext account with
  | some accountInfo =>
    if accountInfo.data.free < amount then (ext, .error .missingFunds)
    else
      match rt.setBalance ext account (accountInfo.data.free - amount) accountInfo.data.reserved with
      | (ext, .ok ()) => (ext, .ok ())
      | (ext, .error ()) => (ext, .error (.dispatch "unshield_funds::set_balance"))
  | none => (ext, .error (.inexistentAccount account))

-- The body of the `match call.call` in `Stf::execute`, run after the nonce check. `none` is the
-- panic of `ensure_root`.
def dispatchCall (ext : State) (callHash : Hash) (calls : List OpaqueCall) :
    TrustedCall → Option (State × List OpaqueCall × Except StfError Unit)
  | .balanceSetBalance root who freeBalance reservedBalance =>
    (ensureRoot rt ext root).map fun
      | .error e => (ext, calls, .error e)
      | .ok () =>
        match rt.setBalance ext who freeBalance reservedBalance with
        | (ext, .ok ()) => (ext, calls, .ok ())
        | (ext, .error ()) => (ext, calls, .error (.dispatch "balance_set_balance"))
  | .balanceTransfer sender receiver value =>
    match rt.transfer ext sender receiver value with
    | (ext, .ok ()) => some (ext, calls, .ok ())
    | (ext, .error ()) => some (ext, calls, .error (.dispatch "balance_transfer"))
  | .balanceUnshield accountIncognito beneficiary value shard =>
    match unshieldFunds rt ext accountIncognito value with
    | (ext, .ok ()) => some (ext, calls ++ [.unshield beneficiary value shard callHash], .ok ())
    | (ext, .error e) => some (ext, calls, .error e)
  | .balanceShield who value =>
    match shieldFunds rt ext who value with
    | (ext, r) => some (ext, calls, r)

-- `Stf::execute`: check the sender's nonce, dispatch the call, and increment the sender's nonce
-- once the call has succeeded. `callHash` is `blake2_256` of the encoded signed call.
def execute (ext : State) (call : TrustedCallSigned) (callHash : Hash) (calls : List OpaqueCall) :
    Option (State × List OpaqueCall × Except StfError Unit) :=
  let sender := call.call.account
  match validateNonce rt ext sender call.nonce with
  | .error e => some (ext, calls, .error e)
  | .ok () =>
    (dispatchCall rt ext callHash calls call.call).map fun
      | (ext, calls, .error e) => (ext, calls, .error e)
      | (ext, calls, .ok ()) => (incrementNonce rt ext sender, calls, .ok ())

section Calls

variable {rt}

-- The calls for layer one that a dispatch hands back extend those it was given.
theorem dispatchCall_calls_prefix {ext : State} {callHash : Hash} {calls : List OpaqueCall}
    {call : TrustedCall} {r : State × List OpaqueCall × Except StfError Unit}
    (h : dispatchCall rt ext callHash calls call = some r) : calls <+: r.2.1 := by
  cases call <;> simp only [dispatchCall] at h
  case balanceSetBalance =>
    obtain ⟨res, -, rfl⟩ := Option.map_eq_some_iff.mp h
    split
    · exact List.prefix_refl calls
    · split <;> exact List.prefix_refl calls
  case balanceTransfer => split at h <;> (cases h; exact List.prefix_refl calls)
  case balanceUnshield =>
    split at h <;> cases h
    · exact List.prefix_append calls _
    · exact List.prefix_refl calls
  case balanceShield =>
    cases h
    exact List.prefix_refl calls

theorem execute_calls_prefix {ext : State} {call : TrustedCallSigned} {callHash : Hash}
    {calls : List OpaqueCall} {r : State × List OpaqueCall × Except StfError Unit}
    (h : execute rt ext call callHash calls = some r) : calls <+: r.2.1 := by
  unfold execute at h
  dsimp only at h
  split at h
  · cases h
    exact List.prefix_refl calls
  · obtain ⟨res, hres, rfl⟩ := Option.map_eq_some_iff.mp h
    have hpre := dispatchCall_calls_prefix hres
    split <;> exact hpre

end Calls

-- `Stf::update_storage`: a proven value is set, a proven absence clears the key.
def updateStorage (ext : State) (mapUpdate : AList (fun _ : Bytes => Option Bytes)) : State :=
  mapUpdate.entries.foldl (fun ext kv => match kv.2 with
    | some value => ext.set kv.1 value
    | none => ext.clear kv.1) ext

def updateLayerOneBlockNumber (ext : State) (number : L1BlockNumber) : State :=
  ext.set (storageValueKey rt "System" "LayerOneNumber") (rt.encodeU32 number)

def updateSidechainBlockNumber (ext : State) (number : BlockNumber) : State :=
  ext.set (storageValueKey rt "System" "Number") (rt.encodeU64 number)

def getSidechainBlockNumber (ext : State) : Option BlockNumber :=
  (ext.get (storageValueKey rt "System" "Number")).bind rt.decodeU64

def updateLastBlockHash (ext : State) (hash : Hash) : State :=
  ext.set (storageValueKey rt "System" "LastHash") (rt.encodeHash hash)

def getLastBlockHash (ext : State) : Option Hash :=
  (ext.get (storageValueKey rt "System" "LastHash")).bind rt.decodeHash

-- `ALICE_ENCODED`, the `Sudo::Key` of a new shard state.
def aliceEncoded : Bytes :=
  [212, 53, 147, 199, 21, 253, 211, 28, 97, 20, 26, 189, 4, 169, 159, 214, 130, 44, 133, 88, 133,
    76, 205, 227, 154, 86, 132, 231, 165, 109, 162, 125]

-- `Stf::init_state`: the genesis values of a new shard, written through `execute_with` so that they
-- are in its state diff too, and the endowment of the test account. `none` is the panic of
-- `unwrap()` on a failed `set_balance`.
def initState : Option State :=
  let ext := State.empty
    |>.set (storageValueKey rt "Sudo" "Key") aliceEncoded
    |>.set (storageValueKey rt "Balances" "TotalIssuance") (rt.encodeBalance 11)
    |>.set (storageValueKey rt "Balances" "CreationFee") (rt.encodeBalance 1)
    |>.set (storageValueKey rt "Balances" "TransferFee") (rt.encodeBalance 1)
    |>.set (storageValueKey rt "Balances" "TransactionBaseFee") (rt.encodeBalance 1)
    |>.set (storageValueKey rt "Balances" "TransfactionByteFee") (rt.encodeBalance 1)
    |>.set (storageValueKey rt "Balances" "ExistentialDeposit") (rt.encodeBalance 1)
    |>.set (storageValueKey rt "System" "Number") (rt.encodeU64 0)
    |>.set (storageValueKey rt "System" "LastHash") (rt.encodeHash rt.initialStateHash)
  match rt.setBalance ext rt.endowedAccount 2000 2000 with
  | (ext, .ok ()) => some ext
  | (_, .error ()) => none

-- `Stf::get_state`
def getState (ext : State) : Getter → Option Bytes
  | .trusted g =>
    match g.getter with
    | .freeBalance who => (getAccountInfo rt ext who).map fun info => rt.encodeBalance info.data.free
    | .reservedBalance who =>
      (getAccountInfo rt ext who).map fun info => rt.encodeBalance info.data.reserved
    | .nonce who => (getAccountInfo rt ext who).map fun info => rt.encodeU32 info.nonce
  | .publicGetter .someValue => some (rt.encodeU32 42)

-- `Stf::get_storage_hashes_to_update`: no call reads layer-one storage.
def getStorageHashesToUpdate (call : TrustedCallSigned) : List Bytes :=
  match call.call with
  | .balanceSetBalance .. | .balanceTransfer .. | .balanceUnshield .. | .balanceShield .. => []

-- `shards_key_hash`, the key of the shard list on layer one, is empty.
def shardsKeyHash : Bytes := []

def storageHashesToUpdateOnBlock : List Bytes := [shardsKeyHash]

def getStorageHashesToUpdateForGetter (_getter : Getter) : List Bytes :=
  storageHashesToUpdateOnBlock

def storageHashesToUpdatePerShard (_shard : ShardIdentifier) : List Bytes := []

def accountNonce (ext : State) (account : AccountId) : Index :=
  (getAccountInfo rt ext account).elim 0 (·.nonce)

def accountData (ext : State) (account : AccountId) : Option AccountData :=
  (getAccountInfo rt ext account).map (·.data)

end Stf
