import PolkadexTee.Lib.Stream
import PolkadexTee.Enclave.Objects
import PolkadexTee.Stf.Reference

/-! Key provisioning (`tls_ra.rs`): after the mutual attestation, the server's `send_files` writes
the length of its shielding key, the key and the AES key and IV of the state onto the TLS stream,
and the client's `receive_files` reads them into buffers of 8, `key_len`, 16 and 16 bytes and
seals them. -/

namespace Enclave

-- The keys the client seals: `rsa3072::seal` and `aes::seal`, both by `sealKey`.
inductive Sealed
  | shieldingKey (pair : Bytes)
  | stateKey (key iv : Bytes)
  deriving DecidableEq, Repr

-- The two ends of the provisioning: the bytes on the stream and not yet read, the number of stream
-- calls made, and what the client has sealed.
structure Provisioning where
  stream : Bytes
  calls  : Nat
  sealed : List Sealed

-- What the stream and the sealed files do: how many bytes the `write` or `read` of each number
-- moves (`none` is an io error), and whether the seal of each number fails.
structure TlsStream where
  transfer  : Nat → Option Nat
  sealFault : Nat → Option SgxStatus

abbrev ProvisionM := EStateM SgxStatus Provisioning

variable (io : TlsStream)

def nextStreamCall : ProvisionM Nat :=
  modifyGet fun s => (s.calls, { s with calls := s.calls + 1 })

-- `tls.write(buf).sgx_error()?`
def tlsWrite (buf : Bytes) : ProvisionM Unit := do
  match io.transfer (← nextStreamCall) with
  | none => throw .unexpected
  | some count => modify fun s => { s with stream := IoStream.write count buf s.stream }

-- `tls.read(&mut buf)`, then `.sgx_error_with_log(..)?`: the buffer after the call.
def tlsRead (buf : Bytes) : ProvisionM Bytes := do
  match io.transfer (← nextStreamCall) with
  | none => throw .unexpected
  | some count =>
    let s ← get
    let (buf, stream) := IoStream.read count buf s.stream
    set { s with stream := stream }
    pure buf

def sealKey (key : Sealed) : ProvisionM Unit := do
  let s ← get
  match io.sealFault s.sealed.length with
  | some e => throw e
  | none => set { s with sealed := s.sealed ++ [key] }

-- `rsa_pair.len().to_le_bytes()` is the 8 bytes of a `usize`.
def sendFiles (rsaPair : Bytes) (aes : Bytes × Bytes) : ProvisionM Unit := do
  tlsWrite io (Stf.leEncode 8 rsaPair.length)
  tlsWrite io rsaPair
  tlsWrite io aes.1
  tlsWrite io aes.2

def receiveFiles : ProvisionM Unit := do
  let keyLenArr ← tlsRead io (List.replicate 8 0)
  let keyLen := Stf.leDecode keyLenArr
  let rsaPair ← tlsRead io (List.replicate keyLen 0)
  sealKey io (.shieldingKey rsaPair)
  let aesKey ← tlsRead io (List.replicate 16 0)
  let aesIv ← tlsRead io (List.replicate 16 0)
  sealKey io (.stateKey aesKey aesIv)

-- `run_key_provisioning_server` with the keys of `read_files_to_send`, then
-- `request_key_provisioning`.
def provision (rsaPair : Bytes) (aes : Bytes × Bytes) : ProvisionM Unit := do
  sendFiles io rsaPair aes
  receiveFiles io

end Enclave
