import PolkadexTee.Lib.Bytes
import PolkadexTee.Lib.Rust
import PolkadexTee.Enclave.Objects

/-! Mutual remote attestation (`cert.rs`, `tls_ra.rs`, `attestation.rs`). -/

namespace Enclave

-- `sgx_status_t::SGX_ERROR_UPDATE_NEEDED`
def sgxErrorUpdateNeeded : SgxStatus := .status 0x4001

-- `.sgx_error()`: any failure is `SGX_ERROR_UNEXPECTED`.
def sgxError {α : Type} : Option α → Except SgxStatus α
  | some a => .ok a
  | none => .error .unexpected

-- Indexing and slicing, which panic when out of bounds.
def panicOr {α : Type} (site : String) : Option α → Except SgxStatus α
  | some a => .ok a
  | none => .error (.panic site)

-- The string fields of the attestation report that `verify_attn_report` reads, as UTF-8 bytes;
-- `none` when the key is missing or its value is not a string.
structure AttnReport where
  timestamp             : Option Bytes
  isvEnclaveQuoteStatus : Option Bytes
  platformInfoBlob      : Option Bytes
  isvEnclaveQuoteBody   : Option Bytes
  deriving DecidableEq, Repr

-- The two fields of an `sgx_quote_t` the verifier reads.
structure SgxQuote where
  mrEnclave  : Bytes
  reportData : Bytes
  deriving DecidableEq, Repr

-- What the verifier asks of other crates and of the platform: `base64::decode`, webpki's
-- certificate parsing and checks with the time it takes them at, `serde_json` and `chrono`, the
-- `ocall_get_update_info` of the host (`none` is `SGX_SUCCESS`, for its result and for the status
-- it writes), the `ptr::read` of the decoded quote as an `sgx_quote_t`, and
-- `get_mrenclave_of_self`.
structure RaPlatform where
  base64Decode               : Bytes → Option Bytes
  isEndEntityCert            : Bytes → Bool
  -- the IAS root of `AttestationReportSigningCACert.pem`, decoded
  iasCaCert                  : Bytes
  webpkiNow                  : Option Int
  verifyIsValidTlsServerCert : Bytes → Bytes → Int → Bool
  verifySignature            : Bytes → Bytes → Bytes → Bool
  parseReport                : Bytes → Option AttnReport
  parseTimestamp             : Bytes → Option Int
  unixNow                    : Option Int
  getUpdateInfo              : Bytes → Option SgxStatus × Option SgxStatus
  readQuote                  : Bytes → SgxQuote
  mrenclaveOfSelf            : Option Bytes

-- The DER encodings of the OIDs `prime256v1` and Netscape comment, tag and length included.
def prime256v1Oid : Bytes := [0x06, 0x08, 0x2A, 0x86, 0x48, 0xCE, 0x3D, 0x03, 0x01, 0x07]

def nsCmtOid : Bytes := [0x06, 0x09, 0x60, 0x86, 0x48, 0x01, 0x86, 0xF8, 0x42, 0x01, 0x0D]

-- The element that follows the first occurrence of `oid`: its length byte is `skip` bytes after the
-- OID's start; a length byte above `0x80` is followed by two more, read as a big-endian length. The
-- result is where the value starts and its length.
def locateAfterOid (certDer oid : Bytes) (skip : Nat) : Except SgxStatus (Nat × Nat) := do
  let offset ← sgxError (Rust.windowsPosition oid certDer)
  let offset := offset + skip
  let len ← panicOr "index out of bounds" certDer[offset]?
  let (len, offset) ←
    if len.toNat > 0x80 then do
      let hi ← panicOr "index out of bounds" certDer[offset + 1]?
      let lo ← panicOr "index out of bounds" certDer[offset + 2]?
      pure (hi.toNat * 0x100 + lo.toNat, offset + 2)
    else pure (len.toNat, offset)
  pure (offset + 1, len)

-- `let n = (pib.len() - 8) / 2;` then one byte for each two hex digits after the TLV header.
def parsePlatformInfoBlob (pib : Bytes) : Except SgxStatus Bytes :=
  if pib.length < 8 then .error (.panic "attempt to subtract with overflow")
  else (List.range ((pib.length - 8) / 2)).mapM fun i => do
    let digits ← panicOr "byte index is out of bounds" (Rust.strSlice pib (i * 2 + 8) (i * 2 + 10))
    let b ← sgxError (Rust.fromStrRadix 0x100 16 digits)
    pure b.toUInt8

-- The statuses besides `OK` under which a report is accepted once the platform is checked.
def toleratedQuoteStatuses : List Bytes :=
  ["GROUP_OUT_OF_DATE", "GROUP_REVOKED", "CONFIGURATION_NEEDED"].map String.asciiBytes

-- Step 2 of `verify_attn_report`: a status of `OK`, or a tolerated status whose platform info blob
-- the host's `ocall_get_update_info` accepts.
def verifyQuoteStatus (pf : RaPlatform) (attnReport : AttnReport) : Except SgxStatus Unit := do
  let some quoteStatus := attnReport.isvEnclaveQuoteStatus | throw .unexpected
  if quoteStatus = "OK".asciiBytes then pure ()
  else if quoteStatus ∈ toleratedQuoteStatuses then do
    let some pib := attnReport.platformInfoBlob | throw .unexpected
    let buf ← parsePlatformInfoBlob pib
    -- the result of the ocall is checked first, then the status it wrote
    match pf.getUpdateInfo buf with
    | (some res, _) => throw res
    | (none, some rt) => throw rt
    | (none, none) => pure ()
  else throw .unexpected

-- Step 1 of `verify_attn_report`: the timestamp must parse and the clock be read; the age of the
-- report is only logged.
def checkTimestamp (pf : RaPlatform) (attnReport : AttnReport) : Except SgxStatus Unit := do
  let some time := attnReport.timestamp | throw .unexpected
  let _ts ← sgxError (pf.parseTimestamp (time ++ "+0000".asciiBytes))
  let _now ← sgxError pf.unixNow
  pure ()

-- Step 3: the quote must name this enclave's MRENCLAVE. Its report data is compared with the
-- certificate's key, and "Mutual RA done!" logged when they agree; nothing happens when they do
-- not.
def verifyQuoteBody (pf : RaPlatform) (attnReport : AttnReport) (pubK : Bytes) :
    Except SgxStatus Unit := do
  let some quoteRaw := attnReport.isvEnclaveQuoteBody | throw .unexpected
  let quote ← sgxError (pf.base64Decode quoteRaw)
  let sgxQuote := pf.readQuote quote
  let ti ← sgxError pf.mrenclaveOfSelf
  if sgxQuote.mrEnclave ≠ ti then throw .unexpected
  let _mutualRa := decide (sgxQuote.reportData = pubK)
  pure ()

def verifyAttnReport (pf : RaPlatform) (reportRaw pubK : Bytes) : Except SgxStatus Unit := do
  let attnReport ← sgxError (pf.parseReport reportRaw)
  checkTimestamp pf attnReport
  verifyQuoteStatus pf attnReport
  verifyQuoteBody pf attnReport pubK

-- The public key of the certificate: the content of the BIT STRING after `prime256v1`, less its
-- unused-bits byte and the `04` of an uncompressed point.
def extractPubKey (certDer : Bytes) : Except SgxStatus Bytes := do
  let (offset, len) ← locateAfterOid certDer prime256v1Oid 11
  panicOr "slice index" (Rust.slice certDer (offset + 2) (offset + len))

-- The Netscape comment of the certificate.
def extractNetscapeComment (certDer : Bytes) : Except SgxStatus Bytes := do
  let (offset, len) ← locateAfterOid certDer nsCmtOid 12
  panicOr "slice index" (Rust.slice certDer offset (offset + len))

-- The payload `report|signature|signing certificate`, the last two base64-decoded.
def splitPayload (pf : RaPlatform) (payload : Bytes) : Except SgxStatus (Bytes × Bytes × Bytes) := do
  let fields := payload.splitOn 0x7C
  let attnReportRaw ← sgxError fields[0]?
  let sigRaw ← sgxError fields[1]?
  let sig ← sgxError (pf.base64Decode sigRaw)
  let sigCertRaw ← sgxError fields[2]?
  let sigCertDec ← sgxError (pf.base64Decode sigCertRaw)
  pure (attnReportRaw, sig, sigCertDec)

-- `verify_mra_cert`. The chain of the signing certificate to the IAS root is checked and the
-- outcome only logged; a report signature that does not verify panics.
def verifyMraCert (pf : RaPlatform) (certDer : Bytes) : Except SgxStatus Unit := do
  let pubK ← extractPubKey certDer
  let payload ← extractNetscapeComment certDer
  let (attnReportRaw, sig, sigCertDec) ← splitPayload pf payload
  if !pf.isEndEntityCert sigCertDec then throw (.panic "Bad DER")
  let now ← sgxError pf.webpkiNow
  -- "Cert is good" or "Cert verification error"; either way the verification goes on
  let _certIsGood := pf.verifyIsValidTlsServerCert sigCertDec pf.iasCaCert now
  if !pf.verifySignature sigCertDec attnReportRaw sig then throw (.panic "Signature verification error")
  verifyAttnReport pf attnReportRaw pubK

-- `webpki::Error::ExtensionValueInvalid`, the only error the verifiers return.
inductive TlsError
  | extensionValueInvalid
  deriving DecidableEq, Repr

-- The body shared by `ClientAuth::verify_client_cert` and `ServerAuth::verify_server_cert`: the
-- first certificate is checked, and `SGX_ERROR_UPDATE_NEEDED` is accepted when `outdated_ok` is
-- set.
def verifyRaPeerCert (pf : RaPlatform) (outdatedOk : Bool) (certs : List Bytes) :
    Except SgxStatus (Except TlsError Unit) :=
  match certs with
  | [] => .error (.panic "index out of bounds")
  | cert :: _ =>
    match verifyMraCert pf cert with
    | .ok () => .ok (.ok ())
    | .error (.panic site) => .error (.panic site)
    | .error e =>
      if e = sgxErrorUpdateNeeded then
        if outdatedOk then .ok (.ok ()) else .ok (.error .extensionValueInvalid)
      else .ok (.error .extensionValueInvalid)

structure ClientAuth where
  outdatedOk : Bool

structure ServerAuth where
  outdatedOk : Bool

def ClientAuth.verifyClientCert (self : ClientAuth) (pf : RaPlatform) (certs : List Bytes) :
    Except SgxStatus (Except TlsError Unit) :=
  verifyRaPeerCert pf self.outdatedOk certs

def ServerAuth.verifyServerCert (self : ServerAuth) (pf : RaPlatform) (certs : List Bytes) :
    Except SgxStatus (Except TlsError Unit) :=
  verifyRaPeerCert pf self.outdatedOk certs

-- `tls_server_config` and `tls_client_config` both set `outdated_ok`.
def tlsServerClientAuth : ClientAuth := ⟨true⟩

def tlsClientServerAuth : ServerAuth := ⟨true⟩

end Enclave
