import PolkadexTee.Enclave.Cert
import PolkadexTee.Lib.Except

/-! What `verify_mra_cert` establishes about a peer's certificate. -/

namespace Enclave

open Except (bind_eq_ok)

section Spec

variable {pf : RaPlatform}

@[simp] theorem sgxError_eq_ok {α : Type} {o : Option α} {a : α} : sgxError o = .ok a ↔ o = some a := by
  cases o <;> simp [sgxError]

end Spec

section Checks

variable {pf : RaPlatform}

-- A certificate anyone can make: the signing certificate is the maker's own, the report it signs
-- says `OK` and names the verifier's MRENCLAVE, and the quote's report data is zero.

def selfSignedKey : Bytes := List.replicate 64 0x11

-- The public key after `prime256v1`, then the Netscape comment `r|s|c`.
def selfSignedCert : Bytes :=
  [0x30] ++ prime256v1Oid ++ [0x03, 0x42, 0x00, 0x04] ++ selfSignedKey ++ nsCmtOid ++ [0x04, 0x05] ++
    "r|s|c".asciiBytes

def selfMrenclave : Bytes := List.replicate 32 0x07

def selfSignedReport : AttnReport :=
  ⟨some "2021-01-01T00:00:00".asciiBytes, some "OK".asciiBytes, none, some "q".asciiBytes⟩

-- Base64 is the identity, and no signing certificate chains to the IAS root.
def selfSignedPlatform : RaPlatform where
  base64Decode bytes         := some bytes
  isEndEntityCert _          := true
  iasCaCert                  := []
  webpkiNow                  := some 0
  verifyIsValidTlsServerCert _ _ _ := false
  verifySignature _ _ _      := true
  parseReport _              := some selfSignedReport
  parseTimestamp _           := some 0
  unixNow                    := some 0
  getUpdateInfo _            := (none, none)
  readQuote _                := ⟨selfMrenclave, List.replicate 64 0⟩
  mrenclaveOfSelf            := some selfMrenclave

theorem verifyMraCert_accepts_unchained_cert :
    (∀ sigCert chain now, selfSignedPlatform.verifyIsValidTlsServerCert sigCert chain now = false) ∧
    extractPubKey selfSignedCert = .ok selfSignedKey ∧
    (∀ quote, (selfSignedPlatform.readQuote quote).reportData ≠ selfSignedKey) ∧
    verifyMraCert selfSignedPlatform selfSignedCert = .ok () :=
  ⟨fun _ _ _ => rfl, by decide +kernel, fun _ => by simp [selfSignedPlatform, selfSignedKey], by decide +kernel⟩

end Checks

section Der

-- The parser against the DER that `gen_ecc_cert` has yasna write. A DER element is its tag, its
-- length in the shortest definite form of X.690 (one byte below `0x80`, else `0x81` or `0x82` and
-- one or two bytes, big-endian) and its contents.

-- The length octets of a DER element whose contents are shorter than `0x10000` bytes.
def derLength (len : Nat) : Bytes :=
  if len < 0x80 then [len.toUInt8]
  else if len < 0x100 then [0x81, len.toUInt8]
  else [0x82, (len / 0x100).toUInt8, (len % 0x100).toUInt8]

def derElement (tag : UInt8) (contents : Bytes) : Bytes :=
  tag :: (derLength contents.length ++ contents)

variable {certDer oid : Bytes} {skip position : Nat}

theorem locateAfterOid_short (hpos : Rust.windowsPosition oid certDer = some position) {len : UInt8}
    (hlen : certDer[position + skip]? = some len) (hshort : len.toNat ≤ 0x80) :
    locateAfterOid certDer oid skip = .ok (position + skip + 1, len.toNat) := by
  simp [locateAfterOid, hpos, sgxError, panicOr, hlen, bind, Except.bind, pure, Except.pure]
  omega

theorem locateAfterOid_long (hpos : Rust.windowsPosition oid certDer = some position)
    {len hi lo : UInt8} (hlen : certDer[position + skip]? = some len) (hlong : 0x80 < len.toNat)
    (hhi : certDer[position + skip + 1]? = some hi) (hlo : certDer[position + skip + 2]? = some lo) :
    locateAfterOid certDer oid skip = .ok (position + skip + 3, hi.toNat * 0x100 + lo.toNat) := by
  simp [locateAfterOid, hpos, sgxError, panicOr, hlen, hlong, hhi, hlo, bind, Except.bind, pure,
    Except.pure]

theorem getElem?_append_length {α : Type} (a l : List α) (k : Nat) :
    (a ++ l)[a.length + k]? = l[k]? := by
  rw [List.getElem?_append_right (by omega), Nat.add_sub_cancel_left]

variable {pre contents post : Bytes} {tag : UInt8}

-- In the short and the `0x82` form the element after the OID is found where it is: the contents
-- start at the offset returned, and have the length returned.
theorem locateAfterOid_derElement
    (hpos : Rust.windowsPosition oid (pre ++ oid ++ derElement tag contents ++ post) =
      some pre.length)
    (hform : contents.length < 0x80 ∨ 0x100 ≤ contents.length ∧ contents.length < 0x10000) :
    locateAfterOid (pre ++ oid ++ derElement tag contents ++ post) oid (oid.length + 1) =
      .ok ((pre ++ oid ++ [tag] ++ derLength contents.length).length, contents.length) := by
  -- the length octets start right after the tag
  have hsplit : pre ++ oid ++ derElement tag contents ++ post =
      (pre ++ oid ++ [tag]) ++ (derLength contents.length ++ (contents ++ post)) := by
    simp [derElement]
  have hat : ∀ k, (pre ++ oid ++ derElement tag contents ++ post)[pre.length + (oid.length + 1) + k]? =
      (derLength contents.length ++ (contents ++ post))[k]? := by
    intro k
    have hidx : pre.length + (oid.length + 1) + k = (pre ++ oid ++ [tag]).length + k := by
      simp only [List.length_append, List.length_singleton]
      omega
    rw [hsplit, hidx]
    exact getElem?_append_length _ _ k
  rcases hform with hshort | ⟨hlow, hhigh⟩
  · have hlen : derLength contents.length = [contents.length.toUInt8] := by
      rw [derLength, if_pos hshort]
    have hbyte : contents.length.toUInt8.toNat = contents.length := by
      simp
      omega
    have h0 := hat 0
    rw [hlen, Nat.add_zero] at h0
    rw [locateAfterOid_short hpos h0 (by omega), hbyte, hlen]
    simp
    omega
  · have hlen : derLength contents.length =
        [0x82, (contents.length / 0x100).toUInt8, (contents.length % 0x100).toUInt8] := by
      rw [derLength, if_neg (by omega), if_neg (by omega)]
    have hbytes : (contents.length / 0x100).toUInt8.toNat * 0x100 +
        (contents.length % 0x100).toUInt8.toNat = contents.length := by
      simp
      omega
    have h0 := hat 0
    have h1 := hat 1
    have h2 := hat 2
    rw [hlen] at h0 h1 h2
    rw [Nat.add_zero] at h0
    rw [locateAfterOid_long hpos h0 (by decide) h1 h2, hbytes, hlen]
    simp
    omega

-- The Netscape comment of such a certificate is the contents of the element after its OID.
theorem extractNetscapeComment_derElement
    (hpos : Rust.windowsPosition nsCmtOid (pre ++ nsCmtOid ++ derElement 0x04 contents ++ post) =
      some pre.length)
    (hform : contents.length < 0x80 ∨ 0x100 ≤ contents.length ∧ contents.length < 0x10000) :
    extractNetscapeComment (pre ++ nsCmtOid ++ derElement 0x04 contents ++ post) = .ok contents := by
  have hsplit : pre ++ nsCmtOid ++ derElement 0x04 contents ++ post =
      (pre ++ nsCmtOid ++ [0x04] ++ derLength contents.length) ++ (contents ++ post) := by
    simp [derElement]
  have hloc := locateAfterOid_derElement hpos hform
  rw [show nsCmtOid.length + 1 = 12 from rfl] at hloc
  rw [extractNetscapeComment, hloc]
  simp only [bind, Except.bind]
  rw [hsplit, Rust.slice_append_of_eq _ _ _ rfl rfl]
  rfl

-- The comment of `r|s|c`, its length in the short form.
theorem extractNetscapeComment_derElement_short :
    extractNetscapeComment ([0x30] ++ nsCmtOid ++ derElement 0x04 "r|s|c".asciiBytes ++ []) =
      .ok "r|s|c".asciiBytes :=
  extractNetscapeComment_derElement (by decide) (.inl (by decide))

-- Two certificates the verifier cannot read: the `prime256v1` OID and nothing after it, and one
-- whose Netscape comment of 128 bytes has its length in the `0x81` form.

def longCommentCert : Bytes :=
  prime256v1Oid ++ derElement 0x03 (0x00 :: 0x04 :: selfSignedKey) ++ nsCmtOid ++
    derElement 0x04 (List.replicate 128 0x41)

theorem verifyMraCert_panics_on_der_lengths :
    (∀ pf, verifyMraCert pf prime256v1Oid = .error (.panic "index out of bounds")) ∧
      derLength 128 = [0x81, 0x80] ∧
      extractPubKey longCommentCert = .ok selfSignedKey ∧
      ∀ pf, verifyMraCert pf longCommentCert = .error (.panic "slice index") := by
  have htrunc : extractPubKey prime256v1Oid = .error (.panic "index out of bounds") := by decide
  have hkey : extractPubKey longCommentCert = .ok selfSignedKey := by decide +kernel
  have hcomment : extractNetscapeComment longCommentCert = .error (.panic "slice index") := by
    decide +kernel
  refine ⟨fun pf => ?_, by decide, hkey, fun pf => ?_⟩
  · rw [verifyMraCert, htrunc]
    rfl
  · rw [verifyMraCert, hkey]
    simp only [bind, Except.bind]
    rw [hcomment]

end Der

end Enclave
