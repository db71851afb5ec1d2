import Mathlib
import PolkadexTee.Enclave.Hex

/-! The hex codec both ways. -/

namespace Enclave.Hex

-- The digits, a table each way.

section Digits

-- What a digit that `encode_hex` writes is: not a space, nor whitespace, and one byte long.
structure Written (c : Char) : Prop where
  notSpace      : c ≠ ' '
  notWhitespace : Rust.isWhitespace c = false
  oneByte       : c.utf8Size = 1

theorem encodeHexDigit_table : ∀ d : UInt8, d < 16 →
    (match encodeHexDigit d with
      | .ok c => decide (decodeHexDigit c = .ok d) && c != ' ' && !Rust.isWhitespace c && c.utf8Size == 1
      | .error _ => false) = true := by
  decide +kernel

-- Each value below sixteen has a digit, which is read back as that value.
theorem encodeHexDigit_spec {d : UInt8} (hd : d < 16) :
    ∃ c, encodeHexDigit d = .ok c ∧ decodeHexDigit c = .ok d ∧ Written c := by
  have h := encodeHexDigit_table d hd
  cases he : encodeHexDigit d with
  | error e => simp [he] at h
  | ok c =>
    simp only [he, Bool.and_eq_true, decide_eq_true_eq, bne_iff_ne, ne_eq, Bool.not_eq_eq_eq_not,
      Bool.not_true, beq_iff_eq] at h
    exact ⟨c, rfl, h.1.1.1, ⟨h.1.1.2, h.1.2, h.2⟩⟩

-- The characters `decode_hex_digit` accepts.
def digitChars : List Char :=
  (List.range' 48 10 ++ List.range' 97 6 ++ List.range' 65 6).map Char.ofNat

theorem le_toNat {c c' : Char} (h : c ≤ c') : c.toNat ≤ c'.toNat :=
  UInt32.le_iff_toNat_le.mp (Char.le_def.mp h)

theorem mem_digitChars {c : Char} {d : UInt8} (h : decodeHexDigit c = .ok d) : c ∈ digitChars := by
  have hmem : c.toNat ∈ List.range' 48 10 ++ List.range' 97 6 ++ List.range' 65 6 → c ∈ digitChars :=
    fun hn => List.mem_map.mpr ⟨c.toNat, hn, Char.ofNat_toNat c⟩
  apply hmem
  simp only [List.mem_append, List.mem_range'_1]
  -- the three ranges of the digits, by their code points
  have h0 : ('0' : Char).toNat = 48 := rfl
  have h9 : ('9' : Char).toNat = 57 := rfl
  have ha : ('a' : Char).toNat = 97 := rfl
  have hf : ('f' : Char).toNat = 102 := rfl
  have hA : ('A' : Char).toNat = 65 := rfl
  have hF : ('F' : Char).toNat = 70 := rfl
  unfold decodeHexDigit at h
  split_ifs at h with h₁ h₂ h₃
  · have := le_toNat h₁.1
    have := le_toNat h₁.2
    omega
  · have := le_toNat h₂.1
    have := le_toNat h₂.2
    omega
  · have := le_toNat h₃.1
    have := le_toNat h₃.2
    omega

theorem decodeHexDigit_table :
    digitChars.all (fun c => match decodeHexDigit c with
      | .ok d => decide (d < 16) && decide (encodeHexDigit d = .ok c.toLower) && c != ' '
      | .error _ => false) = true := by
  decide +kernel

-- A digit `decode_hex_digit` accepts has a value below sixteen, whose digit is the lower-case one.
theorem decodeHexDigit_spec {c : Char} {d : UInt8} (h : decodeHexDigit c = .ok d) :
    d < 16 ∧ encodeHexDigit d = .ok c.toLower ∧ c ≠ ' ' := by
  have ht := List.all_eq_true.mp decodeHexDigit_table c (mem_digitChars h)
  simp only [h, Bool.and_eq_true, decide_eq_true_eq, bne_iff_ne, ne_eq] at ht
  exact ⟨ht.1.1, ht.1.2, ht.2⟩

-- A byte is its two digits' values, the high four bits first.
theorem byte_split : ∀ b : UInt8, b >>> 4 < 16 ∧ b &&& 15 < 16 ∧ (b >>> 4) <<< 4 ||| b &&& 15 = b := by
  decide +kernel

theorem byte_join_table : ∀ n < 16, ∀ m < 16,
    ((UInt8.ofNat n <<< 4) ||| UInt8.ofNat m) >>> 4 = UInt8.ofNat n ∧
      ((UInt8.ofNat n <<< 4) ||| UInt8.ofNat m) &&& 15 = UInt8.ofNat m := by
  decide +kernel

-- Two values below sixteen make a byte they are the digits of.
theorem byte_join {hi lo : UInt8} (hhi : hi < 16) (hlo : lo < 16) :
    ((hi <<< 4) ||| lo) >>> 4 = hi ∧ ((hi <<< 4) ||| lo) &&& 15 = lo := by
  have h := byte_join_table hi.toNat (UInt8.lt_iff_toNat_lt.mp hhi) lo.toNat (UInt8.lt_iff_toNat_lt.mp hlo)
  simpa only [UInt8.ofNat_toNat] using h

end Digits

-- The two steps of the loop of `decode_hex`.

theorem decodeHexLoop_space (rest : List Char) (acc : List UInt8) :
    decodeHexLoop (' ' :: rest) acc = decodeHexLoop rest acc := by
  cases rest with
  | nil => rw [decodeHexLoop.eq_2, if_pos rfl]
  | cons second rest => rw [decodeHexLoop.eq_3, if_pos rfl]

theorem decodeHexLoop_pair {first : Char} (hsp : first ≠ ' ') (second : Char) (rest : List Char)
    (acc : List UInt8) :
    decodeHexLoop (first :: second :: rest) acc = (do
      let hi ← decodeHexDigit first
      let lo ← decodeHexDigit second
      decodeHexLoop rest (acc ++ [(hi <<< 4) ||| lo])) := by
  rw [decodeHexLoop.eq_3, if_neg hsp]

-- `encode_hex`, and `decode_hex` on what it writes.

section Encode

theorem encodeHexByte_eq {b : UInt8} {c₁ c₂ : Char} (h₁ : encodeHexDigit (b >>> 4) = .ok c₁)
    (h₂ : encodeHexDigit (b &&& 15) = .ok c₂) : encodeHexByte b = .ok [c₁, c₂] := by
  simp only [encodeHexByte, h₁, h₂]
  rfl

theorem encodeHex_nil : encodeHex [] = .ok [] :=
  rfl

theorem encodeHex_cons_eq {b : UInt8} {bytes : List UInt8} {cs rest : List Char}
    (h₁ : encodeHexByte b = .ok cs) (h₂ : encodeHex bytes = .ok rest) :
    encodeHex (b :: bytes) = .ok (cs ++ rest) := by
  simp only [encodeHex, List.mapM_cons, h₁] at h₂ ⊢
  cases hm : bytes.mapM encodeHexByte with
  | error e => simp [hm] at h₂
  | ok strs =>
    simp only [hm] at h₂
    cases h₂
    rfl

-- `encode_hex` writes two digits for each byte, which `decode_hex` reads back after whatever it has
-- read already.
theorem encodeHex_spec : ∀ bytes : List UInt8, ∃ s, encodeHex bytes = .ok s ∧ (∀ c ∈ s, Written c) ∧
    s.length = 2 * bytes.length ∧ ∀ acc, decodeHexLoop s acc = .ok (acc ++ bytes)
  | [] => ⟨[], encodeHex_nil, fun _ hc => absurd hc List.not_mem_nil, rfl, fun acc => by
      rw [List.append_nil]
      rfl⟩
  | b :: bytes => by
    obtain ⟨hhi, hlo, hb⟩ := byte_split b
    obtain ⟨c₁, he₁, hd₁, hw₁⟩ := encodeHexDigit_spec hhi
    obtain ⟨c₂, he₂, hd₂, hw₂⟩ := encodeHexDigit_spec hlo
    obtain ⟨s, hs, hws, hlen, hdec⟩ := encodeHex_spec bytes
    refine ⟨c₁ :: c₂ :: s, encodeHex_cons_eq (encodeHexByte_eq he₁ he₂) hs, fun c hc => ?_, ?_, fun acc => ?_⟩
    · rcases List.mem_cons.mp hc with rfl | hc
      · exact hw₁
      rcases List.mem_cons.mp hc with rfl | hc
      · exact hw₂
      · exact hws c hc
    · simp [hlen]
      omega
    · -- the pair of `b` is read as `b`, then the rest as the rest
      rw [decodeHexLoop_pair hw₁.notSpace]
      simp only [hd₁, hd₂, hb, bind, Except.bind]
      rw [hdec, List.append_assoc, List.singleton_append]

-- Decoding what `encode_hex` writes gives the bytes back.
theorem decodeHex_encodeHex (bytes : List UInt8) : (encodeHex bytes >>= decodeHex) = .ok bytes := by
  obtain ⟨s, hs, -, -, hdec⟩ := encodeHex_spec bytes
  rw [hs]
  exact hdec []

end Encode

-- `decode_hex` on any string.

section Decode

-- What the loop of `decode_hex` returns is what it had read before, followed by bytes whose
-- encoding is the rest of the string without its spaces, in lower case.
theorem decodeHexLoop_canonical : ∀ (hex : List Char) (acc r : List UInt8), decodeHexLoop hex acc = .ok r →
    ∃ r', r = acc ++ r' ∧ encodeHex r' = .ok ((hex.filter (· ≠ ' ')).map Char.toLower)
  | [], acc, r, h => by
    cases h
    exact ⟨[], by simp, encodeHex_nil⟩
  | [first], acc, r, h => by
    rw [decodeHexLoop.eq_2] at h
    split at h
    · next hsp =>
      obtain ⟨r', rfl, henc⟩ := decodeHexLoop_canonical [] acc r h
      exact ⟨r', rfl, by simpa [hsp] using henc⟩
    · cases h
  | first :: second :: rest, acc, r, h => by
    by_cases hsp : first = ' '
    · -- a skipped space
      subst hsp
      rw [decodeHexLoop_space] at h
      obtain ⟨r', rfl, henc⟩ := decodeHexLoop_canonical (second :: rest) acc r h
      exact ⟨r', rfl, by simpa using henc⟩
    · -- a pair of digits, one byte
      rw [decodeHexLoop_pair hsp] at h
      cases hhi : decodeHexDigit first with
      | error e => simp [hhi, bind, Except.bind] at h
      | ok hi =>
        cases hlo : decodeHexDigit second with
        | error e => simp [hhi, hlo, bind, Except.bind] at h
        | ok lo =>
          simp only [hhi, hlo, bind, Except.bind] at h
          obtain ⟨hhi₁, he₁, -⟩ := decodeHexDigit_spec hhi
          obtain ⟨hlo₁, he₂, hsp₂⟩ := decodeHexDigit_spec hlo
          obtain ⟨hshift, hmask⟩ := byte_join hhi₁ hlo₁
          obtain ⟨r', rfl, henc⟩ := decodeHexLoop_canonical rest _ r h
          refine ⟨((hi <<< 4) ||| lo) :: r', by simp, ?_⟩
          rw [encodeHex_cons_eq (encodeHexByte_eq (hshift ▸ he₁) (hmask ▸ he₂)) henc]
          simp [hsp, hsp₂]

-- `decode_hex` accepts only strings that are, but for the spaces it skips, the encoding of what it
-- returns, in either case.
theorem encodeHex_decodeHex {hex : List Char} {r : List UInt8} (h : decodeHex hex = .ok r) :
    encodeHex r = .ok ((hex.filter (· ≠ ' ')).map Char.toLower) := by
  obtain ⟨r', rfl, henc⟩ := decodeHexLoop_canonical hex [] r h
  simpa using henc

theorem encodeHex_decodeHex_mixedCase :
    decodeHex ['f', 'A', ' ', '1', '9'] = .ok [0xFA, 0x19] ∧
      encodeHex [0xFA, 0x19] = .ok ((['f', 'A', ' ', '1', '9'].filter (· ≠ ' ')).map Char.toLower) :=
  have h : decodeHex ['f', 'A', ' ', '1', '9'] = .ok [0xFA, 0x19] := rfl
  ⟨h, encodeHex_decodeHex h⟩

theorem decodeHexDigit_error {c : Char} {e : SgxStatus} (h : decodeHexDigit c = .error e) :
    e = .unexpected := by
  unfold decodeHexDigit at h
  split_ifs at h
  cases h
  rfl

-- `decode_hex` fails only with its own error; it never panics.
theorem decodeHexLoop_error : ∀ (hex : List Char) (acc : List UInt8) {e : SgxStatus},
    decodeHexLoop hex acc = .error e → e = .unexpected
  | [], _, _, h => by cases h
  | [first], acc, e, h => by
    rw [decodeHexLoop.eq_2] at h
    split at h
    · exact decodeHexLoop_error [] acc h
    · cases h
      rfl
  | first :: second :: rest, acc, e, h => by
    by_cases hsp : first = ' '
    · subst hsp
      rw [decodeHexLoop_space] at h
      exact decodeHexLoop_error _ acc h
    · rw [decodeHexLoop_pair hsp] at h
      cases hhi : decodeHexDigit first with
      | error e' =>
        simp only [hhi, bind, Except.bind] at h
        cases h
        exact decodeHexDigit_error hhi
      | ok hi =>
        cases hlo : decodeHexDigit second with
        | error e' =>
          simp only [hhi, hlo, bind, Except.bind] at h
          cases h
          exact decodeHexDigit_error hlo
        | ok lo =>
          simp only [hhi, hlo, bind, Except.bind] at h
          exact decodeHexLoop_error rest _ h

end Decode

-- `decode_spid`.

section Spid

theorem decodeSpid_eq (hex : List Char) :
    decodeSpid hex =
      if Rust.strLen (Rust.trim hex) < 16 * 2 then .error .unexpected
      else match decodeHex (Rust.trim hex) with
        | .error e => .error e
        | .ok decodedVec =>
          if h : 16 ≤ decodedVec.length then .ok ⟨⟨(decodedVec.take 16).toArray, by simpa using h⟩⟩
          else .error (.panic "range end index 16 out of range for slice") := by
  unfold decodeSpid
  dsimp only
  split
  · rfl
  · cases decodeHex (Rust.trim hex) <;> rfl

-- `decode_spid` panics exactly where the trimmed string passes the length check and decodes to
-- fewer than sixteen bytes.
theorem decodeSpid_panics_iff (hex : List Char) :
    (∃ site, decodeSpid hex = .error (.panic site)) ↔
      16 * 2 ≤ Rust.strLen (Rust.trim hex) ∧ ∃ r, decodeHex (Rust.trim hex) = .ok r ∧ r.length < 16 := by
  rw [decodeSpid_eq]
  constructor
  · rintro ⟨site, h⟩
    split at h
    · cases h
    · next hlen =>
      refine ⟨Nat.le_of_not_lt hlen, ?_⟩
      split at h
      · next e he =>
        cases h
        cases decodeHexLoop_error _ _ he
      · next r hr =>
        split at h
        · cases h
        · next hshort => exact ⟨r, hr, Nat.lt_of_not_le hshort⟩
  · rintro ⟨hlen, r, hr, hshort⟩
    rw [if_neg (Nat.not_lt_of_le hlen), hr]
    exact ⟨_, dif_neg (Nat.not_le_of_lt hshort)⟩

-- A SPID file with a pair of digits at each end and thirty spaces between them.
def spacedSpid : List Char :=
  ['0', '0'] ++ List.replicate 30 ' ' ++ ['0', '0']

theorem decodeSpid_panics_spacedSpid : ∃ site, decodeSpid spacedSpid = .error (.panic site) :=
  (decodeSpid_panics_iff spacedSpid).mpr ⟨by decide, [0, 0], rfl, by decide⟩

-- A SPID written by `encode_hex` is read back by `decode_spid`.
theorem decodeSpid_encodeHex (id : Vector UInt8 16) : (encodeHex id.toList >>= decodeSpid) = .ok ⟨id⟩ := by
  obtain ⟨s, hs, hws, hlen, hdec⟩ := encodeHex_spec id.toList
  rw [hs]
  show decodeSpid s = _
  have htrim : Rust.trim s = s := Rust.trim_of_forall fun c hc => (hws c hc).notWhitespace
  have hstr : Rust.strLen s = 32 := by
    rw [Rust.strLen_of_forall fun c hc => (hws c hc).oneByte, hlen]
    simp
  have hdecode : decodeHex s = .ok id.toList := hdec []
  rw [decodeSpid_eq, htrim, hstr, if_neg (by decide), hdecode]
  dsimp only
  rw [dif_pos (by simp)]
  -- the first sixteen of sixteen bytes are the SPID
  congr 2
  apply Vector.ext
  intro i hi
  simp

end Spid

end Enclave.Hex
