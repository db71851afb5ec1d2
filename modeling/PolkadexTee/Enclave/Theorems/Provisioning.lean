import PolkadexTee.Enclave.TlsRa
import PolkadexTee.Stf.Theorems.Replay

/-! What the client of the key provisioning seals. When every `write` and `read` of the stream moves
all that it asks for, `receive_files` seals the shielding key and the state key the server sent. -/

namespace Enclave

open EStateM

-- The stream moves at least `bound` bytes at every call, and no seal fails.
structure TlsStream.Moves (io : TlsStream) (bound : Nat) : Prop where
  transfer    : ∀ call, ∃ count, io.transfer call = some count ∧ bound ≤ count
  noSealFault : ∀ n, io.sealFault n = none

section Calls

variable {io : TlsStream} {s : Provisioning}

theorem tlsWrite_run {buf : Bytes} {count : Nat} (h : io.transfer s.calls = some count) :
    (tlsWrite io buf).run s =
      .ok () { s with calls := s.calls + 1, stream := IoStream.write count buf s.stream } := by
  simp only [tlsWrite, nextStreamCall, run_bind, run_modifyGet, h, run_modify]

theorem tlsRead_run {buf : Bytes} {count : Nat} (h : io.transfer s.calls = some count) :
    (tlsRead io buf).run s = .ok (IoStream.read count buf s.stream).1
      { s with calls := s.calls + 1, stream := (IoStream.read count buf s.stream).2 } := by
  simp only [tlsRead, nextStreamCall, run_bind, run_modifyGet, h, run_get, run_set, run_pure]

theorem sealKey_run {key : Sealed} (h : io.sealFault s.sealed.length = none) :
    (sealKey io key).run s = .ok () { s with sealed := s.sealed ++ [key] } := by
  simp only [sealKey, run_bind, run_get, h, run_set]

variable {bound : Nat}

theorem TlsStream.Moves.tlsWrite_run (hio : io.Moves bound) {buf : Bytes}
    (hbuf : buf.length ≤ bound) :
    (tlsWrite io buf).run s = .ok () { s with calls := s.calls + 1, stream := s.stream ++ buf } := by
  obtain ⟨count, hcount, hle⟩ := hio.transfer s.calls
  rw [Enclave.tlsWrite_run hcount, IoStream.write_of_le _ (by omega)]

theorem TlsStream.Moves.tlsRead_run (hio : io.Moves bound) (xs rest : Bytes) {buf : Bytes}
    (hbuf : buf.length ≤ bound) (hlen : xs.length = buf.length) (hs : s.stream = xs ++ rest) :
    (tlsRead io buf).run s = .ok xs { s with calls := s.calls + 1, stream := rest } := by
  obtain ⟨count, hcount, hle⟩ := hio.transfer s.calls
  rw [Enclave.tlsRead_run hcount, hs, IoStream.read_append rest hlen (by omega)]

theorem TlsStream.Moves.sealKey_run (hio : io.Moves bound) (key : Sealed) :
    (sealKey io key).run s = .ok () { s with sealed := s.sealed ++ [key] } :=
  Enclave.sealKey_run (hio.noSealFault _)

end Calls

section RoundTrip

variable {io : TlsStream} {s : Provisioning} {bound : Nat} {rsaPair key iv : Bytes}

theorem sendFiles_run (hio : io.Moves bound) (hbound : 8 ≤ bound) (hpair : rsaPair.length ≤ bound)
    (hkey : key.length ≤ bound) (hiv : iv.length ≤ bound) :
    (sendFiles io rsaPair (key, iv)).run s = .ok ()
      { s with calls := s.calls + 4,
               stream := s.stream ++ (Stf.leEncode 8 rsaPair.length ++ rsaPair ++ key ++ iv) } := by
  rw [sendFiles, run_bind_of_ok (hio.tlsWrite_run (by simpa using hbound)),
    run_bind_of_ok (hio.tlsWrite_run hpair), run_bind_of_ok (hio.tlsWrite_run hkey),
    hio.tlsWrite_run hiv]
  simp only [List.append_assoc]

-- Reads that move all they ask for take the fields apart as they were written, the key's length
-- first, and seal the two keys.
theorem receiveFiles_run (hio : io.Moves bound) (hbound : 16 ≤ bound) (hpair : rsaPair.length ≤ bound)
    (hlen : rsaPair.length < 2 ^ 64) (hkey : key.length = 16) (hiv : iv.length = 16) {rest : Bytes}
    (hs : s.stream = Stf.leEncode 8 rsaPair.length ++ rsaPair ++ key ++ iv ++ rest) :
    (receiveFiles io).run s = .ok ()
      { s with calls := s.calls + 4, stream := rest,
               sealed := s.sealed ++ [.shieldingKey rsaPair, .stateKey key iv] } := by
  -- the 8 bytes of the length read back as the length
  have hdecode : Stf.leDecode (Stf.leEncode 8 rsaPair.length) = rsaPair.length :=
    Stf.leDecode_leEncode_of_lt (by simpa using hlen)
  -- each read takes its field off the front of the stream
  rw [receiveFiles, run_bind_of_ok (hio.tlsRead_run (Stf.leEncode 8 rsaPair.length)
    (rsaPair ++ key ++ iv ++ rest) (by simp; omega) (by simp) (by simp [hs]))]
  dsimp only
  rw [hdecode, run_bind_of_ok (hio.tlsRead_run rsaPair (key ++ iv ++ rest) (by simpa using hpair)
      (by simp) (by simp)),
    run_bind_of_ok (hio.sealKey_run _),
    run_bind_of_ok (hio.tlsRead_run key (iv ++ rest) (by simp; omega) (by simp [hkey]) (by simp)),
    run_bind_of_ok (hio.tlsRead_run iv rest (by simp; omega) (by simp [hiv]) rfl), hio.sealKey_run]
  simp only [List.append_assoc, List.cons_append, List.nil_append]

-- The round trip of the provisioning: over a stream that moves everything at once, with nothing
-- left on it before, the client seals the server's shielding key and its state key.
theorem provision_seals_sent_keys (hio : io.Moves bound) (hbound : 16 ≤ bound)
    (hpair : rsaPair.length ≤ bound) (hlen : rsaPair.length < 2 ^ 64) (hkey : key.length = 16)
    (hiv : iv.length = 16) (hempty : s.stream = []) :
    (provision io rsaPair (key, iv)).run s = .ok ()
      { s with calls := s.calls + 8, stream := [],
               sealed := s.sealed ++ [.shieldingKey rsaPair, .stateKey key iv] } := by
  rw [provision, run_bind_of_ok (sendFiles_run hio (by omega) hpair (by omega) (by omega)),
    receiveFiles_run hio hbound hpair hlen hkey hiv (by rw [hempty, List.nil_append, List.append_nil])]

end RoundTrip

-- A stream that moves 64 bytes at every call.
def movesEverything : TlsStream :=
  ⟨fun _ => some 64, fun _ => none⟩

theorem provision_seals_sent_keys_movesEverything :
    movesEverything.Moves 64 ∧
      (provision movesEverything [1, 2, 3] (List.replicate 16 5, List.replicate 16 6)).run ⟨[], 0, []⟩ =
        .ok () ⟨[], 8, [.shieldingKey [1, 2, 3], .stateKey (List.replicate 16 5) (List.replicate 16 6)]⟩ :=
  have hio : movesEverything.Moves 64 := ⟨fun _ => ⟨64, rfl, le_refl 64⟩, fun _ => rfl⟩
  ⟨hio, provision_seals_sent_keys hio (by decide) (by decide) (by decide) (by decide) (by decide) rfl⟩

-- A stream that moves one byte at the client's second read, the one into the key's buffer: the
-- client seals the first byte of the key and zeros, and then the rest of the key and the first
-- bytes of the AES key as the AES key.

def oneByteSecondRead : TlsStream :=
  ⟨fun call => if call = 5 then some 1 else some 64, fun _ => none⟩

theorem receiveFiles_seals_zero_padded_key :
    ((provision oneByteSecondRead [1, 2, 3] (List.replicate 16 5, List.replicate 16 6)).run
        ⟨[], 0, []⟩).toExcept = .ok () ∧
      ((provision oneByteSecondRead [1, 2, 3] (List.replicate 16 5, List.replicate 16 6)).run
        ⟨[], 0, []⟩).state.sealed =
        [.shieldingKey [1, 0, 0],
          .stateKey ([2, 3] ++ List.replicate 14 5) ([5, 5] ++ List.replicate 14 6)] := by
  decide

end Enclave
