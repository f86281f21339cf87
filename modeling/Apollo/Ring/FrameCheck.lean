import Mathlib
import Apollo.Lib.CyclicCheck
import Apollo.Ring.FrameLine

/-!
# The errors that the frame check sees

`ap_ring_frame_crc` runs over the packet header with its early acknowledge byte as zeros, a separator, the
data and a second separator. Its generator is `(X^21 + 1)(X^11 + X^2 + 1)`: it has a constant term and an
even number of terms, so EVERY BURST of at most 32 of those bits and EVERY ODD NUMBER of flips is seen.
-/

namespace Apollo.Ring

open Apollo.Lib

/-- The header as the check counts it: the early acknowledge byte is zero. -/
def countedHeader (header : List Byte) : List Byte := header.set hdrEarlyAck 0

/-- THE BITS THAT THE CHECK COVERS, in their order. -/
def coveredBits (header data : List Byte) : List Bool :=
  bytesBits (countedHeader header) ++
    (symbolBits Oob.separator.symbol ++ (bytesBits data ++ symbolBits Oob.separator.symbol))

theorem crcBits_eq (crc value : BitVec 32) (bits : Nat) :
    crcBits crc value bits = CyclicCheck.check crcPolynomial crc (msbBits bits value.toNat) := by
  have hstep : crcStep = CyclicCheck.step crcPolynomial := by
    funext crc bit
    rw [crcStep, CyclicCheck.step, BitVec.msb_eq_getLsbD_last]
  rw [crcBits, foldl_range_getLsbD crcStep, hstep]
  rfl

theorem crcBytes_eq (crc : BitVec 32) (bytes : List Byte) :
    crcBytes crc bytes = CyclicCheck.check crcPolynomial crc (bytesBits bytes) := by
  induction bytes generalizing crc with
  | nil => rfl
  | cons byte bytes ih =>
    have hbyte : crcBits crc (byte.setWidth 32) 8 =
        CyclicCheck.check crcPolynomial crc (msbBits 8 byte.toNat) := by
      rw [crcBits_eq, BitVec.toNat_setWidth_of_le (by decide)]
    rw [bytesBits_cons, CyclicCheck.check_append, ← hbyte, ← ih]
    rfl

theorem crc_header (header : List Byte) :
    (List.range header.length).foldl
      (fun crc i =>
        let byte := if i = hdrEarlyAck then 0 else header.getD i 0
        crcBits crc (byte.setWidth 32) 8) crcInit = crcBytes crcInit (countedHeader header) := by
  have hbytes : countedHeader header =
      (List.range header.length).map fun i => if i = hdrEarlyAck then 0 else header.getD i 0 := by
    refine List.ext_getElem (by rw [countedHeader, List.length_set, List.length_map, List.length_range])
      fun i hi hi' => ?_
    rw [countedHeader, List.length_set] at hi
    simp only [countedHeader, List.getElem_map, List.getElem_range, List.getElem_set,
      List.getD_eq_getElem _ _ hi, eq_comm (a := hdrEarlyAck)]
  rw [hbytes, crcBytes, List.foldl_map]

/-- THE FRAME CHECK is that of the covered bits. -/
theorem frameCrc_eq (header data : List Byte) :
    frameCrc header data = CyclicCheck.check crcPolynomial 0 (coveredBits header data) := by
  have hsymbol : (Oob.separator.symbol.setWidth 32).toNat = Oob.separator.symbol.toNat := rfl
  rw [frameCrc, crc_header, crcBits_eq, hsymbol, crcBytes_eq, crcBits_eq, hsymbol, crcBytes_eq, coveredBits,
    CyclicCheck.check_append, CyclicCheck.check_append, CyclicCheck.check_append]
  rfl

/-! ## Corruption -/

section Corruption

variable {header header' data data' : List Byte}

theorem length_coveredBits (header data : List Byte) :
    (coveredBits header data).length = 8 * header.length + 8 * data.length + 18 := by
  have hsymbol : (symbolBits Oob.separator.symbol).length = 9 := rfl
  rw [coveredBits, List.length_append, List.length_append, List.length_append, length_bytesBits,
    length_bytesBits, countedHeader, List.length_set, hsymbol]
  omega

/-- A covered byte differs: one of the header's other than the early acknowledge, or one of the data's. -/
def Corrupted (header header' data data' : List Byte) : Prop :=
  (∃ i, i ≠ hdrEarlyAck ∧ header[i]? ≠ header'[i]?) ∨ data ≠ data'

theorem bytesBits_injective {as bs : List Byte} (h : bytesBits as = bytesBits bs) : as = bs := by
  induction as generalizing bs with
  | nil =>
    cases bs with
    | nil => rfl
    | cons byte bs =>
      have hlength := congrArg List.length h
      rw [length_bytesBits, length_bytesBits, List.length_cons] at hlength
      exact absurd hlength (by simp)
  | cons byte as ih =>
    cases bs with
    | nil =>
      have hlength := congrArg List.length h
      rw [length_bytesBits, length_bytesBits, List.length_cons] at hlength
      exact absurd hlength (by simp)
    | cons byte' bs =>
      rw [bytesBits_cons, bytesBits_cons] at h
      obtain ⟨hbyte, hrest⟩ := List.append_inj h (by rw [length_msbBits, length_msbBits])
      have htoNat := congrArg ofMsbBits hbyte
      rw [ofMsbBits_msbBits_of_lt byte.isLt, ofMsbBits_msbBits_of_lt byte'.isLt] at htoNat
      rw [BitVec.eq_of_toNat_eq htoNat, ih hrest]

theorem coveredBits_ne (hheader : header'.length = header.length) (hcorrupted : Corrupted header header' data data') :
    coveredBits header data ≠ coveredBits header' data' := by
  intro heq
  have hcounted : (bytesBits (countedHeader header)).length = (bytesBits (countedHeader header')).length := by
    rw [length_bytesBits, length_bytesBits, countedHeader, countedHeader, List.length_set, List.length_set,
      hheader]
  obtain ⟨hfirst, hrest⟩ := List.append_inj heq hcounted
  have hdata : data = data' := by
    have hsecond := List.append_cancel_left hrest
    exact bytesBits_injective (List.append_cancel_right hsecond)
  obtain ⟨i, hi, hne⟩ | hne := hcorrupted
  · have hset := congrArg (·[i]?) (bytesBits_injective hfirst)
    simp only [countedHeader, List.getElem?_set_ne (Ne.symm hi)] at hset
    exact hne hset
  · exact hne hdata

/-- THE FRAME CHECK SEES every corruption of the covered bytes, with the lengths as they were, that lies in
32 consecutive covered bits or flips an odd number of them; and it does not see the early acknowledge
byte. -/
theorem frame_check_sees (header data : List Byte) :
    (∀ header' data', header'.length = header.length → data'.length = data.length →
      Corrupted header header' data data' →
        ((∃ start, ∀ i, (coveredBits header data)[i]? ≠ (coveredBits header' data')[i]? →
            start ≤ i ∧ i < start + 32) ∨
          (CyclicCheck.errors (coveredBits header data) (coveredBits header' data')).count true % 2 = 1) →
        frameCrc header' data' ≠ frameCrc header data) ∧
      ∀ field, frameCrc (header.set hdrEarlyAck field) data = frameCrc header data := by
  refine ⟨fun header' data' hheader hdata hcorrupted hkind heq => ?_, frameCrc_setEarlyAck header data⟩
  have hlength : (coveredBits header data).length = (coveredBits header' data').length := by
    rw [length_coveredBits, length_coveredBits, hheader, hdata]
  have hcheck : CyclicCheck.check crcPolynomial 0
      (CyclicCheck.errors (coveredBits header data) (coveredBits header' data')) = 0 := by
    have hxor := CyclicCheck.check_xor crcPolynomial hlength 0 0
    rwa [BitVec.xor_self, ← frameCrc_eq, ← frameCrc_eq, heq, BitVec.xor_self] at hxor
  obtain ⟨start, hconfined⟩ | hodd := hkind
  · refine coveredBits_ne hheader hcorrupted (List.ext_getElem hlength fun i hi hi' => ?_)
    have herrors : i < (CyclicCheck.errors (coveredBits header data) (coveredBits header' data')).length := by
      rw [CyclicCheck.errors, List.length_zipWith]
      omega
    have hbounds (j : Nat) (hj : j < (CyclicCheck.errors (coveredBits header data)
        (coveredBits header' data')).length) (htrue : (CyclicCheck.errors (coveredBits header data)
        (coveredBits header' data'))[j] = true) : start ≤ j ∧ j < start + 32 := by
      refine hconfined j fun hsame => ?_
      rw [CyclicCheck.errors, List.length_zipWith] at hj
      rw [List.getElem?_eq_getElem (by omega), List.getElem?_eq_getElem (by omega), Option.some_inj] at hsame
      simp [CyclicCheck.errors, hsame] at htrue
    have hfalse := CyclicCheck.check_confined (by decide) hbounds hcheck _ (List.getElem_mem herrors)
    simpa [CyclicCheck.errors] using hfalse
  · exact CyclicCheck.check_odd crcPolynomial (by decide) hodd hcheck

/-- A flipped bit of the last header byte of a bare header. -/
theorem frame_check_sees_bit :
    frameCrc (List.replicate 11 0 ++ [1]) [] ≠ frameCrc (List.replicate 12 0) [] :=
  (frame_check_sees (List.replicate 12 0) []).1 (List.replicate 11 0 ++ [1]) [] rfl rfl
    (.inl ⟨11, by decide, by decide⟩) (.inr (by decide))

end Corruption

end Apollo.Ring
