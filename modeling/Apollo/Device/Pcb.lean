import Mathlib
import Apollo.Lib.Recent

/-!
# PCB transport

The PCBs of `src/core/device/ap_3c505.c`, a byte at a time through the command register. A PCB is
its command, the length of its data and the data; behind it comes its total length, by which the
receiver finds where it began in a ring of 64 bytes.

The ring has as many bytes as the largest PCB, and the total length goes into it as well: it falls
on the command of a PCB of the largest size. THE TRANSPORT IS A ROUND TRIP EXACTLY for the others,
and for a largest one whose command is the total length itself.
-/

namespace Apollo.Device

open Lib

/-- `AP_3C505_PCB_LENGTH_MAX`. -/
def pcbLengthMax : Nat := 62

/-- `AP_3C505_PCB_MAX`. -/
def pcbMax : Nat := 64

/-- `ap_3c505_pcb_t`: the command, and as much of the data field as its length counts. -/
structure Pcb where
  command : BitVec 8
  data : List (BitVec 8)
  fits : data.length ≤ pcbLengthMax
deriving DecidableEq

namespace Pcb

/-- The length field. -/
def length (pcb : Pcb) : BitVec 8 := BitVec.ofNat 8 pcb.data.length

/-- `ap_3c505_pcb_total_length`. -/
def totalLength (pcb : Pcb) : BitVec 8 := pcb.length + 2

/-- The command, the length and the data. -/
def bytes (pcb : Pcb) : List (BitVec 8) := pcb.command :: pcb.length :: pcb.data

theorem toNat_length (pcb : Pcb) : pcb.length.toNat = pcb.data.length := by
  have hfits : pcb.data.length ≤ 62 := pcb.fits
  rw [length, BitVec.toNat_ofNat, Nat.mod_eq_of_lt (by omega)]

theorem toNat_totalLength (pcb : Pcb) : pcb.totalLength.toNat = pcb.data.length + 2 := by
  have hfits : pcb.data.length ≤ 62 := pcb.fits
  rw [totalLength, BitVec.toNat_add, toNat_length, show (2 : BitVec 8).toNat = 2 from rfl,
    Nat.mod_eq_of_lt (by omega)]

theorem length_bytes (pcb : Pcb) : pcb.bytes.length = pcb.data.length + 2 := rfl

/-- A PCB of this data, if the data field can hold it. -/
def build (command : BitVec 8) (data : List (BitVec 8)) : Option Pcb :=
  if h : data.length ≤ pcbLengthMax then some ⟨command, data, h⟩ else none

theorem build_eq_some {command : BitVec 8} {data : List (BitVec 8)} {pcb : Pcb}
    (h : build command data = some pcb) : data.length ≤ pcbLengthMax := by
  unfold build at h
  split at h
  · assumption
  · exact nomatch h

end Pcb

/-! ## Receiving -/

/-- `ap_3c505_pcb_rx_t`. -/
abbrev PcbRx := Recent (BitVec 8) 64

/-- `ap_3c505_pcb_rx_reset`. -/
def pcbRxReset : PcbRx := Recent.empty 0

/-- `ap_3c505_pcb_rx_byte`. -/
def pcbRxByte (rx : PcbRx) (byte : BitVec 8) : PcbRx := rx.push (2 ^ 32) byte

/-- `ap_3c505_pcb_rx_end`: the PCB that the last byte, as a total length, names. -/
def pcbRxEnd (rx : PcbRx) : Option Pcb :=
  if rx.written = 0 then none
  else
    let total := (rx.cell (rx.written - 1)).toNat
    if total < 2 ∨ pcbMax < total then none
    else if rx.written < total + 1 then none
    else
      let start := rx.written - 1 - total
      let length := (rx.cell (start + 1)).toNat
      if length + 2 ≠ total then none
      else Pcb.build (rx.cell start) ((List.range length).map fun i => rx.cell (start + 2 + i))

/-- The receiver fed a stream. -/
def received (stream : List (BitVec 8)) : PcbRx := stream.foldl pcbRxByte pcbRxReset

/-! ## Sending -/

/-- `ap_3c505_pcb_tx_t`. -/
structure PcbTx where
  pcb : Pcb
  sent : Nat
  active : Bool
deriving DecidableEq

/-- `ap_3c505_pcb_tx_start`. -/
def pcbTxStart (pcb : Pcb) : PcbTx := ⟨pcb, 0, true⟩

/-- The byte that is next, if the PCB has one more. -/
def PcbTx.value (tx : PcbTx) : Option (BitVec 8) :=
  if tx.sent = 0 then some tx.pcb.command
  else if tx.sent = 1 then some tx.pcb.length
  else tx.pcb.data[tx.sent - 2]?

/-- `ap_3c505_pcb_tx_next`. -/
def pcbTxNext (tx : PcbTx) : Option (BitVec 8) × PcbTx :=
  if !tx.active then (none, tx)
  else
    match tx.value with
    | none => (none, { tx with active := false })
    | some value =>
      (some value,
        { tx with
          sent := tx.sent + 1
          active := tx.sent + 1 < tx.pcb.length.toNat + 2 })

/-- The bytes of a sender, as many as it has and no more than given. -/
def pcbTxBytes : Nat → PcbTx → List (BitVec 8)
  | 0, _ => []
  | limit + 1, tx =>
    match pcbTxNext tx with
    | (none, _) => []
    | (some byte, tx) => byte :: pcbTxBytes limit tx

theorem PcbTx.value_eq (tx : PcbTx) : tx.value = tx.pcb.bytes[tx.sent]? := by
  unfold PcbTx.value Pcb.bytes
  match tx.sent with
  | 0 => rfl
  | 1 => rfl
  | sent + 2 => simp

theorem pcbTxNext_of_done {tx : PcbTx} (hactive : tx.active = false) :
    pcbTxNext tx = (none, tx) := by
  rw [pcbTxNext, hactive]
  rfl

theorem pcbTxNext_of_lt {tx : PcbTx} (hactive : tx.active = true)
    (hsent : tx.sent < tx.pcb.bytes.length) :
    pcbTxNext tx = (some tx.pcb.bytes[tx.sent],
      { tx with sent := tx.sent + 1, active := tx.sent + 1 < tx.pcb.bytes.length }) := by
  rw [pcbTxNext, hactive, tx.value_eq, List.getElem?_eq_getElem hsent, Pcb.toNat_length,
    Pcb.length_bytes]
  rfl

theorem pcbTxBytes_eq {tx : PcbTx} {limit : Nat} (hactive : tx.active = true)
    (hsent : tx.sent < tx.pcb.bytes.length) (hlimit : tx.pcb.bytes.length ≤ tx.sent + limit) :
    pcbTxBytes limit tx = tx.pcb.bytes.drop tx.sent := by
  induction limit generalizing tx with
  | zero => omega
  | succ limit ih =>
    rw [pcbTxBytes, pcbTxNext_of_lt hactive hsent, List.drop_eq_getElem_cons hsent]
    dsimp only
    congr 1
    by_cases hmore : tx.sent + 1 < tx.pcb.bytes.length
    · exact @ih { tx with sent := tx.sent + 1, active := tx.sent + 1 < tx.pcb.bytes.length }
        (decide_eq_true hmore) hmore (by dsimp only; omega)
    · rw [List.drop_eq_nil_of_le (by omega)]
      cases limit with
      | zero => rfl
      | succ limit =>
        rw [pcbTxBytes, pcbTxNext]
        simp [hmore]

/-- THE SENDER SENDS THE BYTES OF ITS PCB. -/
theorem pcbTxBytes_start (pcb : Pcb) {limit : Nat} (hlimit : pcbMax ≤ limit) :
    pcbTxBytes limit (pcbTxStart pcb) = pcb.bytes := by
  have hfits : pcb.data.length ≤ 62 := pcb.fits
  have hmax : 64 ≤ limit := hlimit
  have hlength := pcb.length_bytes
  refine (@pcbTxBytes_eq (pcbTxStart pcb) limit rfl ?_ ?_).trans rfl
  · show 0 < pcb.bytes.length
    omega
  · show pcb.bytes.length ≤ 0 + limit
    omega

/-! ## The round trip -/

theorem written_received (stream : List (BitVec 8)) :
    (received stream).written = stream.length % 2 ^ 32 := Recent.written_remember ..

theorem cell_received {before rest : List (BitVec 8)} {k place : Nat} {byte : BitVec 8}
    (hbyte : rest[k]? = some byte) (hrecent : rest.length ≤ k + 64)
    (hplace : place % 64 = (before.length + k) % 64) :
    (received (before ++ rest)).cell place = byte := by
  rw [Recent.cell_congr _ hplace]
  refine Recent.cell_remember (by decide) ?_ ?_
  · rw [List.getElem?_append_right (by omega), Nat.add_sub_cancel_left, hbyte]
  · rw [List.length_append]
    omega

/-- What the receiver makes of a PCB: the total length falls on the command of a largest one. -/
def Pcb.overlaid (pcb : Pcb) : Pcb :=
  { pcb with command := if pcb.data.length = pcbLengthMax then pcb.totalLength else pcb.command }

/-- What follows a PCB's first byte, with the total length behind it. -/
def Pcb.framed (pcb : Pcb) : List (BitVec 8) := pcb.bytes ++ [pcb.totalLength]

theorem Pcb.length_framed (pcb : Pcb) : pcb.framed.length = pcb.data.length + 3 := by
  rw [framed, List.length_append, length_bytes, List.length_singleton]

theorem pcbRxEnd_framed (before : List (BitVec 8)) (pcb : Pcb)
    (hcounted : pcb.data.length + 3 ≤ (before ++ pcb.framed).length % 2 ^ 32) :
    pcbRxEnd (received (before ++ pcb.framed)) = some pcb.overlaid := by
  have hfits : pcb.data.length ≤ 62 := pcb.fits
  have hframed := pcb.length_framed
  have hlength : (before ++ pcb.framed).length = before.length + (pcb.data.length + 3) := by
    rw [List.length_append, hframed]
  rw [hlength] at hcounted
  have hwritten : (received (before ++ pcb.framed)).written =
      (before.length + (pcb.data.length + 3)) % 2 ^ 32 := by
    rw [written_received, hlength]
  have hlast : pcb.framed[pcb.data.length + 2]? = some pcb.totalLength := by
    rw [Pcb.framed, List.getElem?_append_right (by rw [Pcb.length_bytes]), Pcb.length_bytes,
      Nat.sub_self]
    rfl
  have htotal : (received (before ++ pcb.framed)).cell
      ((before.length + (pcb.data.length + 3)) % 2 ^ 32 - 1) = pcb.totalLength :=
    cell_received hlast (by omega) (by omega)
  have hbody : (received (before ++ pcb.framed)).cell
      ((before.length + (pcb.data.length + 3)) % 2 ^ 32 - 1 - (pcb.data.length + 2) + 1) =
        pcb.length :=
    cell_received (k := 1) rfl (by omega) (by omega)
  -- the first byte is recent unless the total length has come round to it
  have hfirst : (received (before ++ pcb.framed)).cell
      ((before.length + (pcb.data.length + 3)) % 2 ^ 32 - 1 - (pcb.data.length + 2)) =
        pcb.overlaid.command := by
    unfold Pcb.overlaid pcbLengthMax
    by_cases hlargest : pcb.data.length = 62
    · rw [if_pos hlargest]
      exact cell_received hlast (by omega) (by omega)
    · rw [if_neg hlargest]
      exact cell_received (k := 0) rfl (by omega) (by omega)
  have hdata : (List.range pcb.data.length).map (fun i => (received (before ++ pcb.framed)).cell
      ((before.length + (pcb.data.length + 3)) % 2 ^ 32 - 1 - (pcb.data.length + 2) + 2 + i)) =
        pcb.data := by
    refine List.ext_getElem (by simp) fun i hi hdata => ?_
    rw [List.getElem_map, List.getElem_range]
    refine cell_received (k := i + 2) ?_ (by omega) (by omega)
    rw [Pcb.framed, List.getElem?_append_left (by rw [Pcb.length_bytes]; omega), Pcb.bytes]
    simp
  have hsize := pcb.toNat_length
  have htotalNat := pcb.toNat_totalLength
  unfold pcbRxEnd
  rw [hwritten]
  dsimp only
  rw [if_neg (by omega), htotal, htotalNat, if_neg (by unfold pcbMax; omega), if_neg (by omega),
    hbody, hsize, if_neg (by omega), hfirst, hdata]
  exact dif_pos pcb.fits

theorem exists_of_pcbRxEnd {stream : List (BitVec 8)} {pcb : Pcb}
    (h : pcbRxEnd (received stream) = some pcb) :
    ∃ (before : List (BitVec 8)) (sent : Pcb), stream = before ++ sent.framed ∧
      sent.data.length + 3 ≤ stream.length % 2 ^ 32 ∧ pcb = sent.overlaid := by
  have haccepted := h
  unfold pcbRxEnd at h
  rw [written_received] at h
  dsimp only at h
  split_ifs at h with hempty hrange hshort hlength
  have hfits := Pcb.build_eq_some h
  rw [List.length_map, List.length_range] at hfits
  generalize htotal : ((received stream).cell (stream.length % 2 ^ 32 - 1)).toNat = total at *
  have hle : stream.length % 2 ^ 32 ≤ stream.length := Nat.mod_le _ _
  unfold pcbMax at hrange
  have hsplit : stream = stream.take (stream.length - 1 - total) ++
      stream.drop (stream.length - 1 - total) := (List.take_append_drop _ _).symm
  have hbefore : (stream.take (stream.length - 1 - total)).length = stream.length - 1 - total :=
    List.length_take_of_le (by omega)
  have hrest : (stream.drop (stream.length - 1 - total)).length = total + 1 := by
    rw [List.length_drop]
    omega
  generalize stream.take (stream.length - 1 - total) = before at hsplit hbefore
  generalize stream.drop (stream.length - 1 - total) = rest at hsplit hrest
  match rest, hrest with
  | [], hrest => exact absurd hrest (by rw [List.length_nil]; omega)
  | [_], hrest => exact absurd hrest (by rw [List.length_singleton]; omega)
  | command :: length :: more, hrest =>
    have hmore : more.length = total - 1 := by
      rw [List.length_cons, List.length_cons] at hrest
      omega
    have hmoreNil : more ≠ [] := by
      intro hnil
      rw [hnil, List.length_nil] at hmore
      omega
    have hmoreSplit := (List.dropLast_append_getLast hmoreNil).symm
    have hdata : more.dropLast.length = total - 2 := by
      rw [List.length_dropLast, hmore]
      omega
    generalize more.getLast hmoreNil = last at hmoreSplit
    generalize more.dropLast = data at hmoreSplit hdata
    have hlastCell : (received stream).cell (stream.length % 2 ^ 32 - 1) = last := by
      have hplace : (stream.length % 2 ^ 32 - 1) % 64 = (before.length + total) % 64 := by
        omega
      rw [hsplit]
      rw [hsplit] at hplace
      refine cell_received ?_ (by rw [hrest]; omega) hplace
      rw [hmoreSplit, show total = data.length + 2 by omega]
      simp
    have hlengthCell : (received stream).cell (stream.length % 2 ^ 32 - 1 - total + 1) = length := by
      have hplace : (stream.length % 2 ^ 32 - 1 - total + 1) % 64 = (before.length + 1) % 64 := by
        omega
      rw [hsplit]
      rw [hsplit] at hplace
      exact cell_received rfl (by rw [hrest]; omega) hplace
    have hlengthNat : length.toNat = data.length := by
      rw [hlengthCell] at hlength
      omega
    have hlastNat : last.toNat = data.length + 2 := by
      rw [hlastCell] at htotal
      omega
    have hsent : data.length ≤ pcbLengthMax := by
      rw [hlengthCell, hlengthNat] at hfits
      exact hfits
    let sent : Pcb := ⟨command, data, hsent⟩
    have hlengthByte : sent.length = length :=
      BitVec.eq_of_toNat_eq (sent.toNat_length.trans hlengthNat.symm)
    have htotalByte : sent.totalLength = last :=
      BitVec.eq_of_toNat_eq (sent.toNat_totalLength.trans hlastNat.symm)
    have hstream : stream = before ++ sent.framed := by
      rw [hsplit, hmoreSplit, Pcb.framed, Pcb.bytes, hlengthByte, htotalByte]
      rfl
    have hcounted : sent.data.length + 3 ≤ stream.length % 2 ^ 32 := by
      show data.length + 3 ≤ stream.length % 2 ^ 32
      omega
    refine ⟨before, sent, hstream, hcounted, ?_⟩
    rw [hstream, pcbRxEnd_framed before sent (hstream ▸ hcounted)] at haccepted
    exact (Option.some.inj haccepted).symm

theorem Pcb.overlaid_eq_iff (pcb : Pcb) :
    pcb.overlaid = pcb ↔ pcb.data.length < pcbLengthMax ∨ pcb.command = 0x40 := by
  have hfits : pcb.data.length ≤ pcbLengthMax := pcb.fits
  unfold overlaid
  by_cases hlargest : pcb.data.length = pcbLengthMax
  · have htotal : pcb.totalLength = 0x40 := by
      rw [totalLength, length, hlargest]
      rfl
    rw [if_pos hlargest, htotal]
    constructor
    · intro heq
      exact Or.inr (congrArg Pcb.command heq).symm
    · rintro (hlt | hcommand)
      · omega
      · rw [← hcommand]
  · rw [if_neg hlargest]
    exact iff_of_true rfl (Or.inl (by omega))

/-- The stream ends with a largest PCB whose command the total length overwrites: a command byte
other than 0x40, the length, 62 bytes of data and the total length, all of them counted. -/
def EndsOverlaid (stream : List (BitVec 8)) : Prop :=
  ∃ (before : List (BitVec 8)) (command : BitVec 8) (data : List (BitVec 8)),
    data.length = pcbLengthMax ∧ command ≠ 0x40 ∧
      stream = before ++ command :: 62 :: data ++ [0x40] ∧ 65 ≤ stream.length % 2 ^ 32

theorem endsOverlaid_iff (stream : List (BitVec 8)) :
    EndsOverlaid stream ↔ ∃ (before : List (BitVec 8)) (sent : Pcb),
      stream = before ++ sent.framed ∧ sent.data.length + 3 ≤ stream.length % 2 ^ 32 ∧
        sent.overlaid ≠ sent := by
  constructor
  · rintro ⟨before, command, data, hlargest, hcommand, hstream, hcounted⟩
    refine ⟨before, ⟨command, data, hlargest.le⟩, ?_, ?_, ?_⟩
    · rw [hstream, Pcb.framed, Pcb.bytes, Pcb.totalLength, Pcb.length]
      dsimp only
      rw [hlargest, List.append_assoc]
      rfl
    · dsimp only
      rw [hlargest]
      exact hcounted
    · rw [Ne, Pcb.overlaid_eq_iff]
      rintro (hlt | heq)
      · exact absurd hlargest (Nat.ne_of_lt hlt)
      · exact hcommand heq
  · rintro ⟨before, sent, hstream, hcounted, hoverlaid⟩
    rw [Ne, Pcb.overlaid_eq_iff, not_or, Nat.not_lt] at hoverlaid
    have hlargest : sent.data.length = pcbLengthMax := Nat.le_antisymm sent.fits hoverlaid.1
    refine ⟨before, sent.command, sent.data, hlargest, hoverlaid.2, ?_, ?_⟩
    · rw [hstream, Pcb.framed, Pcb.bytes, Pcb.totalLength, Pcb.length, hlargest, List.append_assoc]
      rfl
    · rw [hlargest] at hcounted
      exact hcounted

theorem pcbRxEnd_iff {stream : List (BitVec 8)} (hends : ¬ EndsOverlaid stream)
    (hcounted : stream.length < 2 ^ 32) (pcb : Pcb) :
    pcbRxEnd (received stream) = some pcb ↔ ∃ before, stream = before ++ pcb.framed := by
  rw [endsOverlaid_iff] at hends
  have hmod : stream.length % 2 ^ 32 = stream.length := Nat.mod_eq_of_lt hcounted
  constructor
  · intro haccepted
    obtain ⟨before, sent, hstream, hcount, hpcb⟩ := exists_of_pcbRxEnd haccepted
    have hsame : sent.overlaid = sent := by
      by_contra hoverlaid
      exact hends ⟨before, sent, hstream, hcount, hoverlaid⟩
    exact ⟨before, by rw [hpcb, hsame, ← hstream]⟩
  · rintro ⟨before, hstream⟩
    have hcount : pcb.data.length + 3 ≤ stream.length % 2 ^ 32 := by
      rw [hmod, hstream, List.length_append, pcb.length_framed]
      omega
    have hsame : pcb.overlaid = pcb := by
      by_contra hoverlaid
      exact hends ⟨before, pcb, hstream, hcount, hoverlaid⟩
    rw [hstream] at hcount ⊢
    rw [pcbRxEnd_framed before pcb hcount, hsame]

/-- THE TRANSPORT OF A PCB. What the sender sends and the total length, after any fewer than 2^31
stray bytes, are received as that PCB exactly when its data is shorter than the field or its command
is the total length. A stream that is accepted ends with the PCB it is accepted as, exactly when it
does not end with a largest PCB of another command. -/
theorem transport_iff (pcb : Pcb) (stray stream : List (BitVec 8)) (limit : Nat) :
    (stray.length < 2 ^ 31 → pcbMax ≤ limit →
      (pcbRxEnd (received (stray ++ pcbTxBytes limit (pcbTxStart pcb) ++ [pcb.totalLength])) =
          some pcb ↔
        pcb.data.length < pcbLengthMax ∨ pcb.command = 0x40)) ∧
    ((∀ pcb, pcbRxEnd (received stream) = some pcb → ∃ before, stream = before ++ pcb.framed) ↔
      ¬ EndsOverlaid stream) := by
  refine ⟨fun hstray hlimit => ?_, ?_⟩
  · have hfits : pcb.data.length ≤ 62 := pcb.fits
    have hcounted : pcb.data.length + 3 ≤ (stray ++ pcb.framed).length % 2 ^ 32 := by
      rw [List.length_append, Pcb.length_framed]
      omega
    rw [pcbTxBytes_start pcb hlimit, List.append_assoc]
    show pcbRxEnd (received (stray ++ pcb.framed)) = some pcb ↔ _
    rw [pcbRxEnd_framed stray pcb hcounted, Option.some.injEq, Pcb.overlaid_eq_iff]
  · rw [endsOverlaid_iff]
    constructor
    · rintro hall ⟨before, sent, hstream, hcounted, hoverlaid⟩
      have haccepted : pcbRxEnd (received stream) = some sent.overlaid := by
        rw [hstream, pcbRxEnd_framed before sent (hstream ▸ hcounted)]
      obtain ⟨other, hother⟩ := hall _ haccepted
      -- both framings have the same length, so they are the same bytes
      have hframed : sent.framed = sent.overlaid.framed :=
        List.append_inj_right' (hstream.symm.trans hother)
          (by rw [Pcb.length_framed, Pcb.length_framed]; rfl)
      have hcommand : sent.command = sent.overlaid.command := (List.cons.inj hframed).1
      refine hoverlaid ?_
      rw [Pcb.overlaid] at hcommand ⊢
      dsimp only at hcommand
      rw [← hcommand]
    · intro hnone pcb haccepted
      obtain ⟨before, sent, hstream, hcounted, hpcb⟩ := exists_of_pcbRxEnd haccepted
      refine ⟨before, ?_⟩
      by_cases hoverlaid : sent.overlaid = sent
      · rw [hpcb, hoverlaid]
        exact hstream
      · exact absurd ⟨before, sent, hstream, hcounted, hoverlaid⟩ hnone

/-- A short response behind a stray byte. -/
theorem transport_short :
    pcbRxEnd (received ([0x11] ++ pcbTxBytes pcbMax (pcbTxStart ⟨0x31, [0, 0], by decide⟩) ++ [4])) =
      some ⟨0x31, [0, 0], by decide⟩ :=
  ((transport_iff ⟨0x31, [0, 0], by decide⟩ [0x11] [] pcbMax).1 (by decide) le_rfl).2
    (Or.inl (by decide))

/-- A largest PCB of command 0x03, received after no stray byte, has command 0x40. -/
theorem transport_largest :
    pcbRxEnd (received (pcbTxBytes pcbMax (pcbTxStart ⟨0x03, List.replicate 62 0, by decide⟩) ++
      [0x40])) = some ⟨0x40, List.replicate 62 0, by decide⟩ := by
  decide +kernel

end Apollo.Device
