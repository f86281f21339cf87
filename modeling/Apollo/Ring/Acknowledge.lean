import Apollo.Ring.StationReceive

/-!
# What a transmitter reads back

A station that strips its own frame keeps the late acknowledge that comes back with it
(`ap_ring_station_transmit_ack`). What it keeps is not the byte that arrived but the byte
it sends on: the rewriting that a receiver does runs for its own frames too, so a
broadcast nobody copied is read back as copied (`not_readsBack_broadcast`).

`Overheard` notes the late acknowledge's bits as they arrive, in any run of calls.
`readsBack_iff` is exactly when the byte kept is the byte that arrived: when the arriving
byte already carries all that this station would write into it.
-/

namespace Apollo.Ring

open Apollo.Lib

/-! ## A late acknowledge that a station leaves alone -/

/-- An arriving late acknowledge in which a station finds nothing to change. -/
def carriesOwn (addressed enabled error : Bool) (field : Byte) : Bool :=
  (!addressed || (field.getLsbD 3 && (if enabled then field.getLsbD 6 else field.getLsbD 5))) &&
    (!error || field.getLsbD 2) && (field.getLsbD 1 == (popcount8 (field &&& 0xFC) % 2 == 0))

theorem lateSent_eq_self_iff (addressed enabled error : Bool) (field : Byte) :
    Receiver.lateSent addressed enabled error field = field ↔
      carriesOwn addressed enabled error field = true := by
  have key : ∀ n < 256, ∀ addressed enabled error : Bool,
      (Receiver.lateSent addressed enabled error (BitVec.ofNat 8 n) = BitVec.ofNat 8 n ↔
        carriesOwn addressed enabled error (BitVec.ofNat 8 n) = true) := by decide +kernel
  have h := key field.toNat field.isLt addressed enabled error
  rwa [BitVec.ofNat_toNat, BitVec.setWidth_eq] at h

namespace Receiver

/-! ## The field, bit by bit -/

theorem lateStep_before_error (addressed enabled error error' : Bool) {s : Byte × Nat}
    (hs : s.2 ≠ 5) (bit : Bool) :
    lateStep addressed enabled error s bit = lateStep addressed enabled error' s bit := by
  obtain ⟨late, n⟩ := s
  have hn : (n == 5) = false := beq_eq_false_iff_ne.mpr hs
  simp only [lateStep, lateOut, hn, Bool.and_false, Bool.false_eq_true, if_false]

/-- What a receiver inside a late acknowledge holds, if `bits` have arrived of it. The error
flag counts as it stood when the error bit came. -/
structure HoldsLate (r : Receiver) (bits : List Bool) (error : Bool) : Prop where
  count : r.lateBits = bits.length
  room : bits.length < 8
  field : ∀ error', bits.length ≤ 5 ∨ error' = error →
    (transduce (lateStep r.addressed r.receiveEnabled error') (0, 0) bits).1 =
      (r.late, bits.length)

theorem lateOut_eq (r : Receiver) (bit : Bool) : r.lateOut bit =
    (lateStep r.addressed r.receiveEnabled r.frameError (r.late, r.lateBits) bit).2 := rfl

theorem HoldsLate.step {r : Receiver} {bits : List Bool} {error : Bool}
    (h : r.HoldsLate bits error) (bit : Bool) :
    let error' := if bits.length = 5 then r.frameError else error
    ∀ error'', bits.length + 1 ≤ 5 ∨ error'' = error' →
      (transduce (lateStep r.addressed r.receiveEnabled error'') (0, 0) (bits ++ [bit])).1 =
        (shiftBit r.late (r.lateOut bit), bits.length + 1) := by
  intro error' error'' herror
  have hpre : (transduce (lateStep r.addressed r.receiveEnabled error'') (0, 0) bits).1 =
      (r.late, bits.length) := by
    apply h.field
    by_cases hfive : bits.length ≤ 5
    · exact .inl hfive
    · right
      have hne : ¬ bits.length = 5 := by omega
      rcases herror with hlow | heq
      · omega
      · rw [heq]
        exact if_neg hne
  have hlast : lateStep r.addressed r.receiveEnabled error'' (r.late, bits.length) bit =
      ((shiftBit r.late (r.lateOut bit), bits.length + 1), r.lateOut bit) := by
    have hout : lateStep r.addressed r.receiveEnabled r.frameError (r.late, bits.length) bit =
        ((shiftBit r.late (r.lateOut bit), bits.length + 1), r.lateOut bit) := by
      rw [lateOut_eq, h.count]
      rfl
    by_cases hfive : bits.length = 5
    · have hsame : error'' = r.frameError := by
        rcases herror with hlow | heq
        · omega
        · rw [heq]
          exact if_pos hfive
      rw [hsame]
      exact hout
    · rw [lateStep_before_error _ _ error'' r.frameError hfive]
      exact hout
  rw [transduce_append, hpre, transduce_cons, transduce_nil, hlast]

/-- A received bit is one of the late acknowledge's. -/
def takesLate (r : Receiver) (symbol : Option Symbol) (bit : Bool) : Bool :=
  r.state == .late && symbol != some Oob.frameStart.symbol &&
    symbol != some Oob.separator.symbol && !(stuffAfterOnes ≤ r.onesRun && !bit)

/-- The bits of it that have arrived stand at the end of `arrived`, and before the first
of them the field is empty. -/
structure Follows (r : Receiver) (arrived : Byte) (error : Bool) : Prop where
  late : r.state = .late → r.HoldsLate (msbBits r.lateBits arrived.toNat) error
  fcs : r.state = .fcs → r.lateBits = 0 ∧ r.late = 0

theorem msbBits_shiftBit {n : Nat} (hn : n < 8) (arrived : Byte) (bit : Bool) :
    msbBits (n + 1) (shiftBit arrived bit).toNat = msbBits n arrived.toNat ++ [bit] := by
  have key : ∀ n < 8, ∀ v < 256, ∀ bit : Bool,
      msbBits (n + 1) (shiftBit (BitVec.ofNat 8 v) bit).toNat =
        msbBits n (BitVec.ofNat 8 v).toNat ++ [bit] := by decide +kernel
  have h := key n hn arrived.toNat arrived.isLt bit
  rwa [BitVec.ofNat_toNat, BitVec.setWidth_eq] at h

theorem step_takesLate {r : Receiver} {symbol : Option Symbol} {bit : Bool}
    (htakes : r.takesLate symbol bit = true) (stripping : Bool) :
    ∃ run, r.step stripping symbol bit = ({ r with onesRun := run } : Receiver).lateBit stripping bit := by
  simp only [takesLate, Bool.and_eq_true, beq_iff_eq, bne_iff_ne, Bool.not_eq_true'] at htakes
  obtain ⟨⟨⟨hstate, hstart⟩, hseparator⟩, hdue⟩ := htakes
  refine ⟨if bit then unsignedSucc r.onesRun else 0, ?_⟩
  have hbusy : ¬ (r.state = .idle ∨ r.state = .awaitSeparator) := by
    rw [hstate]
    rintro (h | h) <;> cases h
  unfold step
  rw [if_neg hstart, if_neg (fun h => hseparator h.1), if_neg hbusy]
  dsimp only
  rw [if_neg (by rw [hdue]; exact Bool.false_ne_true)]
  unfold dataBit
  rw [hstate]

/-- What any other bit can be: a character's last, one that is looked at no further, or a data
bit of another sequence. -/
theorem step_cases {r : Receiver} {symbol : Option Symbol} {bit : Bool}
    (htakes : r.takesLate symbol bit = false) (stripping : Bool) :
    r.step stripping symbol bit = (r.frameStart, bit, none) ∨
      r.step stripping symbol bit = (r.separator, bit, none) ∨
      (∃ run, r.step stripping symbol bit = ({ r with onesRun := run }, bit, none)) ∨
      ∃ run, r.TakesData ∧ r.state ≠ .late ∧
        r.step stripping symbol bit = ({ r with onesRun := run } : Receiver).dataBit stripping bit := by
  unfold step
  by_cases hstart : symbol = some Oob.frameStart.symbol
  · rw [if_pos hstart]
    exact .inl rfl
  rw [if_neg hstart]
  by_cases hseparator : symbol = some Oob.separator.symbol ∧ r.state ≠ .idle
  · rw [if_pos hseparator]
    exact .inr (.inl rfl)
  rw [if_neg hseparator]
  by_cases hwaits : r.state = .idle ∨ r.state = .awaitSeparator
  · rw [if_pos hwaits]
    exact .inr (.inr (.inl ⟨r.onesRun, rfl⟩))
  rw [if_neg hwaits]
  dsimp only
  by_cases hdue : (stuffAfterOnes ≤ r.onesRun && !bit) = true
  · rw [if_pos hdue]
    exact .inr (.inr (.inl ⟨_, rfl⟩))
  · rw [if_neg hdue]
    refine .inr (.inr (.inr ⟨_, not_or.mp hwaits, fun hstate => ?_, rfl⟩))
    have hsep : symbol ≠ some Oob.separator.symbol := fun heq =>
      hseparator ⟨heq, by rw [hstate]; exact RxState.noConfusion⟩
    rw [takesLate, hstate, bne_iff_ne.mpr hstart, bne_iff_ne.mpr hsep,
      Bool.eq_false_iff.mpr hdue] at htakes
    cases htakes

section Step

variable {r : Receiver} {arrived : Byte} {error : Bool} (h : r.Follows arrived error)
  (stripping : Bool) {symbol : Option Symbol} {bit : Bool}
include h

/-- A bit of the late acknowledge. The eighth completes it, with the byte that is sent on
for what arrived. -/
theorem Follows.step_late (htakes : r.takesLate symbol bit = true) :
    let error' := if r.lateBits == 5 then r.frameError else error
    (r.step stripping symbol bit).1.Follows (shiftBit arrived bit) error' ∧
      (r.step stripping symbol bit).2.2 =
        if r.lateBits = 7 then
          some (lateSent r.addressed r.receiveEnabled error' (shiftBit arrived bit))
        else none := by
  intro error'
  obtain ⟨run, heq⟩ := step_takesLate htakes stripping
  have hstate : r.state = .late := by
    simp only [takesLate, Bool.and_eq_true, beq_iff_eq] at htakes
    exact htakes.1.1.1
  have hlate := h.late hstate
  have hn : r.lateBits < 8 := by
    have := hlate.room
    rwa [length_msbBits] at this
  have hstep := hlate.step bit
  rw [length_msbBits, ← msbBits_shiftBit hn] at hstep
  have herror : (if r.lateBits = 5 then r.frameError else error) = error' := by
    simp only [error', beq_iff_eq]
  rw [herror] at hstep
  have hout : ({ r with onesRun := run } : Receiver).lateOut bit = r.lateOut bit := rfl
  rw [heq]
  unfold lateBit
  rw [hout]
  dsimp only
  by_cases hlast : r.lateBits = 7
  · have hwhole : shiftBit r.late (r.lateOut bit) =
        lateSent r.addressed r.receiveEnabled error' (shiftBit arrived bit) := by
      have hfield := hstep error' (.inr rfl)
      rw [hlast, transduce_lateStep] at hfield
      exact (congrArg Prod.fst hfield).symm
    rw [if_pos (by omega), if_pos hlast, hwhole]
    refine ⟨⟨fun h => ?_, fun h => ?_⟩, ?_⟩
    · cases h
    · cases h
    · split
      · split <;> rfl
      · rfl
  · rw [if_neg (by omega), if_neg hlast]
    refine ⟨⟨fun _ => ⟨?_, ?_, ?_⟩, fun h => ?_⟩, rfl⟩
    · rw [length_msbBits]
    · rw [length_msbBits]
      dsimp only
      omega
    · intro error'' herror''
      rw [length_msbBits] at herror'' ⊢
      exact hstep error'' herror''
    · rw [hstate] at h
      cases h

theorem Follows.step_other (htakes : r.takesLate symbol bit = false) :
    (r.step stripping symbol bit).1.Follows arrived error ∧
      (r.step stripping symbol bit).2.2 = none := by
  have hempty : ∀ (r' : Receiver) (out : Bool), r'.state ≠ .late → (r'.state = .fcs →
      r'.lateBits = 0 ∧ r'.late = 0) →
      ((r', out, none) : Receiver × Bool × Option Byte).1.Follows arrived error ∧
        ((r', out, none) : Receiver × Bool × Option Byte).2.2 = none :=
    fun r' _ hlate hfcs => ⟨⟨fun hstate => absurd hstate hlate, hfcs⟩, rfl⟩
  rcases step_cases htakes stripping with heq | heq | ⟨run, heq⟩ | ⟨run, htakesData, hnotLate, heq⟩
  · rw [heq]
    exact hempty _ _ RxState.noConfusion RxState.noConfusion
  · rw [heq]
    refine ⟨?_, rfl⟩
    unfold separator
    dsimp only
    split
    · split
      · exact ⟨nofun, fun _ => ⟨rfl, rfl⟩⟩
      · split <;> exact ⟨nofun, nofun⟩
    · split
      · exact ⟨nofun, fun _ => ⟨rfl, rfl⟩⟩
      · split <;> exact ⟨nofun, nofun⟩
  · rw [heq]
    refine ⟨⟨fun hstate => ?_, h.fcs⟩, rfl⟩
    obtain ⟨hcount, hroom, hfield⟩ := h.late hstate
    exact ⟨hcount, hroom, hfield⟩
  · rw [heq]
    unfold dataBit
    dsimp only
    cases hstate : r.state with
    | idle => exact absurd hstate htakesData.1
    | awaitSeparator => exact absurd hstate htakesData.2
    | late => exact absurd hstate hnotLate
    | header =>
      have hkept := keepsState_header.assembling { r with onesRun := run } bit
      rw [hstate] at hkept
      apply hempty
      · exact fun h => RxState.noConfusion (hkept.symm.trans h)
      · exact fun h => RxState.noConfusion (hkept.symm.trans h)
    | body =>
      have hkept := keepsState_body.assembling { r with onesRun := run } bit
      rw [hstate] at hkept
      apply hempty
      · exact fun h => RxState.noConfusion (hkept.symm.trans h)
      · exact fun h => RxState.noConfusion (hkept.symm.trans h)
    | fcs =>
      obtain ⟨hbits, hfield⟩ := h.fcs hstate
      dsimp only [fcsBit]
      split
      · refine ⟨⟨fun _ => ⟨?_, ?_, ?_⟩, nofun⟩, rfl⟩
        · rw [length_msbBits]
        · dsimp only
          rw [length_msbBits, hbits]
          decide
        · intro error' _
          dsimp only
          rw [hbits, hfield]
          rfl
      · exact ⟨⟨nofun, fun _ => ⟨hbits, hfield⟩⟩, rfl⟩

end Step

end Receiver

namespace Station

/-! ## Overhearing the acknowledge -/

/-- The station a received cell finds at its receive path, and the cell's bit. -/
def listening (s : Station) (cell : Cell) : Station × Bool :=
  let level := if s.rxLevelValid then s.rxLevel else !cell.clockWindow
  let (bit, error) := biphaseDecode cell level
  let s := if error then s.noteError else s
  (({ s with rxLevel := cell.trailingLevel, rxLevelValid := true }.shiftWindow
    bit).watchOwnFrame.watchTokens, bit)

theorem receiveCell_eq (s : Station) (cell : Cell) :
    s.receiveCell cell = (s.listening cell).1.followFrame (s.listening cell).2 := rfl

/-- A run of calls with what an observer notes: the bits of a late acknowledge as they
arrive, and the error flag as its error bit finds it. -/
structure Overheard where
  station : Station
  arrived : Byte := 0
  error : Bool := false

/-- A received cell that brings a bit of a late acknowledge. -/
def bringsLate (s : Station) (cell : Cell) : Bool :=
  (s.listening cell).1.rx.takesLate (s.listening cell).1.atSymbol (s.listening cell).2

/-- The observer's notes on one call. -/
def Overheard.call (w : Overheard) (c : Call) : Overheard :=
  match c with
  | .receive cell =>
    if w.station.bringsLate cell then
      { station := w.station.call c
        arrived := Receiver.shiftBit w.arrived (w.station.listening cell).2
        error :=
          if (w.station.listening cell).1.rx.lateBits == 5 then
            (w.station.listening cell).1.rx.frameError
          else w.error }
    else { w with station := w.station.call c }
  | c => { w with station := w.station.call c }

/-- A station fresh from its initialisation, overheard over a run. -/
def overhear (slot : Int) (address : BitVec 32) (enabled : Bool) (bits buffer : Option (List Byte))
    (capacity : Nat) (calls : List Call) : Overheard :=
  calls.foldl Overheard.call { station := attached slot address enabled bits buffer capacity }

/-- The last bit of a late acknowledge arrives, while the station strips the frame it has
seen the start of. -/
def endsOwnFrame (s : Station) (cell : Cell) : Bool :=
  s.bringsLate cell && (s.listening cell).1.rx.lateBits == 7 && (s.listening cell).1.stripping &&
    (s.listening cell).1.tx.seenOwnFrameStart

theorem rx_listening (s : Station) (cell : Cell) : (s.listening cell).1.rx = s.rx ∨
    (s.listening cell).1.rx = { s.rx with frameError := true } := by
  have hear : ∀ (s : Station) (bit : Bool),
      (s.shiftWindow bit).watchOwnFrame.watchTokens.rx = s.rx := fun s bit =>
    ((sameEar_watchOwnFrame (s.shiftWindow bit)).trans (sameEar_watchTokens _).1).rx
  unfold listening
  dsimp only
  rw [hear]
  cases (biphaseDecode cell (if s.rxLevelValid then s.rxLevel else !cell.clockWindow)).2 with
  | false => exact .inl rfl
  | true => exact .inr rfl

theorem Overheard.follows_listening {w : Overheard}
    (h : w.station.rx.Follows w.arrived w.error) (cell : Cell) :
    (w.station.listening cell).1.rx.Follows w.arrived w.error := by
  rcases w.station.rx_listening cell with hrx | hrx
  · rw [hrx]
    exact h
  · rw [hrx]
    refine ⟨fun hstate => ?_, h.fcs⟩
    obtain ⟨hcount, hroom, hfield⟩ := h.late hstate
    exact ⟨hcount, hroom, hfield⟩

theorem Overheard.follows_call {w : Overheard} (h : w.station.rx.Follows w.arrived w.error)
    (c : Call) : (w.call c).station.rx.Follows (w.call c).arrived (w.call c).error := by
  cases c with
  | receive cell =>
    have hlistening := w.follows_listening h cell
    have hrx : (w.station.call (.receive cell)).rx =
        ((w.station.listening cell).1.rx.step (w.station.listening cell).1.stripping
          (w.station.listening cell).1.atSymbol (w.station.listening cell).2).1 := by
      change (w.station.receiveCell cell).rx = _
      rw [receiveCell_eq, rx_followFrame]
    unfold Overheard.call
    dsimp only
    by_cases hbrings : w.station.bringsLate cell = true
    · rw [if_pos hbrings]
      dsimp only
      rw [hrx]
      exact (hlistening.step_late _ hbrings).1
    · rw [if_neg hbrings]
      dsimp only
      rw [hrx]
      exact (hlistening.step_other _ (Bool.eq_false_iff.mpr hbrings)).1
  | queueFrame fields =>
    change (w.station.queueFrame fields).2.rx.Follows w.arrived w.error
    rw [(w.station.sameEar_queueFrame fields).rx]
    exact h
  | originateToken symbol => exact h
  | drive =>
    change w.station.driveCell.2.rx.Follows w.arrived w.error
    rw [w.station.sameEar_driveCell.rx]
    exact h

theorem Overheard.follows_run {w : Overheard} (h : w.station.rx.Follows w.arrived w.error)
    (calls : List Call) :
    (calls.foldl Overheard.call w).station.rx.Follows (calls.foldl Overheard.call w).arrived
      (calls.foldl Overheard.call w).error := by
  induction calls generalizing w with
  | nil => exact h
  | cons c calls ih => exact ih (w.follows_call h c)

/-- THE READ-BACK IS WHAT ARRIVED exactly when the byte that arrived already carries all that
the station itself would write: in every run of calls, whatever arrives in it. -/
theorem readsBack_iff (slot : Int) (address : BitVec 32) (enabled : Bool)
    (bits buffer : Option (List Byte)) (capacity : Nat) (calls : List Call) (cell : Cell)
    (hends : (overhear slot address enabled bits buffer capacity calls).station.endsOwnFrame cell =
      true) :
    let w := overhear slot address enabled bits buffer capacity calls
    let w' := overhear slot address enabled bits buffer capacity (calls ++ [.receive cell])
    w'.station.transmitAck = some w'.arrived ↔
      carriesOwn w.station.rx.addressed w.station.rx.receiveEnabled w'.error w'.arrived = true := by
  intro w w'
  have hw' : w' = w.call (.receive cell) := by
    change overhear slot address enabled bits buffer capacity (calls ++ [.receive cell]) = _
    unfold overhear
    rw [List.foldl_append]
    rfl
  have hfollows : w.station.rx.Follows w.arrived w.error :=
    Overheard.follows_run (w := { station := attached slot address enabled bits buffer capacity })
      ⟨nofun, nofun⟩ calls
  have hlistening := w.follows_listening hfollows cell
  simp only [endsOwnFrame, Bool.and_eq_true, beq_iff_eq] at hends
  obtain ⟨⟨⟨hbrings, hlast⟩, hstrips⟩, hseen⟩ := hends
  change w.station.bringsLate cell = true at hbrings
  change (w.station.listening cell).1.rx.lateBits = 7 at hlast
  change (w.station.listening cell).1.stripping = true at hstrips
  change (w.station.listening cell).1.tx.seenOwnFrameStart = true at hseen
  obtain ⟨-, hcompleted⟩ := hlistening.step_late (w.station.listening cell).1.stripping hbrings
  have hcall : w' = { station := w.station.receiveCell cell
                      arrived := Receiver.shiftBit w.arrived (w.station.listening cell).2
                      error := if (w.station.listening cell).1.rx.lateBits == 5 then
                        (w.station.listening cell).1.rx.frameError else w.error } := by
    rw [hw']
    unfold Overheard.call
    dsimp only
    rw [if_pos hbrings]
    rfl
  have hsame : (w.station.listening cell).1.rx.addressed = w.station.rx.addressed ∧
      (w.station.listening cell).1.rx.receiveEnabled = w.station.rx.receiveEnabled := by
    rcases w.station.rx_listening cell with hrx | hrx <;> rw [hrx] <;> exact ⟨rfl, rfl⟩
  rw [if_pos hlast, hsame.1, hsame.2] at hcompleted
  have hack : w'.station.transmitAck = some (Receiver.lateSent w.station.rx.addressed
      w.station.rx.receiveEnabled w'.error w'.arrived) := by
    rw [hcall]
    dsimp only
    rw [receiveCell_eq]
    unfold followFrame
    rcases hstep : (w.station.listening cell).1.rx.step (w.station.listening cell).1.stripping
      (w.station.listening cell).1.atSymbol (w.station.listening cell).2 with ⟨rx, out, completed⟩
    rw [hstep] at hcompleted
    dsimp only at hcompleted ⊢
    rw [hcompleted]
    dsimp only
    rw [hstrips, hseen]
    rfl
  rw [hack, Option.some_inj]
  exact lateSent_eq_self_iff _ _ _ _

/-- A frame is queued, a free token comes and is claimed, and then the frame's line comes
back, one cell in each bit time. -/
def loopedBack (fields : FrameFields) : List Call :=
  .queueFrame fields :: (freeTokenCells.map Call.receive ++ [.drive] ++
    (encodeLine (trailing true (symbolBits Oob.freeToken.symbol)) (frameLine fields)).flatMap
      fun cell => [.drive, .receive cell])

/-- A frame to another node, with nothing in its late acknowledge but the parity. -/
def unicastFrame : FrameFields :=
  { header := [0, 0, 0, 2, 0, 0, 0, 0, 0, 0, 0, 1], data := [], lateAcknowledge := lateParity }

set_option maxRecDepth 8000 in
/-- It is read back as it arrived. -/
theorem readsBack_iff_unicast :
    (overhear 0 1 true (some (List.replicate 40 0)) none 0
      ((loopedBack unicastFrame).dropLast ++ [.receive ⟨false, false⟩])).station.transmitAck =
      some (overhear 0 1 true (some (List.replicate 40 0)) none 0
        ((loopedBack unicastFrame).dropLast ++ [.receive ⟨false, false⟩])).arrived := by
  refine (readsBack_iff 0 1 true (some (List.replicate 40 0)) none 0
    (loopedBack unicastFrame).dropLast ⟨false, false⟩ (by decide +kernel)).mpr ?_
  decide +kernel

/-- The same frame as a broadcast. -/
def broadcastFrame : FrameFields :=
  { unicastFrame with header := [0, 0, 0, 2, 0x80, 0, 0, 0, 0, 0, 0, 1] }

set_option maxRecDepth 8000 in
/-- Nobody copied the broadcast, and its sender reads back that somebody did. -/
theorem not_readsBack_broadcast :
    let w := overhear 0 1 true (some (List.replicate 40 0)) none 0 (loopedBack broadcastFrame)
    w.arrived = lateParity ∧
      w.station.transmitAck = some (lateCopied ||| lateIntendToCopy ||| lateParity) := by
  decide +kernel

end Station

end Apollo.Ring
