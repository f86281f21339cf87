import Apollo.Device.I8237

/-!
# A block copied from memory to memory

Channels 0 and 1 of the 8237A as the datasheet pairs them: channel 0's address is read, channel 1's
is written, and channel 1's count alone ends the service. The memory is any state a byte access
can read and change, beside the controller; **the block** is what as many calls as the count asks
for do to it, and `copiesBlock_iff` says for which programmings the calls of `ap_i8237_transfer`
do that, stop, and leave every autoinitialising channel where it began.
-/

namespace Apollo.Device

variable {μ : Type}

/-- A bus on a state of its own, and the controller beside it. -/
def DmaBus.beside (bus : DmaBus μ) : DmaBus (I8237 × μ) where
  memoryRead := fun s address =>
    ((bus.memoryRead s.2 address).1, s.1, (bus.memoryRead s.2 address).2)
  memoryWrite := fun s address value => (s.1, bus.memoryWrite s.2 address value)
  deviceRead := fun s channel =>
    ((bus.deviceRead s.2 channel).1, s.1, (bus.deviceRead s.2 channel).2)
  deviceWrite := fun s channel value => (s.1, bus.deviceWrite s.2 channel value)

namespace DmaBlock

/-- The controller of a pair. -/
def part : DmaPart (I8237 × μ) := ⟨Prod.fst, fun s dma => (dma, s.2)⟩

/-- One call of `ap_i8237_transfer`. -/
def call (bus : DmaBus μ) (s : I8237 × μ) : Option DmaCycle × (I8237 × μ) :=
  part.transfer bus.beside s

/-- The controller and the memory after a number of calls. -/
def calls (bus : DmaBus μ) : Nat → I8237 × μ → I8237 × μ
  | 0, s => s
  | n + 1, s => (call bus (calls bus n s)).2

/-! ## What the calls are to do -/

/-- The address a channel has after `i` bytes from its base. -/
def addressAt (ch : DmaChannel) (i : Nat) : BitVec 16 :=
  if ch.mode.getLsbD 5 then ch.baseAddress - BitVec.ofNat 16 i
  else ch.baseAddress + BitVec.ofNat 16 i

/-- `AP_I8237_CMD_CH0_ADDRESS_HOLD`. -/
def holds (dma : I8237) : Bool := dma.command.getLsbD 1

/-- Where byte `i` comes from: always the first address, with address hold. -/
def sourceAt (dma : I8237) (i : Nat) : BitVec 16 :=
  if holds dma then (dma.channel 0).baseAddress else addressAt (dma.channel 0) i

/-- Where byte `i` goes. -/
def destinationAt (dma : I8237) (i : Nat) : BitVec 16 := addressAt (dma.channel 1) i

/-- The last byte's number: the count channel 1 is programmed with. -/
def last (dma : I8237) : Nat := (dma.channel 1).baseCount.toNat

/-- Byte `i` copied. -/
def copyByte (bus : DmaBus μ) (dma : I8237) (i : Nat) (memory : μ) : μ :=
  bus.memoryWrite (bus.memoryRead memory (sourceAt dma i)).2 (destinationAt dma i)
    (bus.memoryRead memory (sourceAt dma i)).1

/-- The first `n` bytes copied, one after another. -/
def copied (bus : DmaBus μ) (dma : I8237) (memory : μ) : Nat → μ
  | 0 => memory
  | n + 1 => copyByte bus dma n (copied bus dma memory n)

/-- What a call answers while the block is underway. -/
def cycleOf (dma : I8237) (i : Nat) : DmaCycle :=
  { channel := 1, address := destinationAt dma i, wroteMemory := true, terminalCount := i == last dma }

/-- A controller **programmed** for the copy: enabled, memory to memory, channel 0 in block mode
and requested by software, and the two channels' registers as they were written. -/
structure Programmed (dma : I8237) : Prop where
  enabled : dma.command.getLsbD 2 = false
  memoryToMemory : dma.command.getLsbD 0 = true
  block : (dma.channel 0).modeOf = .block
  requested : dma.request.getLsbD 0 = true
  loaded : ∀ channel, channel = 0 ∨ channel = 1 →
    (dma.channel channel).currentAddress = (dma.channel channel).baseAddress ∧
      (dma.channel channel).currentCount = (dma.channel channel).baseCount

/-- **The block is copied**: the calls move its bytes in order and no other, then none runs and
nothing changes; the requests are down and channel 1's terminal count is up; and each channel
programmed to autoinitialise is back at its base. -/
structure CopiesBlock (bus : DmaBus μ) (dma : I8237) (memory : μ) : Prop where
  moves : ∀ n, (calls bus n (dma, memory)).2 = copied bus dma memory (min n (last dma + 1))
  answers : ∀ n, (call bus (calls bus n (dma, memory))).1 =
    if n ≤ last dma then some (cycleOf dma n) else none
  stops : ∀ n, calls bus (last dma + 1 + n) (dma, memory) = calls bus (last dma + 1) (dma, memory)
  requests : ∀ channel : Fin 4, channel = 0 ∨ channel = 1 →
    (calls bus (last dma + 1) (dma, memory)).1.request.getLsbD channel.val = false
  terminal : (calls bus (last dma + 1) (dma, memory)).1.status.getLsbD 1 = true
  reloaded : ∀ channel : Fin 4, channel = 0 ∨ channel = 1 → (dma.channel channel).autoinit = true →
    ((calls bus (last dma + 1) (dma, memory)).1.channel channel).currentAddress =
        (dma.channel channel).baseAddress ∧
      ((calls bus (last dma + 1) (dma, memory)).1.channel channel).currentCount =
        (dma.channel channel).baseCount

/-- Channel 0's request pin does not ask: it is down, or masked. -/
def PinQuiet (dma : I8237) : Prop :=
  (dma.dreq.getLsbD 0 && !dma.mask.getLsbD 0) = false

/-- Channel 0 needs no reload: it is not to autoinitialise, its address is held, or the block is
as long as the address space. -/
def NoReload (dma : I8237) : Prop :=
  (dma.channel 0).autoinit = false ∨ holds dma = true ∨ last dma = 0xFFFF

instance (dma : I8237) : Decidable (PinQuiet dma) := inferInstanceAs (Decidable (_ = _))

/-! ## One byte -/

/-- The controller after `i` bytes of the block. -/
structure Underway (dma : I8237) (i : Nat) (dma' : I8237) : Prop where
  command : dma'.command = dma.command
  request : dma'.request = dma.request
  mask : dma'.mask = dma.mask
  dreq : dma'.dreq = dma.dreq
  source : dma'.channel 0 = { dma.channel 0 with currentAddress := sourceAt dma i }
  destination : dma'.channel 1 = { dma.channel 1 with
    currentAddress := destinationAt dma i
    currentCount := (dma.channel 1).baseCount - BitVec.ofNat 16 i }

/-- The controller after the last byte. -/
structure Ended (dma : I8237) (dma' : I8237) : Prop where
  command : dma'.command = dma.command
  request : dma'.request = dma.request &&& ~~~I8237.bit 1 &&& ~~~I8237.bit 0
  pinQuiet : PinQuiet dma' ↔ PinQuiet dma
  status : dma'.status.getLsbD 1 = true
  source : dma'.channel 0 = { dma.channel 0 with currentAddress := sourceAt dma (last dma + 1) }
  destination : (dma.channel 1).autoinit = true →
    (dma'.channel 1).currentAddress = (dma.channel 1).baseAddress ∧
      (dma'.channel 1).currentCount = (dma.channel 1).baseCount

theorem addressAt_zero (ch : DmaChannel) : addressAt ch 0 = ch.baseAddress := by
  simp [addressAt]

theorem addressAt_succ (ch : DmaChannel) (i : Nat) :
    addressAt ch (i + 1) =
      if ch.mode.getLsbD 5 then addressAt ch i - 1 else addressAt ch i + 1 := by
  unfold addressAt
  split
  · rw [BitVec.ofNat_add]; bv_omega
  · rw [BitVec.ofNat_add]; bv_omega

theorem sourceAt_succ (dma : I8237) (i : Nat) :
    sourceAt dma (i + 1) =
      if holds dma then sourceAt dma i
      else if (dma.channel 0).mode.getLsbD 5 then sourceAt dma i - 1 else sourceAt dma i + 1 := by
  unfold sourceAt
  split
  · rfl
  · exact addressAt_succ _ i

theorem Underway.refl {dma : I8237} (h : Programmed dma) : Underway dma 0 dma where
  command := rfl
  request := rfl
  mask := rfl
  dreq := rfl
  source := by
    have hsource : sourceAt dma 0 = (dma.channel 0).currentAddress := by
      unfold sourceAt
      rw [addressAt_zero, ite_self, (h.loaded 0 (.inl rfl)).1]
    rw [hsource]
  destination := by
    have hcount := (h.loaded 1 (.inr rfl)).2
    have haddress : destinationAt dma 0 = (dma.channel 1).currentAddress :=
      (addressAt_zero _).trans (h.loaded 1 (.inr rfl)).1.symm
    rw [haddress, BitVec.sub_zero, ← hcount]

theorem Underway.asks {dma dma' : I8237} {i : Nat} (h : Programmed dma) (u : Underway dma i dma') :
    dma'.asks 0 = true := by
  have hmode : (dma'.channel 0).modeOf = (dma.channel 0).modeOf := by rw [u.source]; rfl
  have hrequest : dma'.request.getLsbD 0 = true := by rw [u.request, h.requested]
  unfold I8237.asks
  rw [hmode, h.block]
  simp [hrequest]

/-- The controller's registers after one byte, the terminal count apart. -/
def stepped (dma : I8237) (value : BitVec 8) : I8237 :=
  let source := dma.channel 0
  let destination := dma.channel 1
  let dma := { dma with temporary := value }
  let dma :=
    if dma.command.getLsbD 1 then dma
    else dma.setChannel 0 { source with currentAddress := source.nextAddress }
  dma.setChannel 1 { destination with
    currentAddress := destination.nextAddress, currentCount := destination.currentCount - 1 }

theorem call_eq (bus : DmaBus μ) {dma : I8237} (memory : μ) (hmemory : dma.command.getLsbD 0 = true)
    (henabled : dma.command.getLsbD 2 = false) (hasks : dma.asks 0 = true) :
    call bus (dma, memory) =
      let read := bus.memoryRead memory (dma.channel 0).currentAddress
      let expired := (dma.channel 1).currentCount == 0
      let after := stepped dma read.1
      (some ⟨1, (dma.channel 1).currentAddress, true, expired⟩,
        if expired then
          { after.terminalCount 1 with
            request := (after.terminalCount 1).request &&& ~~~I8237.bit 0 }
        else after,
        bus.memoryWrite read.2 (dma.channel 1).currentAddress read.1) := by
  have hdestination : ∀ source : DmaChannel,
      Function.update dma.channel 0 source 1 = dma.channel 1 := fun source => rfl
  unfold call DmaPart.transfer DmaPart.memoryToMemory
  cases hhold : dma.command.getLsbD 1 <;>
    cases hexpired : (dma.channel 1).currentCount == 0 <;>
    simp only [part, DmaPart.modify, DmaBus.beside, hmemory, henabled, hasks, stepped, hhold,
      hexpired, I8237.setChannel, hdestination, DmaChannel.nextAddress, Function.update_self,
      Function.update_idem, if_true, if_false, Bool.false_eq_true, Bool.not_true, Bool.or_false] <;>
    rfl

theorem Underway.step {dma dma' : I8237} {i : Nat} (u : Underway dma i dma') (value : BitVec 8) :
    Underway dma (i + 1) (stepped dma' value) := by
  have hcount : (dma.channel 1).baseCount - BitVec.ofNat 16 i - 1 =
      (dma.channel 1).baseCount - BitVec.ofNat 16 (i + 1) := by
    rw [BitVec.ofNat_add]; bv_omega
  have hsource : (stepped dma' value).channel 0 =
      if holds dma then dma'.channel 0
      else { dma'.channel 0 with currentAddress := (dma'.channel 0).nextAddress } := by
    unfold stepped holds
    rw [← u.command]
    dsimp only
    split <;> rfl
  have hdestination : (stepped dma' value).channel 1 =
      { dma'.channel 1 with
        currentAddress := (dma'.channel 1).nextAddress
        currentCount := (dma'.channel 1).currentCount - 1 } := by
    unfold stepped I8237.setChannel
    dsimp only
    exact Function.update_self (1 : Fin 4) _ _
  refine ⟨?_, ?_, ?_, ?_, ?_, ?_⟩
  · refine Eq.trans ?_ u.command
    unfold stepped
    dsimp only
    split <;> rfl
  · refine Eq.trans ?_ u.request
    unfold stepped
    dsimp only
    split <;> rfl
  · refine Eq.trans ?_ u.mask
    unfold stepped
    dsimp only
    split <;> rfl
  · refine Eq.trans ?_ u.dreq
    unfold stepped
    dsimp only
    split <;> rfl
  · rw [hsource, u.source, sourceAt_succ]
    split <;> rfl
  · rw [hdestination, u.destination, DmaChannel.nextAddress, hcount, destinationAt, destinationAt,
      addressAt_succ]

theorem Underway.expired {dma dma' : I8237} {i : Nat} (u : Underway dma i dma')
    (hi : i ≤ last dma) : ((dma'.channel 1).currentCount == 0) = (i == last dma) := by
  have hlast : last dma < 2 ^ 16 := (dma.channel 1).baseCount.isLt
  have hzero : (dma.channel 1).baseCount - BitVec.ofNat 16 i = 0 ↔ i = last dma := by
    unfold last at hi hlast ⊢
    constructor
    · intro h
      bv_omega
    · rintro rfl
      rw [BitVec.ofNat_toNat, BitVec.setWidth_eq, BitVec.sub_self]
      rfl
  rw [u.destination, Bool.eq_iff_iff, beq_iff_eq, beq_iff_eq]
  exact hzero

theorem Underway.call {dma dma' : I8237} {i : Nat} (h : Programmed dma) (u : Underway dma i dma')
    (hi : i ≤ last dma) (bus : DmaBus μ) (memory : μ) :
    ∃ after, Underway dma (i + 1) after ∧ DmaBlock.call bus (dma', memory) =
      (some (cycleOf dma i),
        if i == last dma then
          { after.terminalCount 1 with
            request := (after.terminalCount 1).request &&& ~~~I8237.bit 0 }
        else after,
        copyByte bus dma i memory) := by
  have hmemory : dma'.command.getLsbD 0 = true := by rw [u.command, h.memoryToMemory]
  have henabled : dma'.command.getLsbD 2 = false := by rw [u.command, h.enabled]
  refine ⟨_, u.step (bus.memoryRead memory (dma'.channel 0).currentAddress).1, ?_⟩
  rw [call_eq bus memory hmemory henabled (u.asks h)]
  dsimp only
  rw [u.expired hi, u.source, u.destination]
  rfl

theorem Underway.ended {dma after : I8237} (u : Underway dma (last dma + 1) after) :
    Ended dma { after.terminalCount 1 with
      request := (after.terminalCount 1).request &&& ~~~I8237.bit 0 } := by
  have hauto : (after.channel 1).autoinit = (dma.channel 1).autoinit := by rw [u.destination]; rfl
  have hbase : (after.channel 1).baseAddress = (dma.channel 1).baseAddress := by rw [u.destination]
  have hcount : (after.channel 1).baseCount = (dma.channel 1).baseCount := by rw [u.destination]
  have hmask : (after.mask ||| I8237.bit 1).getLsbD 0 = after.mask.getLsbD 0 := by
    rw [BitVec.getLsbD_or]
    exact Bool.or_false _
  unfold I8237.terminalCount
  dsimp only
  refine ⟨?_, ?_, ?_, ?_, ?_, ?_⟩
  · refine Eq.trans ?_ u.command
    split <;> rfl
  · rw [← u.request]
    split <;> rfl
  · unfold PinQuiet
    rw [← u.dreq, ← u.mask]
    split
    · rfl
    · rw [← hmask]
  · have hbit : (after.status ||| I8237.bit 1).getLsbD 1 = true := by
      rw [BitVec.getLsbD_or]
      exact Bool.or_true _
    split <;> exact hbit
  · rw [← u.source]
    split <;> rfl
  · intro hset
    rw [← hbase, ← hcount, if_pos (hauto.trans hset)]
    exact ⟨rfl, rfl⟩

theorem Ended.asks {dma dma' : I8237} (e : Ended dma dma') :
    dma'.asks 0 = false ↔ PinQuiet dma := by
  have hrequest : dma'.request.getLsbD 0 = false := by
    rw [e.request, BitVec.getLsbD_and, BitVec.getLsbD_not]
    exact Bool.and_false _
  rw [← e.pinQuiet]
  unfold I8237.asks PinQuiet
  rw [show ((0 : Fin 4).val) = 0 from rfl, hrequest, Bool.false_and, Bool.or_false]

/-! ## The block -/

theorem calls_underway {dma : I8237} (h : Programmed dma) (bus : DmaBus μ) (memory : μ) {n : Nat}
    (hn : n ≤ last dma) :
    Underway dma n (calls bus n (dma, memory)).1 ∧
      (calls bus n (dma, memory)).2 = copied bus dma memory n := by
  induction n with
  | zero => exact ⟨.refl h, rfl⟩
  | succ n ih =>
    obtain ⟨u, hcopied⟩ := ih (by omega)
    obtain ⟨after, hafter, hcall⟩ := u.call h (by omega) bus (calls bus n (dma, memory)).2
    have hbefore : (n == last dma) = false := by
      rw [beq_eq_false_iff_ne]
      omega
    rw [hbefore, if_neg Bool.false_ne_true] at hcall
    have hcalls : calls bus (n + 1) (dma, memory) =
        (after, copyByte bus dma n (calls bus n (dma, memory)).2) := congrArg Prod.snd hcall
    rw [hcalls, hcopied]
    exact ⟨hafter, rfl⟩

theorem call_underway {dma : I8237} (h : Programmed dma) (bus : DmaBus μ) (memory : μ) {n : Nat}
    (hn : n ≤ last dma) :
    (call bus (calls bus n (dma, memory))).1 = some (cycleOf dma n) := by
  obtain ⟨u, -⟩ := calls_underway h bus memory hn
  obtain ⟨after, -, hcall⟩ := u.call h hn bus (calls bus n (dma, memory)).2
  exact congrArg Prod.fst hcall

theorem calls_ended {dma : I8237} (h : Programmed dma) (bus : DmaBus μ) (memory : μ) :
    Ended dma (calls bus (last dma + 1) (dma, memory)).1 ∧
      (calls bus (last dma + 1) (dma, memory)).2 = copied bus dma memory (last dma + 1) := by
  obtain ⟨u, hcopied⟩ := calls_underway h bus memory (Nat.le_refl _)
  obtain ⟨after, hafter, hcall⟩ :=
    u.call h (Nat.le_refl _) bus (calls bus (last dma) (dma, memory)).2
  rw [BEq.rfl, if_pos rfl] at hcall
  have hcalls : calls bus (last dma + 1) (dma, memory) =
      (_, copyByte bus dma (last dma) (calls bus (last dma) (dma, memory)).2) :=
    congrArg Prod.snd hcall
  rw [hcalls, hcopied]
  exact ⟨hafter.ended, rfl⟩

theorem call_idle {dma : I8237} (bus : DmaBus μ) (memory : μ)
    (hmemory : dma.command.getLsbD 0 = true) (hasks : dma.asks 0 = false) :
    call bus (dma, memory) = (none, dma, memory) := by
  unfold call DmaPart.transfer DmaPart.memoryToMemory
  simp only [part, hmemory, hasks, Bool.not_false, Bool.or_true, if_true]

theorem call_ran {dma : I8237} (bus : DmaBus μ) (memory : μ)
    (hmemory : dma.command.getLsbD 0 = true) (henabled : dma.command.getLsbD 2 = false)
    (hasks : dma.asks 0 = true) : (call bus (dma, memory)).1 ≠ none := by
  rw [call_eq bus memory hmemory henabled hasks]
  exact nofun

theorem calls_stopped {dma : I8237} (h : Programmed dma) (hquiet : PinQuiet dma) (bus : DmaBus μ)
    (memory : μ) (n : Nat) :
    calls bus (last dma + 1 + n) (dma, memory) = calls bus (last dma + 1) (dma, memory) ∧
      (call bus (calls bus (last dma + 1 + n) (dma, memory))).1 = none := by
  obtain ⟨e, -⟩ := calls_ended h bus memory
  have hmemory : (calls bus (last dma + 1) (dma, memory)).1.command.getLsbD 0 = true := by
    rw [e.command, h.memoryToMemory]
  have hidle : call bus (calls bus (last dma + 1) (dma, memory)) =
      (none, calls bus (last dma + 1) (dma, memory)) :=
    call_idle bus (calls bus (last dma + 1) (dma, memory)).2 hmemory (e.asks.mpr hquiet)
  induction n with
  | zero => exact ⟨rfl, congrArg Prod.fst hidle⟩
  | succ n ih =>
    have hsame : calls bus (last dma + 1 + (n + 1)) (dma, memory) =
        calls bus (last dma + 1) (dma, memory) := by
      have hcalls : calls bus (last dma + 1 + (n + 1)) (dma, memory) =
          (call bus (calls bus (last dma + 1 + n) (dma, memory))).2 := rfl
      rw [hcalls, ih.1, hidle]
    rw [hsame]
    exact ⟨rfl, congrArg Prod.fst hidle⟩

theorem source_back (dma : I8237) :
    sourceAt dma (last dma + 1) = (dma.channel 0).baseAddress ↔
      holds dma = true ∨ last dma = 0xFFFF := by
  have hlast : last dma < 2 ^ 16 := (dma.channel 1).baseCount.isLt
  unfold sourceAt addressAt
  cases hhold : holds dma with
  | true => simp
  | false =>
    simp only [Bool.false_eq_true, if_false, false_or]
    split <;> constructor <;> intro h <;> bv_omega

/-- THE BLOCK IS COPIED exactly when channel 0 does not ask by its pin, and needs no reload: the
terminal count reloads channel 1 alone. -/
theorem copiesBlock_iff (bus : DmaBus μ) {dma : I8237} (memory : μ) (h : Programmed dma) :
    CopiesBlock bus dma memory ↔ PinQuiet dma ∧ NoReload dma := by
  obtain ⟨e, hcopied⟩ := calls_ended h bus memory
  have hback : (dma.channel 0).autoinit = true →
      (((calls bus (last dma + 1) (dma, memory)).1.channel 0).currentAddress =
        (dma.channel 0).baseAddress ↔ holds dma = true ∨ last dma = 0xFFFF) := by
    intro _
    rw [e.source]
    exact source_back dma
  constructor
  · intro c
    refine ⟨?_, ?_⟩
    · by_contra hpin
      have hasks : (calls bus (last dma + 1) (dma, memory)).1.asks 0 = true := by
        rw [← Bool.not_eq_false, e.asks]
        exact hpin
      refine call_ran bus (calls bus (last dma + 1) (dma, memory)).2 ?_ ?_ hasks ?_
      · rw [e.command, h.memoryToMemory]
      · rw [e.command, h.enabled]
      · refine (c.answers (last dma + 1)).trans (if_neg ?_)
        omega
    · cases hauto : (dma.channel 0).autoinit with
      | false => exact .inl hauto
      | true => exact .inr ((hback hauto).mp (c.reloaded 0 (.inl rfl) hauto).1)
  · rintro ⟨hquiet, hreload⟩
    refine ⟨?_, ?_, fun n => (calls_stopped h hquiet bus memory n).1, ?_, e.status, ?_⟩
    · intro n
      obtain hn | hn := Nat.lt_or_ge n (last dma + 1)
      · rw [Nat.min_eq_left (by omega)]
        exact (calls_underway h bus memory (by omega)).2
      · obtain ⟨more, rfl⟩ := Nat.exists_eq_add_of_le hn
        rw [Nat.min_eq_right (by omega), (calls_stopped h hquiet bus memory more).1, hcopied]
    · intro n
      split
      · exact call_underway h bus memory (by assumption)
      · obtain ⟨more, rfl⟩ := Nat.exists_eq_add_of_le (show last dma + 1 ≤ n by omega)
        exact (calls_stopped h hquiet bus memory more).2
    · intro channel hchannel
      rw [e.request]
      obtain rfl | rfl := hchannel
      · rw [BitVec.getLsbD_and, BitVec.getLsbD_not]
        exact Bool.and_false _
      · rw [BitVec.getLsbD_and, BitVec.getLsbD_and, BitVec.getLsbD_not]
        simp [I8237.bit]
    · intro channel hchannel hauto
      obtain rfl | rfl := hchannel
      · refine ⟨(hback hauto).mpr ?_, ?_⟩
        · obtain hnot | hneeds := hreload
          · exact absurd (hauto.symm.trans hnot) (Ne.symm Bool.false_ne_true)
          · exact hneeds
        · rw [e.source]
          exact (h.loaded 0 (.inl rfl)).2
      · exact e.destination hauto

/-- A memory that is its bytes. -/
def plain : DmaBus (BitVec 16 → BitVec 8) where
  memoryRead := fun memory address => (memory address, memory)
  memoryWrite := Function.update
  deviceRead := fun memory _ => (0, memory)
  deviceWrite := fun memory _ _ => memory

/-- A reset controller after these writes to its registers. -/
def written (writes : List (Fin 16 × BitVec 8)) : I8237 :=
  writes.foldl (fun dma write => dma.writeRegister write.1 write.2) I8237.reset

/-- Two bytes from 0x1000 to 0x0800 downwards, the modes of the two channels given. -/
def programmed (source destination : BitVec 8) : I8237 :=
  written [(8, 0x01), (12, 0), (11, source), (11, destination), (0, 0x00), (0, 0x10), (1, 0x01),
    (1, 0x00), (2, 0x00), (2, 0x08), (3, 0x01), (3, 0x00), (9, 0x04)]

theorem programmed_block {source : BitVec 8} (hsource : source = 0x88 ∨ source = 0x98) :
    Programmed (programmed source 0xB5) := by
  refine ⟨?_, ?_, ?_, ?_, ?_⟩ <;> obtain rfl | rfl := hsource <;> decide

/-- Both bytes are copied when channel 1 alone autoinitialises. -/
theorem copiesBlock_programmed :
    Programmed (programmed 0x88 0xB5) ∧ CopiesBlock plain (programmed 0x88 0xB5) (fun _ => 0) :=
  have h := programmed_block (.inl rfl)
  ⟨h, (copiesBlock_iff plain (fun _ => 0) h).mpr ⟨by decide, .inl (by decide)⟩⟩

/-- With both channels to autoinitialise channel 0 stays behind the block. -/
theorem not_copiesBlock :
    ¬ ∀ dma, Programmed dma → PinQuiet dma → ∀ memory, CopiesBlock plain dma memory := by
  intro hall
  have hcopies := hall (programmed 0x98 0xB5) (programmed_block (.inr rfl)) (by decide) (fun _ => 0)
  have hback := (hcopies.reloaded 0 (.inl rfl) (by decide)).1
  revert hback
  decide +kernel

end DmaBlock

end Apollo.Device
