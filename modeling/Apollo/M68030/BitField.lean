import Mathlib
import Apollo.Lib.BitStream
import Apollo.M68030.Arith
import Apollo.Lib.FirstStop
import Apollo.Lib.LowBits
import Apollo.M68030.ConditionCodes
import Apollo.M68030.OperandMemory
import Apollo.M68030.Movem
import Apollo.M68030.LockedBus

/-!
# Bit fields

`execute_bitfield` of `src/core/cpu/m68030/ap_m68030_step.c` and what it is made of: which bytes a field in
memory spans, how these are read and written, and the eight instructions. The host adds the offset of
`BFFFO`, so that a sum of more than 31 bits is not defined (`Outcome.undefined`). What only timing uses is
left out.
-/

namespace Apollo.M68030

open Apollo.Lib

/-- `ap_m68030_bitfield_t`. -/
inductive Bitfield
  | tst
  | extu
  | chg
  | exts
  | clr
  | ffo
  | set
  | ins
deriving DecidableEq, Repr

/-- What `ap_m68030_shift_t` has of a bit field instruction. -/
structure BitfieldShift where
  bitfield : Bitfield
  ea : Ea

/-- `bitfield_spec_t`; the offset is a signed number. -/
structure BitfieldSpec where
  offset : BitVec 32
  width : Nat
  reg : Fin 8
  toRegister : Bool

/-! ## The bytes of a field -/

/-- `bitfield_span_t`. -/
structure BitfieldSpan where
  firstByte : Int
  bytes : Nat

/-- `bitfield_floor_byte`. -/
def bitfieldFloorByte (bit : Int) : Int := if 0 ≤ bit then bit.tdiv 8 else -((-bit + 7).tdiv 8)

/-- `bitfield_span_of`. -/
def bitfieldSpanOf (spec : BitfieldSpec) : BitfieldSpan :=
  let low := spec.offset.toInt
  let high := low + spec.width - 1
  let first := bitfieldFloorByte low
  let last := bitfieldFloorByte high
  { firstByte := first, bytes := (last - first + 1).toNat }

/-- `bitfield_span_shift`. -/
def bitfieldSpanShift (span : BitfieldSpan) (spec : BitfieldSpec) (i : Nat) : Nat :=
  let bit := spec.offset.toInt + i
  let within := bit - span.firstByte * 8
  (span.bytes * 8 - 1 - within).toNat

/-- Where a span starts. -/
def bitfieldStart (baseAddress : BitVec 32) (span : BitfieldSpan) : BitVec 32 :=
  BitVec.ofInt 32 (baseAddress.toNat + span.firstByte)

/-- The mask of the low bits of a field. -/
def bitfieldMask (width : Nat) : BitVec 32 := if width = 32 then 0xFFFFFFFF else (1#32 <<< width) - 1

section Execute

variable {σ : Type} (ports : Ports σ)

/-- `bitfield_span_read`: five bytes are a long word and a byte. -/
def bitfieldSpanRead (baseAddress : BitVec 32) (span : BitfieldSpan) : Exec σ (BitVec 64) := do
  let start := bitfieldStart baseAddress span
  let head := if span.bytes > 4 then 4 else span.bytes
  let value ← readOperand ports (.ofMemory start) head
  if span.bytes > 4 then do
    let second ← readOperand ports (.ofMemory (start + 4)) (span.bytes - 4)
    pure ((value.setWidth 64 <<< ((span.bytes - 4) * 8)) ||| second.setWidth 64)
  else pure (value.setWidth 64)

/-- `bitfield_span_write`. -/
def bitfieldSpanWrite (baseAddress : BitVec 32) (span : BitfieldSpan) (value : BitVec 64) :
    Exec σ Unit := do
  let start := bitfieldStart baseAddress span
  let head := if span.bytes > 4 then 4 else span.bytes
  let tailBytes := span.bytes - head
  writeOperand ports (.ofMemory start) head ((value >>> (tailBytes * 8)).setWidth 32)
  if tailBytes = 0 then pure ()
  else
    writeOperand ports (.ofMemory (start + 4)) tailBytes
      ((value &&& ((1#64 <<< (tailBytes * 8)) - 1)).setWidth 32)

/-- Where a bit of a field in a register is: offset 0 is bit 31, and the field wraps. -/
def bitfieldRegisterBit (spec : BitfieldSpec) (i : Nat) : Nat :=
  31 - ((spec.offset + BitVec.ofNat 32 i) &&& 31).toNat

/-- `bitfield_read`. -/
def bitfieldRead (shift : BitfieldShift) (spec : BitfieldSpec) (baseAddress : BitVec 32) :
    Exec σ (BitVec 32) :=
  if spec.toRegister then do
    let value ← Attempt.read fun cpu => cpu.regs.d.get shift.ea.reg
    pure (gather 32 (fun i => value.getLsbD (bitfieldRegisterBit spec i)) spec.width)
  else do
    let span := bitfieldSpanOf spec
    let bytes ← bitfieldSpanRead ports baseAddress span
    pure (gather 32 (fun i => bytes.getLsbD (bitfieldSpanShift span spec i)) spec.width)

/-- `bitfield_write`. -/
def bitfieldWrite (shift : BitfieldShift) (spec : BitfieldSpec) (baseAddress field : BitVec 32) :
    Exec σ Unit :=
  let one := fun i : Nat => field.getLsbD (spec.width - 1 - i)
  if spec.toRegister then
    modify fun cpu => cpu.mapRegs fun regs =>
      { regs with
        d := regs.d.set shift.ea.reg
          (scatter (bitfieldRegisterBit spec) one (regs.d.get shift.ea.reg) spec.width) }
  else do
    let span := bitfieldSpanOf spec
    let bytes ← bitfieldSpanRead ports baseAddress span
    bitfieldSpanWrite ports baseAddress span (scatter (bitfieldSpanShift span spec) one bytes spec.width)

/-- Whether an instruction writes its field. -/
def Bitfield.writes : Bitfield → Bool
  | .chg | .clr | .set | .ins => true
  | .tst | .extu | .exts | .ffo => false

/-- The operands of a bit field instruction, from its extension word and its addressing mode: the field, and
the address that the field is counted from. -/
def bitfieldOperands (shift : BitfieldShift) : Exec σ (BitfieldSpec × BitVec 32) := do
  let extension ← nextWord ports
  let registerDirect := shift.ea.kind = .dataRegister
  allowEa (registerDirect ||
    if shift.bitfield.writes then shift.ea.kind.isControlAlterable else shift.ea.kind.isControl)
  let d ← Attempt.read fun cpu => cpu.regs.d
  let offset :=
    if extension.getLsbD 11 then d.get (field3 extension 6)
    else ((extension >>> 6) &&& 31).setWidth 32
  let width :=
    if extension.getLsbD 5 then (d.get (field3 extension 0) &&& 31).toNat else (extension &&& 31).toNat
  let spec : BitfieldSpec :=
    { offset := if registerDirect then offset &&& 31 else offset
      width := if width = 0 then 32 else width
      reg := field3 extension 12
      toRegister := registerDirect }
  if registerDirect then pure (spec, 0)
  else do
    let input ← gatherAddressInput ports shift.ea.kind 1
    let target ← resolveAddress ports shift.ea input
    Attempt.require target.valid
    pure (spec, target.address)

/-- The condition codes of a bit field instruction: `BFINS` has those of what it inserts, and the others those
of the field as they find it. -/
def bitfieldFlags (bitfield : Bitfield) (spec : BitfieldSpec) (field : BitVec 32) (regs : Regs) : Regs :=
  let flagSource :=
    if bitfield = .ins then
      if spec.width = 32 then regs.d.get spec.reg
      else regs.d.get spec.reg &&& ((1#32 <<< spec.width) - 1)
    else field
  let ccr := regs.readCcr &&&
    ~~~((1#16 <<< srNBit) ||| (1#16 <<< srZBit) ||| (1#16 <<< srVBit) ||| (1#16 <<< srCBit))
  regs.writeCcr (ccr ||| ccrFlag (flagSource.getLsbD (spec.width - 1)) srNBit |||
    ccrFlag (flagSource = 0) srZBit)

/-- The first bit of a field that is set, or its width. -/
def bitfieldFound (width : Nat) (field : BitVec 32) : Nat :=
  ((List.range width).find? fun i => field.getLsbD (width - 1 - i)).getD width

/-- A data register is written. -/
def writeDataRegister (reg : Fin 8) (value : BitVec 32) : Exec σ Unit :=
  modify fun cpu => cpu.mapRegs fun regs => { regs with d := Lib.put regs.d reg value }

/-- The switch of `execute_bitfield`, over the eight instructions. -/
def bitfieldApply (shift : BitfieldShift) (spec : BitfieldSpec) (baseAddress field : BitVec 32) :
    Exec σ Outcome :=
  match shift.bitfield with
  | .tst => pure .done
  | .extu => do
    writeDataRegister spec.reg field
    pure .done
  | .exts => do
    let sign := 1#32 <<< (spec.width - 1)
    writeDataRegister spec.reg (if spec.width = 32 then field else (field ^^^ sign) - sign)
    pure .done
  | .ffo =>
    match HostInt.add spec.offset (BitVec.ofNat 32 (bitfieldFound spec.width field)) with
    | none => pure .undefined
    | some found => do
      writeDataRegister spec.reg found
      pure .done
  | .chg => do
    bitfieldWrite ports shift spec baseAddress (~~~field &&& bitfieldMask spec.width)
    pure .done
  | .clr => do
    bitfieldWrite ports shift spec baseAddress 0
    pure .done
  | .set => do
    bitfieldWrite ports shift spec baseAddress (bitfieldMask spec.width)
    pure .done
  | .ins => do
    let source ← Attempt.read fun cpu => cpu.regs.d.get spec.reg
    bitfieldWrite ports shift spec baseAddress source
    pure .done

/-- The rest of `execute_bitfield`, when the operands are known. -/
def bitfieldOperate (shift : BitfieldShift) (spec : BitfieldSpec) (baseAddress : BitVec 32) :
    Exec σ Outcome := do
  let field ← bitfieldRead ports shift spec baseAddress
  modify fun cpu => cpu.mapRegs (bitfieldFlags shift.bitfield spec field)
  bitfieldApply ports shift spec baseAddress field

/-- `execute_bitfield`. -/
def executeBitfield (shift : BitfieldShift) : Exec σ Outcome := do
  let (spec, baseAddress) ← bitfieldOperands ports shift
  bitfieldOperate ports shift spec baseAddress

end Execute

/-!
## Bit fields as a stream of bits

The bits of memory and of the data registers have places (`BitPlace`), and those of a field are some of them
in a row: in memory from any bit on in either direction, in a register around its 32. `BitStream` is the law
of the eight instructions over these places, and `bitfield_stream` that an instruction obeys it, except where
`BFFFO` is to load an offset that the host cannot add. The bytes of a field are read and written as a window
of the stream (`Window`); three bytes at the end of a long word come with the one before, which is not used.
-/

/-! ## The bytes of a field -/

theorem bitfieldFloorByte_eq (bit : ℤ) : bitfieldFloorByte bit = bit / 8 := by
  unfold bitfieldFloorByte
  split
  · next h => rw [Int.tdiv_eq_ediv_of_nonneg h]
  · next h =>
    rw [Int.tdiv_eq_ediv_of_nonneg (by omega)]
    omega

/-- The widths of fields. -/
def BitfieldSpec.Wide (spec : BitfieldSpec) : Prop := 1 ≤ spec.width ∧ spec.width ≤ 32

section Span

variable {spec : BitfieldSpec} (hwide : spec.Wide)
include hwide

theorem bitfieldSpanOf_eq : (bitfieldSpanOf spec).firstByte = spec.offset.toInt / 8 ∧
    1 ≤ (bitfieldSpanOf spec).bytes ∧ (bitfieldSpanOf spec).bytes ≤ 5 ∧
    ((bitfieldSpanOf spec).bytes : ℤ) =
      (spec.offset.toInt + spec.width - 1) / 8 - spec.offset.toInt / 8 + 1 := by
  obtain ⟨hlow, hhigh⟩ := hwide
  unfold bitfieldSpanOf
  dsimp only
  rw [bitfieldFloorByte_eq, bitfieldFloorByte_eq]
  omega

theorem inside_bitfieldSpan : ∀ i < spec.width,
    Inside (bitfieldSpanOf spec).firstByte (bitfieldSpanOf spec).bytes (spec.offset.toInt + i) := by
  obtain ⟨hfirst, -, -, hbytes⟩ := bitfieldSpanOf_eq hwide
  intro i hi
  constructor <;> rw [hfirst]
  · omega
  · rw [hbytes]
    omega

theorem exists_bit_of_byte : ∀ q < (bitfieldSpanOf spec).bytes, ∃ i < spec.width,
    (spec.offset.toInt + i) / 8 = (bitfieldSpanOf spec).firstByte + q := by
  obtain ⟨hfirst, -, -, hbytes⟩ := bitfieldSpanOf_eq hwide
  obtain ⟨hlow, hhigh⟩ := hwide
  intro q hq
  rw [hfirst]
  by_cases hzero : q = 0
  · exact ⟨0, by omega, by omega⟩
  · refine ⟨(8 * (spec.offset.toInt / 8 + q) - spec.offset.toInt).toNat, by omega, by omega⟩

theorem bitfieldSpanShift_eq : ∀ i < spec.width, bitfieldSpanShift (bitfieldSpanOf spec) spec i =
    windowPlace (bitfieldSpanOf spec).firstByte (bitfieldSpanOf spec).bytes (spec.offset.toInt + i) := by
  intro i hi
  obtain ⟨hin, hout⟩ := inside_bitfieldSpan hwide i hi
  unfold bitfieldSpanShift windowPlace
  dsimp only
  omega

end Span

theorem bitfieldStart_eq (base : BitVec 32) (span : BitfieldSpan) :
    bitfieldStart base span = base + BitVec.ofInt 32 span.firstByte := by
  unfold bitfieldStart
  rw [BitVec.ofInt_add, BitVec.ofInt_natCast, BitVec.ofNat_toNat, BitVec.setWidth_eq]

/-! ## Reading and writing a stretch of memory -/

section Access

variable {σ : Type} {ports : Ports σ} {functionCode : BitVec 8} (view : MemoryPorts ports functionCode)
  {address value : BitVec 32} {size : ℕ}

theorem window_of_bytes {m : ByteMemory 32} (hsize : size ≤ 4)
    (h : ∀ j < 4, 4 - size ≤ j → byteAt value j = m (address + BitVec.ofNat 32 (j - (4 - size)))) :
    Window m address size value := by
  intro q hq b hb
  have hbyte := h (4 - size + q) (by omega) (by omega)
  rw [Nat.add_sub_cancel_left] at hbyte
  rw [← hbyte, byteAt_getLsbD _ _ hb]
  congr 1
  omega

theorem MemoryPorts.readChunks_window {mode : AccessMode} (hmode : mode.functionCode = functionCode)
    (hpos : 1 ≤ size) (hsize : size ≤ 4) {s s' : σ}
    (h : readChunks ports mode size address size 0 s = (.ok value, s')) :
    view.memory s' = view.memory s ∧ Window (view.memory s) address size value := by
  by_cases hjunk : size = 3 ∧ (address &&& 3).toNat = 1
  · obtain ⟨rfl, hoffset⟩ := hjunk
    have hchunk : chunkSize address 3 = 3 := by
      unfold chunkSize
      omega
    have hlong : InLong address 3 := ⟨by decide, by omega⟩
    unfold readChunks at h
    rw [if_neg (by decide), hchunk, hoffset] at h
    dsimp only at h
    split at h
    · cases h
    · rename_i long s₁ haccess
      have hsame := view.read mode address 3 s hmode hlong
      have hbytes := view.read_ok mode address 3 s long hmode hlong (congrArg Prod.fst haccess)
      rw [haccess] at hsame
      unfold readChunks at h
      rw [if_pos (by decide)] at h
      cases h
      refine ⟨hsame, window_of_bytes (by decide) fun j hj hlow => ?_⟩
      rw [byteAt_gathered 0 long (by decide) (by decide) hj hlow, ← hbytes _ (by omega), hoffset]
  · obtain ⟨hmemory, hvalue⟩ := view.readChunks_ok hmode size address size 0 s s' value (le_refl _) hsize
      (fun hthree hone => hjunk ⟨hthree, hone⟩) h
    refine ⟨hmemory, window_of_bytes hsize fun j hj hlow => ?_⟩
    rw [hvalue j hj, if_pos hlow]

/-- What an access to a stretch of memory leaves besides what it stores: the log has requests for bytes of
the stretch alone. -/
structure Touches (address : BitVec 32) (size : ℕ) (cpu cpu' : Cpu (σ × List Request)) : Prop where
  rest : ∃ memory, cpu' = { cpu with memory }
  log : ∃ requests, cpu'.memory.2 = cpu.memory.2 ++ requests ∧ ∀ r ∈ requests, r.Within address size

variable {cpu cpu' : Cpu (σ × List Request)}

theorem MemoryPorts.readOperand_window (hcode : cpu.dataFunctionCode = functionCode) (hpos : 1 ≤ size)
    (hsize : size ≤ 4) (h : readOperand ports.logged (.ofMemory address) size cpu = .ok value cpu') :
    Touches address size cpu cpu' ∧ view.memory cpu'.memory.1 = view.memory cpu.memory.1 ∧
      Window (view.memory cpu.memory.1) address size value := by
  unfold readOperand at h
  rw [Attempt.read_bind] at h
  unfold stepOperandRead at h
  rw [operandRead_ofMemory] at h
  obtain ⟨requests, hlog, hwithin⟩ := readChunks_log ports (cpu.accessMode cpu.dataFunctionCode) size
    address size 0 cpu.memory
  rcases hchunks : readChunks ports.logged (cpu.accessMode cpu.dataFunctionCode) size address size 0
    cpu.memory with ⟨_ | read, memory⟩
  · rw [hchunks] at h
    exact nomatch h
  · rw [hchunks] at h hlog
    cases h
    obtain ⟨hmemory, hwindow⟩ := view.logged.readChunks_window (by exact hcode) hpos hsize hchunks
    exact ⟨⟨⟨memory, rfl⟩, requests, hlog, fun r hr => (hwithin r hr).2⟩, hmemory, hwindow⟩

theorem MemoryPorts.writeOperand_window (hcode : cpu.dataFunctionCode = functionCode) (hsize : size ≤ 4)
    (h : writeOperand ports.logged (.ofMemory address) size value cpu = .ok () cpu') :
    Touches address size cpu cpu' ∧
      view.memory cpu'.memory.1 = (view.memory cpu.memory.1).storeAt address size value := by
  unfold writeOperand at h
  rw [Attempt.read_bind] at h
  unfold stepOperandWrite at h
  rw [operandWrite_ofMemory] at h
  obtain ⟨requests, hlog, hwithin⟩ := writeChunks_log ports (cpu.accessMode cpu.dataFunctionCode) value
    size address size cpu.memory
  rcases hchunks : writeChunks ports.logged (cpu.accessMode cpu.dataFunctionCode) value size address size
    cpu.memory with ⟨_ | _, memory⟩
  · rw [hchunks] at h
    exact nomatch h
  · rw [hchunks] at h hlog
    cases h
    have hmemory := view.logged.writeChunks_ok (by exact hcode) value size address size cpu.memory memory
      (le_refl _) hsize hchunks
    exact ⟨⟨⟨memory, rfl⟩, requests, hlog, fun r hr => (hwithin r hr).2⟩, hmemory⟩

theorem Touches.trans {cpu'' : Cpu (σ × List Request)} (h : Touches address size cpu cpu')
    (h' : Touches address size cpu' cpu'') : Touches address size cpu cpu'' := by
  obtain ⟨⟨memory, rfl⟩, requests, hlog, hwithin⟩ := h
  obtain ⟨⟨memory', rfl⟩, requests', hlog', hwithin'⟩ := h'
  refine ⟨⟨memory', rfl⟩, requests ++ requests', by rw [hlog', hlog, List.append_assoc], fun r hr => ?_⟩
  obtain hr | hr := List.mem_append.mp hr
  · exact hwithin r hr
  · exact hwithin' r hr

theorem Touches.part (start : ℕ) {whole : ℕ} (hpart : start + size ≤ whole)
    (h : Touches (address + BitVec.ofNat 32 start) size cpu cpu') : Touches address whole cpu cpu' := by
  obtain ⟨hrest, requests, hlog, hwithin⟩ := h
  refine ⟨hrest, requests, hlog, fun r hr j hj => ?_⟩
  obtain ⟨i, hi, heq⟩ := hwithin r hr j hj
  refine ⟨start + i, by omega, ?_⟩
  rw [heq, BitVec.add_assoc, BitVec.ofNat_add]

/-! ## Spans -/

variable {span : BitfieldSpan} {base : BitVec 32}

theorem window_five {m : ByteMemory 32} {head tail : BitVec 32} (hhead : Window m address 4 head)
    (htail : tail = m.loadAt (address + 4) 1) :
    Window m address 5 ((head.setWidth 64 <<< 8) ||| tail.setWidth 64) := by
  have hbits : ∀ i < 32, tail.getLsbD i = (decide (i < 8) && (m (address + 4)).getLsbD i) := by
    intro i hi
    have hbyte := byteAt_getLsbD tail (3 - i / 8) (Nat.mod_lt i (by decide : 0 < 8))
    rw [show 8 * (3 - (3 - i / 8)) + i % 8 = i by omega] at hbyte
    rw [← hbyte, htail, ByteMemory.byteAt_loadAt (by omega)]
    by_cases hlow : i < 8
    · rw [if_pos (by omega), decide_eq_true hlow, Bool.true_and, Nat.mod_eq_of_lt hlow,
        show 3 - i / 8 - (4 - 1) = 0 by omega]
      simp
    · rw [if_neg (by omega), decide_eq_false hlow, Bool.false_and]
      exact BitVec.getLsbD_zero
  intro q hq b hb
  rw [BitVec.getLsbD_or, BitVec.getLsbD_shiftLeft, BitVec.getLsbD_setWidth, BitVec.getLsbD_setWidth]
  by_cases hlast : q = 4
  · subst hlast
    rw [decide_eq_true (by omega : 8 * (5 - 1 - 4) + b < 8), hbits _ (by omega),
      show 8 * (5 - 1 - 4) + b = b by omega, decide_eq_true hb]
    simp [show b < 64 by omega]
  · have hword := hhead q (by omega) b hb
    rw [decide_eq_false (by omega : ¬ 8 * (5 - 1 - q) + b < 8),
      show 8 * (5 - 1 - q) + b - 8 = 8 * (4 - 1 - q) + b by omega, hword,
      decide_eq_true (by omega : 8 * (5 - 1 - q) + b < 64),
      decide_eq_true (by omega : 8 * (4 - 1 - q) + b < 64)]
    have htop : tail.getLsbD (8 * (5 - 1 - q) + b) = false := by
      by_cases hin : 8 * (5 - 1 - q) + b < 32
      · rw [hbits _ hin, decide_eq_false (by omega), Bool.false_and]
      · exact BitVec.getLsbD_of_ge _ _ (by omega)
    rw [htop]
    simp

theorem MemoryPorts.bitfieldSpanRead_ok (hcode : cpu.dataFunctionCode = functionCode)
    (hpos : 1 ≤ span.bytes) (hle : span.bytes ≤ 5) {bytes : BitVec 64}
    (h : bitfieldSpanRead ports.logged base span cpu = .ok bytes cpu') :
    Touches (bitfieldStart base span) span.bytes cpu cpu' ∧
      view.memory cpu'.memory.1 = view.memory cpu.memory.1 ∧
      Window (view.memory cpu.memory.1) (bitfieldStart base span) span.bytes bytes := by
  unfold bitfieldSpanRead at h
  generalize bitfieldStart base span = start at h ⊢
  generalize span.bytes = n at h hpos hle ⊢
  obtain ⟨head, cpu₁, hhead, h⟩ := Attempt.bind_eq_ok.mp h
  by_cases hfive : n > 4
  · obtain rfl : n = 5 := by omega
    rw [if_pos hfive] at hhead h
    obtain ⟨tail, cpu₂, htail, h⟩ := Attempt.bind_eq_ok.mp h
    cases h
    obtain ⟨htouch, hmemory, hwindow⟩ := view.readOperand_window hcode (by decide) (by decide) hhead
    have hcode₁ : cpu₁.dataFunctionCode = functionCode := by
      obtain ⟨memory, rfl⟩ := htouch.rest
      exact hcode
    obtain ⟨htouch', hmemory', -⟩ := view.readOperand_window hcode₁ (by decide) (by decide) htail
    have hfirst : Touches start 5 cpu cpu₁ := by
      refine Touches.part 0 (by decide : 0 + 4 ≤ 5) ?_
      rwa [BitVec.add_zero]
    refine ⟨hfirst.trans (htouch'.part 4 (by decide)), hmemory'.trans hmemory, window_five hwindow ?_⟩
    obtain ⟨memory, -, -, hvalue⟩ := view.logged.readOperand_ok hcode₁ (.inl rfl) htail
    rw [hvalue]
    exact congrArg (ByteMemory.loadAt · (start + 4) 1) hmemory
  · rw [if_neg hfive] at hhead h
    cases h
    obtain ⟨htouch, hmemory, hwindow⟩ := view.readOperand_window hcode hpos (by omega) hhead
    refine ⟨htouch, hmemory, fun q hq b hb => ?_⟩
    rw [BitVec.getLsbD_setWidth, decide_eq_true (by omega), Bool.true_and]
    exact hwindow q hq b hb

theorem storeAt_eq_storeWindow {m : ByteMemory 32} {x : BitVec 64} (hsize : size ≤ 4)
    (h : ∀ k < 8 * size, value.getLsbD k = x.getLsbD k) :
    m.storeAt address size value = storeWindow m address size x := by
  funext a
  unfold ByteMemory.storeAt storeWindow
  split
  · next hbyte =>
    refine BitVec.eq_of_getLsbD_eq fun b hb => ?_
    rw [byteAt_getLsbD _ _ hb, BitVec.getLsbD_setWidth, BitVec.getLsbD_ushiftRight, decide_eq_true hb,
      Bool.true_and, ← h _ (by omega)]
    congr 1
    omega
  · rfl

theorem MemoryPorts.bitfieldSpanWrite_ok (hcode : cpu.dataFunctionCode = functionCode)
    (hpos : 1 ≤ span.bytes) (hle : span.bytes ≤ 5) {bytes : BitVec 64}
    (h : bitfieldSpanWrite ports.logged base span bytes cpu = .ok () cpu') :
    Touches (bitfieldStart base span) span.bytes cpu cpu' ∧
      view.memory cpu'.memory.1 =
        storeWindow (view.memory cpu.memory.1) (bitfieldStart base span) span.bytes bytes := by
  unfold bitfieldSpanWrite at h
  generalize bitfieldStart base span = start at h ⊢
  generalize span.bytes = n at h hpos hle ⊢
  obtain ⟨_, cpu₁, hhead, h⟩ := Attempt.bind_eq_ok.mp h
  by_cases hfive : n > 4
  · obtain rfl : n = 5 := by omega
    rw [if_pos hfive] at hhead h
    rw [if_neg (by decide)] at h
    obtain ⟨htouch, hmemory⟩ := view.writeOperand_window hcode (by decide) hhead
    have hcode₁ : cpu₁.dataFunctionCode = functionCode := by
      obtain ⟨memory, rfl⟩ := htouch.rest
      exact hcode
    obtain ⟨htouch', hmemory'⟩ := view.writeOperand_window hcode₁ (by decide) h
    have hfirst : Touches start 5 cpu cpu₁ := by
      refine Touches.part 0 (by decide : 0 + 4 ≤ 5) ?_
      rwa [BitVec.add_zero]
    refine ⟨hfirst.trans (htouch'.part 4 (by decide)), ?_⟩
    have hhigh : (view.memory cpu.memory.1).storeAt start 4 ((bytes >>> 8).setWidth 32) =
        storeWindow (view.memory cpu.memory.1) start 4 (bytes >>> 8) :=
      storeAt_eq_storeWindow (by decide) fun k hk => by
        rw [BitVec.getLsbD_setWidth, decide_eq_true (by omega), Bool.true_and]
    have hmask : ∀ k < 8, (bytes &&& 0xFF).getLsbD k = bytes.getLsbD k := by
      have hlow : ∀ k < 8, (0xFF : BitVec 64).getLsbD k = true := by decide
      intro k hk
      rw [BitVec.getLsbD_and, hlow k hk, Bool.and_true]
    have hlow (m : ByteMemory 32) : m.storeAt (start + 4) 1 ((bytes &&& 0xFF).setWidth 32) =
        storeWindow m (start + 4) 1 bytes :=
      storeAt_eq_storeWindow (by decide) fun k hk => by
        rw [BitVec.getLsbD_setWidth, decide_eq_true (by omega), Bool.true_and, hmask k (by omega)]
    rw [hmemory', hmemory]
    refine Eq.trans ?_ (storeWindow_append (by decide : 4 ≤ 5) (by decide))
    exact (hlow _).trans (congrArg (storeWindow · (start + 4) 1 bytes) hhigh)
  · rw [if_neg hfive] at hhead h
    rw [Nat.sub_self, if_pos rfl] at h
    cases h
    obtain ⟨htouch, hmemory⟩ := view.writeOperand_window hcode (by omega) hhead
    refine ⟨htouch, hmemory.trans (storeAt_eq_storeWindow (by omega) fun k hk => ?_)⟩
    rw [BitVec.getLsbD_setWidth, Nat.sub_self, Nat.zero_mul, BitVec.ushiftRight_zero,
      decide_eq_true (by omega), Bool.true_and]

end Access

/-! ## The bits of a field -/

/-- A bit of memory, or of a data register. -/
inductive BitPlace
  | memory (place : BitVec 32 × Fin 8)
  | register (reg : Fin 8) (bit : Fin 32)

/-- A bit of a memory and data registers. -/
def bitOf (m : ByteMemory 32) (d : Vector (BitVec 32) 8) : BitPlace → Bool
  | .memory place => memoryBit m place
  | .register reg bit => (d.get reg).getLsbD bit

/-- Where the bits of a field are: from the most significant bit of the base byte on in memory, which has no
end, and from that of the register on in a register, modulo its 32 bits. -/
def BitfieldSpec.place (spec : BitfieldSpec) (reg : Fin 8) (base : BitVec 32) (i : ℕ) : BitPlace :=
  if spec.toRegister then .register reg ⟨31 - (spec.offset.toNat + i) % 32, by omega⟩
  else .memory (bitPlace base (spec.offset.toInt + i))

/-- Between two states, only bytes that have some of a field were asked for. -/
def TouchesField {σ : Type} (spec : BitfieldSpec) (reg : Fin 8) (base : BitVec 32)
    (cpu cpu' : Cpu (σ × List Request)) : Prop :=
  ∃ requests, cpu'.memory.2 = cpu.memory.2 ++ requests ∧ ∀ r ∈ requests, ∀ j < r.size,
    ∃ i < spec.width, ∃ b, spec.place reg base i = .memory (r.address + BitVec.ofNat 32 j, b)

theorem bitfieldRegisterBit_eq (spec : BitfieldSpec) (i : ℕ) :
    bitfieldRegisterBit spec i = 31 - (spec.offset.toNat + i) % 32 := by
  unfold bitfieldRegisterBit
  have hmask : ((spec.offset + BitVec.ofNat 32 i) &&& 31).toNat =
      (spec.offset + BitVec.ofNat 32 i).toNat % 32 := by
    rw [BitVec.toNat_and]
    exact Nat.and_two_pow_sub_one_eq_mod _ 5
  rw [hmask, BitVec.toNat_add, BitVec.toNat_ofNat]
  omega

section Field

variable {σ : Type} {ports : Ports σ} {functionCode : BitVec 8} (view : MemoryPorts ports functionCode)
  {cpu cpu' cpu'' : Cpu (σ × List Request)} {shift : BitfieldShift} {spec : BitfieldSpec}
  {reg : Fin 8} {base : BitVec 32}

/-- A bit of a state. -/
def MemoryPorts.bit (cpu : Cpu (σ × List Request)) (p : BitPlace) : Bool :=
  bitOf (view.memory cpu.memory.1) cpu.regs.d p

theorem TouchesField.of_eq (h : cpu'.memory.2 = cpu.memory.2) : TouchesField spec reg base cpu cpu' :=
  ⟨[], by rw [h, List.append_nil], nofun⟩

theorem TouchesField.trans (h : TouchesField spec reg base cpu cpu')
    (h' : TouchesField spec reg base cpu' cpu'') : TouchesField spec reg base cpu cpu'' := by
  obtain ⟨requests, hlog, hfield⟩ := h
  obtain ⟨requests', hlog', hfield'⟩ := h'
  refine ⟨requests ++ requests', by rw [hlog', hlog, List.append_assoc], fun r hr => ?_⟩
  obtain hr | hr := List.mem_append.mp hr
  · exact hfield r hr
  · exact hfield' r hr

theorem Touches.touchesField (hwide : spec.Wide) (hmemory : spec.toRegister = false)
    (h : Touches (bitfieldStart base (bitfieldSpanOf spec)) (bitfieldSpanOf spec).bytes cpu cpu') :
    TouchesField spec reg base cpu cpu' := by
  obtain ⟨-, requests, hlog, hwithin⟩ := h
  refine ⟨requests, hlog, fun r hr j hj => ?_⟩
  obtain ⟨q, hq, haddress⟩ := hwithin r hr j hj
  obtain ⟨i, hi, hbyte⟩ := exists_bit_of_byte hwide q hq
  refine ⟨i, hi, (bitPlace base (spec.offset.toInt + i)).2, ?_⟩
  unfold BitfieldSpec.place
  rw [hmemory, if_neg Bool.false_ne_true, haddress, bitfieldStart_eq]
  congr 1
  unfold bitPlace
  rw [hbyte, BitVec.ofInt_add, BitVec.ofInt_natCast, BitVec.add_assoc]

/-- A FIELD THAT IS READ: its bits, and no change. -/
theorem MemoryPorts.bitfieldRead_ok (hcode : cpu.dataFunctionCode = functionCode) (hwide : spec.Wide)
    {field : BitVec 32} (h : bitfieldRead ports.logged shift spec base cpu = .ok field cpu') :
    (∃ memory, cpu' = { cpu with memory }) ∧ TouchesField spec shift.ea.reg base cpu cpu' ∧
      view.memory cpu'.memory.1 = view.memory cpu.memory.1 ∧
      field = gather 32 (fun i => view.bit cpu (spec.place shift.ea.reg base i)) spec.width := by
  unfold bitfieldRead at h
  by_cases hregister : spec.toRegister = true
  · rw [if_pos hregister, Attempt.read_bind] at h
    cases h
    refine ⟨⟨cpu.memory, rfl⟩, .of_eq rfl, rfl, gather_congr fun i _ => ?_⟩
    unfold MemoryPorts.bit BitfieldSpec.place
    rw [if_pos hregister, bitfieldRegisterBit_eq]
    rfl
  · rw [if_neg hregister] at h
    obtain ⟨bytes, cpu₁, hspan, h⟩ := Attempt.bind_eq_ok.mp h
    cases h
    obtain ⟨-, hpos, hle, -⟩ := bitfieldSpanOf_eq hwide
    obtain ⟨htouch, hmemory, hwindow⟩ := view.bitfieldSpanRead_ok hcode hpos hle hspan
    refine ⟨htouch.rest, htouch.touchesField hwide (Bool.eq_false_of_not_eq_true hregister), hmemory,
      gather_congr fun i hi => ?_⟩
    rw [bitfieldStart_eq] at hwindow
    unfold MemoryPorts.bit BitfieldSpec.place
    rw [if_neg hregister, bitfieldSpanShift_eq hwide i hi,
      hwindow.getLsbD (inside_bitfieldSpan hwide i hi)]
    rfl

theorem get_set_dataRegister (d : Vector (BitVec 32) 8) (i j : Fin 8) (value : BitVec 32) :
    (put d i value).get j = if j = i then value else d.get j := by
  by_cases h : j = i
  · subst h
    rw [if_pos rfl]
    exact Vector.getElem_set_self _
  · rw [if_neg h]
    exact Vector.getElem_set_ne (by omega) (by omega) fun heq => h (Fin.ext heq.symm)

theorem bitOf_set_register (m : ByteMemory 32) (d : Vector (BitVec 32) 8) (i r : Fin 8) (value : BitVec 32)
    (b : Fin 32) : bitOf m (put d i value) (.register r b) =
      if r = i then value.getLsbD b else bitOf m d (.register r b) := by
  unfold bitOf
  dsimp only
  rw [get_set_dataRegister]
  split <;> rfl

/-- A FIELD THAT IS WRITTEN: its bits, and no other bit. -/
theorem MemoryPorts.bitfieldWrite_ok (hcode : cpu.dataFunctionCode = functionCode) (hwide : spec.Wide)
    {field : BitVec 32} (h : bitfieldWrite ports.logged shift spec base field cpu = .ok () cpu') :
    (∃ memory d, cpu' = { cpu with memory, regs := { cpu.regs with d } }) ∧
      TouchesField spec shift.ea.reg base cpu cpu' ∧
      (∀ i < spec.width, view.bit cpu' (spec.place shift.ea.reg base i) =
        field.getLsbD (spec.width - 1 - i)) ∧
      ∀ p, (∀ i < spec.width, p ≠ spec.place shift.ea.reg base i) → view.bit cpu' p = view.bit cpu p := by
  unfold bitfieldWrite at h
  by_cases hregister : spec.toRegister = true
  · rw [if_pos hregister] at h
    cases h
    have hplaces (i : ℕ) : spec.place shift.ea.reg base i =
        .register shift.ea.reg ⟨31 - (spec.offset.toNat + i) % 32, by omega⟩ := by
      unfold BitfieldSpec.place
      rw [if_pos hregister]
    obtain ⟨hlow, hhigh⟩ := hwide
    refine ⟨⟨cpu.memory, _, rfl⟩, .of_eq rfl, fun i hi => ?_, fun p hne => ?_⟩
    · rw [hplaces]
      refine (bitOf_set_register ..).trans ?_
      rw [if_pos rfl]
      change BitVec.getLsbD _ (31 - (spec.offset.toNat + i) % 32) = _
      rw [← bitfieldRegisterBit_eq]
      refine getLsbD_scatter hi (by rw [bitfieldRegisterBit_eq]; omega) fun k hk hik => ?_
      rw [bitfieldRegisterBit_eq, bitfieldRegisterBit_eq]
      omega
    · cases p with
      | memory p => rfl
      | register r b =>
        refine (bitOf_set_register ..).trans ?_
        by_cases hr : r = shift.ea.reg
        · rw [if_pos hr, getLsbD_scatter_of_ne b.isLt fun i hi heq => ?_, hr]
          · rfl
          · rw [bitfieldRegisterBit_eq] at heq
            exact hne i hi (by rw [hplaces, hr]; exact congrArg _ (Fin.ext heq))
        · rw [if_neg hr]
          rfl
  · rw [if_neg hregister] at h
    obtain ⟨bytes, cpu₁, hspan, h⟩ := Attempt.bind_eq_ok.mp h
    obtain ⟨-, hpos, hle, -⟩ := bitfieldSpanOf_eq hwide
    obtain ⟨htouch, hmemory, hwindow⟩ := view.bitfieldSpanRead_ok hcode hpos hle hspan
    obtain ⟨memory₁, rfl⟩ := htouch.rest
    obtain ⟨htouch', hmemory'⟩ := view.bitfieldSpanWrite_ok (by exact hcode) hpos hle h
    obtain ⟨memory₂, rfl⟩ := htouch'.rest
    refine ⟨⟨memory₂, cpu.regs.d, rfl⟩,
      (htouch.trans htouch').touchesField hwide (Bool.eq_false_of_not_eq_true hregister), ?_⟩
    have hplaces (i : ℕ) : spec.place shift.ea.reg base i =
        .memory (bitPlace base (spec.offset.toInt + i)) := by
      unfold BitfieldSpec.place
      rw [if_neg hregister]
    rw [bitfieldStart_eq] at hwindow hmemory'
    rw [scatter_congr (bitfieldSpanShift_eq hwide)] at hmemory'
    obtain ⟨hbits, hothers⟩ := storeWindow_scatter (fun i => field.getLsbD (spec.width - 1 - i))
      (by omega) (by omega) hwindow (inside_bitfieldSpan hwide)
    dsimp only at hmemory hmemory'
    rw [hmemory] at hmemory'
    refine ⟨fun i hi => ?_, ?_⟩
    · rw [hplaces]
      refine Eq.trans ?_ (hbits i hi)
      exact congrArg (memoryBit · _) hmemory'
    · intro p hne
      cases p with
      | memory p =>
        refine (congrArg (memoryBit · p) hmemory').trans (hothers p fun i hi heq => ?_)
        exact hne i hi (by rw [hplaces, heq])
      | register reg bit => rfl

end Field

/-! ## What the instructions compute -/

section Values

variable {n : ℕ} (f : BitVec n)

theorem masked_field (x : BitVec 32) (h : n ≤ 32) :
    (if n = 32 then x else x &&& ((1#32 <<< n) - 1)) = (x.setWidth n).setWidth 32 := by
  by_cases hn : n = 32
  · subst hn
    rw [if_pos rfl, BitVec.setWidth_eq, BitVec.setWidth_eq]
  · rw [if_neg hn]
    apply BitVec.eq_of_toNat_eq
    refine (toNat_and_lowMask x (by omega : n < 32)).trans ?_
    rw [BitVec.toNat_setWidth_of_le h, BitVec.toNat_setWidth]

theorem setWidth_bitfieldMask (h : n ≤ 32) : (bitfieldMask n).setWidth n = BitVec.allOnes n := by
  have hmask := masked_field (n := n) (BitVec.allOnes 32) h
  have hsame : bitfieldMask n =
      if n = 32 then BitVec.allOnes 32 else BitVec.allOnes 32 &&& ((1#32 <<< n) - 1) := by
    unfold bitfieldMask
    rw [BitVec.allOnes_and]
    rfl
  rw [hsame, hmask, BitVec.setWidth_setWidth_of_le _ h, BitVec.setWidth_eq]
  refine BitVec.eq_of_getLsbD_eq fun i hi => ?_
  rw [BitVec.getLsbD_setWidth, BitVec.getLsbD_allOnes, BitVec.getLsbD_allOnes, decide_eq_true hi,
    decide_eq_true (by omega), Bool.and_self]

theorem setWidth_changed (h : n ≤ 32) : (~~~f.setWidth 32 &&& bitfieldMask n).setWidth n = ~~~f := by
  rw [BitVec.setWidth_and, setWidth_bitfieldMask h, BitVec.and_allOnes]
  refine BitVec.eq_of_getLsbD_eq fun i hi => ?_
  rw [BitVec.getLsbD_setWidth, BitVec.getLsbD_not, BitVec.getLsbD_setWidth, BitVec.getLsbD_not,
    decide_eq_true hi, decide_eq_true (by omega), Bool.true_and, Bool.true_and, Bool.true_and,
    Bool.true_and]

theorem xor_eq_add {w : ℕ} {x y : BitVec w} (h : x &&& y = 0) : x ^^^ y = x + y := by
  rw [BitVec.add_eq_or_of_and_eq_zero _ _ h]
  refine BitVec.eq_of_getLsbD_eq fun i hi => ?_
  have hbit := congrArg (BitVec.getLsbD · i) h
  simp only [BitVec.getLsbD_and, BitVec.ofNat_eq_ofNat, BitVec.getLsbD_zero] at hbit
  rw [BitVec.getLsbD_xor, BitVec.getLsbD_or]
  cases hx : x.getLsbD i <;> cases hy : y.getLsbD i <;> simp_all

theorem signExtend_field (hpos : 1 ≤ n) (h : n ≤ 32) :
    (if n = 32 then f.setWidth 32 else (f.setWidth 32 ^^^ (1#32 <<< (n - 1))) - (1#32 <<< (n - 1))) =
      f.signExtend 32 := by
  by_cases hn : n = 32
  · subst hn
    rw [if_pos rfl, BitVec.setWidth_eq, BitVec.signExtend_eq]
  · rw [if_neg hn, ← BitVec.twoPow_eq]
    have hsign : (f.setWidth 32).getLsbD (n - 1) = f.msb := by
      rw [BitVec.getLsbD_setWidth, BitVec.msb_eq_getLsbD_last, decide_eq_true (by omega), Bool.true_and]
    have hx : (f.setWidth 32).toNat = f.toNat := BitVec.toNat_setWidth_of_le h
    have hs : (BitVec.twoPow 32 (n - 1)).toNat = 2 ^ (n - 1) := BitVec.toNat_twoPow_of_lt (by omega)
    have hpow : 2 ^ n = 2 * 2 ^ (n - 1) := by rw [← pow_succ', Nat.sub_add_cancel hpos]
    have hlt : 2 ^ n < 2 ^ 32 := Nat.pow_lt_pow_right (by decide) (by omega)
    cases hmsb : f.msb with
    | false =>
      have hclear : f.setWidth 32 &&& BitVec.twoPow 32 (n - 1) = 0 := by
        rw [BitVec.and_twoPow, hsign, hmsb]
        rfl
      rw [xor_eq_add hclear, BitVec.add_sub_cancel, BitVec.signExtend_eq_setWidth_of_msb_false hmsb]
    | true =>
      have hflipped : (f.setWidth 32 ^^^ BitVec.twoPow 32 (n - 1)) + BitVec.twoPow 32 (n - 1) =
          f.setWidth 32 := by
        rw [← xor_eq_add]
        · rw [BitVec.xor_assoc, BitVec.xor_self, BitVec.xor_zero]
        · rw [BitVec.and_twoPow, BitVec.getLsbD_xor, hsign, hmsb, BitVec.getLsbD_twoPow]
          simp [show n - 1 < 32 by omega]
      rw [show f.setWidth 32 ^^^ BitVec.twoPow 32 (n - 1) = f.setWidth 32 - BitVec.twoPow 32 (n - 1) from
        BitVec.eq_sub_iff_add_eq.mpr hflipped]
      have hge : 2 ^ (n - 1) ≤ f.toNat := by
        have := (BitVec.msb_eq_true_iff_two_mul_ge).mp hmsb
        omega
      have hf := f.isLt
      apply BitVec.eq_of_toNat_eq
      rw [BitVec.toNat_signExtend, BitVec.toNat_sub, BitVec.toNat_sub, hx, hs, hmsb, if_pos rfl]
      omega

theorem firstStop_bitfieldFound (bit : ℕ → Bool) (h : n ≤ 32) :
    FirstStop n (fun i => bit i = true) (bitfieldFound n (gather 32 bit n)) := by
  have hbit : ∀ i < n, (gather 32 bit n).getLsbD (n - 1 - i) = bit i := by
    intro i hi
    rw [getLsbD_gather _ (by omega), decide_eq_true (by omega), Bool.true_and]
    congr 1
    omega
  unfold bitfieldFound
  cases hfind : (List.range n).find? fun i => (gather 32 bit n).getLsbD (n - 1 - i) with
  | none =>
    rw [List.find?_range_eq_none] at hfind
    refine ⟨le_refl n, fun i hi hset => ?_, .inl rfl⟩
    have := hfind i hi
    rw [hbit i hi] at this
    simp_all
  | some found =>
    rw [List.find?_range_eq_some] at hfind
    obtain ⟨hset, hin, hbefore⟩ := hfind
    have hlt := List.mem_range.mp hin
    refine ⟨hlt.le, fun i hi hone => ?_, .inr ?_⟩
    · have := hbefore i hi
      rw [hbit i (lt_trans hi hlt)] at this
      simp_all
    · rwa [hbit found hlt] at hset

theorem hostAdd_eq (offset : BitVec 32) (h : n ≤ 32) :
    HostInt.add offset (BitVec.ofNat 32 n) =
        (if 2 ^ 31 ≤ offset.toInt + n then none else some (offset + BitVec.ofNat 32 n)) ∧
      (offset.toInt + n < 2 ^ 31 → (offset + BitVec.ofNat 32 n).toInt = offset.toInt + n) := by
  have hlow := BitVec.le_two_mul_toInt (x := offset)
  have hhigh := BitVec.two_mul_toInt_lt (x := offset)
  have hn : (BitVec.ofNat 32 n).toInt = n := by
    have hsmall : (BitVec.ofNat 32 n).toNat = n := Nat.mod_eq_of_lt (by omega)
    rw [BitVec.toInt_eq_toNat_of_lt (by omega), hsmall]
  constructor
  · unfold HostInt.add BitVec.saddOverflow
    rw [hn]
    by_cases hover : 2 ^ 31 ≤ offset.toInt + n
    · rw [if_pos hover, if_pos (by simpa using .inl hover)]
    · rw [if_neg hover, if_neg]
      simp only [ge_iff_le, Bool.or_eq_true, decide_eq_true_eq, not_or, not_le, not_lt]
      constructor <;> omega
  · intro hfits
    rw [BitVec.toInt_add, hn, Int.bmod_eq_of_le_mul_two] <;> omega

end Values

/-! ## The law -/

/-- What a field becomes. -/
def Bitfield.inserted {n : ℕ} (op : Bitfield) (field source : BitVec n) : BitVec n :=
  match op with
  | .chg => ~~~field
  | .clr => 0
  | .set => BitVec.allOnes n
  | .ins => source
  | .tst | .extu | .exts | .ffo => field

/-- Whether an instruction loads a data register. -/
def Bitfield.loads : Bitfield → Bool
  | .extu | .exts | .ffo => true
  | .tst | .chg | .clr | .set | .ins => false

section Law

variable {σ : Type} {ports : Ports σ} {functionCode : BitVec 8} (view : MemoryPorts ports functionCode)
  (shift : BitfieldShift) (spec : BitfieldSpec) (base : BitVec 32)

/-- A field, in a state. -/
def MemoryPorts.field (cpu : Cpu (σ × List Request)) : BitVec spec.width :=
  gather spec.width (fun i => view.bit cpu (spec.place shift.ea.reg base i)) spec.width

/-- What an instruction inserts: the lower bits of its register. -/
def fieldSource (cpu : Cpu (σ × List Request)) : BitVec spec.width :=
  (cpu.regs.d.get spec.reg).setWidth spec.width

/-- What an instruction tests. -/
def MemoryPorts.tested (cpu : Cpu (σ × List Request)) : BitVec spec.width :=
  if shift.bitfield = .ins then fieldSource spec cpu else view.field shift spec base cpu

/-- THE LAW OF BIT FIELDS: memory and the data registers are bits, a field is some of them in a row, and an
instruction reads these, changes these and no others, and asks for no byte that has none of them. -/
structure BitStream (before after : Cpu (σ × List Request)) : Prop where
  written : shift.bitfield.writes = true → view.field shift spec base after =
    shift.bitfield.inserted (view.field shift spec base before) (fieldSource spec before)
  others : ∀ p, (shift.bitfield.writes = true →
      ∀ i < spec.width, p ≠ spec.place shift.ea.reg base i) →
    (shift.bitfield.loads = true → ∀ b, p ≠ .register spec.reg b) → view.bit after p = view.bit before p
  touches : TouchesField spec shift.ea.reg base before after
  extu : shift.bitfield = .extu →
    after.regs.d.get spec.reg = (view.field shift spec base before).setWidth 32
  exts : shift.bitfield = .exts →
    after.regs.d.get spec.reg = (view.field shift spec base before).signExtend 32
  ffo : shift.bitfield = .ffo → ∃ found,
    FirstStop spec.width (fun i => view.bit before (spec.place shift.ea.reg base i) = true) found ∧
      (after.regs.d.get spec.reg).toInt = spec.offset.toInt + found
  negative : after.regs.readCcr.getLsbD srNBit = (view.tested shift spec base before).msb
  zero : after.regs.readCcr.getLsbD srZBit = decide (view.tested shift spec base before = 0)
  /-- An extraction after an insertion, of the same field and with nothing between that changes it. -/
  readBack : shift.bitfield = .ins → ∀ reg t t' outcome, t.dataFunctionCode = functionCode →
    view.field shift spec base t = view.field shift spec base after →
    bitfieldOperate ports.logged { shift with bitfield := .extu } { spec with reg } base t =
      .ok outcome t' →
    t'.regs.d.get reg = (fieldSource spec before).setWidth 32

/-- The offset of a bit that is found is one that a signed long word does not hold. -/
def OffsetOverflows (before : Cpu (σ × List Request)) : Prop :=
  shift.bitfield = .ffo ∧ ∃ found,
    FirstStop spec.width (fun i => view.bit before (spec.place shift.ea.reg base i) = true) found ∧
      2 ^ 31 ≤ spec.offset.toInt + found

variable {shift spec base} {cpu cpu' : Cpu (σ × List Request)} {outcome : Outcome}

theorem readCcr_bitfieldFlags (hwide : spec.Wide) (regs : Regs) (f : BitVec spec.width) :
    let tested := if shift.bitfield = .ins then (regs.d.get spec.reg).setWidth spec.width else f
    (bitfieldFlags shift.bitfield spec (f.setWidth 32) regs).readCcr.getLsbD srNBit = tested.msb ∧
      (bitfieldFlags shift.bitfield spec (f.setWidth 32) regs).readCcr.getLsbD srZBit =
        decide (tested = 0) := by
  intro tested
  obtain ⟨hpos, hle⟩ := hwide
  have hsource : (if shift.bitfield = .ins then
      if spec.width = 32 then regs.d.get spec.reg
      else regs.d.get spec.reg &&& ((1#32 <<< spec.width) - 1)
    else f.setWidth 32) = tested.setWidth 32 := by
    rw [masked_field _ hle]
    by_cases hins : shift.bitfield = .ins
    · rw [if_pos hins]
      exact congrArg (BitVec.setWidth 32) (if_pos hins).symm
    · rw [if_neg hins]
      exact congrArg (BitVec.setWidth 32) (if_neg hins).symm
  have hsign : (tested.setWidth 32).getLsbD (spec.width - 1) = tested.msb := by
    rw [BitVec.getLsbD_setWidth, BitVec.msb_eq_getLsbD_last, decide_eq_true (by omega), Bool.true_and]
  have hzero : tested.setWidth 32 = 0 ↔ tested = 0 := by
    constructor
    · intro h
      have hback := congrArg (BitVec.setWidth spec.width) h
      rw [BitVec.setWidth_setWidth_of_le _ hle, BitVec.setWidth_eq] at hback
      exact hback.trans (BitVec.setWidth_zero _ _)
    · intro h
      rw [h]
      exact BitVec.setWidth_zero _ _
  unfold bitfieldFlags
  dsimp only
  rw [hsource, hsign]
  simp only [hzero]
  generalize tested.msb = n, decide (tested = 0) = z
  have hcleared : ∀ bit, bit = srNBit ∨ bit = srZBit → (regs.readCcr &&&
      ~~~((1#16 <<< srNBit) ||| (1#16 <<< srZBit) ||| (1#16 <<< srVBit) ||| (1#16 <<< srCBit))).getLsbD bit =
        false := by
    intro bit hbit
    rw [BitVec.getLsbD_and]
    rcases hbit with rfl | rfl
    · rw [show (~~~((1#16 <<< srNBit) ||| (1#16 <<< srZBit) ||| (1#16 <<< srVBit) |||
        (1#16 <<< srCBit))).getLsbD srNBit = false by decide, Bool.and_false]
    · rw [show (~~~((1#16 <<< srNBit) ||| (1#16 <<< srZBit) ||| (1#16 <<< srVBit) |||
        (1#16 <<< srCBit))).getLsbD srZBit = false by decide, Bool.and_false]
  rw [readCcr_writeCcr]
  simp only [BitVec.getLsbD_and, BitVec.getLsbD_or, getLsbD_ccrFlag _ _ (show srNBit < 16 by decide),
    getLsbD_ccrFlag _ _ (show srZBit < 16 by decide), hcleared srNBit (.inl rfl),
    hcleared srZBit (.inr rfl), show ccrMask.getLsbD srNBit = true by decide,
    show ccrMask.getLsbD srZBit = true by decide, show decide (srNBit = srZBit) = false by decide,
    show decide (srZBit = srNBit) = false by decide]
  simp

variable (shift spec base) in
/-- The state in which an instruction has read and tested its field. -/
def MemoryPorts.tests (cpu : Cpu (σ × List Request)) (memory : σ × List Request) :
    Cpu (σ × List Request) :=
  { cpu with
    memory
    regs := bitfieldFlags shift.bitfield spec ((view.field shift spec base cpu).setWidth 32) cpu.regs }

/-- A bit field instruction whose operands are known: the field is read and tested, and then there is its
switch. -/
theorem MemoryPorts.bitfieldOperate_ok (hcode : cpu.dataFunctionCode = functionCode) (hwide : spec.Wide)
    (h : bitfieldOperate ports.logged shift spec base cpu = .ok outcome cpu') :
    ∃ memory, TouchesField spec shift.ea.reg base cpu { cpu with memory } ∧
      view.memory memory.1 = view.memory cpu.memory.1 ∧
      bitfieldApply ports.logged shift spec base ((view.field shift spec base cpu).setWidth 32)
        (view.tests shift spec base cpu memory) = .ok outcome cpu' := by
  unfold bitfieldOperate at h
  obtain ⟨field, cpu₁, hread, h⟩ := Attempt.bind_eq_ok.mp h
  obtain ⟨⟨memory, rfl⟩, htouch, hmemory, rfl⟩ := view.bitfieldRead_ok hcode hwide hread
  rw [Attempt.modify_bind] at h
  have hfield : (view.field shift spec base cpu).setWidth 32 =
      gather 32 (fun i => view.bit cpu (spec.place shift.ea.reg base i)) spec.width := gather_setWidth _
  unfold MemoryPorts.tests
  rw [hfield]
  exact ⟨memory, htouch, hmemory, h⟩

theorem MemoryPorts.extracts (hcode : cpu.dataFunctionCode = functionCode) (hwide : spec.Wide)
    (hop : shift.bitfield = .extu)
    (h : bitfieldOperate ports.logged shift spec base cpu = .ok outcome cpu') :
    cpu'.regs.d.get spec.reg = (view.field shift spec base cpu).setWidth 32 := by
  obtain ⟨memory, -, -, h⟩ := view.bitfieldOperate_ok hcode hwide h
  unfold bitfieldApply at h
  rw [hop] at h
  cases h
  exact (get_set_dataRegister ..).trans (if_pos rfl)

variable {memory : σ × List Request}

theorem MemoryPorts.bit_tests (hmemory : view.memory memory.1 = view.memory cpu.memory.1) (p : BitPlace) :
    view.bit (view.tests shift spec base cpu memory) p = view.bit cpu p := by
  cases p with
  | memory p => exact congrArg (memoryBit · p) hmemory
  | register r b => rfl

theorem BitStream.of_test (hwide : spec.Wide) (hop : shift.bitfield = .tst)
    (htouch : TouchesField spec shift.ea.reg base cpu { cpu with memory })
    (hmemory : view.memory memory.1 = view.memory cpu.memory.1) :
    BitStream view shift spec base cpu (view.tests shift spec base cpu memory) where
  written := by simp [hop, Bitfield.writes]
  others p _ _ := view.bit_tests hmemory p
  touches := htouch
  extu := by simp [hop]
  exts := by simp [hop]
  ffo := by simp [hop]
  negative := (readCcr_bitfieldFlags hwide cpu.regs (view.field shift spec base cpu)).1
  zero := (readCcr_bitfieldFlags hwide cpu.regs (view.field shift spec base cpu)).2
  readBack := by simp [hop]

theorem BitStream.of_load {value : BitVec 32} (hwide : spec.Wide)
    (hloads : shift.bitfield.loads = true)
    (htouch : TouchesField spec shift.ea.reg base cpu { cpu with memory })
    (hmemory : view.memory memory.1 = view.memory cpu.memory.1)
    (hextu : shift.bitfield = .extu → value = (view.field shift spec base cpu).setWidth 32)
    (hexts : shift.bitfield = .exts → value = (view.field shift spec base cpu).signExtend 32)
    (hffo : shift.bitfield = .ffo → ∃ found,
      FirstStop spec.width (fun i => view.bit cpu (spec.place shift.ea.reg base i) = true) found ∧
        value.toInt = spec.offset.toInt + found) :
    BitStream view shift spec base cpu
      ((view.tests shift spec base cpu memory).mapRegs fun regs =>
        { regs with d := regs.d.set spec.reg value }) := by
  have hwrites : shift.bitfield.writes = false := by
    cases hop : shift.bitfield <;> simp_all [Bitfield.loads, Bitfield.writes]
  have hvalue : ((view.tests shift spec base cpu memory).regs.d.set spec.reg value).get spec.reg = value :=
    (get_set_dataRegister ..).trans (if_pos rfl)
  exact
    { written := fun h => nomatch hwrites.symm.trans h
      others := fun p _ hother => by
        cases p with
        | memory p => exact congrArg (memoryBit · p) hmemory
        | register r b =>
          refine (bitOf_set_register ..).trans ((if_neg fun hr => ?_).trans rfl)
          exact hother hloads b (by rw [hr])
      touches := htouch
      extu := fun h => hvalue.trans (hextu h)
      exts := fun h => hvalue.trans (hexts h)
      ffo := fun h => by
        obtain ⟨found, hfirst, hsum⟩ := hffo h
        exact ⟨found, hfirst, (congrArg BitVec.toInt hvalue).trans hsum⟩
      negative := (readCcr_bitfieldFlags hwide cpu.regs (view.field shift spec base cpu)).1
      zero := (readCcr_bitfieldFlags hwide cpu.regs (view.field shift spec base cpu)).2
      readBack := fun h => by simp [h, Bitfield.loads] at hloads }

theorem BitStream.of_write {value : BitVec 32} (hcode : cpu.dataFunctionCode = functionCode)
    (hwide : spec.Wide) (hwrites : shift.bitfield.writes = true)
    (htouch : TouchesField spec shift.ea.reg base cpu { cpu with memory })
    (hmemory : view.memory memory.1 = view.memory cpu.memory.1)
    (hvalue : value.setWidth spec.width =
      shift.bitfield.inserted (view.field shift spec base cpu) (fieldSource spec cpu))
    (h : bitfieldWrite ports.logged shift spec base value (view.tests shift spec base cpu memory) =
      .ok () cpu') :
    BitStream view shift spec base cpu cpu' := by
  obtain ⟨⟨memory', d, rfl⟩, htouch', hbits, hothers⟩ :=
    view.bitfieldWrite_ok (by exact hcode) hwide h
  have hfield : view.field shift spec base
      { (view.tests shift spec base cpu memory) with
        memory := memory', regs := { (view.tests shift spec base cpu memory).regs with d } } =
      shift.bitfield.inserted (view.field shift spec base cpu) (fieldSource spec cpu) := by
    rw [← hvalue]
    exact gather_eq_setWidth hbits
  have hloads : shift.bitfield.loads = false := by
    cases hop : shift.bitfield <;> simp_all [Bitfield.loads, Bitfield.writes]
  exact
    { written := fun _ => hfield
      others := fun p hother _ => (hothers p (hother hwrites)).trans (view.bit_tests hmemory p)
      touches := htouch.trans htouch'
      extu := fun hop => by simp [hop, Bitfield.writes] at hwrites
      exts := fun hop => by simp [hop, Bitfield.writes] at hwrites
      ffo := fun hop => by simp [hop, Bitfield.writes] at hwrites
      negative := (readCcr_bitfieldFlags hwide cpu.regs (view.field shift spec base cpu)).1
      zero := (readCcr_bitfieldFlags hwide cpu.regs (view.field shift spec base cpu)).2
      readBack := fun hop reg t t' outcome' hcode' hsame hrun => by
        refine (view.extracts hcode' (by exact hwide) (by exact rfl) hrun).trans
          (congrArg (BitVec.setWidth 32) ?_)
        refine Eq.trans ?_ (hsame.trans (hfield.trans ?_))
        · rfl
        · rw [hop]
          rfl }

/-- THE INSTRUCTIONS ON A FIELD: the law holds, except where the offset that `BFFFO` is to load is one that
the host cannot add. -/
theorem bitfieldOperate_stream (hcode : cpu.dataFunctionCode = functionCode) (hwide : spec.Wide)
    (h : bitfieldOperate ports.logged shift spec base cpu = .ok outcome cpu') :
    (outcome = .done ∧ BitStream view shift spec base cpu cpu') ↔
      ¬ OffsetOverflows view shift spec base cpu := by
  obtain ⟨memory, htouch, hmemory, h⟩ := view.bitfieldOperate_ok hcode hwide h
  have hle := hwide.2
  have hno : shift.bitfield ≠ .ffo → ¬ OffsetOverflows view shift spec base cpu := fun hne h => hne h.1
  unfold bitfieldApply at h
  cases hop : shift.bitfield with
  | tst =>
    rw [hop] at h
    cases h
    exact iff_of_true ⟨rfl, .of_test view hwide hop htouch hmemory⟩ (hno (by simp [hop]))
  | extu =>
    rw [hop] at h
    cases h
    refine iff_of_true ⟨rfl, ?_⟩ (hno (by simp [hop]))
    exact .of_load view hwide (by rw [hop]; rfl) htouch hmemory (fun _ => rfl) (by simp [hop])
      (by simp [hop])
  | exts =>
    rw [hop] at h
    cases h
    refine iff_of_true ⟨rfl, ?_⟩ (hno (by simp [hop]))
    exact .of_load view hwide (by rw [hop]; rfl) htouch hmemory (by simp [hop])
      (fun _ => signExtend_field _ hwide.1 hle) (by simp [hop])
  | ffo =>
    have hfirst := firstStop_bitfieldFound
      (fun i => view.bit cpu (spec.place shift.ea.reg base i)) hle
    have hfound : (view.field shift spec base cpu).setWidth 32 =
      gather 32 (fun i => view.bit cpu (spec.place shift.ea.reg base i)) spec.width := gather_setWidth _
    rw [hop] at h
    dsimp only at h
    rw [hfound] at h
    generalize bitfieldFound spec.width (gather 32 (fun i =>
      view.bit cpu (spec.place shift.ea.reg base i)) spec.width) = found at h hfirst
    obtain ⟨hadd, hsum⟩ := hostAdd_eq spec.offset (le_trans hfirst.le hle)
    rw [hadd] at h
    by_cases hover : 2 ^ 31 ≤ spec.offset.toInt + found
    · rw [if_pos hover] at h
      cases h
      exact iff_of_false (fun hdone => nomatch hdone.1) fun hnot => hnot ⟨hop, found, hfirst, hover⟩
    · rw [if_neg hover] at h
      cases h
      refine iff_of_true ⟨rfl, ?_⟩ fun ⟨_, other, hother, hlarge⟩ =>
        hover (hfirst.unique hother ▸ hlarge)
      exact .of_load view hwide (by rw [hop]; rfl) htouch hmemory (by simp [hop]) (by simp [hop])
        fun _ => ⟨found, hfirst, hsum (by omega)⟩
  | chg =>
    rw [hop] at h
    obtain ⟨_, cpu₁, hwrite, h⟩ := Attempt.bind_eq_ok.mp h
    cases h
    refine iff_of_true ⟨rfl, ?_⟩ (hno (by simp [hop]))
    refine .of_write view hcode hwide (by rw [hop]; rfl) htouch hmemory ?_ hwrite
    rw [hop]
    exact setWidth_changed _ hle
  | clr =>
    rw [hop] at h
    obtain ⟨_, cpu₁, hwrite, h⟩ := Attempt.bind_eq_ok.mp h
    cases h
    refine iff_of_true ⟨rfl, ?_⟩ (hno (by simp [hop]))
    refine .of_write view hcode hwide (by rw [hop]; rfl) htouch hmemory ?_ hwrite
    rw [hop]
    exact BitVec.setWidth_zero _ _
  | set =>
    rw [hop] at h
    obtain ⟨_, cpu₁, hwrite, h⟩ := Attempt.bind_eq_ok.mp h
    cases h
    refine iff_of_true ⟨rfl, ?_⟩ (hno (by simp [hop]))
    refine .of_write view hcode hwide (by rw [hop]; rfl) htouch hmemory ?_ hwrite
    rw [hop]
    exact setWidth_bitfieldMask hle
  | ins =>
    rw [hop] at h
    obtain ⟨source, cpu₁, hsource, h⟩ := Attempt.bind_eq_ok.mp h
    obtain ⟨_, cpu₂, hwrite, h⟩ := Attempt.bind_eq_ok.mp h
    cases h
    cases hsource
    refine iff_of_true ⟨rfl, ?_⟩ (hno (by simp [hop]))
    refine .of_write view hcode hwide (by rw [hop]; rfl) htouch hmemory ?_ hwrite
    rw [hop]
    rfl

theorem LeavesContext.of_ok {α : Type} {x : Exec σ α} {a : α} {cpu cpu' : Cpu σ} (hx : LeavesContext x)
    (h : x cpu = .ok a cpu') : SameContext cpu cpu' := by
  have hrun := hx.run cpu
  rwa [h] at hrun

theorem width_of_five {w : ℕ} (x : BitVec w) :
    1 ≤ (if (x &&& 31).toNat = 0 then 32 else (x &&& 31).toNat) ∧
      (if (x &&& 31).toNat = 0 then 32 else (x &&& 31).toNat) ≤ 32 := by
  have hle : (x &&& 31).toNat ≤ 31 := by
    rw [BitVec.toNat_and]
    exact le_trans Nat.and_le_right (Nat.mod_le _ _)
  split <;> omega

theorem bitfieldOperands_ok {ports : Ports σ} {cpu before : Cpu σ}
    (h : bitfieldOperands ports shift cpu = .ok (spec, base) before) :
    spec.Wide ∧ before.dataFunctionCode = cpu.dataFunctionCode := by
  unfold bitfieldOperands at h
  obtain ⟨extension, cpu₁, hword, h⟩ := Attempt.bind_eq_ok.mp h
  obtain ⟨_, cpu₂, hallowed, h⟩ := Attempt.bind_eq_ok.mp h
  rw [Attempt.read_bind] at h
  have hcontext : SameContext cpu cpu₂ := ((leavesContext_nextWord ports).of_ok hword).trans _ _ _
    ((leavesContext_allowEa _).of_ok hallowed)
  have hwidth : ∀ width, width = (if extension.getLsbD 5 = true then
      (cpu₂.regs.d.get (field3 extension 0) &&& 31).toNat else (extension &&& 31).toNat) →
      1 ≤ (if width = 0 then 32 else width) ∧ (if width = 0 then 32 else width) ≤ 32 := by
    rintro width rfl
    by_cases hbit : extension.getLsbD 5 = true
    · rw [if_pos hbit]
      exact width_of_five _
    · rw [if_neg hbit]
      exact width_of_five _
  split at h
  · cases h
    exact ⟨hwidth _ rfl, hcontext.dataFunctionCode⟩
  · obtain ⟨input, cpu₃, hinput, h⟩ := Attempt.bind_eq_ok.mp h
    obtain ⟨target, cpu₄, htarget, h⟩ := Attempt.bind_eq_ok.mp h
    obtain ⟨_, cpu₅, hvalid, h⟩ := Attempt.bind_eq_ok.mp h
    cases h
    obtain ⟨-, rfl⟩ := Attempt.require_eq_ok.mp hvalid
    have hrest : SameContext cpu₂ before :=
      ((leavesContext_gatherAddressInput ports shift.ea.kind 1).of_ok hinput).trans _ _ _
        ((leavesContext_resolveAddress ports shift.ea input).of_ok htarget)
    exact ⟨hwidth _ rfl, (hcontext.trans _ _ _ hrest).dataFunctionCode⟩

/-- BIT FIELDS ARE ONE BIG-ENDIAN STREAM OF BITS: an instruction that is carried out obeys the law, except
where the offset that `BFFFO` is to load is one that the host cannot add. -/
theorem bitfield_stream {before after : Cpu (σ × List Request)}
    (hcode : cpu.dataFunctionCode = functionCode)
    (hoperands : bitfieldOperands ports.logged shift cpu = .ok (spec, base) before)
    (hrun : executeBitfield ports.logged shift cpu = .ok outcome after) :
    (outcome = .done ∧ BitStream view shift spec base before after) ↔
      ¬ OffsetOverflows view shift spec base before := by
  obtain ⟨hwide, hsame⟩ := bitfieldOperands_ok hoperands
  unfold executeBitfield at hrun
  rw [Attempt.bind_of_ok hoperands] at hrun
  exact bitfieldOperate_stream view (hsame.trans hcode) hwide hrun

end Law

/-! ### Two runs -/

/-- A processor on a memory that is one extension word over and over, with a number in `D1` and one in
`D2`. -/
def bitfieldCpu (high low : BitVec 8) (d1 d2 : BitVec 32) : Cpu (ByteMemory 32 × List Request) :=
  let cpu := flatCpu .m68030 0x2000 0x2000 0x1000
  { cpu with
    memory := (fun x => if x.getLsbD 0 then low else high, [])
    regs := { cpu.regs with d := #v[0, d1, d2, 0, 0, 0, 0, 0] } }

/-- `BFINS D1,(A0){D2:32}`, with three bits before the base. -/
theorem bitfield_stream_ins :
    let shift : BitfieldShift := ⟨.ins, ⟨.addressIndirect, 0⟩⟩
    ∃ spec base before after, bitfieldOperands (flatPorts fun _ => false).logged shift
        (bitfieldCpu 0x18 0x80 0xDEADBEEF 0xFFFFFFFD) = .ok (spec, base) before ∧
      BitStream (flatMemory (fun _ => false) 5) shift spec base before after ∧
      spec.offset.toInt = -3 ∧ spec.width = 32 := by
  intro shift
  have hoperands : Attempt.runsTo (do
      let operands ← bitfieldOperands (flatPorts fun _ => false).logged shift
      Attempt.require (operands.1.offset.toInt = -3 ∧ operands.1.width = 32))
      (bitfieldCpu 0x18 0x80 0xDEADBEEF 0xFFFFFFFD) (fun _ => True) = true := by decide +kernel
  have hrun : Attempt.runsTo (executeBitfield (flatPorts fun _ => false).logged shift)
      (bitfieldCpu 0x18 0x80 0xDEADBEEF 0xFFFFFFFD) (fun _ => True) = true := by decide +kernel
  obtain ⟨_, _, hfirst, -⟩ := Attempt.exists_ok_of_runsTo hoperands
  obtain ⟨⟨spec, base⟩, before, hoperands, hfirst⟩ := Attempt.bind_eq_ok.mp hfirst
  obtain ⟨⟨hoffset, hwidth⟩, -⟩ := Attempt.require_eq_ok.mp hfirst
  obtain ⟨outcome, after, hrun, -⟩ := Attempt.exists_ok_of_runsTo hrun
  have hlaw := (bitfield_stream (flatMemory (fun _ => false) 5) rfl hoperands hrun).mpr
    fun h => by cases h.1
  exact ⟨spec, base, before, after, hoperands, hlaw.2, hoffset, hwidth⟩

/-- `BFFFO (A0){D1:32},D0` WITH AN OFFSET OF 2^31 - 1: what it is to load is not defined. -/
theorem bitfield_defect :
    let shift : BitfieldShift := ⟨.ffo, ⟨.addressIndirect, 0⟩⟩
    ∃ spec base before outcome after, bitfieldOperands (flatPorts fun _ => false).logged shift
        (bitfieldCpu 0x08 0x40 0x7FFFFFFF 0) = .ok (spec, base) before ∧
      executeBitfield (flatPorts fun _ => false).logged shift (bitfieldCpu 0x08 0x40 0x7FFFFFFF 0) =
        .ok outcome after ∧ outcome = .undefined ∧
      ¬ (outcome = .done ∧ BitStream (flatMemory (fun _ => false) 5) shift spec base before after) := by
  intro shift
  have hrun : Attempt.runsTo (do
      let outcome ← executeBitfield (flatPorts fun _ => false).logged shift
      Attempt.require (outcome = .undefined))
      (bitfieldCpu 0x08 0x40 0x7FFFFFFF 0) (fun _ => True) = true := by decide +kernel
  obtain ⟨_, _, hfirst, -⟩ := Attempt.exists_ok_of_runsTo hrun
  obtain ⟨outcome, after, hrun, hfirst⟩ := Attempt.bind_eq_ok.mp hfirst
  obtain ⟨rfl, -⟩ := Attempt.require_eq_ok.mp hfirst
  have hexecuted := hrun
  unfold executeBitfield at hrun
  obtain ⟨⟨spec, base⟩, before, hoperands, -⟩ := Attempt.bind_eq_ok.mp hrun
  exact ⟨spec, base, before, .undefined, after, hoperands, hexecuted, rfl, fun h => nomatch h.1⟩

end Apollo.M68030
