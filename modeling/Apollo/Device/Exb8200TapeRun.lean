import Mathlib
import Apollo.Device.Exb8200Tape

/-!
# Runs of the 8 mm drive

What each command does to the tape as a list with a place in it, and that every command keeps the
cartridge and the head sound: ONE COMMAND STEPS THE ABSTRACT TAPE, and so does every command of a run
from a cartridge put in, bus resets included.
-/

namespace Apollo.Device

open Lib

/-! ## The operations of the abstract tape -/

namespace TapeView

/-- Cut the tape at the place, and go on with these. -/
def overwrite (tape : TapeView) (items : List TapeItem) : TapeView :=
  ⟨tape.items.take tape.place ++ items, tape.place + items.length⟩

/-- A write of blocks of a size, with the bytes of the host as far as the transfer goes; a good one
has them all. -/
def Written (command : ScsiCommand) (size blocks : Nat) (before after : TapeView) (status : ScsiStatus) :
    Prop :=
  ∃ written : List (List (BitVec 8)), after = before.overwrite (written.map .block) ∧
    (∀ bytes ∈ written, bytes.length = size) ∧
    (∀ read, command.memory = some read → ∀ k byte, written.flatten[k]? = some byte →
      k < command.capacity → byte = read (command.buffer + BitVec.ofNat 32 k)) ∧
    (status = .good → written.length = blocks) ∧ (status = .checkCondition → written.length < blocks)

/-- A write of filemarks; a good one has them all. -/
def Marked (shortMark : Bool) (count : Nat) (before after : TapeView) (status : ScsiStatus) : Prop :=
  ∃ written, after = before.overwrite (List.replicate written (.mark shortMark)) ∧
    (status = .good → written = count) ∧ (status = .checkCondition → written < count)

/-- A read of blocks of a size: the host is given the next blocks in order, all but the last of that
size, and a good read has them all; one that is not good is cut short, and passes a filemark that ends
it. -/
def ReadFrom (command : ScsiCommand) (size blocks : Nat) (sili : Bool) (before after : TapeView)
    (answer : ScsiResult) : Prop :=
  ∃ (got : List (List (BitVec 8))) (marked : Bool),
    after = ⟨before.items, before.place + got.length + marked.toNat⟩ ∧
    (before.items.drop before.place).take got.length = got.map .block ∧
    (marked = true → ∃ shortMark, before.items[before.place + got.length]? = some (.mark shortMark)) ∧
    (command.memory.isSome = true →
      answer.moved = (got.flatMap (·.take size)).take command.capacity) ∧
    got.length ≤ blocks ∧ (∀ bytes ∈ got.dropLast, bytes.length = size) ∧
    (answer.status = .checkCondition → Exb8200.CutShort before size sili got marked) ∧
    (answer.status = .good → got.length = blocks ∧ marked = false ∧
      (sili = false → ∀ bytes ∈ got, bytes.length = size))

/-- A space over records: as many as counted, or up to the first filemark, or up to an end. -/
def Spaced (filemarks : Bool) (count : Int) (before after : TapeView) : Prop :=
  ∃ passed, if 0 < count then
      after = ⟨before.items, before.place + passed⟩ ∧
        FirstStop (before.items.length - before.place)
          (Exb8200.spaceStop filemarks count.toNat
            ((before.items.drop before.place).map TapeItem.isMark)) passed
    else
      after.items = before.items ∧ after.place + passed = before.place ∧
        FirstStop before.place
          (Exb8200.spaceStop filemarks (-count).toNat
            ((before.items.take before.place).map TapeItem.isMark).reverse) passed

end TapeView

namespace Exb8200

/-- The block size and the number of blocks of a read or a write. -/
def blockSize (drive : Exb8200) (command : ScsiCommand) : Nat :=
  if (command.byte 1).getLsbD 0 then drive.mode.blockLength.toNat else (command.be24 2).toNat

def blockCount (command : ScsiCommand) : Nat :=
  if (command.byte 1).getLsbD 0 then (command.be24 2).toNat else 1

/-- A check condition with the key of a refusal. -/
def Refused (answer : ScsiResult) : Prop :=
  answer.status = .checkCondition ∧ isRefusal answer.condition = true

/-- What a command that is not refused does to the tape. -/
structure StepsTape (drive : Exb8200) (command : ScsiCommand) (answer : ScsiResult) (after : TapeView) :
    Prop where
  write : command.opcode = 0x0A →
    if (command.be24 2).toNat = 0 then after = drive.tape
    else drive.tape.Written command (drive.blockSize command) (blockCount command) after answer.status
  writeFilemarks : command.opcode = 0x10 →
    if (command.be24 2).toNat = 0 then after = drive.tape
    else drive.tape.Marked ((command.byte 5).getLsbD 7) (command.be24 2).toNat after answer.status
  read : command.opcode = 0x08 →
    if (command.be24 2).toNat = 0 then after = drive.tape
    else drive.tape.ReadFrom command (drive.blockSize command) (blockCount command)
      ((command.byte 1).getLsbD 1) after answer
  space : command.opcode = 0x11 →
    drive.tape.Spaced ((command.byte 1).getLsbD 0) (command.be24 2).toInt after
  erase : command.opcode = 0x19 →
    after = if (command.byte 1).getLsbD 0 then ⟨drive.tape.items.take drive.tape.place, 0⟩
      else drive.tape
  rest : command.opcode ∉ [0x0A, 0x10, 0x08, 0x11, 0x19] → after.items = drive.tape.items ∧
    (after.place = drive.tape.place ∨ after.place = 0 ∧ command.opcode ∈ [0x01, 0x1B, 0x1D])

/-- A command keeps the drive sound; one that is refused changes neither the list nor the place. -/
structure Keeps (drive : Exb8200) (answer : Exb8200 × ScsiResult) (steps : Prop) : Prop where
  sound : answer.1.Sound
  refused : Refused answer.2 → answer.1.tape = drive.tape
  steps : ¬ Refused answer.2 → steps

variable {drive : Exb8200} {command : ScsiCommand} {result : ScsiResult} {steps : Prop}

theorem Sound.congr {other : Exb8200} (h : drive.Sound) (hmedia : other.media = drive.media)
    (hindex : other.index = drive.index) (hposition : other.position = drive.position)
    (hloaded : other.loaded = drive.loaded) : other.Sound :=
  ⟨hmedia ▸ h.media, by rw [hmedia, hindex]; exact h.place,
    by rw [hmedia, hindex, hposition]; exact h.written,
    by rw [hindex, hposition, hloaded]; exact h.lbot⟩

theorem Sound.fail (h : drive.Sound) (condition : Condition) :
    (drive.fail result condition).1.Sound := h.congr rfl rfl rfl rfl

theorem keeps_illegal (h : drive.Sound) : Keeps drive (drive.illegal result) steps :=
  ⟨h.fail _, fun _ => rfl, fun hnot => absurd ⟨rfl, show isRefusal (some keyIllegalRequest) = true by decide⟩ hnot⟩

theorem keeps_notReady (h : drive.Sound) : Keeps drive (drive.notReady result) steps :=
  ⟨h.fail _, fun _ => rfl, fun hnot => absurd ⟨rfl, show isRefusal (some keyNotReady) = true by decide⟩ hnot⟩

theorem keeps_dataProtect (h : drive.Sound) :
    Keeps drive (drive.fail result { key := keyDataProtect }) steps :=
  ⟨h.fail _, fun _ => rfl, fun hnot => absurd ⟨rfl, show isRefusal (some keyDataProtect) = true by decide⟩ hnot⟩

theorem Sound.rewound {other : Exb8200} (h : drive.Sound) (hmedia : other.media = drive.media)
    (hindex : other.index = 0)
    (hposition : other.position = .atLbot ∨ other.loaded = false ∧ other.position = .inData) :
    other.Sound := by
  refine ⟨hmedia ▸ h.media, by rw [hindex]; exact Nat.zero_le _, fun hwritten => ?_, fun hloaded => ?_⟩
  · obtain hlbot | ⟨-, hdata⟩ := hposition
    · exact nomatch hlbot.symm.trans hwritten
    · exact nomatch hdata.symm.trans hwritten
  · obtain hlbot | ⟨hunloaded, -⟩ := hposition
    · rw [hlbot]
      exact iff_of_true rfl ⟨hindex, nofun⟩
    · exact nomatch hunloaded.symm.trans hloaded

/-! ## The commands that change the list -/

theorem tape_overwrite {after : Exb8200} {items : List TapeItem}
    (hplace : drive.index ≤ drive.media.record.length)
    (hitems : after.media.items = drive.media.items.take drive.index ++ items)
    (hend : after.index = after.media.record.length) :
    after.tape = drive.tape.overwrite items := by
  have hlength : after.media.record.length = drive.index + items.length := by
    rw [← TapeMedia.length_items, hitems, List.length_append, List.length_take,
      TapeMedia.length_items, Nat.min_eq_left hplace]
  rw [tape, TapeView.overwrite, tape, hitems, hend, hlength]

theorem keeps_cmdWrite (h : drive.Sound) (hgood : result.status = .good) :
    Keeps drive (drive.cmdWrite command result)
      (if (command.be24 2).toNat = 0 then (drive.cmdWrite command result).1.tape = drive.tape
        else drive.tape.Written command (drive.blockSize command) (blockCount command)
          (drive.cmdWrite command result).1.tape (drive.cmdWrite command result).2.status) := by
  unfold cmdWrite
  dsimp only
  rw [← blockSize, ← blockCount]
  have hsize : drive.blockSize command < 2 ^ 24 := by
    unfold blockSize
    split <;> exact BitVec.isLt _
  have hcount : (command.be24 2).toNat ≠ 0 → 0 < blockCount command := by
    intro hlength
    unfold blockCount
    split <;> omega
  generalize drive.blockSize command = size at hsize ⊢
  generalize blockCount command = blocks at hcount ⊢
  split
  · exact keeps_notReady h
  split
  · exact keeps_dataProtect h
  split
  · exact keeps_illegal h
  split
  case isTrue hzero => exact ⟨h.congr rfl rfl rfl rfl, fun _ => rfl, fun _ => rfl⟩
  case isFalse hlength =>
    split
    · exact keeps_illegal h
    split
    · exact keeps_illegal h
    obtain ⟨hmedia, hcut, hend⟩ := truncateHere_spec h.media h.place
    obtain ⟨written, hwrote⟩ := @writeBlocks_spec drive.truncateHere command
      { result with direction := .dataOut } hgood size hsize blocks command.buffer 0 hmedia hend
    generalize writeBlocks command { result with direction := .dataOut } size blocks
      drive.truncateHere command.buffer 0 = answer at hwrote ⊢
    have htape : answer.1.tape = drive.tape.overwrite (written.map .block) :=
      tape_overwrite h.place (by rw [hwrote.items, hcut]) hwrote.place
    have hbytes : answer.1.index = drive.index + written.length := by
      have hplace := congrArg TapeView.place htape
      rw [TapeView.overwrite, List.length_map] at hplace
      exact hplace
    refine ⟨⟨hwrote.media, hwrote.place.le, fun hafter => ⟨hwrote.place, ?_⟩, fun _ => ?_⟩, ?_, ?_⟩
    · cases hstatus : answer.2.status with
      | good =>
        have hall := (hwrote.good hstatus).1
        have hpos := hcount hlength
        omega
      | checkCondition => exact nomatch (hwrote.overflow hstatus).2.1.symm.trans hafter
    · cases hstatus : answer.2.status with
      | good =>
        obtain ⟨hall, hposition⟩ := hwrote.good hstatus
        have hpos := hcount hlength
        rw [hposition]
        refine iff_of_false nofun ?_
        rintro ⟨hzero, -⟩
        omega
      | checkCondition =>
        rw [(hwrote.overflow hstatus).2.1]
        exact iff_of_false nofun fun hpeot => hpeot.2 rfl
    · rintro ⟨hstatus, hkeys⟩
      rw [(hwrote.overflow hstatus).2.2] at hkeys
      exact absurd hkeys (by decide)
    · intro _
      refine ⟨written, htape, hwrote.lengths, ?_, fun hstatus => (hwrote.good hstatus).1,
        fun hstatus => (hwrote.overflow hstatus).1⟩
      intro read hread k byte hbyte hcapacity
      exact hwrote.bytes read hread k byte hbyte (by omega)

/-- WRITE FILEMARKS. -/
theorem keeps_cmdWriteFilemarks (h : drive.Sound) (hgood : result.status = .good) :
    Keeps drive (drive.cmdWriteFilemarks command result)
      (if (command.be24 2).toNat = 0 then
        (drive.cmdWriteFilemarks command result).1.tape = drive.tape
      else drive.tape.Marked ((command.byte 5).getLsbD 7) (command.be24 2).toNat
        (drive.cmdWriteFilemarks command result).1.tape
        (drive.cmdWriteFilemarks command result).2.status) := by
  unfold cmdWriteFilemarks
  dsimp only
  split
  · exact keeps_notReady h
  split
  · exact keeps_dataProtect h
  split
  case isTrue hzero =>
    refine ⟨⟨h.media, h.place, fun hwritten => ?_, fun _ => ?_⟩, fun _ => rfl, fun _ => rfl⟩
    · dsimp only at hwritten
      split at hwritten <;> exact nomatch hwritten
    · dsimp only
      split
      case isTrue hbegin => exact iff_of_true rfl ⟨hbegin, nofun⟩
      case isFalse hlater => exact iff_of_false nofun fun hbegin => hlater hbegin.1
  case isFalse hcount =>
    split
    · exact keeps_illegal h
    have hcut : ∃ cut, (if drive.position = .afterWrite then drive else drive.truncateHere) = cut ∧
        cut.media.Sound ∧ cut.media.items = drive.media.items.take drive.index ∧
        cut.index = cut.media.record.length := by
      refine ⟨_, rfl, ?_⟩
      split
      case isTrue hwritten =>
        have hend := (h.written hwritten).1
        refine ⟨h.media, ?_, hend⟩
        rw [hend, ← TapeMedia.length_items, List.take_length]
      case isFalse => exact truncateHere_spec h.media h.place
    obtain ⟨cut, hcutEq, hmedia, hitems, hend⟩ := hcut
    rw [hcutEq]
    obtain ⟨count, hmarked⟩ := @writeMarks_spec cut result hgood ((command.byte 5).getLsbD 7)
      (command.be24 2).toNat hmedia hend
    generalize writeMarks result ((command.byte 5).getLsbD 7) (command.be24 2).toNat cut = answer
      at hmarked ⊢
    have htape : answer.1.tape =
        drive.tape.overwrite (List.replicate count (.mark ((command.byte 5).getLsbD 7))) :=
      tape_overwrite h.place (by rw [hmarked.items, hitems]) hmarked.place
    have hplace : answer.1.index = drive.index + count := by
      have hplace := congrArg TapeView.place htape
      rw [TapeView.overwrite, List.length_replicate] at hplace
      exact hplace
    refine ⟨⟨hmarked.media, hmarked.place.le, fun hafter => ?_, fun _ => ?_⟩, ?_, fun _ => ?_⟩
    · cases hstatus : answer.2.status with
      | good => exact nomatch (hmarked.good hstatus).2.symm.trans hafter
      | checkCondition => exact nomatch (hmarked.overflow hstatus).2.1.symm.trans hafter
    · cases hstatus : answer.2.status with
      | good =>
        obtain ⟨hall, hposition⟩ := hmarked.good hstatus
        rw [hposition]
        refine iff_of_false nofun ?_
        rintro ⟨hzero, -⟩
        omega
      | checkCondition =>
        rw [(hmarked.overflow hstatus).2.1]
        exact iff_of_false nofun fun hpeot => hpeot.2 rfl
    · rintro ⟨hstatus, hkeys⟩
      rw [(hmarked.overflow hstatus).2.2] at hkeys
      exact absurd hkeys (by decide)
    · exact ⟨count, htape, fun hstatus => (hmarked.good hstatus).1,
        fun hstatus => (hmarked.overflow hstatus).1⟩

theorem keeps_cmdErase (h : drive.Sound) (hgood : result.status = .good) :
    Keeps drive (drive.cmdErase command result)
      ((drive.cmdErase command result).1.tape =
        if (command.byte 1).getLsbD 0 then ⟨drive.tape.items.take drive.tape.place, 0⟩
        else drive.tape) := by
  unfold cmdErase
  split
  · exact keeps_notReady h
  split
  · exact keeps_dataProtect h
  cases hlong : (command.byte 1).getLsbD 0 with
  | false => exact ⟨h, fun _ => rfl, fun _ => rfl⟩
  | true =>
    rw [if_neg (by decide)]
    split
    · exact keeps_illegal h
    obtain ⟨hmedia, hcut, -⟩ := truncateHere_spec h.media h.place
    refine ⟨⟨hmedia, Nat.zero_le _, (nomatch ·), fun _ => iff_of_true rfl ⟨rfl, nofun⟩⟩, ?_, fun _ => ?_⟩
    · rintro ⟨hstatus, -⟩
      exact nomatch hgood.symm.trans hstatus
    · rw [if_pos rfl, tape, hcut]
      rfl

/-! ## The commands that pass over it -/

theorem keeps_cmdRead (h : drive.Sound) (hgood : result.status = .good)
    (hnone : result.condition = none) :
    Keeps drive (drive.cmdRead command result)
      (if (command.be24 2).toNat = 0 then (drive.cmdRead command result).1.tape = drive.tape
        else drive.tape.ReadFrom command (drive.blockSize command) (blockCount command)
          ((command.byte 1).getLsbD 1) (drive.cmdRead command result).1.tape
          (drive.cmdRead command result).2) := by
  unfold cmdRead
  dsimp only
  rw [← blockSize, ← blockCount]
  split
  · exact keeps_notReady h
  split
  · exact keeps_illegal h
  case isFalse hsili =>
    split
    · exact keeps_illegal h
    split
    case isTrue => exact ⟨h.congr rfl rfl rfl rfl, fun _ => rfl, fun _ => rfl⟩
    case isFalse =>
      have hone : (command.byte 1).getLsbD 1 = true → blockCount command ≤ 1 := by
        intro hsuppressed
        rw [hsuppressed, Bool.and_true] at hsili
        rw [blockCount, if_neg hsili]
      obtain ⟨got, marked, hout⟩ := @readBlocks_spec drive command
        { result with direction := .dataIn } hgood hnone (drive.blockSize command) (blockCount command)
        ((command.byte 1).getLsbD 1) hone [] (Nat.zero_le _)
      generalize readBlocks command { result with direction := .dataIn } (drive.blockSize command)
        ((command.byte 1).getLsbD 1) (blockCount command) drive [] = answer at hout ⊢
      have htape : answer.1.tape =
          ⟨drive.tape.items, drive.tape.place + got.length + marked.toNat⟩ := by
        rw [tape, hout.media, hout.place]
        rfl
      have hinside : drive.index + got.length + marked.toNat ≤ drive.media.record.length := by
        have hgot := congrArg List.length hout.blocks
        rw [List.length_take, List.length_drop, List.length_map, TapeMedia.length_items] at hgot
        have hplace := h.place
        cases marked with
        | false =>
          rw [Bool.toNat_false]
          omega
        | true =>
          obtain ⟨shortMark, hmark⟩ := hout.mark rfl
          have hlt := (List.getElem?_eq_some_iff.mp hmark).1
          rw [TapeMedia.length_items] at hlt
          exact hlt
      refine ⟨?_, ?_, fun hnot => ?_⟩
      · obtain ⟨hindex, hposition⟩ | ⟨hindex, hposition⟩ := hout.position
        · exact h.congr hout.media hindex hposition hout.loaded
        · refine ⟨hout.media ▸ h.media, by rw [hout.media, hout.place]; exact hinside,
            fun hwritten => (nomatch hposition.symm.trans hwritten), fun _ => ?_⟩
          rw [hposition]
          refine iff_of_false nofun ?_
          rintro ⟨hzero, -⟩
          omega
      · rintro ⟨-, hkeys⟩
        obtain ⟨-, rfl, rfl⟩ := hout.refused hkeys
        rw [htape]
        rfl
      · exact ⟨got, marked, htape, hout.blocks, hout.mark, hout.bytes, hout.few, hout.sized,
          fun hstatus => (hout.short hstatus).resolve_left fun hkeys => hnot ⟨hstatus, hkeys⟩, hout.good⟩

theorem keeps_cmdSpace (h : drive.Sound) (hnone : result.condition = none) :
    Keeps drive (drive.cmdSpace command result)
      (drive.tape.Spaced ((command.byte 1).getLsbD 0) (command.be24 2).toInt
        (drive.cmdSpace command result).1.tape) := by
  have hmarks : ∀ record : List TapeRecord,
      record.map (fun record => decide (record.kind = .filemark)) =
        (record.map drive.media.item).map TapeItem.isMark := by
    intro record
    rw [List.map_map]
    exact List.map_congr_left fun record _ => (TapeMedia.isMark_item ..).symm
  unfold cmdSpace
  dsimp only
  split
  · exact keeps_notReady h
  split
  · exact keeps_illegal h
  split
  case isTrue hzero =>
    refine ⟨h, fun _ => rfl, fun _ => ⟨0, ?_⟩⟩
    rw [hzero, if_neg (by decide)]
    exact ⟨rfl, rfl, FirstStop.here spaceStop_zero⟩
  case isFalse hcount =>
    generalize hmoved : (if drive.position = .afterWrite then { drive with position := .inData }
      else drive) = moved
    have hmedia : moved.media = drive.media ∧ moved.index = drive.index ∧
        moved.loaded = drive.loaded ∧ moved.Sound := by
      rw [← hmoved]
      split
      case isTrue hwritten =>
        have hpos := (h.written hwritten).2
        refine ⟨rfl, rfl, rfl, h.media, h.place, (fun h => by cases h),
          fun _ => iff_of_false (fun h => by cases h) ?_⟩
        rintro ⟨hzero, -⟩
        exact absurd hzero hpos.ne'
      case isFalse => exact ⟨rfl, rfl, rfl, h⟩
    obtain ⟨hmedia, hindex, hloaded, hsound⟩ := hmedia
    split
    case isTrue hforward =>
      obtain ⟨passed, hspaced⟩ := @spaceForward_spec moved result ((command.byte 1).getLsbD 0)
        (command.be24 2).toInt.toNat hnone (moved.media.record.drop moved.index)
      generalize spaceForward result ((command.byte 1).getLsbD 0)
        (moved.media.record.drop moved.index) (command.be24 2).toInt.toNat moved = answer
        at hspaced ⊢
      have hplace := hspaced.place
      have hstop := hspaced.stop
      rw [hmedia, hindex, List.length_drop, hmarks, List.map_drop] at hstop
      have hle := hstop.le
      have hinside := h.place
      refine ⟨⟨?_, ?_, fun hafter => ?_, fun hloaded' => ?_⟩, ?_, fun _ => ⟨passed, ?_⟩⟩
      · rw [hspaced.media, hmedia]
        exact h.media
      · rw [hspaced.media, hmedia]
        omega
      · obtain hpeot | ⟨hstill, hposition⟩ | ⟨-, hposition⟩ := hspaced.position
        · cases hpeot.symm.trans hafter
        · rw [hspaced.media]
          have hwritten := hsound.written (hposition ▸ hafter)
          omega
        · cases hposition.symm.trans hafter
      · obtain hpeot | ⟨hnone, hposition⟩ | ⟨hpos, hposition⟩ := hspaced.position
        · rw [hpeot]
          exact iff_of_false (fun h => by cases h) fun hnot => hnot.2 rfl
        · have hlbot := hsound.lbot (hspaced.loaded ▸ hloaded')
          rw [hposition, hplace, hnone, Nat.add_zero]
          exact hlbot
        · rw [hposition]
          refine iff_of_false (fun h => by cases h) ?_
          rintro ⟨hzero, -⟩
          omega
      · rintro ⟨-, hrefused⟩
        cases hspaced.moved.symm.trans hrefused
      · rw [if_pos hforward]
        refine ⟨?_, ?_⟩
        · rw [tape, hspaced.media, hplace, hmedia, hindex]
          rfl
        · rw [← TapeMedia.length_items] at hstop
          exact hstop
    case isFalse hbackward =>
      obtain ⟨passed, hspaced⟩ := @spaceBackward_spec moved result ((command.byte 1).getLsbD 0)
        (-(command.be24 2).toInt).toNat hnone moved.index rfl hsound.place
      generalize spaceBackward result ((command.byte 1).getLsbD 0) moved.index
        (-(command.be24 2).toInt).toNat moved = answer at hspaced ⊢
      have hplace := hspaced.place
      have hstop := hspaced.stop
      rw [hmedia, hindex, marksBehind, hmarks, List.map_take] at hstop
      have hinside := h.place
      have hposition : answer.1.position = if answer.1.index = 0 then .atLbot else .inData :=
        hspaced.position.resolve_left fun hnone => by omega
      refine ⟨⟨?_, ?_, fun hafter => ?_, fun _ => ?_⟩, ?_, fun _ => ⟨passed, ?_⟩⟩
      · rw [hspaced.media, hmedia]
        exact h.media
      · rw [hspaced.media, hmedia]
        omega
      · rw [hposition] at hafter
        split at hafter <;> cases hafter
      · rw [hposition]
        split
        case isTrue hzero => exact iff_of_true rfl ⟨hzero, fun h => by cases h⟩
        case isFalse hlater => exact iff_of_false (fun h => by cases h) fun hzero => hlater hzero.1
      · rintro ⟨-, hrefused⟩
        cases hspaced.moved.symm.trans hrefused
      · rw [if_neg hbackward]
        refine ⟨?_, ?_, hstop⟩
        · show answer.1.media.items = drive.media.items
          rw [hspaced.media, hmedia]
        · show answer.1.index + passed = drive.index
          omega

/-! ## Every command -/

/-- The cartridge, the place and the head are the same. -/
structure SameHead (drive other : Exb8200) : Prop where
  media : other.media = drive.media
  index : other.index = drive.index
  position : other.position = drive.position
  loaded : other.loaded = drive.loaded

theorem SameHead.tape {other : Exb8200} (h : SameHead drive other) : other.tape = drive.tape := by
  rw [Exb8200.tape, h.media, h.index, Exb8200.tape]

/-- What a command that is none of those on the list does to it. -/
def Stays (drive : Exb8200) (command : ScsiCommand) (after : TapeView) : Prop :=
  after.items = drive.tape.items ∧
    (after.place = drive.tape.place ∨ after.place = 0 ∧ command.opcode ∈ [0x01, 0x1B, 0x1D])

theorem stays_of_same {answer : Exb8200 × ScsiResult} (h : drive.Sound)
    (hsame : SameHead drive answer.1) :
    Keeps drive answer (Stays drive command answer.1.tape) := by
  refine ⟨h.congr hsame.media hsame.index hsame.position hsame.loaded, fun _ => hsame.tape,
    fun _ => ?_⟩
  rw [hsame.tape]
  exact ⟨rfl, .inl rfl⟩

theorem stays_of_rewound {answer : Exb8200 × ScsiResult} (h : drive.Sound)
    (hgood : answer.2.status = .good) (hopcode : command.opcode ∈ [0x01, 0x1B, 0x1D])
    (hmedia : answer.1.media = drive.media) (hindex : answer.1.index = 0)
    (hposition : answer.1.position = .atLbot ∨
      answer.1.loaded = false ∧ answer.1.position = .inData) :
    Keeps drive answer (Stays drive command answer.1.tape) := by
  refine ⟨h.rewound hmedia hindex hposition, ?_, fun _ => ⟨?_, .inr ⟨hindex, hopcode⟩⟩⟩
  · rintro ⟨hstatus, -⟩
    exact nomatch hgood.symm.trans hstatus
  · rw [tape, hmedia, tape]

/-- REWIND, LOAD and UNLOAD, and SEND DIAGNOSTIC. -/
theorem keeps_cmdRewind (h : drive.Sound) (hgood : result.status = .good)
    (hopcode : command.opcode = 0x01) :
    Keeps drive (drive.cmdRewind result) (Stays drive command (drive.cmdRewind result).1.tape) := by
  unfold cmdRewind
  split
  · exact keeps_notReady h
  · exact stays_of_rewound h hgood (by rw [hopcode]; decide) rfl rfl (.inl rfl)

theorem keeps_cmdLoadUnload (h : drive.Sound) (hgood : result.status = .good)
    (hopcode : command.opcode = 0x1B) :
    Keeps drive (drive.cmdLoadUnload command result)
      (Stays drive command (drive.cmdLoadUnload command result).1.tape) := by
  unfold cmdLoadUnload
  split
  · split
    · exact keeps_notReady h
    · exact stays_of_rewound h hgood (by rw [hopcode]; decide) rfl rfl (.inl rfl)
  · exact stays_of_rewound h hgood (by rw [hopcode]; decide) rfl rfl (.inr ⟨rfl, rfl⟩)

theorem keeps_cmdSendDiagnostic (h : drive.Sound) (hgood : result.status = .good)
    (hopcode : command.opcode = 0x1D) :
    Keeps drive (drive.cmdSendDiagnostic command result)
      (Stays drive command (drive.cmdSendDiagnostic command result).1.tape) := by
  unfold cmdSendDiagnostic
  dsimp only
  split
  · exact keeps_illegal h
  split
  · exact keeps_illegal h
  split
  · exact keeps_illegal h
  split
  · exact keeps_dataProtect h
  split
  · exact stays_of_rewound h hgood (by rw [hopcode]; decide) rfl rfl (.inl rfl)
  · exact stays_of_same h ⟨rfl, rfl, rfl, rfl⟩

theorem sameHead_cmdModeSelect : SameHead drive (drive.cmdModeSelect command result).1 := by
  have hstored : ∀ (other : Exb8200) (mode : ModeParameters) (part : Prop) [Decidable part],
      SameHead drive other → SameHead drive (if part then other.withMode mode else other) := by
    intro other mode part _ hsame
    split
    · exact ⟨hsame.media, hsame.index, hsame.position, hsame.loaded⟩
    · exact hsame
  have hillegal : ∀ (other : Exb8200) (answer : ScsiResult), SameHead drive other →
      SameHead drive (other.illegal answer).1 :=
    fun _ _ hsame => ⟨hsame.media, hsame.index, hsame.position, hsame.loaded⟩
  have hsame : SameHead drive drive := ⟨rfl, rfl, rfl, rfl⟩
  unfold cmdModeSelect
  dsimp only
  split
  · exact hillegal _ _ hsame
  split
  · exact hsame
  split
  · exact hsame
  case h_2.isFalse read _ _ =>
    generalize parameterList command read = list
    split
    · exact hillegal _ _ hsame
    have hbefore : SameHead drive
        (drive.withMode (storedBefore drive.mode list (command.byte 4).toNat)) :=
      ⟨rfl, rfl, rfl, rfl⟩
    generalize drive.withMode (storedBefore drive.mode list (command.byte 4).toNat) = before
      at hbefore ⊢
    split
    · exact hillegal _ _ hbefore
    have hmotion := hstored before { before.mode with motionThreshold := list (vendorAt list + 2) }
      (3 ≤ (command.byte 4).toNat - vendorAt list) hbefore
    generalize (if 3 ≤ (command.byte 4).toNat - vendorAt list then _ else before) = motion
      at hmotion ⊢
    split
    · exact hillegal _ _ hmotion
    have hreconnect := hstored motion
      { motion.mode with reconnectThreshold := list (vendorAt list + 3) }
      (4 ≤ (command.byte 4).toNat - vendorAt list) hmotion
    generalize (if 4 ≤ (command.byte 4).toNat - vendorAt list then _ else motion) = reconnect
      at hreconnect ⊢
    split
    · exact ⟨hreconnect.media, hreconnect.index, hreconnect.position, hreconnect.loaded⟩
    · exact hreconnect

/-- EVERY COMMAND STEPS THE TAPE and keeps the drive sound. -/
theorem keeps_dispatch (h : drive.Sound) (hgood : result.status = .good)
    (hnone : result.condition = none) :
    Keeps drive (drive.dispatch command result)
      (StepsTape drive command (drive.dispatch command result).2
        (drive.dispatch command result).1.tape) := by
  -- a command that is none of those on the list
  have hrest : ∀ {answer : Exb8200 × ScsiResult} {code : BitVec 8}, command.opcode = code →
      code ∉ [0x0A, 0x10, 0x08, 0x11, 0x19] →
      Keeps drive answer (Stays drive command answer.1.tape) →
      Keeps drive answer (StepsTape drive command answer.2 answer.1.tape) := by
    intro answer code heq hother hkeeps
    refine ⟨hkeeps.sound, hkeeps.refused, fun hnot => ⟨fun hcode => ?_, fun hcode => ?_,
      fun hcode => ?_, fun hcode => ?_, fun hcode => ?_, fun _ => hkeeps.steps hnot⟩⟩
    all_goals
      rw [heq] at hcode
      rw [hcode] at hother
      exact absurd (by decide) hother
  have hsame : ∀ {answer : Exb8200 × ScsiResult}, SameHead drive answer.1 →
      Keeps drive answer (Stays drive command answer.1.tape) := stays_of_same h
  unfold dispatch
  split
  case h_1 heq =>
    refine hrest heq (by decide) ?_
    unfold cmdTestUnitReady
    split
    · exact keeps_notReady h
    · exact hsame ⟨rfl, rfl, rfl, rfl⟩
  case h_2 heq => exact hrest heq (by decide) (keeps_cmdRewind h hgood heq)
  case h_3 heq =>
    refine hrest heq (by decide) (hsame ?_)
    unfold cmdRequestSense
    dsimp only
    generalize min (if command.byte 4 = 0 then 4 else _) 26 = want
    split <;> exact ⟨rfl, rfl, rfl, rfl⟩
  case h_5 heq =>
    have hread := @keeps_cmdRead drive command result h hgood hnone
    refine ⟨hread.sound, hread.refused, fun hnot => ⟨?_, ?_, fun _ => hread.steps hnot, ?_, ?_, ?_⟩⟩
    all_goals exact fun hcode => absurd hcode (by rw [heq]; decide)
  case h_6 heq =>
    have hwrite := @keeps_cmdWrite drive command result h hgood
    refine ⟨hwrite.sound, hwrite.refused,
      fun hnot => ⟨fun _ => hwrite.steps hnot, ?_, ?_, ?_, ?_, ?_⟩⟩
    all_goals exact fun hcode => absurd hcode (by rw [heq]; decide)
  case h_7 heq =>
    have hmarks := @keeps_cmdWriteFilemarks drive command result h hgood
    refine ⟨hmarks.sound, hmarks.refused,
      fun hnot => ⟨?_, fun _ => hmarks.steps hnot, ?_, ?_, ?_, ?_⟩⟩
    all_goals exact fun hcode => absurd hcode (by rw [heq]; decide)
  case h_8 heq =>
    have hspace := @keeps_cmdSpace drive command result h hnone
    refine ⟨hspace.sound, hspace.refused,
      fun hnot => ⟨?_, ?_, ?_, fun _ => hspace.steps hnot, ?_, ?_⟩⟩
    all_goals exact fun hcode => absurd hcode (by rw [heq]; decide)
  case h_13 heq =>
    have herase := @keeps_cmdErase drive command result h hgood
    refine ⟨herase.sound, herase.refused,
      fun hnot => ⟨?_, ?_, ?_, ?_, fun _ => herase.steps hnot, ?_⟩⟩
    all_goals exact fun hcode => absurd hcode (by rw [heq]; decide)
  case h_10 heq => exact hrest heq (by decide) (hsame sameHead_cmdModeSelect)
  case h_15 heq => exact hrest heq (by decide) (keeps_cmdLoadUnload h hgood heq)
  case h_17 heq => exact hrest heq (by decide) (keeps_cmdSendDiagnostic h hgood heq)
  case h_4 heq => exact hrest heq (by decide) (hsame ⟨rfl, rfl, rfl, rfl⟩)
  case h_9 heq => exact hrest heq (by decide) (hsame ⟨rfl, rfl, rfl, rfl⟩)
  case h_11 heq => exact hrest heq (by decide) (hsame ⟨rfl, rfl, rfl, rfl⟩)
  case h_12 heq => exact hrest heq (by decide) (hsame ⟨rfl, rfl, rfl, rfl⟩)
  case h_14 heq => exact hrest heq (by decide) (hsame ⟨rfl, rfl, rfl, rfl⟩)
  case h_16 heq => exact hrest heq (by decide) (hsame ⟨rfl, rfl, rfl, rfl⟩)
  case h_18 heq => exact hrest heq (by decide) (hsame ⟨rfl, rfl, rfl, rfl⟩)
  case h_19 =>
    refine ⟨h, fun _ => rfl, fun _ => ⟨?_, ?_, ?_, ?_, ?_, fun _ => ⟨rfl, .inl rfl⟩⟩⟩
    all_goals exact fun hcode => absurd hcode (by assumption)

theorem sameHead_settle (answer : Exb8200 × ScsiResult) : SameHead answer.1 (settle answer).1 := by
  unfold settle
  split <;> exact ⟨rfl, rfl, rfl, rfl⟩

theorem settle_result (answer : Exb8200 × ScsiResult) : (settle answer).2 = answer.2 := by
  unfold settle
  split <;> rfl

/-- ONE COMMAND STEPS THE ABSTRACT TAPE: it keeps the drive sound, one that is refused changes
neither the list nor the place, and another steps the tape. -/
theorem keeps_execute (h : drive.Sound) {after : Exb8200} {answer : ScsiResult}
    (hexecute : drive.execute command = some (after, answer)) :
    Keeps drive (after, answer) (StepsTape drive command answer after.tape) := by
  unfold execute at hexecute
  split at hexecute
  · exact nomatch hexecute
  split at hexecute
  · obtain ⟨rfl, rfl⟩ := Prod.mk.inj (Option.some.inj hexecute)
    exact keeps_illegal h
  split at hexecute
  · have hdispatch := @keeps_dispatch drive command .start h rfl rfl
    rwa [Option.some.inj hexecute] at hdispatch
  split at hexecute
  · obtain ⟨rfl, rfl⟩ := Prod.mk.inj (Option.some.inj hexecute)
    exact ⟨h.congr rfl rfl rfl rfl, fun _ => rfl,
      fun hnot => absurd ⟨rfl, show isRefusal (some keyUnitAttention) = true by decide⟩ hnot⟩
  · have hdispatch := @keeps_dispatch drive command .start h rfl rfl
    have hsettled := Option.some.inj hexecute
    have hsame : SameHead (drive.dispatch command .start).1 after := by
      have hsettle := sameHead_settle (drive.dispatch command .start)
      rwa [hsettled] at hsettle
    have hresult : answer = (drive.dispatch command .start).2 := by
      have hsettle := settle_result (drive.dispatch command .start)
      rwa [hsettled] at hsettle
    refine ⟨hdispatch.sound.congr hsame.media hsame.index hsame.position hsame.loaded, ?_, ?_⟩
    · intro hrefused
      dsimp only at hrefused
      rw [hresult] at hrefused
      exact hsame.tape.trans (hdispatch.refused hrefused)
    · intro hnot
      dsimp only at hnot ⊢
      rw [hresult] at hnot ⊢
      rw [hsame.tape]
      exact hdispatch.steps hnot

/-! ## Runs -/

/-- What comes to the drive: a command, or a reset of the bus. -/
inductive Event
  | command (command : ScsiCommand)
  | reset

/-- One of them; a descriptor block that is too short does not reach the drive. -/
def step (drive : Exb8200) : Event → Exb8200
  | .command command => ((drive.execute command).map Prod.fst).getD drive
  | .reset => drive.reset

/-- One after another. -/
def run (drive : Exb8200) (events : List Event) : Exb8200 := events.foldl step drive

/-- A RESET KEEPS THE RECORDS and goes to the beginning. -/
theorem sound_reset (h : drive.Sound) : drive.reset.Sound := by
  refine h.rewound rfl rfl ?_
  show (if drive.loaded then TapeWhere.atLbot else .inData) = .atLbot ∨
    drive.loaded = false ∧ (if drive.loaded then TapeWhere.atLbot else .inData) = .inData
  cases drive.loaded with
  | true => exact .inl rfl
  | false => exact .inr ⟨rfl, rfl⟩

theorem sound_step (h : drive.Sound) (event : Event) : (drive.step event).Sound := by
  cases event with
  | reset => exact sound_reset h
  | command command =>
    rw [step]
    cases hexecute : drive.execute command with
    | none => exact h
    | some answer => exact (keeps_execute h hexecute).sound

theorem sound_run (h : drive.Sound) (events : List Event) : (drive.run events).Sound := by
  induction events generalizing drive with
  | nil => exact h
  | cons event events ih => exact ih (sound_step h event)

theorem sound_insert {media : TapeMedia} (habsent : drive.present = false) (hmedia : media.Sound) :
    (drive.insert media).2.Sound := by
  have hinsert : (drive.insert media).2 =
      { drive with
        media
        present := true
        loaded := !drive.mode.vendorFlags.getLsbD 0
        position := if !drive.mode.vendorFlags.getLsbD 0 then .atLbot else .inData
        index := 0 }.attend := by
    rw [insert, if_neg (by rw [habsent]; decide)]
  rw [hinsert]
  cases hload : drive.mode.vendorFlags.getLsbD 0 with
  | true => exact ⟨hmedia, Nat.zero_le _, (nomatch ·), (nomatch ·)⟩
  | false => exact ⟨hmedia, Nat.zero_le _, (nomatch ·), fun _ => iff_of_true rfl ⟨rfl, nofun⟩⟩

theorem inside_of_sound {media : TapeMedia} (h : media.Sound) :
    (extents media.record).Pairwise (fun a b => a.1 + a.2 ≤ b.1) ∧
      ∀ extent ∈ extents media.record, extent.1 + extent.2 ≤ media.dataBytes :=
  ⟨h.laid.pairwise, fun _ hmem => (h.laid.mem_le hmem).2.trans h.used⟩

/-- THE DRIVE IS A SEQUENCE OF RECORDS in every state of a run from a sound cartridge put in: the
records do not overlap and lie inside the data area, the place is in the list, and with the tape
loaded the head is at LBOT exactly when the place is the beginning and the head not at PEOT. Every
command then steps the tape, or is refused and leaves it; a reset keeps the records. -/
theorem run_tape {drive : Exb8200} {media : TapeMedia} (habsent : drive.present = false)
    (hmedia : media.Sound) (events : List Event) :
    let final := (drive.insert media).2.run events
    ((extents final.media.record).Pairwise (fun a b => a.1 + a.2 ≤ b.1) ∧
      (∀ extent ∈ extents final.media.record, extent.1 + extent.2 ≤ final.media.dataBytes) ∧
      final.tape.place ≤ final.tape.items.length ∧
      (final.loaded = true →
        (final.position = .atLbot ↔ final.tape.place = 0 ∧ final.position ≠ .atPeot))) ∧
    (∀ command after answer, final.execute command = some (after, answer) →
      (Refused answer → after.tape = final.tape) ∧
        (¬ Refused answer → StepsTape final command answer after.tape)) ∧
    final.reset.tape = ⟨final.tape.items, 0⟩ := by
  intro final
  have hsound : final.Sound := sound_run (sound_insert habsent hmedia) events
  refine ⟨⟨(inside_of_sound hsound.media).1, (inside_of_sound hsound.media).2, ?_, hsound.lbot⟩, ?_, rfl⟩
  · rw [tape, TapeMedia.length_items]
    exact hsound.place
  · intro command after answer hexecute
    have hkeeps := keeps_execute hsound hexecute
    exact ⟨hkeeps.refused, hkeeps.steps⟩

/-- A cartridge of 64 kB with these records, which hold no data. -/
def cartridge (record : List TapeRecord) : TapeMedia :=
  { record, capacity := 16, data := fun _ => 0, dataBytes := 0x10000, dataUsed := 0
    writable := true, mediumType := 0x81, blocksToLeot := 64 }

/-- The unit attention is taken, blocks of any length are chosen, three bytes and a filemark written, and
the tape rewound. -/
def writing : List Event :=
  [.command ⟨0, [0x00, 0, 0, 0, 0, 0], none, 0, 0⟩,
    .command ⟨0, [0x15, 0, 0, 0, 12, 0], some fun place => if place = 3 then 8 else 0, 0, 12⟩,
    .command ⟨0, [0x0A, 0, 0, 0, 3, 0], some fun place => 0xA0 + place.setWidth 8, 0, 3⟩,
    .command ⟨0, [0x10, 0, 0, 0, 1, 0], none, 0, 0⟩, .command ⟨0, [0x01, 0, 0, 0, 0, 0], none, 0, 0⟩]

/-- A blank cartridge so written. -/
def written : Exb8200 := (powerOn.insert (cartridge [])).2.run writing

/-- The three bytes are on the tape, and a READ of three gives them; a READ of four is cut short. -/
theorem run_written :
    let read length : ScsiCommand := ⟨0, [0x08, 0, 0, 0, length, 0], some fun _ => 0, 0, 16⟩
    (written.tape.items = [.block [0xA0, 0xA1, 0xA2], .mark false] ∧ written.tape.place = 0 ∧
      written.position = .atLbot) ∧
    (∃ after answer, written.execute (read 3) = some (after, answer) ∧ answer.status = .good ∧
      answer.moved = [0xA0, 0xA1, 0xA2] ∧
      written.tape.ReadFrom (read 3) 3 1 false after.tape answer) ∧
    (∃ after answer, written.execute (read 4) = some (after, answer) ∧
      answer.status = .checkCondition ∧ answer.condition = some keyNoSense ∧
      written.tape.ReadFrom (read 4) 4 1 false after.tape answer) ∧
    written.reset.tape = ⟨written.tape.items, 0⟩ := by
  intro read
  obtain ⟨-, hsteps, hreset⟩ := @run_tape powerOn (cartridge []) (by decide)
    ⟨Nat.zero_le _, by decide, by decide, by decide⟩ writing
  have hthree : (written.execute (read 3)).map (fun out => (out.2.status, out.2.condition, out.2.moved)) =
      some (.good, none, [0xA0, 0xA1, 0xA2]) := by decide +kernel
  have hfour : (written.execute (read 4)).map (fun out => (out.2.status, out.2.condition)) =
      some (.checkCondition, some keyNoSense) := by decide +kernel
  obtain ⟨⟨after₃, answer₃⟩, hexecute₃, hanswer₃⟩ := Option.map_eq_some_iff.mp hthree
  obtain ⟨⟨after₄, answer₄⟩, hexecute₄, hanswer₄⟩ := Option.map_eq_some_iff.mp hfour
  obtain ⟨hgood, hmore⟩ := Prod.mk.inj hanswer₃
  obtain ⟨-, hmoved⟩ := Prod.mk.inj hmore
  obtain ⟨hcheck, hcondition⟩ := Prod.mk.inj hanswer₄
  have hread₃ := ((hsteps (read 3) after₃ answer₃ hexecute₃).2 fun hrefused =>
    nomatch hgood.symm.trans hrefused.1).read rfl
  have hread₄ := ((hsteps (read 4) after₄ answer₄ hexecute₄).2 fun hrefused => by
    have hkey := hrefused.2
    rw [show answer₄.condition = some keyNoSense from hcondition] at hkey
    exact absurd hkey (by decide)).read rfl
  have hsize : ∀ drive : Exb8200, drive.blockSize (read 3) = 3 ∧ drive.blockSize (read 4) = 4 :=
    fun _ => ⟨(if_neg (by decide)).trans (by decide), (if_neg (by decide)).trans (by decide)⟩
  have hcount : blockCount (read 3) = 1 ∧ blockCount (read 4) = 1 := by decide
  have hsili : ((read 3).byte 1).getLsbD 1 = false ∧ ((read 4).byte 1).getLsbD 1 = false := by decide
  rw [if_neg (by decide), (hsize _).1, hcount.1, hsili.1] at hread₃
  rw [if_neg (by decide), (hsize _).2, hcount.2, hsili.2] at hread₄
  exact ⟨by decide +kernel, ⟨after₃, answer₃, hexecute₃, hgood, hmoved, hread₃⟩,
    ⟨after₄, answer₄, hexecute₄, hcheck, hcondition, hread₄⟩, hreset⟩

/-- ERASE with the Long bit leaves nothing of a tape with a filemark; and on a blank tape SPACE over a
filemark stays at the place 0 and the head is not at LBOT. -/
theorem tape_untrue :
    let ready : ScsiCommand := ⟨0, [0x00, 0, 0, 0, 0, 0], none, 0, 0⟩
    let erase : ScsiCommand := ⟨0, [0x19, 0x01, 0, 0, 0, 0], none, 0, 0⟩
    let space : ScsiCommand := ⟨0, [0x11, 0x01, 0, 0, 1, 0], none, 0, 0⟩
    let marked := (powerOn.insert (cartridge [⟨.filemark, 0, 0, false⟩])).2.step (.command ready)
    let blank := (powerOn.insert (cartridge [])).2.step (.command ready)
    (marked.tape.items = [.mark false] ∧
      (marked.execute erase).map (fun after => (after.2.status, after.1.tape.items)) =
        some (.good, [])) ∧
    ((blank.step (.command space)).loaded = true ∧ (blank.step (.command space)).tape.place = 0 ∧
      (blank.step (.command space)).position ≠ .atLbot) := by
  decide +kernel

end Exb8200

end Apollo.Device
