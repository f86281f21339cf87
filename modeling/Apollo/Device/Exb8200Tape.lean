import Mathlib
import Apollo.Lib.Extents
import Apollo.Lib.FirstStop
import Apollo.Device.Exb8200

/-!
# The tape of the 8 mm drive

What the drive's records and its data area mean: a list of blocks and filemarks, and a place in it. A
write cuts the list at the place and appends to it, a read and a space pass over records, an erase
cuts it and goes back to the beginning, and what is refused leaves the list and the place. The
records lie one behind the other in the data area. THE DRIVE IS THAT LIST in every state of a run.
-/

namespace Apollo.Device

open Lib

/-! ## The abstract tape -/

/-- A block of data or a filemark. -/
inductive TapeItem
  | block (bytes : List (BitVec 8))
  | mark (shortMark : Bool)
deriving DecidableEq

/-- A filemark. -/
def TapeItem.isMark : TapeItem → Bool
  | block _ => false
  | mark _ => true

/-- What is on the tape, and the place in it. -/
structure TapeView where
  items : List TapeItem
  place : Nat

namespace TapeMedia

/-- The bytes of a part of the data area. -/
def bytes (media : TapeMedia) (offset length : Nat) : List (BitVec 8) :=
  (List.range length).map fun i => media.data (offset + i)

/-- What a record stands for. -/
def item (media : TapeMedia) (record : TapeRecord) : TapeItem :=
  match record.kind with
  | .data => .block (media.bytes record.offset record.length)
  | .filemark => .mark record.shortMark

/-- What the records stand for. -/
def items (media : TapeMedia) : List TapeItem := media.record.map media.item

end TapeMedia

/-- The part of the data area that a record has. -/
def TapeRecord.extent (record : TapeRecord) : Option (Nat × Nat) :=
  match record.kind with
  | .data => some (record.offset, record.length)
  | .filemark => none

/-- The parts of the data area that records have. -/
def extents (record : List TapeRecord) : List (Nat × Nat) := record.filterMap TapeRecord.extent

/-- A cartridge as it is loaded and kept: its records lie one behind the other in the data area, which
leaves room in the offsets for another block. -/
structure TapeMedia.Sound (media : TapeMedia) : Prop where
  laid : Laid 0 (extents media.record) media.dataUsed
  used : media.dataUsed ≤ media.dataBytes
  offsets : media.dataBytes + 2 ^ 24 ≤ 2 ^ 32
  room : media.record.length ≤ media.capacity

/-- The drive's tape. -/
def Exb8200.tape (drive : Exb8200) : TapeView := ⟨drive.media.items, drive.index⟩

/-- The cartridge is sound, the place is in the list, behind a write it is the end, and with the tape
loaded the head is at LBOT exactly when the place is the beginning and the head not at PEOT. -/
structure Exb8200.Sound (drive : Exb8200) : Prop where
  media : drive.media.Sound
  place : drive.index ≤ drive.media.record.length
  written : drive.position = .afterWrite → drive.index = drive.media.record.length ∧ 0 < drive.index
  lbot : drive.loaded = true →
    (drive.position = .atLbot ↔ drive.index = 0 ∧ drive.position ≠ .atPeot)

namespace TapeMedia

variable {media other : TapeMedia}

theorem length_items (media : TapeMedia) : media.items.length = media.record.length :=
  List.length_map _

theorem isMark_item (media : TapeMedia) (record : TapeRecord) :
    (media.item record).isMark = decide (record.kind = .filemark) := by
  unfold item
  cases record.kind <;> rfl

theorem item_congr {record : TapeRecord}
    (hsame : ∀ extent ∈ record.extent, ∀ i, extent.1 ≤ i → i < extent.1 + extent.2 →
      other.data i = media.data i) : other.item record = media.item record := by
  unfold item
  cases hkind : record.kind with
  | filemark => rfl
  | data =>
    have hextent : (record.offset, record.length) ∈ record.extent := by
      rw [TapeRecord.extent, hkind]
      rfl
    refine congrArg TapeItem.block (List.map_congr_left fun i hi => ?_)
    exact hsame _ hextent _ (Nat.le_add_right ..) (Nat.add_lt_add_left (List.mem_range.mp hi) _)

theorem map_item_congr {record : List TapeRecord} {ending : Nat} (hlaid : Laid 0 (extents record) ending)
    (hsame : ∀ i < ending, other.data i = media.data i) :
    record.map other.item = record.map media.item := by
  refine List.map_congr_left fun r hr => item_congr fun extent hextent i _ hi => hsame i ?_
  have hmem : extent ∈ extents record := List.mem_filterMap.mpr ⟨r, hr, hextent⟩
  have hinside := (hlaid.mem_le hmem).2
  omega

end TapeMedia

theorem extents_take (record : List TapeRecord) (n : Nat) :
    extents record = extents (record.take n) ++ extents (record.drop n) := by
  rw [extents, extents, extents, ← List.filterMap_append, List.take_append_drop]

/-- The part of the data area that a truncation finds in use. -/
def usedBy (used : Nat) (record : TapeRecord) : Nat :=
  if record.kind = .data && used < (record.offset + record.length) % 2 ^ 32 then
    (record.offset + record.length) % 2 ^ 32
  else used

theorem laid_usedBy {record : List TapeRecord} {place ending : Nat}
    (hlaid : Laid place (extents record) ending) (hending : ending < 2 ^ 32) :
    Laid place (extents record) (record.foldl usedBy place) ∧
      record.foldl usedBy place ≤ ending := by
  induction record generalizing place with
  | nil => exact ⟨Nat.le_refl _, hlaid⟩
  | cons r record ih =>
    cases hkind : r.kind with
    | filemark =>
      have hextents : extents (r :: record) = extents record := by
        rw [extents, List.filterMap_cons, TapeRecord.extent, hkind]
        rfl
      rw [hextents] at hlaid ⊢
      have hused : usedBy place r = place := by
        rw [usedBy, hkind]
        rfl
      rw [List.foldl_cons, hused]
      exact ih hlaid
    | data =>
      have hextents : extents (r :: record) = (r.offset, r.length) :: extents record := by
        rw [extents, List.filterMap_cons, TapeRecord.extent, hkind]
        rfl
      rw [hextents] at hlaid ⊢
      obtain ⟨hplace, hrest⟩ := hlaid
      dsimp only at hplace hrest
      have hle := hrest.le
      have hused : usedBy place r = r.offset + r.length := by
        rw [usedBy, hkind, Nat.mod_eq_of_lt (by omega)]
        by_cases hlt : place < r.offset + r.length
        · simp [hlt]
        · simp only [decide_true, Bool.true_and, hlt, decide_false, Bool.false_eq_true, if_false]
          omega
      rw [List.foldl_cons, hused]
      obtain ⟨hlaid', hle'⟩ := ih hrest
      exact ⟨⟨hplace, hlaid'⟩, hle'⟩

namespace Exb8200

variable {drive : Exb8200} {command : ScsiCommand} {result : ScsiResult}

theorem truncateHere_spec (hmedia : drive.media.Sound) (hplace : drive.index ≤ drive.media.record.length) :
    drive.truncateHere.media.Sound ∧
      drive.truncateHere.media.items = drive.media.items.take drive.index ∧
      drive.truncateHere.index = drive.truncateHere.media.record.length := by
  have hlimit : drive.media.dataUsed < 2 ^ 32 := by
    have hused := hmedia.used
    have hoffsets := hmedia.offsets
    omega
  have hlaid : Laid 0 (extents (drive.media.record.take drive.index)) drive.media.dataUsed := by
    have hall := hmedia.laid
    rw [extents_take _ drive.index] at hall
    obtain ⟨middle, hfirst, hrest⟩ := Laid.append_iff.mp hall
    exact hfirst.mono hrest.le
  obtain ⟨hcut, hle⟩ := laid_usedBy hlaid hlimit
  refine ⟨⟨hcut, hle.trans hmedia.used, hmedia.offsets, ?_⟩, ?_, ?_⟩
  · show (drive.media.record.take drive.index).length ≤ drive.media.capacity
    rw [List.length_take]
    have hroom := hmedia.room
    omega
  · show (drive.media.record.take drive.index).map drive.media.item = _
    rw [List.map_take]
    rfl
  · show drive.index = (drive.media.record.take drive.index).length
    rw [List.length_take_of_le hplace]

/-- The sense keys of a refusal: not ready, an illegal request, a unit attention, write protected. -/
def isRefusal (condition : Option (BitVec 8)) : Bool :=
  condition.any fun key =>
    [keyNotReady, keyIllegalRequest, keyUnitAttention, keyDataProtect].contains key

/-! ## Writing -/

theorem length_bytes (media : TapeMedia) (offset length : Nat) :
    (media.bytes offset length).length = length := by
  rw [TapeMedia.bytes, List.length_map, List.length_range]

/-- A BLOCK PUT BEHIND THE RECORDS leaves them as they are, and has the bytes of the host. -/
theorem putBlock_spec {media : TapeMedia} (hmedia : media.Sound)
    (hroom : media.record.length < media.capacity) {block count : Nat}
    (hfits : media.dataUsed + block ≤ media.dataBytes) (hcount : count ≤ block)
    (read : BitVec 32 → BitVec 8) (address : BitVec 32) :
    (putBlock media block count read address).Sound ∧ ∃ bytes,
      (putBlock media block count read address).items = media.items ++ [.block bytes] ∧
      bytes.length = block ∧ ∀ k < count, bytes[k]? = some (read (address + BitVec.ofNat 32 k)) := by
  have hextents : extents (media.record ++ [⟨.data, media.dataUsed, block, false⟩]) =
      extents media.record ++ [(media.dataUsed, block)] := by
    rw [extents, List.filterMap_append]
    rfl
  refine ⟨⟨?_, hfits, hmedia.offsets, ?_⟩,
    (putBlock media block count read address).bytes media.dataUsed block, ?_, length_bytes .., ?_⟩
  · show Laid 0 (extents (media.record ++ [_])) (media.dataUsed + block)
    rw [hextents]
    exact hmedia.laid.concat block
  · show (media.record ++ [_]).length ≤ media.capacity
    rw [List.length_append, List.length_singleton]
    exact hroom
  · show (media.record ++ [_]).map _ = _
    rw [List.map_append, TapeMedia.map_item_congr hmedia.laid]
    · rfl
    · intro i hi
      exact if_neg fun h => absurd h.1 (by omega)
  · intro k hk
    rw [TapeMedia.bytes, List.getElem?_map, List.getElem?_range (by omega), Option.map_some]
    refine congrArg some ?_
    have hinside : media.dataUsed ≤ media.dataUsed + k ∧
        media.dataUsed + k < media.dataUsed + count := by omega
    show (if _ then _ else _) = _
    rw [if_pos hinside, Nat.add_sub_cancel_left]

/-- What a write leaves: the records that were, and behind them the blocks written, with the bytes of
the host as far as the transfer goes. -/
structure Wrote (command : ScsiCommand) (block left : Nat) (address : BitVec 32) (moved : Nat)
    (before after : Exb8200) (answer : ScsiResult) (written : List (List (BitVec 8))) : Prop where
  items : after.media.items = before.media.items ++ written.map .block
  place : after.index = after.media.record.length
  media : after.media.Sound
  lengths : ∀ bytes ∈ written, bytes.length = block
  bytes : ∀ read, command.memory = some read → ∀ k byte, written.flatten[k]? = some byte →
    moved + k < command.capacity → byte = read (address + BitVec.ofNat 32 k)
  good : answer.status = .good → written.length = left ∧ after.position = .afterWrite
  overflow : answer.status = .checkCondition → written.length < left ∧ after.position = .atPeot ∧
    answer.condition = some keyVolumeOverflow

/-- THE BLOCKS OF A WRITE. -/
theorem writeBlocks_spec (hgood : result.status = .good) {block : Nat} (hblock : block < 2 ^ 24)
    {left : Nat} {address : BitVec 32} {moved : Nat} (hmedia : drive.media.Sound)
    (hplace : drive.index = drive.media.record.length) :
    ∃ written, Wrote command block left address moved drive
      (writeBlocks command result block left drive address moved).1
      (writeBlocks command result block left drive address moved).2 written := by
  induction left generalizing drive address moved with
  | zero =>
    refine ⟨[], (List.append_nil _).symm, hplace, hmedia, fun _ h => absurd h List.not_mem_nil, ?_,
      fun _ => ⟨rfl, rfl⟩, fun hcheck => nomatch hgood.symm.trans hcheck⟩
    intro read _ k byte hbyte
    exact nomatch hbyte
  | succ left ih =>
    unfold writeBlocks
    split
    case isTrue =>
      refine ⟨[], (List.append_nil _).symm, hplace, ⟨hmedia.laid, hmedia.used, hmedia.offsets,
        hmedia.room⟩, fun _ h => absurd h List.not_mem_nil, ?_, (nomatch ·),
        fun _ => ⟨Nat.succ_pos left, rfl, rfl⟩⟩
      intro read _ k byte hbyte
      exact nomatch hbyte
    case isFalse hfits =>
      have hused := hmedia.used
      have hoffsets := hmedia.offsets
      rw [not_or, Nat.mod_eq_of_lt (by omega), Nat.not_le, Nat.not_lt] at hfits
      dsimp only
      generalize hcount : (if command.memory.isSome = true then min block (command.capacity - moved)
        else 0) = count
      have hle : count ≤ block := by
        rw [← hcount]
        split
        · exact Nat.min_le_left ..
        · exact Nat.zero_le _
      obtain ⟨hsound, bytes, hitems, hlength, hbytes⟩ := putBlock_spec hmedia hfits.1 hfits.2 hle
        (command.memory.getD fun _ => 0) address
      generalize putBlock drive.media block count (command.memory.getD fun _ => 0) address = media
        at hsound hitems
      obtain ⟨written, hwrote⟩ := @ih { drive with media, index := media.record.length }
        (address + BitVec.ofNat 32 block) (moved + count) hsound rfl
      refine ⟨bytes :: written, ?_, hwrote.place, hwrote.media, ?_, ?_, ?_, ?_⟩
      · rw [hwrote.items]
        show media.items ++ _ = _
        rw [hitems, List.append_assoc]
        rfl
      · intro other hother
        obtain rfl | hlater := List.mem_cons.mp hother
        · exact hlength
        · exact hwrote.lengths other hlater
      · intro read hread k byte hbyte hcapacity
        rw [hread, Option.isSome_some, if_pos rfl] at hcount
        rw [hread, Option.getD_some] at hbytes
        rw [List.flatten_cons] at hbyte
        by_cases hk : k < block
        · rw [List.getElem?_append_left (by omega), hbytes k (by omega)] at hbyte
          exact (Option.some.inj hbyte).symm
        · rw [List.getElem?_append_right (by omega), hlength] at hbyte
          have hlater := hwrote.bytes read hread _ byte hbyte (by omega)
          rw [hlater, BitVec.add_assoc, ← BitVec.ofNat_add, Nat.add_sub_cancel' (by omega)]
      · intro hanswer
        obtain ⟨hall, hposition⟩ := hwrote.good hanswer
        exact ⟨congrArg Nat.succ hall, hposition⟩
      · intro hanswer
        obtain ⟨hfewer, hrest⟩ := hwrote.overflow hanswer
        exact ⟨Nat.succ_lt_succ hfewer, hrest⟩

/-- What a write of filemarks leaves. -/
structure Marked (shortMark : Bool) (left : Nat) (before after : Exb8200) (answer : ScsiResult)
    (count : Nat) : Prop where
  items : after.media.items = before.media.items ++ List.replicate count (.mark shortMark)
  place : after.index = after.media.record.length
  media : after.media.Sound
  good : answer.status = .good → count = left ∧ after.position = .inData
  overflow : answer.status = .checkCondition → count < left ∧ after.position = .atPeot ∧
    answer.condition = some keyVolumeOverflow

/-- THE MARKS OF A WRITE OF FILEMARKS. -/
theorem writeMarks_spec (hgood : result.status = .good) {shortMark : Bool} {left : Nat}
    (hmedia : drive.media.Sound) (hplace : drive.index = drive.media.record.length) :
    ∃ count, Marked shortMark left drive (writeMarks result shortMark left drive).1
      (writeMarks result shortMark left drive).2 count := by
  induction left generalizing drive with
  | zero =>
    exact ⟨0, (List.append_nil _).symm, hplace, hmedia, fun _ => ⟨rfl, rfl⟩,
      fun hcheck => nomatch hgood.symm.trans hcheck⟩
  | succ left ih =>
    unfold writeMarks
    split
    case isTrue =>
      exact ⟨0, (List.append_nil _).symm, hplace, ⟨hmedia.laid, hmedia.used, hmedia.offsets,
        hmedia.room⟩, (nomatch ·), fun _ => ⟨Nat.succ_pos left, rfl, rfl⟩⟩
    case isFalse hfull =>
      dsimp only
      have hextents : extents (drive.media.record ++ [⟨.filemark, 0, 0, shortMark⟩]) =
          extents drive.media.record := by
        rw [extents, List.filterMap_append]
        exact List.append_nil _
      have hsound : TapeMedia.Sound { drive.media with
          record := drive.media.record ++ [⟨.filemark, 0, 0, shortMark⟩] } := by
        refine ⟨?_, hmedia.used, hmedia.offsets, ?_⟩
        · show Laid 0 (extents _) _
          rw [hextents]
          exact hmedia.laid
        · show (drive.media.record ++ [_]).length ≤ drive.media.capacity
          rw [List.length_append, List.length_singleton]
          omega
      obtain ⟨count, hmarked⟩ := @ih { drive with
        media := { drive.media with
          record := drive.media.record ++ [⟨.filemark, 0, 0, shortMark⟩] }
        index := (drive.media.record ++ [_]).length } hsound rfl
      refine ⟨count + 1, ?_, hmarked.place, hmarked.media, ?_, ?_⟩
      · rw [hmarked.items, List.replicate_succ]
        show (drive.media.record ++ [_]).map _ ++ _ = _
        rw [List.map_append, List.append_assoc]
        rfl
      · intro hanswer
        obtain ⟨hall, hposition⟩ := hmarked.good hanswer
        exact ⟨congrArg Nat.succ hall, hposition⟩
      · intro hanswer
        obtain ⟨hfewer, hrest⟩ := hmarked.overflow hanswer
        exact ⟨Nat.succ_lt_succ hfewer, hrest⟩

/-! ## Reading -/

theorem take_take_append {bytes more : List (BitVec 8)} {capacity : Nat} :
    (bytes.take capacity ++ more).take capacity = (bytes ++ more).take capacity := by
  rw [List.take_append, List.take_append, List.take_take, Nat.min_self, List.length_take]
  congr 2
  omega

/-- What cuts a read short: a filemark that it passes, the end of the tape, or a last block of another
length than was asked for. -/
def CutShort (tape : TapeView) (asked : Nat) (sili : Bool) (got : List (List (BitVec 8)))
    (marked : Bool) : Prop :=
  marked = true ∨ tape.items.length ≤ tape.place + got.length ∨
    sili = false ∧ ∃ bytes ∈ got.getLast?, bytes.length ≠ asked

/-- What a read gives: the blocks at the place, of each what was asked for, as far as the transfer
goes; it passes a filemark that ends it, and a good read has them all. -/
structure ReadOut (command : ScsiCommand) (asked left : Nat) (sili : Bool) (moved : List (BitVec 8))
    (before after : Exb8200) (answer : ScsiResult) (got : List (List (BitVec 8))) (marked : Bool) :
    Prop where
  media : after.media = before.media
  loaded : after.loaded = before.loaded
  blocks : (before.media.items.drop before.index).take got.length = got.map .block
  place : after.index = before.index + got.length + marked.toNat
  mark : marked = true → ∃ shortMark,
    before.media.items[before.index + got.length]? = some (.mark shortMark)
  bytes : command.memory.isSome = true →
    answer.moved = (moved ++ got.flatMap (·.take asked)).take command.capacity
  few : got.length ≤ left
  sized : ∀ bytes ∈ got.dropLast, bytes.length = asked
  short : answer.status = .checkCondition → isRefusal answer.condition = true ∨
    CutShort before.tape asked sili got marked
  good : answer.status = .good → got.length = left ∧ marked = false ∧
    (sili = false → ∀ bytes ∈ got, bytes.length = asked)
  refused : isRefusal answer.condition = true →
    before.position = .afterWrite ∧ got = [] ∧ marked = false
  position : after.index = before.index ∧ after.position = before.position ∨
    before.index < after.index ∧ after.position = .inData

theorem items_drop {media : TapeMedia} {index : Nat} {record : TapeRecord}
    (hrecord : media.record[index]? = some record) :
    media.items.drop index = media.item record :: media.items.drop (index + 1) := by
  obtain ⟨hlt, rfl⟩ := List.getElem?_eq_some_iff.mp hrecord
  rw [TapeMedia.items, ← List.map_drop, List.drop_eq_getElem_cons hlt, List.map_cons, List.map_drop]

/-- THE BLOCKS OF A READ. -/
theorem readBlocks_spec (hgood : result.status = .good) (hnone : result.condition = none)
    {asked left : Nat} {sili : Bool} (hsili : sili = true → left ≤ 1) {moved : List (BitVec 8)}
    (hmoved : moved.length ≤ command.capacity) :
    ∃ got marked, ReadOut command asked left sili moved drive
      (readBlocks command result asked sili left drive moved).1
      (readBlocks command result asked sili left drive moved).2 got marked := by
  induction left generalizing drive moved with
  | zero =>
    refine ⟨[], false, rfl, rfl, rfl, rfl, (nomatch ·), fun _ => ?_, Nat.zero_le _,
      fun _ h => absurd h List.not_mem_nil, fun hcheck => (nomatch hgood.symm.trans hcheck),
      fun _ => ⟨rfl, rfl, fun _ _ h => absurd h List.not_mem_nil⟩,
      fun h => absurd ((congrArg isRefusal hnone).symm.trans h) (by decide), .inl ⟨rfl, rfl⟩⟩
    rw [List.flatMap_nil, List.append_nil, List.take_of_length_le hmoved]
    rfl
  | succ left ih =>
    have hstopped : command.memory.isSome = true →
        moved = (moved ++ ([] : List (List (BitVec 8))).flatMap (·.take asked)).take
          command.capacity := fun _ => by
      rw [List.flatMap_nil, List.append_nil, List.take_of_length_le hmoved]
    unfold readBlocks
    dsimp only
    split
    case isTrue hwritten =>
      exact ⟨[], false, rfl, rfl, rfl, rfl, (nomatch ·), hstopped, Nat.zero_le _,
        fun _ h => absurd h List.not_mem_nil,
        fun _ => .inl (show isRefusal (some keyIllegalRequest) = true by decide), (nomatch ·),
        fun _ => ⟨hwritten, rfl, rfl⟩, .inl ⟨rfl, rfl⟩⟩
    case isFalse hreadable =>
      split
      case h_1 hrecord =>
        have hend : drive.media.items.length ≤ drive.index := by
          rw [TapeMedia.length_items]
          exact List.getElem?_eq_none_iff.mp hrecord
        exact ⟨[], false, rfl, rfl, rfl, rfl, (nomatch ·), hstopped, Nat.zero_le _,
          fun _ h => absurd h List.not_mem_nil, fun _ => .inr (.inr (.inl hend)), (nomatch ·),
          fun h => absurd h (show isRefusal (some keyBlankCheck) ≠ true by decide),
          .inl ⟨rfl, rfl⟩⟩
      case h_2 record hrecord =>
        have hitems := items_drop hrecord
        split
        case h_1 hkind =>
          refine ⟨[], true, rfl, rfl, rfl, rfl, fun _ => ⟨record.shortMark, ?_⟩, hstopped, Nat.zero_le _,
            fun _ h => absurd h List.not_mem_nil, fun _ => .inr (.inl rfl), (nomatch ·),
            fun h => absurd h (show isRefusal (some keyNoSense) ≠ true by decide),
            .inr ⟨Nat.lt_succ_self _, rfl⟩⟩
          show drive.media.items[drive.index]? = _
          rw [TapeMedia.items, List.getElem?_map, hrecord, Option.map_some, TapeMedia.item, hkind]
        case h_2 hkind =>
          have hblock : drive.media.item record =
              .block (drive.media.bytes record.offset record.length) := by
            rw [TapeMedia.item, hkind]
          have hbytes : command.memory.isSome = true →
              moved ++ command.give (blockBytes drive.media record (min record.length asked))
                (command.capacity - moved.length) =
              (moved ++ (drive.media.bytes record.offset record.length).take asked).take
                command.capacity := by
            intro hmemory
            obtain ⟨read, hread⟩ := Option.isSome_iff_exists.mp hmemory
            rw [ScsiCommand.give, hread, List.take_append, List.take_of_length_le hmoved]
            dsimp only
            congr 2
            rw [blockBytes, TapeMedia.bytes, ← List.map_take, List.take_range, Nat.min_comm]
          have hlater : (moved ++ command.give
              (blockBytes drive.media record (min record.length asked))
                (command.capacity - moved.length)).length ≤ command.capacity := by
            rw [List.length_append, ScsiCommand.give]
            split
            · rw [List.length_nil]
              omega
            · rw [List.length_take]
              omega
          generalize moved ++ command.give _ (command.capacity - moved.length) = moved' at *
          split
          case isTrue hlength =>
            obtain ⟨got, marked, hout⟩ := @ih
              { drive with index := drive.index + 1, position := .inData }
              (fun h => Nat.le_of_succ_le (hsili h)) moved' hlater
            have hplace := hout.place
            dsimp only at hplace
            refine ⟨drive.media.bytes record.offset record.length :: got, marked, hout.media, hout.loaded, ?_, ?_,
              ?_, ?_, Nat.succ_le_succ hout.few, ?_, ?_, ?_, ?_, ?_⟩
            · rw [hitems, List.length_cons, List.take_succ_cons, hblock]
              exact congrArg _ hout.blocks
            · rw [hplace, List.length_cons]
              omega
            · intro hmarked
              obtain ⟨shortMark, hmark⟩ := hout.mark hmarked
              refine ⟨shortMark, ?_⟩
              rw [List.length_cons, ← hmark]
              show drive.media.items[drive.index + (got.length + 1)]? =
                drive.media.items[drive.index + 1 + got.length]?
              rw [Nat.add_right_comm, Nat.add_assoc]
            · intro hmemory
              rw [hout.bytes hmemory, hbytes hmemory, take_take_append, List.flatMap_cons,
                List.append_assoc]
            · intro bytes hmem
              cases got with
              | nil => exact absurd hmem List.not_mem_nil
              | cons next rest =>
                obtain rfl | hrest := List.mem_cons.mp hmem
                · rw [length_bytes, hlength]
                · exact hout.sized bytes hrest
            · intro hanswer
              refine (hout.short hanswer).imp_right ?_
              rintro (hmarked | hend | ⟨hreported, bytes, hlast, hother⟩)
              · exact .inl hmarked
              · refine .inr (.inl ?_)
                have hend : drive.media.items.length ≤ drive.index + 1 + got.length := hend
                show drive.media.items.length ≤ drive.index + (got.length + 1)
                omega
              · cases got with
                | nil => cases hlast
                | cons next rest => exact .inr (.inr ⟨hreported, bytes, hlast, hother⟩)
            · intro hanswer
              obtain ⟨hall, hmarked, hlengths⟩ := hout.good hanswer
              refine ⟨congrArg Nat.succ hall, hmarked, fun hfixed bytes hmem => ?_⟩
              obtain rfl | hrest := List.mem_cons.mp hmem
              · rw [length_bytes, hlength]
              · exact hlengths hfixed bytes hrest
            · intro hanswer
              exact nomatch (hout.refused hanswer).1
            · refine .inr ⟨by omega, ?_⟩
              obtain ⟨-, hposition⟩ | ⟨-, hposition⟩ := hout.position <;> exact hposition
          case isFalse hlength =>
            have hone : ∀ (after : Exb8200) (answer : ScsiResult), after.media = drive.media →
                after.loaded = drive.loaded → after.index = drive.index + 1 →
                after.position = .inData → answer.moved = moved' →
                (answer.status = .good → sili = true) →
                (answer.status = .checkCondition → sili = false) →
                isRefusal answer.condition = false →
                ReadOut command asked (left + 1) sili moved drive after answer
                  [drive.media.bytes record.offset record.length] false := by
              intro after answer hmedia hloaded hindex hposition hanswer hanswerGood hreported hcondition
              refine ⟨hmedia, hloaded, ?_, hindex, (nomatch ·), fun hmemory => ?_,
                Nat.succ_le_succ (Nat.zero_le _), fun _ h => absurd h List.not_mem_nil,
                fun hstatus => .inr (.inr (.inr ⟨hreported hstatus, _, rfl, ?_⟩)),
                fun hstatus => ?_, fun h => (nomatch hcondition.symm.trans h),
                .inr ⟨by omega, hposition⟩⟩
              · rw [hitems, List.length_singleton, List.take_succ_cons, List.take_zero, hblock]
                rfl
              · rw [hanswer, hbytes hmemory, List.flatMap_singleton]
              · exact fun hsame => hlength ((length_bytes ..).symm.trans hsame)
              · have hsuppressed := hanswerGood hstatus
                have hleft := hsili hsuppressed
                refine ⟨by rw [List.length_singleton]; omega, rfl, fun hfixed => ?_⟩
                exact nomatch hsuppressed.symm.trans hfixed
            split
            case isTrue hsuppressed =>
              refine ⟨_, _, hone _ _ rfl rfl rfl rfl rfl (fun _ => hsuppressed)
                (fun hcheck => nomatch hgood.symm.trans hcheck) ?_⟩
              exact congrArg isRefusal hnone
            case isFalse hreported =>
              refine ⟨_, _, hone _ _ rfl rfl rfl rfl rfl (nomatch ·)
                (fun _ => Bool.eq_false_iff.mpr hreported) ?_⟩
              exact (show isRefusal (some keyNoSense) = false by decide)

/-! ## Spacing -/

/-- Where a space over records is to stop, by the filemarks ahead: behind as many filemarks, or behind
as many blocks or the first filemark. -/
def spaceStop (filemarks : Bool) (left : Nat) (marks : List Bool) (passed : Nat) : Prop :=
  if filemarks then (marks.take passed).count true = left
  else passed = left ∨ true ∈ marks.take passed

variable {filemarks : Bool} {left : Nat} {marks : List Bool}

theorem spaceStop_zero : spaceStop filemarks 0 marks 0 := by
  unfold spaceStop
  split
  · rfl
  · exact .inl rfl

theorem not_spaceStop_succ : ¬ spaceStop filemarks (left + 1) marks 0 := by
  unfold spaceStop
  split
  · rw [List.take_zero, List.count_nil]
    exact Nat.succ_ne_zero left ∘ Eq.symm
  · rintro (h | h)
    · exact Nat.succ_ne_zero left h.symm
    · exact List.not_mem_nil h

theorem spaceStop_mark (later : Nat) :
    spaceStop true (left + 1) (true :: marks) (later + 1) ↔ spaceStop true left marks later := by
  simp only [spaceStop, if_true, List.take_succ_cons, List.count_cons_self, Nat.add_right_cancel_iff]

theorem spaceStop_block_marks (later : Nat) :
    spaceStop true (left + 1) (false :: marks) (later + 1) ↔
      spaceStop true (left + 1) marks later := by
  simp [spaceStop]

theorem spaceStop_block (later : Nat) :
    spaceStop false (left + 1) (false :: marks) (later + 1) ↔ spaceStop false left marks later := by
  simp [spaceStop]

theorem spaceStop_first : spaceStop false (left + 1) (true :: marks) 1 := by
  simp [spaceStop]

theorem firstStop_passed {mark : Bool} {fewer steps : Nat}
    (hstop : ∀ later, spaceStop filemarks (left + 1) (mark :: marks) (later + 1) ↔
      spaceStop filemarks fewer marks later)
    (h : FirstStop marks.length (spaceStop filemarks fewer marks) steps) :
    FirstStop (mark :: marks).length (spaceStop filemarks (left + 1) (mark :: marks)) (steps + 1) := by
  refine FirstStop.step not_spaceStop_succ ?_
  rw [funext fun later => propext (hstop later)]
  exact h

/-- What a space forward leaves: the records that are ahead passed up to where it is to stop. -/
structure SpacedForward (filemarks : Bool) (left : Nat) (ahead : List TapeRecord)
    (before after : Exb8200) (answer : ScsiResult) (passed : Nat) : Prop where
  media : after.media = before.media
  loaded : after.loaded = before.loaded
  place : after.index = before.index + passed
  stop : FirstStop ahead.length
    (spaceStop filemarks left (ahead.map fun record => decide (record.kind = .filemark))) passed
  position : after.position = .atPeot ∨ passed = 0 ∧ after.position = before.position ∨
    0 < passed ∧ after.position = .inData
  moved : isRefusal answer.condition = false

/-- A SPACE FORWARD. -/
theorem spaceForward_spec (hnone : result.condition = none) {ahead : List TapeRecord} :
    ∃ passed, SpacedForward filemarks left ahead drive
      (spaceForward result filemarks ahead left drive).1
      (spaceForward result filemarks ahead left drive).2 passed := by
  induction ahead generalizing drive left with
  | nil =>
    cases left with
    | zero =>
      refine ⟨0, rfl, rfl, rfl, FirstStop.atEnd, .inr (.inl ⟨rfl, rfl⟩), ?_⟩
      exact congrArg isRefusal hnone
    | succ left =>
      unfold spaceForward
      cases filemarks with
      | true => exact ⟨0, rfl, rfl, rfl, FirstStop.atEnd, .inl rfl,
          (show isRefusal (some keyMediumError) = false by decide)⟩
      | false => exact ⟨0, rfl, rfl, rfl, FirstStop.atEnd, .inr (.inl ⟨rfl, rfl⟩),
          (show isRefusal (some keyBlankCheck) = false by decide)⟩
  | cons record ahead ih =>
    cases left with
    | zero =>
      refine ⟨0, rfl, rfl, rfl, FirstStop.here spaceStop_zero, .inr (.inl ⟨rfl, rfl⟩), ?_⟩
      exact congrArg isRefusal hnone
    | succ left =>
      have hgo : ∀ fewer, (∀ later, spaceStop filemarks (left + 1)
            (decide (record.kind = .filemark) :: ahead.map fun r => decide (r.kind = .filemark))
            (later + 1) ↔
          spaceStop filemarks fewer (ahead.map fun r => decide (r.kind = .filemark)) later) →
          ∃ passed, SpacedForward filemarks (left + 1) (record :: ahead) drive
            (spaceForward result filemarks ahead fewer
              { drive with index := drive.index + 1, position := .inData }).1
            (spaceForward result filemarks ahead fewer
              { drive with index := drive.index + 1, position := .inData }).2 passed := by
        intro fewer hstop
        obtain ⟨passed, hspaced⟩ := @ih
          { drive with index := drive.index + 1, position := .inData } fewer
        have hplace := hspaced.place
        dsimp only at hplace
        refine ⟨passed + 1, hspaced.media, hspaced.loaded, by omega, ?_, ?_, hspaced.moved⟩
        · have hsteps := hspaced.stop
          rw [← List.length_map (f := fun r : TapeRecord => decide (r.kind = .filemark))] at hsteps ⊢
          exact firstStop_passed hstop hsteps
        · obtain hpeot | ⟨-, hposition⟩ | ⟨-, hposition⟩ := hspaced.position
          · exact .inl hpeot
          · exact .inr (.inr ⟨Nat.succ_pos _, hposition⟩)
          · exact .inr (.inr ⟨Nat.succ_pos _, hposition⟩)
      unfold spaceForward
      cases hkind : record.kind with
      | filemark =>
        cases filemarks with
        | true =>
          refine hgo left fun later => ?_
          rw [hkind]
          exact spaceStop_mark later
        | false =>
          refine ⟨1, rfl, rfl, rfl, ?_, .inr (.inr ⟨Nat.one_pos, rfl⟩),
            (show isRefusal (some keyNoSense) = false by decide)⟩
          rw [List.map_cons, hkind]
          exact FirstStop.step not_spaceStop_succ (FirstStop.here spaceStop_first)
      | data =>
        cases filemarks with
        | true =>
          refine hgo (left + 1) fun later => ?_
          rw [hkind]
          exact spaceStop_block_marks later
        | false =>
          refine hgo left fun later => ?_
          rw [hkind]
          exact spaceStop_block later

/-- The filemarks that a space backward comes to, the nearest first. -/
def marksBehind (media : TapeMedia) (index : Nat) : List Bool :=
  ((media.record.take index).map fun record => decide (record.kind = .filemark)).reverse

theorem marksBehind_succ {media : TapeMedia} {index : Nat} {record : TapeRecord}
    (hrecord : media.record[index]? = some record) :
    marksBehind media (index + 1) =
      decide (record.kind = .filemark) :: marksBehind media index := by
  obtain ⟨hlt, rfl⟩ := List.getElem?_eq_some_iff.mp hrecord
  rw [marksBehind, List.take_succ_eq_append_getElem hlt, List.map_append, List.reverse_append]
  rfl

/-- What a space backward leaves: the records behind passed up to where it is to stop. -/
structure SpacedBackward (filemarks : Bool) (left : Nat) (before after : Exb8200)
    (answer : ScsiResult) (passed : Nat) : Prop where
  media : after.media = before.media
  loaded : after.loaded = before.loaded
  place : after.index + passed = before.index
  stop : FirstStop before.index
    (spaceStop filemarks left (marksBehind before.media before.index)) passed
  position : left = 0 ∧ passed = 0 ∧ after.position = before.position ∨
    after.position = if after.index = 0 then .atLbot else .inData
  moved : isRefusal answer.condition = false

/-- A SPACE BACKWARD. -/
theorem spaceBackward_spec (hnone : result.condition = none) {index : Nat}
    (hindex : drive.index = index) (hplace : index ≤ drive.media.record.length) :
    ∃ passed, SpacedBackward filemarks left drive
      (spaceBackward result filemarks index left drive).1
      (spaceBackward result filemarks index left drive).2 passed := by
  induction index generalizing drive left with
  | zero =>
    cases left with
    | zero =>
      refine ⟨0, rfl, rfl, rfl, FirstStop.here spaceStop_zero, .inl ⟨rfl, rfl, rfl⟩, ?_⟩
      exact congrArg isRefusal hnone
    | succ left =>
      refine ⟨0, rfl, rfl, rfl, ?_, .inr ?_, ?_⟩
      · rw [hindex]
        exact FirstStop.atEnd
      · show TapeWhere.atLbot = if drive.index = 0 then .atLbot else .inData
        rw [if_pos hindex]
      · exact (show isRefusal (some keyNoSense) = false by decide)
  | succ index ih =>
    cases left with
    | zero =>
      refine ⟨0, rfl, rfl, rfl, FirstStop.here spaceStop_zero, .inl ⟨rfl, rfl, rfl⟩, ?_⟩
      exact congrArg isRefusal hnone
    | succ left =>
      have hlt : index < drive.media.record.length := hplace
      have hrecord : drive.media.record[index]? = some drive.media.record[index] :=
        List.getElem?_eq_getElem hlt
      generalize drive.media.record[index] = record at hrecord
      have hbehind := marksBehind_succ hrecord
      have hlength : (marksBehind drive.media index).length = index := by
        rw [marksBehind, List.length_reverse, List.length_map, List.length_take]
        omega
      have hgo : ∀ fewer, (∀ later, spaceStop filemarks (left + 1)
            (decide (record.kind = .filemark) :: marksBehind drive.media index) (later + 1) ↔
          spaceStop filemarks fewer (marksBehind drive.media index) later) →
          ∃ passed, SpacedBackward filemarks (left + 1) drive
            (spaceBackward result filemarks index fewer
              { drive with index, position := if index = 0 then .atLbot else .inData }).1
            (spaceBackward result filemarks index fewer
              { drive with index, position := if index = 0 then .atLbot else .inData }).2
              passed := by
        intro fewer hstop
        obtain ⟨passed, hspaced⟩ := @ih
          { drive with index, position := if index = 0 then .atLbot else .inData } fewer rfl hlt.le
        have hback := hspaced.place
        dsimp only at hback
        refine ⟨passed + 1, hspaced.media, hspaced.loaded, by omega, ?_, .inr ?_, hspaced.moved⟩
        · rw [hindex, hbehind]
          have hsteps := hspaced.stop
          dsimp only at hsteps
          rw [← hlength] at hsteps
          have hpassed := firstStop_passed hstop (by rwa [hlength] at hsteps ⊢)
          rwa [List.length_cons, hlength] at hpassed
        · obtain ⟨-, hstill, hposition⟩ | hposition := hspaced.position
          · rw [hstill, Nat.add_zero] at hback
            rw [hposition, hback]
          · exact hposition
      unfold spaceBackward
      dsimp only
      rw [hrecord]
      cases hkind : record.kind with
      | filemark =>
        cases filemarks with
        | true =>
          rw [Option.map_some, hkind]
          refine hgo left fun later => ?_
          rw [hkind]
          exact spaceStop_mark later
        | false =>
          rw [Option.map_some, hkind]
          refine ⟨1, rfl, rfl, hindex.symm, ?_, .inr rfl,
            (show isRefusal (some keyNoSense) = false by decide)⟩
          rw [hindex, hbehind, hkind]
          exact FirstStop.step not_spaceStop_succ (FirstStop.here spaceStop_first)
      | data =>
        cases filemarks with
        | true =>
          rw [Option.map_some, hkind]
          refine hgo (left + 1) fun later => ?_
          rw [hkind]
          exact spaceStop_block_marks later
        | false =>
          rw [Option.map_some, hkind]
          refine hgo left fun later => ?_
          rw [hkind]
          exact spaceStop_block later

end Exb8200

end Apollo.Device
