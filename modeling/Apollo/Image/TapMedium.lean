import Mathlib
import Apollo.Image.Tap

/-!
# Media in and out of their container

The media there are: blank ones, those that the loader makes of an image, and those that the drive
leaves after a run. Each of them is saved in exactly the bytes announced, and comes back with the same
records and data; the loader has a result for every image, accepts only images of records between two
equal headers, and changes only what it fills.
-/

namespace Apollo.Image

open Apollo.Device (Exb8200 ScsiCommand ScsiResult TapeItem TapeMedia TapeRecord TapeView TapeWhere extents)
open Apollo.Device.Exb8200 Apollo.Lib

/-! ## Media -/

/-- A block of data that the container can hold: its length is below 2³¹. -/
def Short (items : List TapeItem) : Prop :=
  ∀ bytes, TapeItem.block bytes ∈ items → bytes.length < 2 ^ 31

/-- No block is empty. -/
def NoneEmpty (items : List TapeItem) : Prop := ∀ bytes, TapeItem.block bytes ∈ items → bytes ≠ []

/-- **A medium of the loader or the drive**, in storage whose data area leaves room in the offsets for
another block: blank, loaded, or what the drive leaves of such a medium after a run. -/
inductive Made : TapeMedia → Prop
  | blank {media : TapeMedia} : media.record = [] → media.dataUsed = 0 →
      media.dataBytes + 2 ^ 24 ≤ 2 ^ 32 → Made media
  | loaded {target media : TapeMedia} {image : List (BitVec 8)} :
      target.dataBytes + 2 ^ 24 ≤ 2 ^ 32 → tapLoad target image = some (true, media) → Made media
  | driven {media : TapeMedia} {drive : Exb8200} (events : List Event) : Made media →
      drive.present = false → Made ((drive.insert media).2.run events).media

/-! ## The drive writes blocks of one byte and more -/

variable {drive : Exb8200} {command : ScsiCommand} {result : ScsiResult}

theorem cmdWrite_size (hnot : ¬ Refused (drive.cmdWrite command result).2)
    (hlength : (command.be24 2).toNat ≠ 0) : 0 < drive.blockSize command := by
  unfold cmdWrite at hnot
  split at hnot
  · exact absurd ⟨rfl, show isRefusal (some keyNotReady) = true by decide⟩ hnot
  split at hnot
  · exact absurd ⟨rfl, show isRefusal (some keyDataProtect) = true by decide⟩ hnot
  dsimp only at hnot
  split at hnot
  · exact absurd ⟨rfl, show isRefusal (some keyIllegalRequest) = true by decide⟩ hnot
  · rename_i hfixed
    unfold blockSize
    split
    · rename_i hset
      rw [hset, eq_comm, decide_eq_true_eq] at hfixed
      exact Nat.pos_of_ne_zero fun hzero => hfixed (BitVec.eq_of_toNat_eq hzero)
    · exact Nat.pos_of_ne_zero hlength

theorem write_size {after : Exb8200} {answer : ScsiResult}
    (hexecute : drive.execute command = some (after, answer)) (hcode : command.opcode = 0x0A)
    (hnot : ¬ Refused answer) (hlength : (command.be24 2).toNat ≠ 0) :
    0 < drive.blockSize command := by
  have hdispatch : drive.dispatch command .start = drive.cmdWrite command .start := by
    unfold dispatch
    rw [hcode]
    rfl
  unfold execute at hexecute
  split at hexecute
  · exact nomatch hexecute
  split at hexecute
  · obtain ⟨-, rfl⟩ := Prod.mk.inj (Option.some.inj hexecute)
    exact absurd ⟨rfl, show isRefusal (some keyIllegalRequest) = true by decide⟩ hnot
  split at hexecute
  · rename_i hexempt
    rw [exempt, hcode] at hexempt
    exact absurd hexempt (by decide)
  split at hexecute
  · obtain ⟨-, rfl⟩ := Prod.mk.inj (Option.some.inj hexecute)
    exact absurd ⟨rfl, show isRefusal (some keyUnitAttention) = true by decide⟩ hnot
  · refine cmdWrite_size (show ¬ Refused (drive.cmdWrite command .start).2 from ?_) hlength
    have hresult := settle_result (drive.dispatch command .start)
    rw [Option.some.inj hexecute, hdispatch] at hresult
    rw [← hresult]
    exact hnot

/-- What a run puts on the tape: filemarks, and blocks of 1 to 2²⁴ - 1 bytes. -/
def Writable (item : TapeItem) : Prop :=
  ∀ bytes, item = .block bytes → 0 < bytes.length ∧ bytes.length < 2 ^ 24

theorem writable_step (h : drive.Sound) (event : Event) {item : TapeItem}
    (hitem : item ∈ (drive.step event).media.items) : item ∈ drive.media.items ∨ Writable item := by
  cases event with
  | reset => exact .inl hitem
  | command command =>
    rw [step] at hitem
    cases hexecute : drive.execute command with
    | none =>
      rw [hexecute] at hitem
      exact .inl hitem
    | some both =>
      obtain ⟨after, answer⟩ := both
      rw [hexecute] at hitem
      change item ∈ after.tape.items at hitem
      obtain ⟨-, hrefused, hsteps⟩ := keeps_execute h hexecute
      by_cases hnot : Refused answer
      · rw [show after.tape = drive.tape from hrefused hnot] at hitem
        exact .inl hitem
      have hstep : StepsTape drive command answer after.tape := hsteps hnot
      by_cases hwrite : command.opcode = 0x0A
      · have hwritten := hstep.write hwrite
        split at hwritten
        · rw [hwritten] at hitem
          exact .inl hitem
        · rename_i hlength
          obtain ⟨written, htape, hlengths, -⟩ := hwritten
          rw [htape, TapeView.overwrite] at hitem
          obtain hitem | hitem := List.mem_append.mp hitem
          · exact .inl (List.mem_of_mem_take hitem)
          · obtain ⟨block, hblock, rfl⟩ := List.mem_map.mp hitem
            refine .inr fun bytes hbytes => ?_
            obtain rfl := TapeItem.block.inj hbytes
            rw [hlengths block hblock]
            refine ⟨write_size hexecute hwrite hnot hlength, ?_⟩
            unfold blockSize
            split <;> exact BitVec.isLt _
      by_cases hmarks : command.opcode = 0x10
      · have hmarked := hstep.writeFilemarks hmarks
        split at hmarked
        · rw [hmarked] at hitem
          exact .inl hitem
        · obtain ⟨written, htape, -⟩ := hmarked
          rw [htape, TapeView.overwrite] at hitem
          obtain hitem | hitem := List.mem_append.mp hitem
          · exact .inl (List.mem_of_mem_take hitem)
          · obtain rfl := List.eq_of_mem_replicate hitem
            refine .inr fun bytes hbytes => ?_
            cases hbytes
      refine .inl ?_
      by_cases hread : command.opcode = 0x08
      · have hreads := hstep.read hread
        split at hreads
        · rw [hreads] at hitem
          exact hitem
        · obtain ⟨got, marked, htape, -⟩ := hreads
          rw [htape] at hitem
          exact hitem
      by_cases hspace : command.opcode = 0x11
      · obtain ⟨passed, hspaced⟩ := hstep.space hspace
        split at hspaced
        · rw [hspaced.1] at hitem
          exact hitem
        · rw [hspaced.1] at hitem
          exact hitem
      by_cases herase : command.opcode = 0x19
      · have herased := hstep.erase herase
        rw [herased] at hitem
        split at hitem
        · exact List.mem_of_mem_take hitem
        · exact hitem
      have hrest := hstep.rest (by
        simp only [List.mem_cons, List.not_mem_nil, or_false, not_or]
        exact ⟨hwrite, hmarks, hread, hspace, herase⟩)
      rw [hrest.1] at hitem
      exact hitem

theorem writable_run (h : drive.Sound) (events : List Event) {item : TapeItem}
    (hitem : item ∈ (drive.run events).media.items) : item ∈ drive.media.items ∨ Writable item := by
  induction events generalizing drive with
  | nil => exact .inl hitem
  | cons event events ih =>
    obtain hbefore | hwritable := ih (sound_step h event) hitem
    · exact writable_step h event hbefore
    · exact .inr hwritable

/-! ## What is made is sound -/

theorem filed_fresh (target : TapeMedia) : Filed { target with record := [], dataUsed := 0 } :=
  ⟨Nat.le_refl _, Nat.zero_le _, Nat.zero_le _⟩

theorem tapLoad_spec (target : TapeMedia) (image : List (BitVec 8)) :
    ∃ accepted after, tapLoad target image = some (accepted, after) ∧
      LoopEnds image { target with record := [], dataUsed := 0 } accepted after :=
  loadLoop_spec (by omega) (filed_fresh target)

theorem Filed.sound {media : TapeMedia} (h : Filed media)
    (hoffsets : media.dataBytes + 2 ^ 24 ≤ 2 ^ 32) : media.Sound :=
  ⟨h.laid, h.used, hoffsets, h.room⟩

theorem short_units {units : List TapUnit} (hvalid : ∀ u ∈ units, u.Valid) :
    Short (units.filterMap TapUnit.item) := by
  intro bytes hbytes
  obtain ⟨u, hu, hitem⟩ := List.mem_filterMap.mp hbytes
  have hu' := hvalid u hu
  cases u with
  | mark => exact nomatch hitem
  | gap => exact nomatch hitem
  | data header block pad =>
    obtain rfl := TapeItem.block.inj (Option.some.inj hitem)
    rw [hu'.2.1, BitVec.toNat_and]
    exact Nat.lt_of_le_of_lt Nat.and_le_right (by decide)

/-- EVERY MEDIUM THAT IS MADE is sound, and the container can hold its blocks. -/
theorem Made.sound {media : TapeMedia} (h : Made media) : media.Sound ∧ Short media.items := by
  induction h with
  | @blank media hrecord hused hoffsets =>
    have hitems : media.items = [] := by rw [TapeMedia.items, hrecord]; rfl
    refine ⟨⟨?_, ?_, hoffsets, ?_⟩, ?_⟩
    · rw [hrecord, hused]
      exact Nat.le_refl _
    · rw [hused]
      exact Nat.zero_le _
    · rw [hrecord]
      exact Nat.zero_le _
    · rw [hitems]
      exact fun _ hmem => absurd hmem List.not_mem_nil
  | @loaded target media image hoffsets hload =>
    obtain ⟨accepted, after, hresult, hends⟩ := tapLoad_spec target image
    obtain ⟨rfl, rfl⟩ := Prod.mk.inj (Option.some.inj (hload.symm.trans hresult))
    refine ⟨hends.filed.sound ?_, ?_⟩
    · rw [hends.storage.dataBytes]
      exact hoffsets
    · obtain ⟨units, rest, hvalid, -, -, hitems⟩ := hends.units
      rw [hitems]
      exact short_units hvalid
  | @driven media drive events _ habsent ih =>
    have hinserted : (drive.insert media).2.Sound := sound_insert habsent ih.1
    refine ⟨(sound_run hinserted events).media, fun bytes hbytes => ?_⟩
    obtain hbefore | hwritable := writable_run hinserted events hbytes
    · refine ih.2 bytes ?_
      rw [Exb8200.insert, if_neg (by rw [habsent]; decide)] at hbefore
      exact hbefore
    · exact (hwritable bytes rfl).2.trans (by decide)

/-! ## The round trip -/

/-- What the container makes of an item: every filemark is a long one, and a block of no bytes is the
two filemarks that its lengths are. -/
def reloaded : TapeItem → List TapeItem
  | .block bytes => if bytes = [] then [.mark false, .mark false] else [.block bytes]
  | .mark _ => [.mark false]

/-- The units that a record is saved as. -/
def unitsOf (media : TapeMedia) (record : TapeRecord) : List TapUnit :=
  match record.kind with
  | .filemark => [.mark]
  | .data =>
    if record.length = 0 then [.mark, .mark]
    else [.data (BitVec.ofNat 32 record.length) (media.bytes record.offset record.length)
      (List.replicate (record.length % 2) 0)]

theorem header_length {length : Nat} (hpos : 0 < length) (hshort : length < 2 ^ 31) :
    (BitVec.ofNat 32 length ≠ tapMark ∧ BitVec.ofNat 32 length ≠ tapEom ∧
        BitVec.ofNat 32 length ≠ tapEraseGap) ∧
      (BitVec.ofNat 32 length &&& tapLengthMask).toNat = length := by
  have hvalue : (BitVec.ofNat 32 length).toNat = length := by
    rw [BitVec.toNat_ofNat, Nat.mod_eq_of_lt (by omega)]
  have hne : ∀ code : BitVec 32, code.toNat ≠ length → BitVec.ofNat 32 length ≠ code := by
    rintro code hcode rfl
    exact hcode hvalue
  refine ⟨⟨hne _ (by show 0 ≠ length; omega), hne _ (by show 0xFFFFFFFF ≠ length; omega),
    hne _ (by show 0xFFFFFFFE ≠ length; omega)⟩, ?_⟩
  rw [BitVec.toNat_and, hvalue]
  show length &&& 2 ^ 31 - 1 = length
  rw [Nat.and_two_pow_sub_one_eq_mod, Nat.mod_eq_of_lt hshort]

theorem unitsOf_spec {media : TapeMedia} {record : TapeRecord}
    (hshort : record.kind = .data → record.length < 2 ^ 31) :
    encodeRecord media record = (unitsOf media record).flatMap TapUnit.encode ∧
      (∀ u ∈ unitsOf media record, u.Valid) ∧
      (unitsOf media record).filterMap TapUnit.item = reloaded (media.item record) := by
  unfold encodeRecord unitsOf TapeMedia.item
  cases hkind : record.kind with
  | filemark =>
    refine ⟨(List.append_nil _).symm, fun u hu => ?_, rfl⟩
    rw [List.mem_singleton.mp hu]
    trivial
  | data =>
    have hlength := hshort hkind
    have hbytes : (media.bytes record.offset record.length).length = record.length := length_bytes ..
    dsimp only
    by_cases hzero : record.length = 0
    · rw [if_pos hzero, hzero]
      refine ⟨rfl, fun u hu => ?_, rfl⟩
      obtain rfl | hu := List.mem_cons.mp hu
      · trivial
      · rw [List.mem_singleton.mp hu]
        trivial
    · obtain ⟨hcodes, hvalue⟩ := header_length (Nat.pos_of_ne_zero hzero) hlength
      have hsome : media.bytes record.offset record.length ≠ [] := by
        intro hnil
        rw [hnil] at hbytes
        exact hzero hbytes.symm
      rw [if_neg hzero]
      refine ⟨(List.append_nil _).symm, fun u hu => ?_, ?_⟩
      · rw [List.mem_singleton.mp hu]
        refine ⟨hcodes, ?_, ?_⟩
        · rw [hbytes, hvalue]
        · rw [List.length_replicate, hbytes]
      · rw [reloaded, if_neg hsome]
        rfl

theorem encodeMedia_units {media : TapeMedia} (hshort : Short media.items) :
    ∃ units : List TapUnit, encodeMedia media = units.flatMap TapUnit.encode ++ putLe32 tapEom ∧
      (∀ u ∈ units, u.Valid) ∧ units.filterMap TapUnit.item = media.items.flatMap reloaded := by
  have hrecord : ∀ record ∈ media.record, record.kind = .data → record.length < 2 ^ 31 := by
    intro record hmem hkind
    have hblock : TapeItem.block (media.bytes record.offset record.length) ∈ media.items := by
      refine List.mem_map.mpr ⟨record, hmem, ?_⟩
      rw [TapeMedia.item, hkind]
    have hlength := hshort _ hblock
    rwa [length_bytes] at hlength
  refine ⟨media.record.flatMap (unitsOf media), ?_, ?_, ?_⟩
  · rw [encodeMedia, List.flatMap_assoc]
    refine congrArg (· ++ putLe32 tapEom) (List.flatMap_congr fun record hmem => ?_)
    exact (unitsOf_spec (hrecord record hmem)).1
  · intro u hu
    obtain ⟨record, hmem, hu⟩ := List.mem_flatMap.mp hu
    exact (unitsOf_spec (hrecord record hmem)).2.1 u hu
  · rw [List.filterMap_flatMap, TapeMedia.items, List.flatMap_map]
    exact List.flatMap_congr fun record hmem => (unitsOf_spec (hrecord record hmem)).2.2

theorem length_units (units : List TapUnit) :
    4 * units.length ≤ (units.flatMap TapUnit.encode).length := by
  induction units with
  | nil => exact Nat.le_refl _
  | cons u units ih =>
    have hunit : 4 ≤ u.encode.length := by
      cases u <;> simp only [TapUnit.encode, List.length_append, length_putLe32] <;> omega
    rw [List.flatMap_cons, List.length_append, List.length_cons]
    omega

/-- The storage has room for these items. -/
def HasRoom (target : TapeMedia) (items : List TapeItem) : Prop :=
  items.length ≤ target.capacity ∧ (items.flatMap itemBytes).length ≤ target.dataBytes

theorem tapLoad_encodeMedia {media target : TapeMedia} (hshort : Short media.items)
    (hroom : HasRoom target (media.items.flatMap reloaded)) :
    ∃ after, tapLoad target (encodeMedia media) = some (true, after) ∧
      after.items = media.items.flatMap reloaded := by
  obtain ⟨units, hencode, hvalid, hitems⟩ := encodeMedia_units hshort
  have hlength := length_units units
  rw [hencode, ← hitems]
  rw [← hitems] at hroom
  refine loadLoop_encode hvalid (.inr ⟨[], (List.append_nil _).symm⟩) ?_ (filed_fresh target) ⟨?_, ?_⟩
  · rw [List.length_append]
    omega
  · simpa using hroom.1
  · simpa using hroom.2

theorem reloaded_full {items : List TapeItem} (hfull : NoneEmpty items) :
    items.flatMap reloaded = items.map fun item => if item.isMark then .mark false else item := by
  induction items with
  | nil => rfl
  | cons item items ih =>
    rw [List.flatMap_cons, List.map_cons, ih fun bytes hbytes => hfull bytes (.tail _ hbytes)]
    cases item with
    | mark shortMark => rfl
    | block bytes =>
      rw [reloaded, if_neg (hfull bytes (.head _))]
      rfl

theorem noneEmpty_driven {media : TapeMedia} (h : Made media) (habsent : drive.present = false)
    (hfull : NoneEmpty media.items) (events : List Event) :
    NoneEmpty ((drive.insert media).2.run events).media.items := by
  intro bytes hbytes
  obtain hbefore | hwritable := writable_run (sound_insert habsent h.sound.1) events hbytes
  · refine hfull bytes ?_
    rw [Exb8200.insert, if_neg (by rw [habsent]; decide)] at hbefore
    exact hbefore
  · exact List.ne_nil_of_length_pos (hwritable bytes rfl).1

/-- What a refused image leaves: the records read before the refusal, in the storage as it was. -/
structure Partly (image : List (BitVec 8)) (media after : TapeMedia) : Prop where
  filed : Filed after
  read : ∃ (units : List TapUnit) (rest : List (BitVec 8)), (∀ u ∈ units, u.Valid) ∧
    image = units.flatMap TapUnit.encode ++ rest ∧ after.items = units.filterMap TapUnit.item
  storage : SameStorage 0 media after

/-- THE CONTAINER. A medium of the loader or the drive is saved in exactly the bytes announced, into any
image with room for them, and those bytes are loaded, into any storage with room for them, as the same
records and data with every filemark a long one, and with two filemarks for a block of no bytes, of
which the drive writes none. Every image has a result within its bounds and those of the medium; one
that is accepted is made of records between two equal headers, and any leaves the storage as it was but
for the records it read. -/
theorem container :
    (∀ media, Made media →
      (∀ image, tapSize media ≤ image.length → tapSave media image =
        some (tapSize media, encodeMedia media ++ image.drop (tapSize media))) ∧
      (encodeMedia media).length = tapSize media ∧
      (∀ target, HasRoom target (media.items.flatMap reloaded) →
        ∃ after, tapLoad target (encodeMedia media) = some (true, after) ∧
          after.items = media.items.flatMap reloaded) ∧
      (NoneEmpty media.items → media.items.flatMap reloaded =
        media.items.map fun item => if item.isMark then .mark false else item) ∧
      ∀ (drive : Exb8200) (events : List Event), drive.present = false → NoneEmpty media.items →
        NoneEmpty ((drive.insert media).2.run events).media.items) ∧
    (∀ media image, ∃ accepted after, tapLoad media image = some (accepted, after) ∧
      Partly image media after ∧ (accepted = true → IsImage image after.items)) := by
  refine ⟨fun media hmade => ?_, fun media image => ?_⟩
  · obtain ⟨hsound, hshort⟩ := hmade.sound
    have hinside : Inside media := by
      intro record hmem hkind
      have hextent : (record.offset, record.length) ∈ extents media.record := by
        refine List.mem_filterMap.mpr ⟨record, hmem, ?_⟩
        rw [TapeRecord.extent, hkind]
      exact (inside_of_sound hsound).2 _ hextent
    exact ⟨fun image => tapSave_eq hinside, length_encodeMedia media,
      fun target => tapLoad_encodeMedia hshort, reloaded_full,
      fun drive events habsent hfull => noneEmpty_driven hmade habsent hfull events⟩
  · obtain ⟨accepted, after, hload, hends⟩ := tapLoad_spec media image
    obtain ⟨units, rest, hvalid, himage, haccepted, hitems⟩ := hends.units
    have hitems' : after.items = units.filterMap TapUnit.item := hitems
    refine ⟨accepted, after, hload, ⟨hends.filed, ⟨units, rest, hvalid, himage, hitems'⟩, ?_⟩, ?_⟩
    · have hstorage := hends.storage
      exact ⟨hstorage.capacity, hstorage.dataBytes, hstorage.writable, hstorage.mediumType,
        hstorage.blocksToLeot, hstorage.outside⟩
    · intro htrue
      exact ⟨units, rest, hvalid, himage, haccepted htrue, hitems'.symm⟩

/-- Storage for 16 records and 64 kB. -/
def storage : TapeMedia := cartridge []

/-- A record of three bytes, a filemark and an erase gap: the image of the first two. -/
def threeBytes : List (BitVec 8) :=
  [3, 0, 0, 0, 0xAA, 0xBB, 0xCC, 0, 3, 0, 0, 0, 0, 0, 0, 0, 0xFE, 0xFF, 0xFF, 0xFF]

theorem tapLoad_threeBytes : ∃ media, tapLoad storage threeBytes = some (true, media) ∧
    media.items = [.block [0xAA, 0xBB, 0xCC], .mark false] ∧ tapSize media = 20 := by
  have hread : (tapLoad storage threeBytes).map (fun result =>
      (result.1, result.2.items, tapSize result.2)) =
        some (true, [.block [0xAA, 0xBB, 0xCC], .mark false], 20) := by decide +kernel
  obtain ⟨⟨accepted, media⟩, hload, heq⟩ := Option.map_eq_some_iff.mp hread
  obtain ⟨haccepted, heq⟩ := Prod.mk.inj heq
  obtain ⟨hitems, hsize⟩ := Prod.mk.inj heq
  exact ⟨media, by rw [hload, show accepted = true from haccepted], hitems, hsize⟩

/-- The medium of that image is saved in twenty bytes and loaded again, and an image that ends inside
a record is refused. -/
theorem container_storage :
    (∃ media, tapLoad storage threeBytes = some (true, media) ∧ Made media ∧
      tapSave media (List.replicate 20 0) = some (20, encodeMedia media) ∧
      ∃ after, tapLoad storage (encodeMedia media) = some (true, after) ∧
        after.items = [.block [0xAA, 0xBB, 0xCC], .mark false]) ∧
    ∃ accepted after, tapLoad storage (threeBytes.take 8) = some (accepted, after) ∧
      Partly (threeBytes.take 8) storage after := by
  obtain ⟨media, hload, hitems, hsize⟩ := tapLoad_threeBytes
  have hmade : Made media := .loaded (by decide) hload
  obtain ⟨hsave, -, hback, hfull, -⟩ := container.1 media hmade
  have hnone : NoneEmpty media.items := by
    rw [hitems]
    intro bytes hbytes
    obtain hblock | hmark := List.mem_cons.mp hbytes
    · injection hblock with hblock
      rw [hblock]
      decide
    · cases List.mem_singleton.mp hmark
  have hsame : media.items.flatMap reloaded = [.block [0xAA, 0xBB, 0xCC], .mark false] := by
    rw [hfull hnone, hitems]
    rfl
  obtain ⟨after, hagain, hafter⟩ := hback storage (by
    rw [hsame]
    exact ⟨by decide, by decide⟩)
  refine ⟨⟨media, hload, hmade, ?_, after, hagain, hafter.trans hsame⟩, ?_⟩
  · rw [hsave (List.replicate 20 0) (by rw [hsize]; decide), hsize]
    exact congrArg (fun image => some (20, image)) (List.append_nil _)
  · obtain ⟨accepted, after, hresult, hpartly, -⟩ := container.2 storage (threeBytes.take 8)
    exact ⟨accepted, after, hresult, hpartly⟩

/-- A record of no bytes comes back as two filemarks, and a refused image takes the records of the
medium with it. -/
theorem not_kept :
    (∃ media after, Made media ∧ media.items = [.block []] ∧
      tapLoad storage (encodeMedia media) = some (true, after) ∧
      after.items = [.mark false, .mark false]) ∧
    ∃ media after, Made media ∧ media.items = [.mark false] ∧
      tapLoad media [1, 0, 0, 0] = some (false, after) ∧ after.items = [] := by
  have hread : ∀ image items, (tapLoad storage image).map (fun result => (result.1, result.2.items)) =
      some (true, items) → ∃ media, tapLoad storage image = some (true, media) ∧
        media.items = items := by
    intro image items h
    obtain ⟨⟨accepted, media⟩, hresult, heq⟩ := Option.map_eq_some_iff.mp h
    obtain ⟨haccepted, hitems⟩ := Prod.mk.inj heq
    refine ⟨media, ?_, hitems⟩
    rw [hresult, show accepted = true from haccepted]
  refine ⟨?_, ?_⟩
  · obtain ⟨media, hload, hitems⟩ := hread [0, 0, 0, 0x80, 0, 0, 0, 0x80] [.block []] (by decide +kernel)
    have hmade : Made media := .loaded (by decide) hload
    obtain ⟨after, hback, hafter⟩ := @tapLoad_encodeMedia media storage hmade.sound.2 (by
      rw [hitems]
      exact ⟨by decide, by decide⟩)
    refine ⟨media, after, hmade, hitems, hback, ?_⟩
    rw [hafter, hitems]
    rfl
  · obtain ⟨media, hload, hitems⟩ := hread [0, 0, 0, 0] [.mark false] (by decide +kernel)
    exact ⟨media, _, .loaded (by decide) hload, hitems, rfl, rfl⟩

end Apollo.Image
