import Mathlib
import Apollo.Device.Exb8200TapeRun

/-!
# The tape container

`src/core/image/ap_tap.c`: a medium of the 8 mm drive as an image of records and filemarks, a record
between two copies of its length. Memory is checked: what reads past the image or the data area, or
writes past the image, the record table or the data area, has no result; and there is always one.
THE CONTAINER KEEPS THE TAPE, but for what the format has no room for: which of its filemarks were
short, and a record of no bytes, whose two lengths come back as two filemarks.
-/

namespace Apollo.Image

open Apollo.Device Apollo.Lib

/-! ## Bytes -/

/-- `AP_TAP_MARK`, `AP_TAP_EOM`, `AP_TAP_ERASE_GAP` and `AP_TAP_LENGTH_MASK`. -/
def tapMark : BitVec 32 := 0x00000000
def tapEom : BitVec 32 := 0xFFFFFFFF
def tapEraseGap : BitVec 32 := 0xFFFFFFFE
def tapLengthMask : BitVec 32 := 0x7FFFFFFF

/-- `le32`, of the bytes from a place on. -/
def le32 : List (BitVec 8) → Option (BitVec 32)
  | b0 :: b1 :: b2 :: b3 :: _ => some (b3 ++ b2 ++ b1 ++ b0)
  | _ => none

/-- `put_le32`: the bytes it puts. -/
def putLe32 (value : BitVec 32) : List (BitVec 8) :=
  [byteOf value 0, byteOf value 1, byteOf value 2, byteOf value 3]

/-- `padded`. -/
def padded (length : Nat) : Nat := length + length % 2

/-- The bytes that a `memcpy` reads, from a place on. -/
def readBytes (bytes : List (BitVec 8)) (length : Nat) : Option (List (BitVec 8)) :=
  if length ≤ bytes.length then some (bytes.take length) else none

/-! ## Loading -/

/-- An entry written behind the live ones of the record table. -/
def addRecord (media : TapeMedia) (record : TapeRecord) : Option TapeMedia :=
  if media.record.length < media.capacity then
    some { media with record := media.record ++ [record] }
  else none

/-- Bytes written behind the used ones of the data area. -/
def addData (media : TapeMedia) (bytes : List (BitVec 8)) : Option TapeMedia :=
  if media.dataUsed + bytes.length ≤ media.dataBytes then
    some { media with
      data := fun i =>
        if media.dataUsed ≤ i ∧ i < media.dataUsed + bytes.length then
          bytes.getD (i - media.dataUsed) 0
        else media.data i
      dataUsed := media.dataUsed + bytes.length }
  else none

/-- The loop of `ap_tap_load`, on the image from `at` on: whether it is a tape, and the medium. -/
def loadLoop : Nat → List (BitVec 8) → TapeMedia → Option (Bool × TapeMedia)
  | 0, _, _ => none
  | fuel + 1, image, media =>
    if image.length < 4 then some (true, media)
    else do
      let header ← le32 image
      let rest := image.drop 4
      if header = tapEom then some (true, media)
      else if header = tapEraseGap then loadLoop fuel rest media
      else if header = tapMark then
        if media.capacity ≤ media.record.length then some (false, media)
        else do
          let media ← addRecord media ⟨.filemark, 0, 0, false⟩
          loadLoop fuel rest media
      else
        let length := (header &&& tapLengthMask).toNat
        let body := padded length
        if rest.length < body + 4 then some (false, media)
        else do
          let trailer ← le32 (rest.drop body)
          if trailer ≠ header then some (false, media)
          else if media.capacity ≤ media.record.length ∨
              media.dataBytes < media.dataUsed + length then some (false, media)
          else do
            let media ← addRecord media ⟨.data, media.dataUsed, length, false⟩
            let bytes ← readBytes rest length
            let media ← addData media bytes
            loadLoop fuel (rest.drop (body + 4)) media

/-- `ap_tap_load`. A turn of the loop takes four bytes or more. -/
def tapLoad (media : TapeMedia) (image : List (BitVec 8)) : Option (Bool × TapeMedia) :=
  loadLoop (image.length / 4 + 1) image { media with record := [], dataUsed := 0 }

/-! ## Saving -/

/-- The bytes of a record in the image. -/
def recordSize (record : TapeRecord) : Nat :=
  match record.kind with
  | .filemark => 4
  | .data => 4 + padded record.length + 4

/-- `ap_tap_size`. -/
def tapSize (media : TapeMedia) : Nat := (media.record.map recordSize).sum + 4

/-- Bytes written into the image at a place, and the place behind them. -/
def put (out : List (BitVec 8) × Nat) (bytes : List (BitVec 8)) : Option (List (BitVec 8) × Nat) :=
  if out.2 + bytes.length ≤ out.1.length then
    some (out.1.take out.2 ++ bytes ++ out.1.drop (out.2 + bytes.length), out.2 + bytes.length)
  else none

/-- The bytes that a `memcpy` reads of the data area. -/
def readData (media : TapeMedia) (offset length : Nat) : Option (List (BitVec 8)) :=
  if offset + length ≤ media.dataBytes then some (media.bytes offset length) else none

/-- A turn of the loop of `ap_tap_save`. -/
def saveRecord (media : TapeMedia) (out : List (BitVec 8) × Nat) (record : TapeRecord) :
    Option (List (BitVec 8) × Nat) :=
  match record.kind with
  | .filemark => put out (putLe32 tapMark)
  | .data => do
    let out ← put out (putLe32 (BitVec.ofNat 32 record.length))
    let bytes ← readData media record.offset record.length
    let out ← put out bytes
    let out ← if record.length % 2 = 1 then put out [0] else some out
    put out (putLe32 (BitVec.ofNat 32 record.length))

/-- `ap_tap_save`: the number of bytes written, and the image. -/
def tapSave (media : TapeMedia) (image : List (BitVec 8)) : Option (Nat × List (BitVec 8)) :=
  if image.length < tapSize media then some (0, image)
  else do
    let out ← media.record.foldlM (saveRecord media) (image, 0)
    let out ← put out (putLe32 tapEom)
    some (out.2, out.1)

/-! ## The format -/

/-- What an image is made of: a filemark, an erase gap, or a record with its header and its padding. -/
inductive TapUnit
  | mark
  | gap
  | data (header : BitVec 32) (bytes pad : List (BitVec 8))

namespace TapUnit

/-- The bytes of it. -/
def encode : TapUnit → List (BitVec 8)
  | mark => putLe32 tapMark
  | gap => putLe32 tapEraseGap
  | data header bytes pad => putLe32 header ++ (bytes ++ (pad ++ putLe32 header))

/-- A record has a header that is none of the three codes and gives its length, and is padded to an
even number of bytes. -/
def Valid : TapUnit → Prop
  | mark => True
  | gap => True
  | data header bytes pad =>
    (header ≠ tapMark ∧ header ≠ tapEom ∧ header ≠ tapEraseGap) ∧
      bytes.length = (header &&& tapLengthMask).toNat ∧ pad.length = bytes.length % 2

/-- What it is on the tape: a filemark is a long one, and a gap is nothing. -/
def item : TapUnit → Option TapeItem
  | mark => some (.mark false)
  | gap => none
  | data _ bytes _ => some (.block bytes)

end TapUnit

/-- Where the tape ends: at the end of medium, or where there is no header left. -/
def Ends (rest : List (BitVec 8)) : Prop := rest.length < 4 ∨ ∃ more, rest = putLe32 tapEom ++ more

/-- **An image of these items**: units whose leading and trailing lengths agree, one behind the other
inside the image, and the end. -/
def IsImage (image : List (BitVec 8)) (items : List TapeItem) : Prop :=
  ∃ (units : List TapUnit) (rest : List (BitVec 8)), (∀ u ∈ units, u.Valid) ∧ image = units.flatMap TapUnit.encode ++ rest ∧
    Ends rest ∧ units.filterMap TapUnit.item = items

theorem length_putLe32 (value : BitVec 32) : (putLe32 value).length = 4 := rfl

theorem le32_putLe32 (value : BitVec 32) (rest : List (BitVec 8)) :
    le32 (putLe32 value ++ rest) = some value := by
  refine congrArg some (BitVec.eq_of_getLsbD_eq fun i hi => ?_)
  simp only [byteOf, BitVec.getLsbD_append, BitVec.getLsbD_extractLsb']
  split_ifs with h0 h1 h2
  · simp [h0]
  · rw [decide_eq_true h1, Bool.true_and]
    congr 1; omega
  · rw [decide_eq_true h2, Bool.true_and]
    congr 1; omega
  · rw [decide_eq_true (by omega), Bool.true_and]
    congr 1; omega

theorem putLe32_append (b0 b1 b2 b3 : BitVec 8) : putLe32 (b3 ++ b2 ++ b1 ++ b0) = [b0, b1, b2, b3] := by
  have hbyte : ∀ (b : BitVec 8) k, (∀ i < 8, (b3 ++ b2 ++ b1 ++ b0).getLsbD (8 * k + i) = b.getLsbD i) →
      byteOf (b3 ++ b2 ++ b1 ++ b0) k = b := by
    intro b k hbits
    refine BitVec.eq_of_getLsbD_eq fun i hi => ?_
    rw [byteOf, BitVec.getLsbD_extractLsb', decide_eq_true hi, Bool.true_and, hbits i hi]
  unfold putLe32
  rw [hbyte b0 0, hbyte b1 1, hbyte b2 2, hbyte b3 3] <;> intro i hi <;>
    simp only [BitVec.getLsbD_append] <;> split_ifs <;> first | omega | (congr 1; omega)

theorem le32_eq_some {image : List (BitVec 8)} {value : BitVec 32} (h : le32 image = some value) :
    image = putLe32 value ++ image.drop 4 := by
  match image, h with
  | b0 :: b1 :: b2 :: b3 :: rest, h =>
    obtain rfl := Option.some.inj h
    rw [putLe32_append]
    rfl

theorem le32_isSome {image : List (BitVec 8)} (h : 4 ≤ image.length) : ∃ value, le32 image = some value := by
  match image, h with
  | b0 :: b1 :: b2 :: b3 :: rest, _ => exact ⟨_, rfl⟩

theorem drop_putLe32 (value : BitVec 32) (rest : List (BitVec 8)) :
    (putLe32 value ++ rest).drop 4 = rest := rfl

/-! ## What a medium holds while it is loaded -/

/-- The records lie one behind the other in the data area, and there is room for them. -/
structure Filed (media : TapeMedia) : Prop where
  laid : Laid 0 (extents media.record) media.dataUsed
  used : media.dataUsed ≤ media.dataBytes
  room : media.record.length ≤ media.capacity

/-- Nothing is changed but the live records and the data area behind a place. -/
structure SameStorage (place : Nat) (media after : TapeMedia) : Prop where
  capacity : after.capacity = media.capacity
  dataBytes : after.dataBytes = media.dataBytes
  writable : after.writable = media.writable
  mediumType : after.mediumType = media.mediumType
  blocksToLeot : after.blocksToLeot = media.blocksToLeot
  outside : ∀ i, i < place ∨ after.dataUsed ≤ i → after.data i = media.data i

theorem addMark_spec {media : TapeMedia} (h : Filed media) (hroom : media.record.length < media.capacity) :
    ∃ after, addRecord media ⟨.filemark, 0, 0, false⟩ = some after ∧ Filed after ∧
      after.items = media.items ++ [.mark false] ∧ after.dataUsed = media.dataUsed ∧
      after.record.length = media.record.length + 1 ∧
      SameStorage media.dataUsed media after := by
  refine ⟨_, if_pos hroom, ⟨?_, h.used, ?_⟩, ?_, rfl, ?_, ⟨rfl, rfl, rfl, rfl, rfl, fun _ _ => rfl⟩⟩
  · show Laid 0 (extents (media.record ++ [_])) media.dataUsed
    have hnone : extents (media.record ++ [⟨.filemark, 0, 0, false⟩]) = extents media.record := by
      rw [extents, List.filterMap_append]
      exact List.append_nil _
    rw [hnone]
    exact h.laid
  · show (media.record ++ [_]).length ≤ media.capacity
    rw [List.length_append, List.length_singleton]
    exact hroom
  · show (media.record ++ [_]).map _ = _
    rw [List.map_append]
    rfl
  · exact List.length_append

theorem addBlock_spec {media : TapeMedia} (h : Filed media) {bytes : List (BitVec 8)}
    (hroom : media.record.length < media.capacity)
    (hfits : media.dataUsed + bytes.length ≤ media.dataBytes) :
    ∃ added after, addRecord media ⟨.data, media.dataUsed, bytes.length, false⟩ = some added ∧
      addData added bytes = some after ∧ Filed after ∧
      after.items = media.items ++ [.block bytes] ∧
      after.dataUsed = media.dataUsed + bytes.length ∧
      after.record.length = media.record.length + 1 ∧
      SameStorage media.dataUsed media after := by
  have hextents : extents (media.record ++ [⟨.data, media.dataUsed, bytes.length, false⟩]) =
      extents media.record ++ [(media.dataUsed, bytes.length)] := by
    rw [extents, List.filterMap_append]
    rfl
  refine ⟨_, _, if_pos hroom, if_pos hfits, ⟨?_, hfits, ?_⟩, ?_, rfl, ?_,
    ⟨rfl, rfl, rfl, rfl, rfl, ?_⟩⟩
  · show Laid 0 (extents (media.record ++ [_])) (media.dataUsed + bytes.length)
    rw [hextents]
    exact h.laid.concat bytes.length
  · show (media.record ++ [_]).length ≤ media.capacity
    rw [List.length_append, List.length_singleton]
    exact hroom
  · show (media.record ++ [_]).map _ = _
    rw [List.map_append, TapeMedia.map_item_congr h.laid]
    · refine congrArg _ (congrArg (fun block => [TapeItem.block block]) ?_)
      refine List.ext_getElem (by simp [TapeMedia.bytes]) fun i hi hi' => ?_
      simp [TapeMedia.bytes, hi']
    · intro i hi
      exact if_neg fun (hin : media.dataUsed ≤ i ∧ i < media.dataUsed + bytes.length) =>
        absurd hin.1 (by omega)
  · exact List.length_append
  · intro i hi
    refine if_neg fun hinside => ?_
    have hused : i < media.dataUsed ∨ media.dataUsed + bytes.length ≤ i := hi
    have hinside' : media.dataUsed ≤ i ∧ i < media.dataUsed + bytes.length := hinside
    omega

theorem SameStorage.trans {media middle after : TapeMedia}
    (h : SameStorage media.dataUsed media middle) (hused : media.dataUsed ≤ middle.dataUsed)
    (hafter : SameStorage middle.dataUsed middle after) (hused' : middle.dataUsed ≤ after.dataUsed) :
    SameStorage media.dataUsed media after where
  capacity := hafter.capacity.trans h.capacity
  dataBytes := hafter.dataBytes.trans h.dataBytes
  writable := hafter.writable.trans h.writable
  mediumType := hafter.mediumType.trans h.mediumType
  blocksToLeot := hafter.blocksToLeot.trans h.blocksToLeot
  outside := fun i hi => by
    rw [hafter.outside i (by omega), h.outside i (by omega)]

theorem SameStorage.refl (media : TapeMedia) : SameStorage media.dataUsed media media :=
  ⟨rfl, rfl, rfl, rfl, rfl, fun _ _ => rfl⟩

/-! ## Every image -/

/-- What a loop over the rest of an image ends with. -/
structure LoopEnds (image : List (BitVec 8)) (media : TapeMedia) (accepted : Bool)
    (after : TapeMedia) : Prop where
  filed : Filed after
  used : media.dataUsed ≤ after.dataUsed
  storage : SameStorage media.dataUsed media after
  units : ∃ (units : List TapUnit) (rest : List (BitVec 8)), (∀ u ∈ units, u.Valid) ∧
    image = units.flatMap TapUnit.encode ++ rest ∧ (accepted = true → Ends rest) ∧
    after.items = media.items ++ units.filterMap TapUnit.item

theorem LoopEnds.cons {u : TapUnit} {rest : List (BitVec 8)} {media middle after : TapeMedia}
    {accepted : Bool} (hvalid : u.Valid) (hitems : middle.items = media.items ++ u.item.toList)
    (hused : media.dataUsed ≤ middle.dataUsed) (hstorage : SameStorage media.dataUsed media middle)
    (h : LoopEnds rest middle accepted after) :
    LoopEnds (u.encode ++ rest) media accepted after := by
  obtain ⟨units, tail, hunits, hrest, hends, hafter⟩ := h.units
  refine ⟨h.filed, hused.trans h.used, hstorage.trans hused h.storage h.used, u :: units, tail, ?_, ?_,
    hends, ?_⟩
  · intro other hother
    obtain rfl | hother := List.mem_cons.mp hother
    · exact hvalid
    · exact hunits other hother
  · rw [hrest, List.flatMap_cons, List.append_assoc]
  · rw [hafter, hitems, List.append_assoc]
    cases hitem : u.item <;> simp [hitem]

theorem LoopEnds.here {image : List (BitVec 8)} {media : TapeMedia} {accepted : Bool}
    (hfiled : Filed media) (hends : accepted = true → Ends image) :
    LoopEnds image media accepted media :=
  ⟨hfiled, Nat.le_refl _, .refl media, [], image, fun _ h => absurd h List.not_mem_nil, rfl, hends,
    (List.append_nil _).symm⟩

/-- EVERY IMAGE IS READ INSIDE ITS BOUNDS, and the medium written inside its own: the loop always has a
result, and it holds the units read, which are all of the image when it is accepted. -/
theorem loadLoop_spec {fuel : Nat} {image : List (BitVec 8)} {media : TapeMedia}
    (hfuel : image.length < 4 * fuel) (hfiled : Filed media) :
    ∃ accepted after, loadLoop fuel image media = some (accepted, after) ∧
      LoopEnds image media accepted after := by
  induction fuel generalizing image media with
  | zero => omega
  | succ fuel ih =>
    rw [loadLoop]
    by_cases hshort : image.length < 4
    · rw [if_pos hshort]
      exact ⟨true, media, rfl, .here hfiled fun _ => .inl hshort⟩
    · rw [if_neg hshort]
      obtain ⟨header, hheader⟩ := le32_isSome (Nat.not_lt.mp hshort)
      have himage := le32_eq_some hheader
      rw [hheader]
      simp only [Option.bind_eq_bind, Option.bind_some]
      generalize hrest : image.drop 4 = rest at himage
      have hlength : rest.length = image.length - 4 := by rw [← hrest, List.length_drop]
      by_cases heom : header = tapEom
      · rw [if_pos heom]
        refine ⟨true, media, rfl, .here hfiled fun _ => .inr ⟨rest, ?_⟩⟩
        rw [himage, heom]
      rw [if_neg heom]
      by_cases hgap : header = tapEraseGap
      · rw [if_pos hgap]
        obtain ⟨accepted, after, hloop, hends⟩ := @ih rest media (by omega) hfiled
        refine ⟨accepted, after, hloop, ?_⟩
        rw [himage, hgap]
        exact hends.cons (u := .gap) trivial (List.append_nil _).symm (Nat.le_refl _) (.refl media)
      rw [if_neg hgap]
      by_cases hmark : header = tapMark
      · rw [if_pos hmark]
        by_cases hfull : media.capacity ≤ media.record.length
        · rw [if_pos hfull]
          exact ⟨false, media, rfl, .here hfiled (nomatch ·)⟩
        rw [if_neg hfull]
        obtain ⟨marked, hadd, hfiled', hitems, hused, -, hstorage⟩ :=
          addMark_spec hfiled (Nat.not_le.mp hfull)
        rw [hadd, Option.bind_some]
        obtain ⟨accepted, after, hloop, hends⟩ := @ih rest marked (by omega) hfiled'
        refine ⟨accepted, after, hloop, ?_⟩
        rw [himage, hmark]
        exact hends.cons (u := .mark) trivial hitems hused.ge hstorage
      rw [if_neg hmark]
      generalize hcount : (header &&& tapLengthMask).toNat = length
      by_cases hinside : rest.length < padded length + 4
      · rw [if_pos hinside]
        exact ⟨false, media, rfl, .here hfiled (nomatch ·)⟩
      rw [if_neg hinside]
      have hbody : padded length ≤ rest.length := by omega
      obtain ⟨trailer, htrailer⟩ :=
        le32_isSome (show 4 ≤ (rest.drop (padded length)).length by rw [List.length_drop]; omega)
      have hlast := le32_eq_some htrailer
      rw [htrailer, Option.bind_some]
      by_cases hmatch : trailer = header
      case neg =>
        rw [if_pos hmatch]
        exact ⟨false, media, rfl, .here hfiled (nomatch ·)⟩
      rw [if_neg (not_not.mpr hmatch)]
      by_cases hfits : media.capacity ≤ media.record.length ∨ media.dataBytes < media.dataUsed + length
      · rw [if_pos hfits]
        exact ⟨false, media, rfl, .here hfiled (nomatch ·)⟩
      rw [if_neg hfits]
      rw [not_or, Nat.not_le, Nat.not_lt] at hfits
      have hle : length ≤ rest.length := (Nat.le_add_right ..).trans hbody
      have htake : (rest.take length).length = length := List.length_take_of_le hle
      obtain ⟨added, stored, hadd, hstore, hfiled', hitems, hused, -, hstorage⟩ :=
        @addBlock_spec media hfiled (rest.take length) hfits.1 (by rw [htake]; exact hfits.2)
      rw [htake] at hadd
      rw [hadd, Option.bind_some, readBytes, if_pos hle, Option.bind_some, hstore, Option.bind_some]
      obtain ⟨accepted, after, hloop, hends⟩ := @ih (rest.drop (padded length + 4)) stored
        (by rw [List.length_drop]; omega) hfiled'
      refine ⟨accepted, after, hloop, ?_⟩
      have hpad : ((rest.drop length).take (length % 2)).length = length % 2 := by
        rw [List.length_take, List.length_drop]
        unfold padded at hbody
        omega
      have hunit : image = (TapUnit.data header (rest.take length)
          ((rest.drop length).take (length % 2))).encode ++ rest.drop (padded length + 4) := by
        rw [List.drop_drop, hmatch] at hlast
        rw [himage, TapUnit.encode, List.append_assoc, List.append_assoc, List.append_assoc, ← hlast,
          padded, ← List.drop_drop, List.take_append_drop, List.take_append_drop]
      rw [hunit]
      refine hends.cons ⟨⟨hmark, heom, hgap⟩, ?_, ?_⟩ hitems (hused ▸ Nat.le_add_right ..) hstorage
      · rw [htake, hcount]
      · rw [hpad, htake]

/-! ## Images that are tapes -/

/-- The bytes of a block. -/
def itemBytes : TapeItem → List (BitVec 8)
  | .block bytes => bytes
  | .mark _ => []

/-- The room that these items take behind the records of a medium. -/
structure Fits (media : TapeMedia) (items : List TapeItem) : Prop where
  records : media.record.length + items.length ≤ media.capacity
  data : media.dataUsed + (items.flatMap itemBytes).length ≤ media.dataBytes

theorem loadLoop_end {fuel : Nat} {image : List (BitVec 8)} (media : TapeMedia) (hends : Ends image)
    (hfuel : 0 < fuel) : loadLoop fuel image media = some (true, media) := by
  obtain ⟨fuel, rfl⟩ := Nat.exists_eq_succ_of_ne_zero hfuel.ne'
  rw [loadLoop]
  obtain hshort | ⟨more, rfl⟩ := hends
  · rw [if_pos hshort]
  · have hlong : ¬ (putLe32 tapEom ++ more).length < 4 := by
      rw [List.length_append, length_putLe32]
      omega
    rw [if_neg hlong, le32_putLe32]
    rfl

theorem loadLoop_data {fuel : Nat} {header : BitVec 32} {bytes pad more : List (BitVec 8)}
    {media added stored : TapeMedia} (hvalid : (TapUnit.data header bytes pad).Valid)
    (hroom : media.record.length < media.capacity)
    (hfits : media.dataUsed + bytes.length ≤ media.dataBytes)
    (hadd : addRecord media ⟨.data, media.dataUsed, bytes.length, false⟩ = some added)
    (hstore : addData added bytes = some stored) :
    loadLoop (fuel + 1) ((TapUnit.data header bytes pad).encode ++ more) media =
      loadLoop fuel more stored := by
  obtain ⟨⟨hmark, heom, hgap⟩, hlength, hpad⟩ := hvalid
  have hpadded : padded bytes.length = (bytes ++ pad).length := by
    rw [List.length_append, hpad, padded]
  have himage : (TapUnit.data header bytes pad).encode ++ more =
      putLe32 header ++ ((bytes ++ pad) ++ (putLe32 header ++ more)) := by
    simp only [TapUnit.encode, List.append_assoc]
  have hlong : ¬ (putLe32 header ++ ((bytes ++ pad) ++ (putLe32 header ++ more))).length < 4 := by
    rw [List.length_append, length_putLe32]
    omega
  have hinside : ¬ ((bytes ++ pad) ++ (putLe32 header ++ more)).length < padded bytes.length + 4 := by
    rw [hpadded, @List.length_append _ (bytes ++ pad), @List.length_append _ (putLe32 header),
      length_putLe32]
    omega
  have hread : readBytes ((bytes ++ pad) ++ (putLe32 header ++ more)) bytes.length = some bytes := by
    rw [readBytes, if_pos (by simp), List.append_assoc, List.take_left]
  rw [himage, loadLoop, if_neg hlong, le32_putLe32]
  simp only [Option.bind_eq_bind, Option.bind_some, drop_putLe32, ← hlength]
  rw [if_neg heom, if_neg hgap, if_neg hmark, if_neg hinside, hpadded, List.drop_left, le32_putLe32,
    Option.bind_some, if_neg (not_not.mpr rfl),
    if_neg (not_or.mpr ⟨Nat.not_le.mpr hroom, Nat.not_lt.mpr hfits⟩), hadd, Option.bind_some, hread,
    Option.bind_some, hstore, Option.bind_some, ← List.drop_drop, List.drop_left, drop_putLe32]

/-- UNITS WITH THEIR END ARE A TAPE, where there is room for it. -/
theorem loadLoop_encode {units : List TapUnit} {fuel : Nat} {rest : List (BitVec 8)}
    {media : TapeMedia} (hvalid : ∀ u ∈ units, u.Valid) (hends : Ends rest)
    (hfuel : units.length < fuel) (hfiled : Filed media)
    (hfits : Fits media (units.filterMap TapUnit.item)) :
    ∃ after, loadLoop fuel (units.flatMap TapUnit.encode ++ rest) media = some (true, after) ∧
      after.items = media.items ++ units.filterMap TapUnit.item := by
  induction units generalizing fuel media with
  | nil => exact ⟨media, loadLoop_end media hends hfuel, (List.append_nil _).symm⟩
  | cons u units ih =>
    obtain ⟨fuel, rfl⟩ := Nat.exists_eq_succ_of_ne_zero (Nat.ne_zero_of_lt hfuel)
    have hfuel' : units.length < fuel := Nat.lt_of_succ_lt_succ hfuel
    have hvalid' : ∀ u ∈ units, u.Valid := fun u hu => hvalid u (.tail _ hu)
    rw [List.flatMap_cons, List.append_assoc]
    cases u with
    | gap =>
      obtain ⟨after, hloop, hitems⟩ := ih hvalid' hfuel' hfiled hfits
      refine ⟨after, ?_, hitems⟩
      rw [← hloop, loadLoop, TapUnit.encode]
      generalize units.flatMap TapUnit.encode ++ rest = more
      have hlong : ¬ (putLe32 tapEraseGap ++ more).length < 4 := by
        rw [List.length_append, length_putLe32]
        omega
      rw [if_neg hlong, le32_putLe32]
      rfl
    | mark =>
      have hroom : media.record.length < media.capacity := by
        have hrecords := hfits.records
        simp only [List.filterMap_cons, TapUnit.item, List.length_cons] at hrecords
        omega
      obtain ⟨marked, hadd, hfiled', hitems, hused, hcount, hstorage⟩ := addMark_spec hfiled hroom
      obtain ⟨after, hloop, hafter⟩ := @ih fuel marked hvalid' hfuel' hfiled' (by
        have hrecords := hfits.records
        have hdata := hfits.data
        simp only [List.filterMap_cons, TapUnit.item, List.length_cons, List.flatMap_cons, itemBytes,
          List.nil_append] at hrecords hdata
        refine ⟨?_, ?_⟩
        · rw [hstorage.capacity, hcount]
          omega
        · rw [hstorage.dataBytes, hused]
          exact hdata)
      refine ⟨after, ?_, ?_⟩
      · rw [← hloop, loadLoop, TapUnit.encode]
        generalize units.flatMap TapUnit.encode ++ rest = more
        have hlong : ¬ (putLe32 tapMark ++ more).length < 4 := by
          rw [List.length_append, length_putLe32]
          omega
        rw [if_neg hlong, le32_putLe32]
        simp only [Option.bind_eq_bind, Option.bind_some, drop_putLe32]
        rw [if_neg (by decide), if_neg (by decide), if_pos trivial, if_neg (Nat.not_le.mpr hroom), hadd,
          Option.bind_some]
      · rw [hafter, hitems, List.append_assoc]
        rfl
    | data header bytes pad =>
      have hrecords := hfits.records
      have hdata := hfits.data
      simp only [List.filterMap_cons, TapUnit.item, List.length_cons, List.flatMap_cons, itemBytes,
        List.length_append] at hrecords hdata
      have hroom : media.record.length < media.capacity := by omega
      obtain ⟨added, stored, hadd, hstore, hfiled', hitems, hused, hcount, hstorage⟩ :=
        @addBlock_spec media hfiled bytes hroom (by omega)
      obtain ⟨after, hloop, hafter⟩ := @ih fuel stored hvalid' hfuel' hfiled' (by
        refine ⟨?_, ?_⟩
        · rw [hstorage.capacity, hcount]
          omega
        · rw [hstorage.dataBytes, hused]
          omega)
      refine ⟨after, ?_, ?_⟩
      · rw [← hloop]
        exact loadLoop_data (hvalid _ (.head _)) hroom (by omega) hadd hstore
      · rw [hafter, hitems, List.append_assoc]
        rfl

/-! ## What is saved -/

/-- A record in the image. -/
def encodeRecord (media : TapeMedia) (record : TapeRecord) : List (BitVec 8) :=
  match record.kind with
  | .filemark => putLe32 tapMark
  | .data => putLe32 (BitVec.ofNat 32 record.length) ++ (media.bytes record.offset record.length ++
      (List.replicate (record.length % 2) 0 ++ putLe32 (BitVec.ofNat 32 record.length)))

/-- The image of a medium. -/
def encodeMedia (media : TapeMedia) : List (BitVec 8) :=
  media.record.flatMap (encodeRecord media) ++ putLe32 tapEom

/-- An image whose first bytes are written. -/
def wrote (image bytes : List (BitVec 8)) : List (BitVec 8) × Nat :=
  (bytes ++ image.drop bytes.length, bytes.length)

theorem put_wrote {image bytes more : List (BitVec 8)} (h : bytes.length + more.length ≤ image.length) :
    put (wrote image bytes) more = some (wrote image (bytes ++ more)) := by
  have hinside : bytes.length + more.length ≤ (bytes ++ image.drop bytes.length).length := by
    rw [List.length_append, List.length_drop]
    omega
  rw [put, wrote, if_pos hinside, wrote]
  simp only [List.take_left, List.length_append, ← List.drop_drop, List.drop_left]

theorem length_encodeRecord (media : TapeMedia) (record : TapeRecord) :
    (encodeRecord media record).length = recordSize record := by
  unfold encodeRecord recordSize
  cases record.kind with
  | filemark => rfl
  | data =>
    simp only [List.length_append, length_putLe32, Exb8200.length_bytes, List.length_replicate, padded]
    omega

theorem length_encodeMedia (media : TapeMedia) : (encodeMedia media).length = tapSize media := by
  rw [encodeMedia, List.length_append, length_putLe32, tapSize, List.length_flatMap]
  simp only [length_encodeRecord]

/-- The records lie in the data area. -/
def Inside (media : TapeMedia) : Prop :=
  ∀ record ∈ media.record, record.kind = .data → record.offset + record.length ≤ media.dataBytes

theorem saveRecord_wrote {media : TapeMedia} {record : TapeRecord} {image bytes : List (BitVec 8)}
    (hinside : record.kind = .data → record.offset + record.length ≤ media.dataBytes)
    (hroom : bytes.length + recordSize record ≤ image.length) :
    saveRecord media (wrote image bytes) record =
      some (wrote image (bytes ++ encodeRecord media record)) := by
  unfold saveRecord encodeRecord
  unfold recordSize at hroom
  cases hkind : record.kind with
  | filemark =>
    rw [hkind] at hroom
    exact put_wrote hroom
  | data =>
    rw [hkind] at hroom
    simp only [padded] at hroom
    have hdata : (media.bytes record.offset record.length).length = record.length :=
      Exb8200.length_bytes ..
    dsimp only
    rw [put_wrote (by rw [length_putLe32]; omega)]
    simp only [Option.bind_eq_bind, Option.bind_some]
    rw [readData, if_pos (hinside hkind), Option.bind_some,
      put_wrote (by rw [List.length_append, length_putLe32, hdata]; omega), Option.bind_some]
    by_cases hodd : record.length % 2 = 1
    · rw [if_pos hodd, put_wrote (by
          simp only [List.length_append, length_putLe32, hdata, List.length_singleton]; omega),
        Option.bind_some, put_wrote (by
          simp only [List.length_append, length_putLe32, hdata, List.length_singleton]; omega), hodd]
      simp only [List.append_assoc]
      rfl
    · have heven : record.length % 2 = 0 := by omega
      rw [if_neg hodd, put_wrote (by
          simp only [List.length_append, length_putLe32, hdata]; omega), heven]
      simp only [List.append_assoc]
      rfl

theorem foldlM_saveRecord {media : TapeMedia} {records : List TapeRecord}
    {image bytes : List (BitVec 8)}
    (hinside : ∀ record ∈ records, record.kind = .data →
      record.offset + record.length ≤ media.dataBytes)
    (hroom : bytes.length + (records.map recordSize).sum ≤ image.length) :
    records.foldlM (saveRecord media) (wrote image bytes) =
      some (wrote image (bytes ++ records.flatMap (encodeRecord media))) := by
  induction records generalizing bytes with
  | nil => simp
  | cons record records ih =>
    rw [List.map_cons, List.sum_cons] at hroom
    rw [List.foldlM_cons, saveRecord_wrote (hinside record (.head _)) (by omega)]
    simp only [Option.bind_eq_bind, Option.bind_some]
    rw [ih (fun record hrecord => hinside record (.tail _ hrecord)) (by
      rw [List.length_append, length_encodeRecord]; omega), List.flatMap_cons, List.append_assoc]

/-- SAVING WRITES THE IMAGE and nothing behind it. -/
theorem tapSave_eq {media : TapeMedia} (hinside : Inside media) {image : List (BitVec 8)}
    (hroom : tapSize media ≤ image.length) :
    tapSave media image =
      some (tapSize media, encodeMedia media ++ image.drop (tapSize media)) := by
  have hstart : (image, 0) = wrote image [] := rfl
  rw [tapSave, if_neg (Nat.not_lt.mpr hroom), hstart, foldlM_saveRecord hinside (by
    unfold tapSize at hroom
    simp only [List.length_nil]
    omega)]
  simp only [Option.bind_eq_bind, Option.bind_some, List.nil_append]
  have hsize : (media.record.flatMap (encodeRecord media)).length + 4 = tapSize media := by
    rw [← length_encodeMedia, encodeMedia, List.length_append, length_putLe32]
  rw [put_wrote (by rw [length_putLe32, hsize]; exact hroom), Option.bind_some, ← encodeMedia, wrote,
    length_encodeMedia]

end Apollo.Image
