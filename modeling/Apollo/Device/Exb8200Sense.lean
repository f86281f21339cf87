import Mathlib
import Apollo.Device.Exb8200

/-!
# Sense data

What a request for the sense data finds after a command that was refused. Every failure builds the
sense data of its own condition, so it finds that condition's key; a unit attention is announced with
the sense data that is there, which is its own unless a command was refused since. And what MODE
SELECT leaves of the mode parameters when it is refused: it stores as it checks. THE ERRORS ARE
REPORTED TRUTHFULLY AND CHANGE NOTHING exactly but for these two.
-/

namespace Apollo.Device.Exb8200

/-! ## The sense key -/

/-- The sense key of some sense data. -/
def senseKey (sense : List (BitVec 8)) : BitVec 8 := sense.getD 2 0 &&& 0x0F

/-- An answer is good, or it reports the condition whose key is in the sense data. -/
def Reported (answer : Exb8200 × ScsiResult) : Prop :=
  answer.2.status = .good ∨
    answer.2.status = .checkCondition ∧ answer.2.condition = some (senseKey answer.1.sense)

variable {drive : Exb8200} {command : ScsiCommand} {result : ScsiResult}

theorem reported_fail {key flags asc : BitVec 8} {information : Option (BitVec 32)}
    (hkey : (flags ||| key &&& 0x0F) &&& 0x0F = key) :
    Reported (drive.fail result ⟨key, flags, information, asc⟩) :=
  .inr ⟨rfl, congrArg some hkey.symm⟩

theorem reported_illegal : Reported (drive.illegal result) := reported_fail (by decide)

theorem reported_notReady : Reported (drive.notReady result) := reported_fail (by decide)

/-! ## Every command reports its condition -/

theorem reported_readBlocks (hgood : result.status = .good) (asked : Nat) (sili : Bool) (left : Nat) :
    ∀ (drive : Exb8200) (moved : List (BitVec 8)),
      Reported (readBlocks command result asked sili left drive moved) := by
  induction left with
  | zero => exact fun _ _ => .inl hgood
  | succ left ih =>
    intro drive moved
    unfold readBlocks
    dsimp only
    split
    · exact reported_fail (by decide)
    · split
      · refine reported_fail ?_
        split <;> decide
      · split
        · exact reported_fail (by decide)
        · split
          · exact ih _ _
          · split
            · exact .inl hgood
            · exact reported_fail (by decide)

theorem reported_cmdRead (hgood : result.status = .good) :
    Reported (drive.cmdRead command result) := by
  unfold cmdRead
  dsimp only
  split_ifs
  · exact reported_notReady
  · exact reported_illegal
  · exact reported_illegal
  · exact .inl hgood
  all_goals exact reported_readBlocks (by exact hgood) ..

theorem reported_writeBlocks (hgood : result.status = .good) (block left : Nat) :
    ∀ (drive : Exb8200) (address : BitVec 32) (moved : Nat),
      Reported (writeBlocks command result block left drive address moved) := by
  induction left with
  | zero => exact fun _ _ _ => .inl hgood
  | succ left ih =>
    intro drive address moved
    unfold writeBlocks
    split
    · exact reported_fail (by decide)
    · exact ih _ _ _

theorem reported_cmdWrite (hgood : result.status = .good) :
    Reported (drive.cmdWrite command result) := by
  unfold cmdWrite
  dsimp only
  generalize (if (command.byte 1).getLsbD 0 then drive.mode.blockLength.toNat else _) = block
  generalize (if (command.byte 1).getLsbD 0 then _ else 1) = blocks
  split
  · exact reported_notReady
  split
  · exact reported_fail (by decide)
  split
  · exact reported_illegal
  split
  · exact .inl hgood
  split
  · exact reported_illegal
  split
  · exact reported_illegal
  · exact reported_writeBlocks (by exact hgood) ..

theorem reported_writeMarks (hgood : result.status = .good) (shortMark : Bool) (left : Nat) :
    ∀ drive : Exb8200, Reported (writeMarks result shortMark left drive) := by
  induction left with
  | zero => exact fun _ => .inl hgood
  | succ left ih =>
    intro drive
    unfold writeMarks
    split
    · exact reported_fail (by decide)
    · exact ih _

theorem reported_cmdWriteFilemarks (hgood : result.status = .good) :
    Reported (drive.cmdWriteFilemarks command result) := by
  unfold cmdWriteFilemarks
  dsimp only
  split
  · exact reported_notReady
  split
  · exact reported_fail (by decide)
  split
  · exact .inl hgood
  split
  · exact reported_illegal
  · exact reported_writeMarks (by exact hgood) ..

theorem reported_spaceForward (hgood : result.status = .good) (filemarks : Bool)
    (ahead : List TapeRecord) :
    ∀ (left : Nat) (drive : Exb8200), Reported (spaceForward result filemarks ahead left drive) := by
  induction ahead with
  | nil =>
    intro left drive
    cases left with
    | zero => exact .inl hgood
    | succ left =>
      unfold spaceForward
      dsimp only
      split <;> exact reported_fail (by decide)
  | cons record ahead ih =>
    intro left drive
    cases left with
    | zero => exact .inl hgood
    | succ left =>
      unfold spaceForward
      dsimp only
      split
      · exact ih _ _
      · exact reported_fail (by decide)
      · exact ih _ _
      · exact ih _ _

theorem reported_spaceBackward (hgood : result.status = .good) (filemarks : Bool) (index : Nat) :
    ∀ (left : Nat) (drive : Exb8200),
      Reported (spaceBackward result filemarks index left drive) := by
  induction index with
  | zero =>
    intro left drive
    cases left with
    | zero => exact .inl hgood
    | succ left =>
      unfold spaceBackward
      exact reported_fail (by decide)
  | succ index ih =>
    intro left drive
    cases left with
    | zero => exact .inl hgood
    | succ left =>
      unfold spaceBackward
      dsimp only
      split
      · exact ih _ _
      · exact reported_fail (by decide)
      · exact ih _ _
      · exact ih _ _

theorem reported_cmdSpace (hgood : result.status = .good) :
    Reported (drive.cmdSpace command result) := by
  unfold cmdSpace
  dsimp only
  split
  · exact reported_notReady
  split
  · exact reported_illegal
  split
  · exact .inl hgood
  split
  · exact reported_spaceForward (by exact hgood) ..
  · exact reported_spaceBackward (by exact hgood) ..

theorem reported_cmdErase (hgood : result.status = .good) :
    Reported (drive.cmdErase command result) := by
  unfold cmdErase
  split_ifs
  · exact reported_notReady
  · exact reported_fail (by decide)
  · exact .inl hgood
  · exact reported_illegal
  · exact .inl hgood

theorem reported_cmdSendDiagnostic (hgood : result.status = .good) :
    Reported (drive.cmdSendDiagnostic command result) := by
  unfold cmdSendDiagnostic
  dsimp only
  split
  · exact reported_illegal
  split
  · exact reported_illegal
  split
  · exact reported_illegal
  split
  · exact reported_fail (by decide)
  · exact .inl hgood

theorem reported_cmdLoadUnload (hgood : result.status = .good) :
    Reported (drive.cmdLoadUnload command result) := by
  unfold cmdLoadUnload
  split_ifs
  · exact reported_notReady
  · exact .inl hgood
  · exact .inl hgood

theorem reported_cmdModeSelect (hgood : result.status = .good) :
    Reported (drive.cmdModeSelect command result) := by
  unfold cmdModeSelect
  dsimp only
  split
  · exact reported_illegal
  split
  · exact .inl hgood
  split
  · exact .inl hgood
  split
  · exact reported_illegal
  split
  · exact reported_illegal
  split
  · exact reported_illegal
  split <;> exact .inl hgood

/-- EVERY COMMAND REPORTS ITS CONDITION. -/
theorem reported_dispatch (hgood : result.status = .good) :
    Reported (drive.dispatch command result) := by
  unfold dispatch
  split
  · unfold cmdTestUnitReady
    split
    · exact reported_notReady
    · exact .inl hgood
  · unfold cmdRewind
    split
    · exact reported_notReady
    · exact .inl hgood
  · unfold cmdRequestSense
    dsimp only
    generalize min (if command.byte 4 = 0 then 4 else _) 26 = want
    split <;> exact .inl hgood
  · exact .inl hgood
  · exact reported_cmdRead hgood
  · exact reported_cmdWrite hgood
  · exact reported_cmdWriteFilemarks hgood
  · exact reported_cmdSpace hgood
  · exact .inl hgood
  · exact reported_cmdModeSelect hgood
  · exact .inl hgood
  · exact .inl hgood
  · exact reported_cmdErase hgood
  · exact .inl hgood
  · exact reported_cmdLoadUnload hgood
  · exact .inl hgood
  · exact reported_cmdSendDiagnostic hgood
  · exact .inl hgood
  · exact .inl hgood

/-! ## A request for the sense data -/

/-- A command that the drive takes up: a descriptor block of a known command, without an error of
those common to all commands. -/
def TakesUp (command : ScsiCommand) : Prop :=
  6 ≤ command.cdb.length ∧ commonError command = false ∧ supported command.opcode = true

/-- A request for sense data that has room for the sense key. -/
def RequestsSense (command : ScsiCommand) : Prop :=
  TakesUp command ∧ command.opcode = 0x03 ∧
    (command.byte 4 = 0 ∨ 3 ≤ (command.byte 4).toNat) ∧ 3 ≤ command.capacity ∧
      command.memory.isSome = true

/-- A pending unit attention is announced with sense data that is not its own. -/
def StaleAttention (drive : Exb8200) (command : ScsiCommand) : Prop :=
  TakesUp command ∧ exempt command = false ∧ drive.unitAttention = true ∧
    senseKey drive.sense ≠ keyUnitAttention

theorem getD_take {bytes : List (BitVec 8)} {n i : Nat} (h : i < n) :
    (bytes.take n).getD i 0 = bytes.getD i 0 := by
  rw [List.getD_eq_getElem?_getD, List.getD_eq_getElem?_getD, List.getElem?_take_of_lt h]

/-- A REQUEST FOR THE SENSE DATA IS ANSWERED with the key that is latched. -/
theorem execute_requestSense {request : ScsiCommand} (hrequest : RequestsSense request) :
    ∃ after answer, drive.execute request = some (after, answer) ∧ answer.status = .good ∧
      senseKey answer.moved = senseKey drive.sense := by
  obtain ⟨⟨hlength, hcommon, hsupported⟩, hopcode, hallocated, hcapacity, hmemory⟩ := hrequest
  obtain ⟨memory, hmemory⟩ := Option.isSome_iff_exists.mp hmemory
  have hexempt : exempt request = true := by
    rw [exempt, hopcode]
    decide
  have hdispatch : drive.dispatch request .start = drive.cmdRequestSense request .start := by
    rw [dispatch, hopcode]
    rfl
  have hexecute : drive.execute request = some (drive.cmdRequestSense request .start) := by
    rw [execute, if_neg (by omega), hcommon, hsupported, if_neg (by decide), if_pos hexempt,
      hdispatch]
  have hroom : 2 < min (if request.byte 4 = 0 then 4 else (request.byte 4).toNat) 26 := by
    obtain hzero | hthree := hallocated
    · rw [if_pos hzero]
      decide
    · split <;> omega
  refine ⟨(drive.cmdRequestSense request .start).1, (drive.cmdRequestSense request .start).2,
    hexecute, ?_⟩
  unfold cmdRequestSense
  dsimp only
  generalize min (if request.byte 4 = 0 then 4 else _) 26 = want at hroom
  have hmoved : senseKey (request.dataIn .start (drive.sense.take want)).moved =
      senseKey drive.sense := by
    rw [senseKey, senseKey, ScsiCommand.dataIn, ScsiCommand.give, hmemory]
    dsimp only
    rw [getD_take (by omega), getD_take hroom]
  split <;> exact ⟨rfl, hmoved⟩

theorem execute_condition {after : Exb8200} {answer : ScsiResult}
    (hexecute : drive.execute command = some (after, answer))
    (hcheck : answer.status = .checkCondition) :
    ∃ key, answer.condition = some key ∧
      (senseKey after.sense = key ↔ ¬ StaleAttention drive command) := by
  have hreported : ∀ answer : Exb8200 × ScsiResult, Reported answer →
      answer.2.status = .checkCondition → answer.2.condition = some (senseKey answer.1.sense) := by
    rintro answer (hgood | ⟨-, hcondition⟩) hcheck
    · exact nomatch hgood.symm.trans hcheck
    · exact hcondition
  unfold execute at hexecute
  split at hexecute
  case isTrue => exact nomatch hexecute
  case isFalse hlength =>
    split at hexecute
    case isTrue hrefused =>
      obtain ⟨rfl, rfl⟩ := Prod.mk.inj (Option.some.inj hexecute)
      refine ⟨_, hreported _ reported_illegal hcheck, iff_of_true rfl ?_⟩
      rintro ⟨⟨-, hcommon, hsupported⟩, -⟩
      rw [hcommon, hsupported] at hrefused
      exact absurd hrefused (by decide)
    case isFalse htaken =>
      split at hexecute
      case isTrue hexempt =>
        have hanswer : drive.dispatch command .start = (after, answer) := Option.some.inj hexecute
        refine ⟨senseKey after.sense, ?_, iff_of_true rfl ?_⟩
        · have h := hreported _ (reported_dispatch rfl) (by rw [hanswer]; exact hcheck)
          rwa [hanswer] at h
        · rintro ⟨-, hnot, -⟩
          exact nomatch hexempt.symm.trans hnot
      case isFalse hexempt =>
        split at hexecute
        case isTrue hattention =>
          obtain ⟨rfl, rfl⟩ := Prod.mk.inj (Option.some.inj hexecute)
          refine ⟨keyUnitAttention, rfl, ?_⟩
          have htakes : TakesUp command := by
            refine ⟨by omega, ?_⟩
            simpa using htaken
          constructor
          · rintro hkey ⟨-, -, -, hstale⟩
            exact hstale hkey
          · intro hfresh
            by_contra hstale
            exact hfresh ⟨htakes, Bool.eq_false_iff.mpr hexempt, hattention, hstale⟩
        case isFalse hattention =>
          have hanswer : settle (drive.dispatch command .start) = (after, answer) :=
            Option.some.inj hexecute
          have hunsettled : drive.dispatch command .start = (after, answer) := by
            unfold settle at hanswer
            split at hanswer
            case isTrue hgood =>
              obtain ⟨-, rfl⟩ := Prod.mk.inj hanswer
              exact nomatch hgood.symm.trans hcheck
            case isFalse => exact hanswer
          refine ⟨senseKey after.sense, ?_, iff_of_true rfl ?_⟩
          · have h := hreported _ (reported_dispatch rfl) (by rw [hunsettled]; exact hcheck)
            rwa [hunsettled] at h
          · rintro ⟨-, -, hpending, -⟩
            exact hattention hpending

/-! ## MODE SELECT -/

/-- A parameter list has before its thresholds what the parameters are already. -/
def ListsSame (mode : ModeParameters) (list : Nat → BitVec 8) (length : Nat) : Prop :=
  (list 3 = 8 → mode.blockLength = list 9 ++ list 10 ++ list 11) ∧
    mode.buffered = decide ((list 2 &&& 0x70) >>> 4 = 1) ∧
    (1 ≤ length - vendorAt list → mode.vendorFlags = list (vendorAt list)) ∧
    (2 ≤ length - vendorAt list → mode.p5 = (list (vendorAt list + 1)).getLsbD 0)

/-- A threshold is refused, and the list has something else before it. -/
def PartlyStored (mode : ModeParameters) (list : Nat → BitVec 8) (length : Nat) : Prop :=
  let vendor := length - vendorAt list
  let motion := list (vendorAt list + 2)
  headerRefused list = false ∧ 3 ≤ vendor ∧
    (outOfRange motion = true ∧ ¬ ListsSame mode list length ∨
      outOfRange motion = false ∧ 4 ≤ vendor ∧ outOfRange (list (vendorAt list + 3)) = true ∧
        ¬ (ListsSame mode list length ∧ mode.motionThreshold = motion))

/-- The command is a MODE SELECT with a parameter list that is stored in part. -/
def StoresPart (drive : Exb8200) (command : ScsiCommand) : Prop :=
  TakesUp command ∧ drive.unitAttention = false ∧
    (4 ≤ (command.byte 4).toNat ∧ (command.byte 4).toNat ≤ 9 ∨
      0x0C ≤ (command.byte 4).toNat ∧ (command.byte 4).toNat ≤ 0x11) ∧
    ∃ read, command.memory = some read ∧
      PartlyStored drive.mode (parameterList command read) (command.byte 4).toNat

theorem storedBefore_eq_iff {mode : ModeParameters} {list : Nat → BitVec 8} {length : Nat} :
    storedBefore mode list length = mode ↔ ListsSame mode list length := by
  unfold storedBefore ListsSame
  obtain ⟨buffered, blockLength, vendorFlags, p5, motion, reconnect, gap⟩ := mode
  dsimp only
  by_cases hblock : list 3 = 8 <;> by_cases hflags : 1 ≤ length - vendorAt list <;>
    by_cases hp5 : 2 ≤ length - vendorAt list <;>
    simp only [hblock, hflags, hp5, if_true, if_false, ModeParameters.mk.injEq, true_and, and_true,
      forall_true_left, false_imp_iff] <;>
    grind

theorem storedMotion_eq_iff {mode : ModeParameters} {list : Nat → BitVec 8} {length : Nat} :
    { storedBefore mode list length with motionThreshold := list (vendorAt list + 2) } = mode ↔
      ListsSame mode list length ∧ mode.motionThreshold = list (vendorAt list + 2) := by
  have hmotion : (storedBefore mode list length).motionThreshold = mode.motionThreshold := by
    unfold storedBefore
    dsimp only
    split_ifs <;> rfl
  rw [← storedBefore_eq_iff]
  constructor
  · intro h
    have hthreshold : list (vendorAt list + 2) = mode.motionThreshold :=
      congrArg ModeParameters.motionThreshold h
    refine ⟨?_, hthreshold.symm⟩
    rw [hthreshold, ← hmotion] at h
    exact h
  · rintro ⟨hsame, hthreshold⟩
    rw [hsame, ← hthreshold]

/-- What a MODE SELECT that is refused leaves of the parameters. -/
theorem cmdModeSelect_mode (hgood : result.status = .good)
    (hcheck : (drive.cmdModeSelect command result).2.status = .checkCondition) :
    (drive.cmdModeSelect command result).1.mode = drive.mode ↔
      ¬ ((4 ≤ (command.byte 4).toNat ∧ (command.byte 4).toNat ≤ 9 ∨
          0x0C ≤ (command.byte 4).toNat ∧ (command.byte 4).toNat ≤ 0x11) ∧
        ∃ read, command.memory = some read ∧
          PartlyStored drive.mode (parameterList command read) (command.byte 4).toNat) := by
  unfold cmdModeSelect at hcheck ⊢
  dsimp only at hcheck ⊢
  by_cases hlegal : (command.byte 4).toNat = 0 ∨
      4 ≤ (command.byte 4).toNat ∧ (command.byte 4).toNat ≤ 9 ∨
      0x0C ≤ (command.byte 4).toNat ∧ (command.byte 4).toNat ≤ 0x11
  case neg =>
    rw [if_pos hlegal]
    refine iff_of_true rfl ?_
    rintro ⟨hlength, -⟩
    exact hlegal (.inr hlength)
  case pos =>
    rw [if_neg (not_not.mpr hlegal)] at hcheck ⊢
    cases hmemory : command.memory with
    | none =>
      rw [hmemory] at hcheck
      exact nomatch hgood.symm.trans hcheck
    | some read =>
      rw [hmemory] at hcheck
      dsimp only at hcheck ⊢
      by_cases hzero : (command.byte 4).toNat = 0
      · rw [if_pos hzero] at hcheck
        exact nomatch hgood.symm.trans hcheck
      rw [if_neg hzero] at hcheck ⊢
      have hlength := hlegal.resolve_left hzero
      have hread : ∀ part : Prop, (part ↔ PartlyStored drive.mode (parameterList command read)
          (command.byte 4).toNat) → (¬ part ↔ ¬ ((4 ≤ (command.byte 4).toNat ∧
            (command.byte 4).toNat ≤ 9 ∨ 0x0C ≤ (command.byte 4).toNat ∧
              (command.byte 4).toNat ≤ 0x11) ∧ ∃ read', some read = some read' ∧
          PartlyStored drive.mode (parameterList command read') (command.byte 4).toNat)) := by
        intro part hpart
        rw [hpart]
        refine not_congr ⟨fun h => ⟨hlength, read, rfl, h⟩, ?_⟩
        rintro ⟨-, read', hsame, h⟩
        rw [Option.some.inj hsame]
        exact h
      generalize (command.byte 4).toNat = length at *
      generalize parameterList command read = list at *
      have hstored := @storedBefore_eq_iff drive.mode list length
      have hmotion := @storedMotion_eq_iff drive.mode list length
      by_cases hheader : headerRefused list = true
      · rw [if_pos hheader]
        refine (not_not.symm.trans (hread (drive.mode ≠ drive.mode) ?_))
        refine iff_of_false (fun h => h rfl) ?_
        rintro ⟨hnot, -⟩
        exact nomatch hheader.symm.trans hnot
      rw [if_neg hheader] at hcheck ⊢
      by_cases hthird : 3 ≤ length - vendorAt list ∧ outOfRange (list (vendorAt list + 2)) = true
      · rw [if_pos hthird]
        refine not_not.symm.trans (hread (storedBefore drive.mode list length ≠ drive.mode) ?_)
        rw [Ne, hstored]
        constructor
        · intro hdiffers
          exact ⟨Bool.eq_false_iff.mpr hheader, hthird.1, .inl ⟨hthird.2, hdiffers⟩⟩
        · rintro ⟨-, -, ⟨-, hdiffers⟩ | ⟨hrange, -⟩⟩
          · exact hdiffers
          · exact nomatch hthird.2.symm.trans hrange
      rw [if_neg hthird] at hcheck ⊢
      by_cases hfourth : 4 ≤ length - vendorAt list ∧ outOfRange (list (vendorAt list + 3)) = true
      · have hthree : 3 ≤ length - vendorAt list := by omega
        have hrange : outOfRange (list (vendorAt list + 2)) = false :=
          Bool.eq_false_iff.mpr fun h => hthird ⟨hthree, h⟩
        rw [if_pos hfourth, if_pos hthree]
        refine not_not.symm.trans (hread ({ storedBefore drive.mode list length with
          motionThreshold := list (vendorAt list + 2) } ≠ drive.mode) ?_)
        rw [Ne, hmotion]
        constructor
        · intro hdiffers
          exact ⟨Bool.eq_false_iff.mpr hheader, hthree, .inr ⟨hrange, hfourth.1, hfourth.2, hdiffers⟩⟩
        · rintro ⟨-, -, ⟨hrefused, -⟩ | ⟨-, -, -, hdiffers⟩⟩
          · exact nomatch hrefused.symm.trans hrange
          · exact hdiffers
      · rw [if_neg hfourth] at hcheck
        split at hcheck <;> exact nomatch hgood.symm.trans hcheck

/-- MODE SELECT, when it ends in a check condition, leaves the parameters as they were but for a list
that is stored in part. -/
theorem execute_mode {after : Exb8200} {answer : ScsiResult}
    (hexecute : drive.execute command = some (after, answer)) (hopcode : command.opcode = 0x15)
    (hcheck : answer.status = .checkCondition) :
    after.mode = drive.mode ↔ ¬ StoresPart drive command := by
  have hexempt : exempt command = false := by
    rw [exempt, hopcode]
    decide
  have hdispatch : drive.dispatch command .start = drive.cmdModeSelect command .start := by
    rw [dispatch, hopcode]
    rfl
  unfold execute at hexecute
  split at hexecute
  case isTrue => exact nomatch hexecute
  case isFalse hlength =>
    split at hexecute
    case isTrue hrefused =>
      obtain ⟨rfl, rfl⟩ := Prod.mk.inj (Option.some.inj hexecute)
      refine iff_of_true rfl ?_
      rintro ⟨⟨-, hcommon, hsupported⟩, -⟩
      rw [hcommon, hsupported] at hrefused
      exact absurd hrefused (by decide)
    case isFalse htaken =>
      have htakes : TakesUp command := ⟨by omega, by simpa using htaken⟩
      rw [if_neg (by rw [hexempt]; decide)] at hexecute
      split at hexecute
      case isTrue hattention =>
        obtain ⟨rfl, rfl⟩ := Prod.mk.inj (Option.some.inj hexecute)
        refine iff_of_true rfl ?_
        rintro ⟨-, hnone, -⟩
        exact nomatch hattention.symm.trans hnone
      case isFalse hattention =>
        have hunsettled : drive.cmdModeSelect command .start = (after, answer) := by
          rw [hdispatch] at hexecute
          have hanswer := Option.some.inj hexecute
          unfold settle at hanswer
          split at hanswer
          case isTrue hgood =>
            obtain ⟨-, rfl⟩ := Prod.mk.inj hanswer
            exact nomatch hgood.symm.trans hcheck
          case isFalse => exact hanswer
        have hmode := @cmdModeSelect_mode drive command .start rfl (by rw [hunsettled]; exact hcheck)
        rw [hunsettled] at hmode
        rw [hmode]
        refine not_congr ⟨fun h => ⟨htakes, Bool.eq_false_iff.mpr hattention, h⟩, fun h => h.2.2⟩

/-- ERRORS ARE REPORTED TRUTHFULLY AND CHANGE NOTHING ELSE. After a command that ends in a check
condition, a request for sense data is answered with the key of that condition, exactly when it is no
stale attention; and a MODE SELECT that ends so leaves the mode parameters as they were, exactly when
its list is not stored in part. -/
theorem errors_iff (drive : Exb8200) (command : ScsiCommand) :
    ((∀ after answer, drive.execute command = some (after, answer) →
        answer.status = .checkCondition →
          ∃ key, answer.condition = some key ∧ ∀ request, RequestsSense request →
            ∃ final sense, after.execute request = some (final, sense) ∧ sense.status = .good ∧
              senseKey sense.moved = key) ↔ ¬ StaleAttention drive command) ∧
    (∀ after answer, drive.execute command = some (after, answer) →
      answer.status = .checkCondition → command.opcode = 0x15 →
        (after.mode = drive.mode ↔ ¬ StoresPart drive command)) := by
  refine ⟨⟨?_, ?_⟩, ?_⟩
  · intro hall hstale
    obtain ⟨⟨hlength, hcommon, hsupported⟩, hexempt, hattention, hkey⟩ := hstale
    have hexecute : drive.execute command = some ({ drive with unitAttention := false },
        { ScsiResult.start with
          status := .checkCondition, condition := some keyUnitAttention }) := by
      rw [execute, if_neg (by omega), hcommon, hsupported, if_neg (by decide),
        if_neg (by rw [hexempt]; decide), if_pos hattention]
    obtain ⟨key, hcondition, hrequest⟩ := hall _ _ hexecute rfl
    let request : ScsiCommand := ⟨0, [0x03, 0, 0, 0, 0, 0], some fun _ => 0, 0, 4⟩
    have hrequests : RequestsSense request :=
      ⟨⟨by decide, by decide, by decide⟩, by decide, .inl (by decide), by decide, rfl⟩
    obtain ⟨final, sense, hfinal, -, hanswered⟩ := hrequest request hrequests
    obtain ⟨final', sense', hfinal', -, hlatched⟩ :=
      @execute_requestSense { drive with unitAttention := false } request hrequests
    obtain ⟨-, rfl⟩ := Prod.mk.inj (Option.some.inj (hfinal.symm.trans hfinal'))
    rw [hanswered] at hlatched
    exact hkey (hlatched.symm.trans (Option.some.inj hcondition).symm)
  · intro hfresh after answer hexecute hcheck
    obtain ⟨key, hcondition, hkey⟩ := execute_condition hexecute hcheck
    refine ⟨key, hcondition, fun request hrequest => ?_⟩
    obtain ⟨final, sense, hfinal, hgood, hlatched⟩ := @execute_requestSense after request hrequest
    exact ⟨final, sense, hfinal, hgood, hlatched.trans (hkey.mpr hfresh)⟩
  · intro after answer hexecute hcheck hopcode
    exact execute_mode hexecute hopcode hcheck

/-- After power on a command with an unknown code is refused, then the unit attention is announced:
the sense key is that of the refusal. And a MODE SELECT whose motion threshold is refused has changed
the block length. -/
theorem errors_untruthful :
    let unknown : ScsiCommand := ⟨0, [0x02, 0, 0, 0, 0, 0], none, 0, 0⟩
    let ready : ScsiCommand := ⟨0, [0x00, 0, 0, 0, 0, 0], none, 0, 0⟩
    let request : ScsiCommand := ⟨0, [0x03, 0, 0, 0, 26, 0], some fun _ => 0, 0, 26⟩
    let list : List (BitVec 8) := [0, 0, 0x10, 8, 0, 0, 0, 0, 0, 0, 2, 0, 0, 0, 0]
    let select : ScsiCommand :=
      ⟨0, [0x15, 0, 0, 0, 15, 0], some fun address => list.getD address.toNat 0, 0, 15⟩
    ((powerOn.execute unknown).bind fun refused => (refused.1.execute ready).bind fun attended =>
      (attended.1.execute request).map fun sensed =>
        (attended.2.status, attended.2.condition, senseKey sensed.2.moved)) =
      some (.checkCondition, some keyUnitAttention, keyIllegalRequest) ∧
    ((cleared noMedia).execute select).map (fun selected =>
        (selected.2.status, (cleared noMedia).mode.blockLength, selected.1.mode.blockLength)) =
      some (.checkCondition, 1024, 512) := by
  decide +kernel

end Apollo.Device.Exb8200
