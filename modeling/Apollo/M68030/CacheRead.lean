import Apollo.M68030.Bus
import Apollo.M68030.Cache

/-!
# Reading through a cache

`ap_m68030_cache_read`. The callbacks of the C code are parameters over a state `τ`, which
stands for its `context`.

Three conditions are decided in three places: that a burst is requested, that the memory
acknowledges it, and that it runs to its end before the sixty-four clocks of patience are
over (`bursts_iff`). The long word taken from the answer depends on the third and the address
asked for on the first.
-/

namespace Apollo.M68030

/-- `ap_m68030_rmc_t`. -/
inductive RmcPhase
  | none
  | firstRead
  | locked
deriving DecidableEq

/-- `ap_m68030_fill_answer_t`. -/
structure FillAnswer where
  termination : Term := .none
  burstAcknowledge : Bool := false
  data : Vector (BitVec 32) burstBeatsMax := .replicate burstBeatsMax 0
deriving DecidableEq

/-- `ap_m68030_cache_access_t`. -/
structure CacheAccess where
  hit : Bool := false
  value : BitVec 32 := 0
  clocks : BitVec 32 := 0
  burst : Bool := false
  longWords : Nat := 0
  busError : Bool := false
deriving DecidableEq

/-- `ap_m68030_cache_request_t`. -/
structure CacheRequest (τ : Type) where
  address : BitVec 32
  physical : BitVec 32
  functionCode : BitVec 8
  cacheEnabled : Bool
  burstEnable : Bool
  frozen : Bool
  readModifyWrite : Bool
  fill : τ → BitVec 32 → BitVec 8 → FillAnswer → FillAnswer × τ
  waitStates : Option (τ → BitVec 32 → Bool → BitVec 32 × τ)
  busAcquire : Option (τ → RmcPhase → BitVec 32 × τ)
  busClock : Option (τ → RmcPhase → τ)
  rmcPhase : RmcPhase

variable {τ : Type}

/-- The loop that runs a bus cycle: the device answers after its wait states, and a device
that never does is given up after sixty-four clocks. -/
def runCycle (waits : BitVec 32) (term : Term) (clock : τ → τ) (bus : Bus) (clocks : BitVec 32)
    (t : τ) : Bus × BitVec 32 × τ :=
  if !bus.active then (bus, clocks, t)
  else
    let bus := (bus.terminate (if waits ≤ bus.waitStates then term else .none)).tick.2
    let t := clock t
    if 64 < clocks + 1 then (bus, clocks + 1, t)
    else runCycle waits term clock bus (clocks + 1) t
termination_by (65 - clocks).toNat
decreasing_by
  have hmore : ¬ 64 < clocks + 1 := by assumption
  bv_omega

namespace CacheRequest

/-- The cache line is asked for as a whole. -/
def bursts (request : CacheRequest τ) (cache : Cache) : Bool :=
  request.cacheEnabled && cache.burstRequest request.address request.functionCode
    request.burstEnable request.cacheEnabled request.frozen request.readModifyWrite

/-- `physical_cycle`. -/
def physicalCycle (request : CacheRequest τ) (cache : Cache) : BitVec 32 :=
  if request.bursts cache then request.physical &&& ~~~0xF else request.physical &&& ~~~3

/-- What the memory answers, before it has taken its wait states. -/
def answer (request : CacheRequest τ) (cache : Cache) (t : τ) : FillAnswer × τ :=
  request.fill t (request.physicalCycle cache) request.functionCode { termination := .sterm }

/-- The wait states of the device that answers. -/
def waits (request : CacheRequest τ) (physicalCycle : BitVec 32) (answer : FillAnswer) (t : τ) :
    BitVec 32 × τ :=
  match request.waitStates with
  | some waitStates =>
    if answer.termination ≠ .berr then waitStates t physicalCycle true else (0, t)
  | none => (0, t)

/-- The clocks until the bus is the processor's. -/
def acquire (request : CacheRequest τ) (t : τ) : BitVec 32 × τ :=
  match request.busAcquire with
  | some busAcquire => busAcquire t request.rmcPhase
  | none => (0, t)

/-- The rest of the machine, for one clock. -/
def clock (request : CacheRequest τ) (t : τ) : τ :=
  match request.busClock with
  | some busClock => busClock t request.rmcPhase
  | none => t

end CacheRequest

/-- The bus as a read cycle starts on it. -/
def readBus (bus : Bus) (readModifyWrite burst : Bool) (physicalCycle : BitVec 32)
    (functionCode : BitVec 8) (answer : FillAnswer) : Bus :=
  let bus := { bus with rmc := readModifyWrite }
  let bus := bus.begin physicalCycle functionCode .long true true
  if burst then bus.requestBurst.acknowledgeBurst answer.burstAcknowledge else bus

/-- `ap_m68030_cache_read`. -/
def cacheRead (cache : Cache) (bus : Bus) (request : CacheRequest τ) (t : τ) :
    CacheAccess × Cache × Bus × τ :=
  let hit :=
    if request.cacheEnabled && !request.readModifyWrite then
      cache.lookup request.address request.functionCode
    else none
  match hit with
  | some value => ({ hit := true, value }, cache, bus, t)
  | none =>
    let burst := request.bursts cache
    let physicalCycle := request.physicalCycle cache
    let (answer, t) := request.answer cache t
    let bus := readBus bus request.readModifyWrite burst physicalCycle request.functionCode answer
    let (waits, t) := request.waits physicalCycle answer t
    let (acquired, t) := request.acquire t
    let (bus, clocks, t) := runCycle waits answer.termination request.clock bus acquired t
    let burst := decide (burstBeatsMax ≤ bus.burstBeats)
    if answer.termination = .berr then
      ({ clocks, burst, busError := true }, cache, bus, t)
    else
      let value :=
        if burst then answer.data.get (cacheEntryIndex request.address) else answer.data.get 0
      let result : CacheAccess :=
        { value, clocks, burst, longWords := if burst then burstBeatsMax else 1 }
      if !request.cacheEnabled || request.frozen then (result, cache, bus, t)
      else if burst then
        (result,
          cache.fillLine (request.address &&& ~~~0xF) request.functionCode answer.data, bus, t)
      else
        (result, cache.fillEntry request.address request.functionCode (answer.data.get 0), bus, t)

/-! ## How long a burst takes -/

/-- The clocks that are left of a burst that was asked for and granted, by a device with so
many wait states. -/
def BurstLeft (waits : BitVec 32) (bus : Bus) : Nat → Prop
  | 0 => bus.active = false ∧ bus.burstBeats = burstBeatsMax
  | n + 1 =>
    bus.active = true ∧ bus.advancingToS4 = false ∧
      ((bus.state = .idle ∧ bus.bursting = false ∧ bus.burstBeats = 0 ∧
          (bus.cbreq && bus.cback) = true ∧ bus.waitStates = 0 ∧ n + 1 = waits.toNat + 5) ∨
        (bus.state ≠ .idle ∧ bus.bursting = false ∧ bus.burstBeats = 0 ∧
          (bus.cbreq && bus.cback) = true ∧ bus.waitStates ≤ waits ∧
          n + 1 + bus.waitStates.toNat = waits.toNat + 4) ∨
        (bus.state ≠ .idle ∧ bus.bursting = true ∧ bus.waitStates = waits ∧ n < 3 ∧
          n + 1 + bus.burstBeats = burstBeatsMax))

theorem BurstLeft.complete_iff {waits : BitVec 32} {bus : Bus} {n : Nat}
    (h : BurstLeft waits bus n) : burstBeatsMax ≤ bus.burstBeats ↔ n = 0 := by
  cases n with
  | zero => exact ⟨fun _ => rfl, fun _ => h.2.ge⟩
  | succ n =>
    obtain ⟨-, -, ⟨-, -, hbeats, -⟩ | ⟨-, -, hbeats, -⟩ | ⟨-, -, -, -, hbeats⟩⟩ := h
    · simp [hbeats]
    · simp [hbeats]
    · constructor
      · intro hle
        omega
      · nofun

theorem BurstLeft.tick {waits : BitVec 32} {bus : Bus} {n : Nat} (h : BurstLeft waits bus (n + 1)) :
    BurstLeft waits (bus.terminate (if waits ≤ bus.waitStates then .sterm else .none)).tick.2 n := by
  obtain ⟨hactive, hadvancing, hphase⟩ := h
  have hterminate : ∀ term, bus.terminate term = { bus with termination := term } := by
    intro term
    rw [Bus.terminate, if_pos hactive]
  rw [hterminate]
  obtain ⟨hstate, hbursting, hbeats, hgranted, hwaits, hleft⟩ |
    ⟨hstate, hbursting, hbeats, hgranted, hwaits, hleft⟩ |
    ⟨hstate, hbursting, hwaits, hfew, hleft⟩ := hphase
  · -- S0 and S1: nothing is sampled yet
    have htick : ({ bus with
        termination := if waits ≤ bus.waitStates then .sterm else .none } : Bus).tick.2 =
        (({ bus with
          termination := if waits ≤ bus.waitStates then .sterm else .none
          clocks := bus.clocks + 1 } : Bus).enter .s0).enter .s1 := by
      simp [Bus.tick, hactive, hstate]
    obtain ⟨n, rfl⟩ : ∃ m, n = m + 1 := ⟨n - 1, by omega⟩
    rw [htick]
    refine ⟨by simpa using hactive, by simpa using hadvancing, .inr (.inl ?_)⟩
    simp only [Bus.enter_state, Bus.enter_bursting, Bus.enter_burstBeats, Bus.enter_cbreq,
      Bus.enter_cback, Bus.enter_waitStates]
    refine ⟨by decide, hbursting, hbeats, hgranted, ?_, ?_⟩
    · rw [hwaits]
      exact Nat.zero_le _
    · rw [hwaits]
      show n + 1 + 0 = _
      omega
  · have htick : ∀ term, ({ bus with termination := term } : Bus).tick.2 =
        ({ bus with termination := term, clocks := bus.clocks + 1 } : Bus).tickSample.2 := by
      intro term
      simp [Bus.tick, hactive, hstate, hadvancing, hbursting]
    rw [htick]
    by_cases hready : waits ≤ bus.waitStates
    · -- the device answers, and the burst begins
      have heq : bus.waitStates = waits := BitVec.le_antisymm hwaits hready
      obtain rfl : n = 3 := by
        rw [heq] at hleft
        omega
      rw [if_pos hready]
      have hsample : ({ bus with termination := .sterm, clocks := bus.clocks + 1 } :
          Bus).tickSample.2 =
          { (({ bus with termination := .sterm, clocks := bus.clocks + 1 } : Bus).enter .s2).enter
            .s3 with burstBeats := 1, bursting := true } := by
        simp [Bus.tickSample, hgranted]
      rw [hsample]
      refine ⟨by simpa using hactive, by simpa using hadvancing, .inr (.inr ?_)⟩
      simp [heq]
    · -- a wait state
      rw [if_neg hready]
      have hsample : ({ bus with termination := .none, clocks := bus.clocks + 1 } :
          Bus).tickSample.2 =
          ({ ({ bus with termination := .none, clocks := bus.clocks + 1 } : Bus).enter .s2 with
            waitStates := bus.waitStates + 1 } : Bus).enter .s3 := by
        simp [Bus.tickSample]
      have hlt : bus.waitStates < waits := BitVec.not_le.1 hready
      have hsucc : (bus.waitStates + 1).toNat = bus.waitStates.toNat + 1 := by bv_omega
      obtain ⟨n, rfl⟩ : ∃ m, n = m + 1 := ⟨n - 1, by bv_omega⟩
      rw [hsample]
      refine ⟨by simpa using hactive, by simpa using hadvancing, .inr (.inl ?_)⟩
      simp only [Bus.enter_state, Bus.enter_bursting, Bus.enter_burstBeats, Bus.enter_cbreq,
        Bus.enter_cback, Bus.enter_waitStates, hsucc]
      exact ⟨by decide, hbursting, hbeats, hgranted, by bv_omega, by omega⟩
  · have htick : ({ bus with
        termination := if waits ≤ bus.waitStates then .sterm else .none } : Bus).tick.2 =
        ({ bus with termination := .sterm, clocks := bus.clocks + 1 } : Bus).tickBurst.2 := by
      rw [if_pos (by rw [hwaits]; exact BitVec.le_refl _)]
      simp [Bus.tick, hactive, hstate, hadvancing, hbursting]
    rw [htick]
    unfold Bus.tickBurst
    rw [if_neg (show ¬ Term.sterm = .berr by decide), if_neg (not_not.2 rfl)]
    dsimp only
    have hmax : burstBeatsMax = 4 := rfl
    cases n with
    | zero =>
      rw [if_pos (show burstBeatsMax ≤ bus.burstBeats + 1 + 1 by omega), if_pos (by
        show burstBeatsMax ≤ bus.burstBeats + 1
        omega)]
      refine ⟨rfl, ?_⟩
      show bus.burstBeats + 1 = burstBeatsMax
      omega
    | succ n =>
      have hnot : ¬ burstBeatsMax ≤ bus.burstBeats + 1 := by omega
      split
      · refine ⟨hactive, hadvancing, .inr (.inr ⟨hstate, hbursting, hwaits, by omega, ?_⟩)⟩
        show n + 1 + (bus.burstBeats + 1) = burstBeatsMax
        omega
      · refine ⟨hactive, hadvancing, .inr (.inr ⟨hstate, hbursting, hwaits, by omega, ?_⟩)⟩
        show n + 1 + (bus.burstBeats + 1) = burstBeatsMax
        omega

theorem BurstLeft.run {waits : BitVec 32} {bus : Bus} {n : Nat} (clock : τ → τ) {clocks : BitVec 32}
    (t : τ) (h : BurstLeft waits bus n) (hclocks : clocks ≤ 64) :
    burstBeatsMax ≤ (runCycle waits .sterm clock bus clocks t).1.burstBeats ↔
      clocks.toNat + n ≤ 65 := by
  induction n generalizing bus clocks t with
  | zero =>
    rw [runCycle, h.1]
    have hle : clocks.toNat ≤ 64 := hclocks
    exact ⟨fun _ => by omega, fun _ => h.2.ge⟩
  | succ n ih =>
    rw [runCycle, h.1]
    have hle : clocks.toNat ≤ 64 := hclocks
    have hsucc : (clocks + 1).toNat = clocks.toNat + 1 := by bv_omega
    dsimp only
    rw [if_neg (by decide)]
    by_cases hover : 64 < clocks + 1
    · rw [if_pos hover, h.tick.complete_iff]
      have hlt : 64 < (clocks + 1).toNat := hover
      constructor <;> intro <;> omega
    · rw [if_neg hover, ih _ h.tick (BitVec.not_lt.1 hover), hsucc]
      constructor <;> intro <;> omega

/-- A burst that was granted is given up if the bus, the wait states and the four beats take
more than sixty-four clocks. Only the clocks of the bus can wrap around. -/
def withinPatience (acquired waits : BitVec 32) : Bool :=
  acquired.toNat + waits.toNat ≤ 60 || (acquired == 0xFFFFFFFF && waits.toNat ≤ 61)

theorem runCycle_burst {waits : BitVec 32} {bus : Bus} (clock : τ → τ) (acquired : BitVec 32)
    (t : τ) (h : BurstLeft waits bus (waits.toNat + 5)) :
    burstBeatsMax ≤ (runCycle waits .sterm clock bus acquired t).1.burstBeats ↔
      withinPatience acquired waits = true := by
  have hpatience : withinPatience acquired waits = true ↔ acquired.toNat + waits.toNat ≤ 60 ∨
      (acquired.toNat = 0xFFFFFFFF ∧ waits.toNat ≤ 61) := by
    rw [withinPatience, Bool.or_eq_true, Bool.and_eq_true, decide_eq_true_iff, decide_eq_true_iff,
      beq_iff_eq, ← BitVec.toNat_inj]
    rfl
  rw [hpatience]
  by_cases hle : acquired ≤ 64
  · rw [h.run clock t hle]
    have hnat : acquired.toNat ≤ 64 := hle
    constructor
    · intro h
      exact .inl (by omega)
    · rintro (h | h) <;> omega
  · have hnat : ¬ acquired.toNat ≤ 64 := hle
    rw [runCycle, h.1]
    dsimp only
    rw [if_neg (by decide)]
    by_cases hover : 64 < acquired + 1
    · have hlt : 64 < (acquired + 1).toNat := hover
      rw [if_pos hover, h.tick.complete_iff]
      refine iff_of_false (by omega) ?_
      bv_omega
    · have hwrap : acquired.toNat = 0xFFFFFFFF := by bv_omega
      have hzero : acquired + 1 = 0 := by bv_omega
      rw [if_neg hover, h.tick.run clock _ (BitVec.not_lt.1 hover), hzero]
      show 0 + _ ≤ _ ↔ _
      constructor
      · intro h
        exact .inr ⟨hwrap, by omega⟩
      · rintro (h | h) <;> omega

/-- No burst was asked for and granted on this cycle, nor can be. -/
def SingleTransfer (term : Term) (bus : Bus) : Prop :=
  bus.bursting = false ∧ bus.burstBeats = 0 ∧ (term = .sterm → (bus.cbreq && bus.cback) = false)

theorem SingleTransfer.congr {term : Term} {bus bus' : Bus} (h : SingleTransfer term bus)
    (hbursting : bus'.bursting = bus.bursting) (hbeats : bus'.burstBeats = bus.burstBeats)
    (hcbreq : bus'.cbreq = bus.cbreq) (hcback : bus'.cback = bus.cback) : SingleTransfer term bus' := by
  rw [SingleTransfer, hbursting, hbeats, hcbreq, hcback]
  exact h

theorem SingleTransfer.tick {term next : Term} {bus : Bus} (hnext : next = term ∨ next = .none)
    (hactive : bus.active = true) (h : SingleTransfer term bus) :
    SingleTransfer term (bus.terminate next).tick.2 := by
  rw [Bus.terminate, if_pos hactive]
  unfold Bus.tick
  rw [if_neg (by simp [hactive])]
  dsimp only
  split
  · exact h.congr (by simp) (by simp) (by simp) (by simp)
  · split
    · exact h.congr (by simp) (by simp) (by simp) (by simp)
    · rw [if_neg (by simp [h.1])]
      unfold Bus.tickSample
      dsimp only
      split
      · exact h.congr (by simp) (by simp) (by simp) (by simp)
      · next hanswered =>
        rw [Bus.enter_termination] at hanswered
        have hterm : next = term := hnext.resolve_right hanswered
        split
        · next hburst =>
          simp only [Bus.enter_termination, Bus.enter_cbreq, Bus.enter_cback, hterm,
            Bool.and_eq_true, decide_eq_true_iff] at hburst
          have hnone := h.2.2 hburst.1.1
          rw [hburst.1.2, hburst.2] at hnone
          cases hnone
        · split
          · exact h.congr (by simp) (by simp) (by simp) (by simp)
          · exact h.congr (by simp) (by simp) (by simp) (by simp)

theorem SingleTransfer.run {waits : BitVec 32} {term : Term} (clock : τ → τ) (bus : Bus)
    (clocks : BitVec 32) (t : τ) (h : SingleTransfer term bus) :
    (runCycle waits term clock bus clocks t).1.burstBeats = 0 := by
  have hnext : ∀ b : Bus, (if waits ≤ b.waitStates then term else .none) = term ∨
      (if waits ≤ b.waitStates then term else .none) = .none := by
    intro b
    split
    · exact .inl rfl
    · exact .inr rfl
  induction bus, clocks, t using runCycle.induct waits term clock with
  | case1 bus clocks t hidle =>
    rw [runCycle, if_pos hidle]
    exact h.2.1
  | case2 bus clocks t hactive hover =>
    rw [runCycle, if_neg hactive]
    dsimp only
    rw [if_pos hover]
    rw [Bool.not_eq_true', Bool.not_eq_false] at hactive
    exact (h.tick (hnext bus) hactive).2.1
  | case3 bus clocks t hactive next t' hover ih =>
    rw [runCycle, if_neg hactive]
    dsimp only
    rw [if_neg hover]
    rw [Bool.not_eq_true', Bool.not_eq_false] at hactive
    exact ih (h.tick (hnext bus) hactive)

namespace CacheRequest

theorem bursts_eq_true {request : CacheRequest τ} {cache : Cache}
    (h : request.bursts cache = true) :
    request.cacheEnabled = true ∧ request.frozen = false ∧ request.readModifyWrite = false := by
  rw [bursts, Bool.and_eq_true] at h
  obtain ⟨henabled, hrequest⟩ := h
  rw [Cache.burstRequest] at hrequest
  split at hrequest
  · cases hrequest
  · next hnone =>
    simp only [Bool.or_eq_true, Bool.not_eq_true', not_or, Bool.not_eq_true] at hnone
    exact ⟨henabled, hnone.1.2, hnone.2⟩

/-- WHICH READS ARE BURSTS IN THE END: those that asked for one, of a memory that granted it
and was in time. -/
theorem bursts_iff (request : CacheRequest τ) (cache : Cache) (bus : Bus) (cycle : BitVec 32)
    (answer : FillAnswer) (waits acquired : BitVec 32) (t : τ) :
    burstBeatsMax ≤ (runCycle waits answer.termination request.clock
        (readBus bus request.readModifyWrite (request.bursts cache) cycle request.functionCode
          answer) acquired t).1.burstBeats ↔
      request.bursts cache = true ∧ answer.burstAcknowledge = true ∧
        answer.termination = .sterm ∧ withinPatience acquired waits = true := by
  by_cases hgranted : request.bursts cache = true ∧ answer.burstAcknowledge = true ∧
      answer.termination = .sterm
  · obtain ⟨hburst, hack, hterm⟩ := hgranted
    obtain ⟨-, -, hrmw⟩ := bursts_eq_true hburst
    rw [hterm, hburst, hack, hrmw, runCycle_burst]
    · simp
    · refine ⟨rfl, rfl, .inl ⟨rfl, rfl, rfl, ?_, rfl, rfl⟩⟩
      rw [readBus, hack]
      rfl
  · have hsingle : SingleTransfer answer.termination (readBus bus request.readModifyWrite
        (request.bursts cache) cycle request.functionCode answer) := by
      unfold readBus
      cases hburst : request.bursts cache with
      | false => exact ⟨rfl, rfl, fun _ => rfl⟩
      | true =>
        rw [if_pos rfl, Bus.requestBurst,
          if_neg (by rw [Bool.not_eq_true]; exact (bursts_eq_true hburst).2.2)]
        refine ⟨rfl, rfl, fun hterm => ?_⟩
        show (true && answer.burstAcknowledge) = false
        rw [Bool.true_and, ← Bool.not_eq_true]
        exact fun hack => hgranted ⟨hburst, hack, hterm⟩
    rw [hsingle.run]
    refine iff_of_false (by decide) fun h => hgranted ⟨h.1, h.2.1, h.2.2.1⟩

end CacheRequest

end Apollo.M68030
