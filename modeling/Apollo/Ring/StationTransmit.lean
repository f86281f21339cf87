import Apollo.Ring.FrameCodec
import Apollo.Ring.Station

/-!
# Transmitting with a token

A station may put a frame on the ring only with a token it took for that frame. What
gates the frame bits in `ap_ring_station_drive` is the `stripping` flag, and only the
taking of a token sets it (`driveBit_of_not_drivesFrameBit`).

But the flag belongs to the token, not to the frame. A frame queued while the station
still strips its previous one finds the flag set, and goes out on the next bit time
without a token: `not_withToken_requeue` is that run. `watch_withToken` is what holds
of all the others: a host that waits for the stripping to end never sees it.
-/

namespace Apollo.Ring

open Apollo.Lib

namespace Station

/-- The calls a host and a medium make, with any received cell. -/
inductive Call
  | queueFrame (fields : FrameFields)
  | originateToken (symbol : Symbol)
  | drive
  | receive (cell : Cell)
deriving DecidableEq

/-- The station behind a call. -/
def call (s : Station) : Call → Station
  | .queueFrame fields => (s.queueFrame fields).2
  | .originateToken symbol => s.originateToken symbol
  | .drive => s.driveCell.2
  | .receive cell => s.receiveCell cell

/-- The tokens a station has taken: claimed off the ring, or forced. -/
def tokensTaken (s : Station) : Nat := s.claimsMade + s.forcedTokens

/-- The next drive puts a bit of the assembled frame on the line. -/
def drivesFrameBit (s : Station) : Bool :=
  match s.sourceBit with
  | (_, source, s) => s.stripping && source == .forwarded && s.hasFrameBit

/-! ## What the parts of a drive do -/

section Parts

variable (s : Station)

@[simp] theorem tx_countStripping : s.countStripping.tx = s.tx := by
  unfold countStripping
  dsimp only
  split <;> rfl

@[simp] theorem tokensTaken_countStripping : s.countStripping.tokensTaken = s.tokensTaken := by
  unfold countStripping tokensTaken
  dsimp only
  split <;> rfl

theorem stripping_of_countStripping (h : s.countStripping.stripping = true) :
    s.stripping = true := by
  unfold countStripping at h
  dsimp only at h
  split at h
  · cases h
  · exact h

@[simp] theorem tx_forceToken : s.forceToken.tx = s.tx := by
  unfold forceToken originateToken
  split <;> rfl

theorem forceToken_cases :
    s.forceToken.tokensTaken = s.tokensTaken + 1 ∨ s.forceToken = s := by
  unfold forceToken originateToken tokensTaken
  split
  · exact .inl rfl
  · exact .inr rfl

/-- A character's bit, the claim, or the bit received last: only the claim takes a
token, and it is the only one that starts stripping. -/
theorem sourceBit_cases :
    (s.sourceBit.2.1 ≠ .claimed ∧ s.sourceBit.2.2.tx = s.tx ∧
      s.sourceBit.2.2.tokensTaken = s.tokensTaken ∧ s.sourceBit.2.2.stripping = s.stripping) ∨
    (s.sourceBit.2.1 = .claimed ∧ s.sourceBit.2.2.tx = s.tx ∧
      s.sourceBit.2.2.tokensTaken = s.tokensTaken + 1) := by
  unfold sourceBit claim tokensTaken
  split
  · exact .inl ⟨Source.noConfusion, rfl, rfl, rfl⟩
  · split
    · split
      · exact .inr ⟨rfl, rfl, Nat.add_right_comm _ _ _⟩
      · exact .inl ⟨Source.noConfusion, rfl, rfl, rfl⟩
    · exact .inl ⟨Source.noConfusion, rfl, rfl, rfl⟩

theorem frameBit_eq : s.frameBit.1 = bitAt (s.tx.bits.getD []) s.tx.bitPos ∧
    s.frameBit.2.tx.bits = s.tx.bits ∧ s.frameBit.2.tx.bitPos = s.tx.bitPos + 1 ∧
    s.frameBit.2.tokensTaken = s.tokensTaken := by
  unfold frameBit originateToken tokensTaken
  dsimp only
  split <;> exact ⟨rfl, rfl, rfl, rfl⟩

end Parts

/-- A drive that puts a frame bit on the line: the station is stripping, a frame is
armed, and the bit is the next of the assembled buffer. No token is taken. -/
theorem driveBit_of_drivesFrameBit {s : Station} (h : s.drivesFrameBit = true) :
    s.stripping = true ∧ s.tx.armed = true ∧
      s.driveBit.1 = bitAt (s.tx.bits.getD []) s.tx.bitPos ∧
      s.driveBit.2.tx.bitPos = s.tx.bitPos + 1 ∧ s.driveBit.2.tokensTaken = s.tokensTaken := by
  have hsource := s.sourceBit_cases
  unfold drivesFrameBit at h
  unfold driveBit
  rcases hs₁ : s.sourceBit with ⟨bit, source, s₁⟩
  rw [hs₁] at h hsource
  dsimp only at h hsource ⊢
  obtain ⟨hgate, hframe⟩ := Bool.and_eq_true_iff.mp h
  rw [if_pos hgate, if_pos hframe]
  obtain ⟨hstrip, hfwd⟩ := Bool.and_eq_true_iff.mp hgate
  rcases hsource with ⟨-, htx, htaken, hsame⟩ | ⟨hclaimed, -⟩
  · obtain ⟨hbit, -, hpos, htaken'⟩ := s₁.frameBit_eq
    refine ⟨hsame ▸ hstrip, htx ▸ (Bool.and_eq_true_iff.mp hframe).1, ?_, ?_, ?_⟩
    · rw [hbit, htx]
    · rw [tx_countStripping, hpos, htx]
    · rw [tokensTaken_countStripping, htaken', htaken]
  · rw [hclaimed] at hfwd
    cases hfwd

/-- Any other drive leaves the transmit side alone, and a station it leaves stripping
that was not has taken a token. -/
theorem driveBit_of_not_drivesFrameBit {s : Station} (h : s.drivesFrameBit = false) :
    s.driveBit.2.tx = s.tx ∧
      ((s.driveBit.2.tokensTaken = s.tokensTaken ∧
          (s.driveBit.2.stripping = true → s.stripping = true)) ∨
        s.tokensTaken < s.driveBit.2.tokensTaken) := by
  have hsource := s.sourceBit_cases
  unfold drivesFrameBit at h
  unfold driveBit
  rcases hs₁ : s.sourceBit with ⟨bit, source, s₁⟩
  rw [hs₁] at h hsource
  dsimp only at h hsource ⊢
  -- what is behind the source, and then perhaps a forced token
  have hforce : ∀ s₂ : Station, s₂.tx = s₁.tx → s₂.tokensTaken = s₁.tokensTaken →
      (s₂.stripping = true → s₁.stripping = true) →
      s₂.forceToken.tx = s.tx ∧
        ((s₂.forceToken.tokensTaken = s.tokensTaken ∧
            (s₂.forceToken.stripping = true → s.stripping = true)) ∨
          s.tokensTaken < s₂.forceToken.tokensTaken) := by
    intro s₂ htx₂ htaken₂ hstrip₂
    rcases hsource with ⟨-, htx, htaken, hsame⟩ | ⟨-, htx, htaken⟩
    · refine ⟨by rw [tx_forceToken, htx₂, htx], ?_⟩
      rcases s₂.forceToken_cases with hforced | hquiet
      · right
        omega
      · left
        rw [hquiet]
        exact ⟨htaken₂.trans htaken, fun hs => hsame ▸ hstrip₂ hs⟩
    · refine ⟨by rw [tx_forceToken, htx₂, htx], .inr ?_⟩
      rcases s₂.forceToken_cases with hforced | hquiet
      · omega
      · rw [hquiet]
        omega
  split
  · next hgate =>
    rw [hgate, Bool.true_and] at h
    rw [if_neg (by rw [h]; exact Bool.false_ne_true)]
    exact hforce _ s₁.tx_countStripping s₁.tokensTaken_countStripping s₁.stripping_of_countStripping
  · exact hforce s₁ rfl rfl id

/-! ## What the other calls do -/

section Receive

variable (s : Station) (bit : Bool)

/-- Receiving takes no token and moves no frame bit; it can only end stripping. -/
structure OnlyListens (s s' : Station) : Prop where
  armed : s'.tx.armed = s.tx.armed
  bitPos : s'.tx.bitPos = s.tx.bitPos
  taken : s'.tokensTaken = s.tokensTaken
  stripping : s'.stripping = true → s.stripping = true

theorem OnlyListens.trans {s s₁ s₂ : Station} (h₁ : OnlyListens s s₁) (h₂ : OnlyListens s₁ s₂) :
    OnlyListens s s₂ :=
  ⟨h₂.armed.trans h₁.armed, h₂.bitPos.trans h₁.bitPos, h₂.taken.trans h₁.taken,
    fun h => h₁.stripping (h₂.stripping h)⟩

theorem onlyListens_watchOwnFrame : OnlyListens s s.watchOwnFrame := by
  unfold watchOwnFrame
  split
  · split
    · split <;> exact ⟨rfl, rfl, rfl, id⟩
    · split
      · exact ⟨rfl, rfl, rfl, fun h => nomatch h⟩
      · exact ⟨rfl, rfl, rfl, id⟩
  · exact ⟨rfl, rfl, rfl, id⟩

theorem onlyListens_watchTokens : OnlyListens s s.watchTokens := by
  unfold watchTokens
  dsimp only
  split
  · exact ⟨rfl, rfl, rfl, id⟩
  · split <;> exact ⟨rfl, rfl, rfl, id⟩

theorem onlyListens_followFrame : OnlyListens s (s.followFrame bit) := by
  unfold followFrame
  rcases s.rx.step s.stripping s.atSymbol bit with ⟨rx, out, _ | late⟩
  · exact ⟨rfl, rfl, rfl, id⟩
  · dsimp only
    split <;> exact ⟨rfl, rfl, rfl, id⟩

theorem onlyListens_receiveCell (cell : Cell) : OnlyListens s (s.receiveCell cell) := by
  have hbit : ∀ (s : Station) (bit : Bool), OnlyListens s (s.receiveBit bit) := fun s bit =>
    ((⟨rfl, rfl, rfl, id⟩ : OnlyListens s (s.shiftWindow bit)).trans
      (onlyListens_watchOwnFrame _)).trans
      ((onlyListens_watchTokens _).trans (onlyListens_followFrame _ _))
  have hlevel : ∀ (s : Station) (level : Bool),
      OnlyListens s { s with rxLevel := level, rxLevelValid := true } :=
    fun _ _ => ⟨rfl, rfl, rfl, id⟩
  have hnote : OnlyListens s s.noteError := ⟨rfl, rfl, rfl, id⟩
  unfold receiveCell
  dsimp only
  cases (biphaseDecode cell (if s.rxLevelValid then s.rxLevel else !cell.clockWindow)).2 with
  | false => exact (hlevel s _).trans (hbit _ _)
  | true => exact (hnote.trans (hlevel _ _)).trans (hbit _ _)

end Receive

theorem queueFrame_accepted {s s' : Station} {fields : FrameFields}
    (h : s.queueFrame fields = (true, s')) :
    s'.tx.armed = true ∧ s'.tx.bitPos = 0 ∧ s'.tokensTaken = s.tokensTaken ∧
      s'.stripping = s.stripping := by
  unfold queueFrame at h
  split at h
  · cases h
  · split at h
    · cases h
    · cases h
      exact ⟨rfl, rfl, rfl, rfl⟩

theorem queueFrame_refused {s s' : Station} {fields : FrameFields}
    (h : s.queueFrame fields = (false, s')) : OnlyListens s s' := by
  unfold queueFrame at h
  split at h
  · cases h
    exact ⟨rfl, rfl, rfl, id⟩
  · split at h
    · cases h
      exact ⟨rfl, rfl, rfl, id⟩
    · cases h

/-! ## A run, watched -/

/-- A run of calls with what an observer notes: the tokens taken when the present
frame was armed, and the frames whose transmission has begun. -/
structure Watched where
  station : Station
  takenWhenArmed : Nat := 0
  framesBegun : Nat := 0

/-- The observer's notes on one call. -/
def Watched.call (w : Watched) (c : Call) : Watched :=
  { station := w.station.call c
    takenWhenArmed :=
      match c with
      | .queueFrame fields =>
        if (w.station.queueFrame fields).1 then w.station.tokensTaken else w.takenWhenArmed
      | _ => w.takenWhenArmed
    framesBegun :=
      match c with
      | .drive =>
        if w.station.drivesFrameBit && w.station.tx.bitPos == 0 then w.framesBegun + 1
        else w.framesBegun
      | _ => w.framesBegun }

/-- A station fresh from its initialisation, with its buffers lent and its address
set, watched over a run. -/
def watch (slot : Int) (address : BitVec 32) (enabled : Bool) (bits : Option (List Byte))
    (buffer : Option (List Byte)) (capacity : Nat) (calls : List Call) : Watched :=
  calls.foldl Watched.call
    { station := ((((init slot).setAddress address).setReceiveEnabled enabled).attachTx bits).attachRx
        buffer capacity }

/-- A frame bit goes out only with a token taken since the frame was armed, and no
more frames have begun than tokens were taken. -/
def Watched.WithToken (w : Watched) : Prop :=
  (w.station.drivesFrameBit = true → w.takenWhenArmed < w.station.tokensTaken) ∧
    w.framesBegun ≤ w.station.tokensTaken

/-- No frame is queued while the station still strips. -/
def Watched.QueuedInTime (w : Watched) (c : Call) : Prop :=
  ∀ fields, c = .queueFrame fields → (w.station.queueFrame fields).1 = true →
    w.station.stripping = false

/-- What the observer's notes and the station have to do with one another. A frame
whose first bit is still to come has not been counted, and its station has taken a
token for it if it strips. -/
structure Watched.Inv (w : Watched) : Prop where
  taken : w.station.stripping = true → w.station.tx.armed = true →
    w.takenWhenArmed < w.station.tokensTaken
  past : w.takenWhenArmed ≤ w.station.tokensTaken
  begun : w.framesBegun ≤ w.station.tokensTaken
  waiting : w.station.tx.armed = true → w.station.tx.bitPos = 0 →
    w.framesBegun ≤ w.takenWhenArmed

theorem Watched.Inv.withToken {w : Watched} (h : w.Inv) : w.WithToken := by
  refine ⟨fun hdrives => ?_, h.begun⟩
  obtain ⟨hstrip, harmed, -⟩ := driveBit_of_drivesFrameBit hdrives
  exact h.taken hstrip harmed

theorem Watched.Inv.listens {w : Watched} {s : Station} (h : w.Inv)
    (hs : OnlyListens w.station s) : Watched.Inv { w with station := s } where
  taken hstrip harmed := by
    change w.takenWhenArmed < s.tokensTaken
    rw [hs.taken]
    exact h.taken (hs.stripping hstrip) (hs.armed ▸ harmed)
  past := by
    change w.takenWhenArmed ≤ s.tokensTaken
    rw [hs.taken]
    exact h.past
  begun := by
    change w.framesBegun ≤ s.tokensTaken
    rw [hs.taken]
    exact h.begun
  waiting harmed hpos := h.waiting (hs.armed ▸ harmed) (hs.bitPos ▸ hpos)

theorem Watched.inv_queueFrame {w : Watched} (h : w.Inv) {fields : FrameFields}
    (htime : w.QueuedInTime (.queueFrame fields)) : (w.call (.queueFrame fields)).Inv := by
  rcases hq : w.station.queueFrame fields with ⟨_ | _, s⟩
  · have hcall : w.call (.queueFrame fields) = { w with station := s } := by
      simp only [Watched.call, Station.call, hq, Bool.false_eq_true, if_false]
    rw [hcall]
    exact h.listens (queueFrame_refused hq)
  · have hcall : w.call (.queueFrame fields) =
        { w with station := s, takenWhenArmed := w.station.tokensTaken } := by
      simp only [Watched.call, Station.call, hq, if_true]
    obtain ⟨-, -, htaken, hstrip⟩ := queueFrame_accepted hq
    have hquiet : s.stripping = false := hstrip.trans (htime fields rfl (by rw [hq]))
    rw [hcall]
    refine ⟨fun hs => ?_, ?_, ?_, fun _ _ => h.begun⟩
    · exact absurd hs (by rw [hquiet]; exact Bool.false_ne_true)
    · exact Nat.le_of_eq htaken.symm
    · exact h.begun.trans (Nat.le_of_eq htaken.symm)

theorem Watched.inv_drive {w : Watched} (h : w.Inv) : (w.call .drive).Inv := by
  cases hdrives : w.station.drivesFrameBit with
  | true =>
    obtain ⟨hstrip, harmed, -, hpos, htaken⟩ := driveBit_of_drivesFrameBit hdrives
    have htoken := h.taken hstrip harmed
    have hwait := h.waiting harmed
    have hbegun := h.begun
    have hframes : (w.call .drive).framesBegun =
        if w.station.tx.bitPos = 0 then w.framesBegun + 1 else w.framesBegun := by
      simp only [Watched.call, hdrives, Bool.true_and, beq_iff_eq]
    have hcount : (w.call .drive).station.tokensTaken = w.station.tokensTaken := htaken
    refine ⟨fun _ _ => ?_, ?_, ?_, fun _ hzero => ?_⟩
    · rw [hcount]
      exact htoken
    · rw [hcount]
      exact h.past
    · rw [hcount, hframes]
      split
      · next hzero =>
        have := hwait hzero
        omega
      · exact hbegun
    · change w.station.driveBit.2.tx.bitPos = 0 at hzero
      omega
  | false =>
    obtain ⟨htx, htoken⟩ := driveBit_of_not_drivesFrameBit hdrives
    have hcall : w.call .drive = { w with station := w.station.driveCell.2 } := by
      simp only [Watched.call, Station.call, hdrives, Bool.false_and, Bool.false_eq_true, if_false]
    have hpast := h.past
    have hbegun := h.begun
    rw [hcall]
    refine ⟨fun hstrip harmed => ?_, ?_, ?_, fun harmed hpos => ?_⟩
    · change w.station.driveBit.2.stripping = true at hstrip
      change w.station.driveBit.2.tx.armed = true at harmed
      change w.takenWhenArmed < w.station.driveBit.2.tokensTaken
      rcases htoken with ⟨htaken, hsame⟩ | hmore
      · rw [htaken]
        exact h.taken (hsame hstrip) (htx ▸ harmed)
      · omega
    · change w.takenWhenArmed ≤ w.station.driveBit.2.tokensTaken
      omega
    · change w.framesBegun ≤ w.station.driveBit.2.tokensTaken
      omega
    · change w.station.driveBit.2.tx.armed = true at harmed
      change w.station.driveBit.2.tx.bitPos = 0 at hpos
      exact h.waiting (htx ▸ harmed) (htx ▸ hpos)

theorem Watched.inv_call {w : Watched} (h : w.Inv) {c : Call} (htime : w.QueuedInTime c) :
    (w.call c).Inv := by
  cases c with
  | queueFrame fields => exact w.inv_queueFrame h htime
  | originateToken symbol => exact h.listens ⟨rfl, rfl, rfl, id⟩
  | drive => exact w.inv_drive h
  | receive cell => exact h.listens (onlyListens_receiveCell w.station cell)

theorem Watched.inv_run {calls : List Call} {w : Watched} (h : w.Inv)
    (htime : ∀ before c, before ++ [c] <+: calls →
      (before.foldl Watched.call w).QueuedInTime c) :
    (calls.foldl Watched.call w).Inv := by
  induction calls generalizing w with
  | nil => exact h
  | cons c calls ih =>
    refine ih (w.inv_call h (htime [] c ⟨calls, rfl⟩)) fun before c' hpre => ?_
    exact htime (c :: before) c' (List.cons_prefix_cons.mpr ⟨rfl, hpre⟩)

/-- EVERY FRAME HAS ITS TOKEN, in every run of calls whose frames are queued while the
station is not stripping. -/
theorem watch_withToken (slot : Int) (address : BitVec 32) (enabled : Bool)
    (bits buffer : Option (List Byte)) (capacity : Nat) (calls : List Call)
    (h : ∀ before c, before ++ [c] <+: calls →
      (watch slot address enabled bits buffer capacity before).QueuedInTime c) :
    ∀ before, before <+: calls →
      (watch slot address enabled bits buffer capacity before).WithToken := by
  intro before hbefore
  refine Watched.Inv.withToken (Watched.inv_run ?_ fun before' c hpre =>
    h before' c (hpre.trans hbefore))
  exact ⟨fun hs => (nomatch hs), Nat.le_refl _, Nat.le_refl _, fun ha => (nomatch ha)⟩

/-- A free token on the line, as cells that follow an idle one. -/
def freeTokenCells : List Cell := encodeLine true (symbolBits Oob.freeToken.symbol)

/-- A frame is queued, a free token comes, is claimed, and the frame begins. -/
def claimedRun : List Call :=
  .queueFrame smallestFrame :: (freeTokenCells.map Call.receive ++ [.drive, .drive])

/-- The queueing is the only call of the run that could come too early, and it
comes first. -/
theorem watch_withToken_claimedRun :
    (watch 0 0 true (some (List.replicate 40 0)) none 0 claimedRun).WithToken := by
  refine watch_withToken 0 0 true (some (List.replicate 40 0)) none 0 claimedRun ?_ claimedRun
    List.prefix_rfl
  intro before c hpre fields hc _
  subst hc
  cases before with
  | nil => rfl
  | cons first before =>
    have hmem : Call.queueFrame fields ∈
        freeTokenCells.map Call.receive ++ [.drive, .drive] :=
      (List.cons_prefix_cons.mp hpre).2.subset (List.mem_append_right _ (List.mem_singleton_self _))
    simp only [List.mem_append, List.mem_map, List.mem_cons, reduceCtorEq, and_false, exists_false,
      List.not_mem_nil, or_self] at hmem

/-- The host queues the frame once more while the station strips. -/
def requeueRun : List Call := claimedRun ++ [.queueFrame smallestFrame, .drive]

/-- One token, two frames: the second is on the line without one. -/
theorem not_withToken_requeue :
    let w := watch 0 0 true (some (List.replicate 40 0)) none 0 requeueRun
    ¬ w.WithToken ∧ w.station.drivesFrameBit = true ∧ w.takenWhenArmed = 1 ∧
      w.station.tokensTaken = 1 ∧ w.framesBegun = 2 := by
  have hrun : (watch 0 0 true (some (List.replicate 40 0)) none 0 requeueRun).station.drivesFrameBit
        = true ∧
      (watch 0 0 true (some (List.replicate 40 0)) none 0 requeueRun).takenWhenArmed = 1 ∧
      (watch 0 0 true (some (List.replicate 40 0)) none 0 requeueRun).station.tokensTaken = 1 ∧
      (watch 0 0 true (some (List.replicate 40 0)) none 0 requeueRun).framesBegun = 2 := by
    decide +kernel
  refine ⟨fun h => ?_, hrun⟩
  obtain ⟨-, -, htaken, hbegun⟩ := hrun
  have := h.2
  rw [htaken, hbegun] at this
  omega

end Station

end Apollo.Ring
