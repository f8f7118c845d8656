import EcranMagique.AvalonI2c.Command

/-! The registers that only the driver writes: what a write of them leaves of the core, what `init` leaves in them, and the
    speed that they stand for. -/

namespace EcranMagique.AvalonI2c
open Registers Registers.Device EcranMagique.AvalonI2c.Core

/-! ### The registers of the driver -/

structure Csr where
  ctrl : BitVec 6
  iser : BitVec 5
  sclLow : BitVec 16
  sclHigh : BitVec 16
  sdaHold : BitVec 16
  deriving DecidableEq, Repr

namespace Csr

def read (x : Csr) : Reg → BitVec 32
  | .ctrl => x.ctrl.setWidth 32
  | .iser => x.iser.setWidth 32
  | .sclLow => x.sclLow.setWidth 32
  | .sclHigh => x.sclHigh.setWidth 32
  | .sdaHold => x.sdaHold.setWidth 32
  | _ => 0

def write (x : Csr) (v : BitVec 32) : Reg → Csr
  | .ctrl => { x with ctrl := v.setWidth 6 }
  | .iser => { x with iser := v.setWidth 5 }
  | .sclLow => { x with sclLow := v.setWidth 16 }
  | .sclHigh => { x with sclHigh := v.setWidth 16 }
  | .sdaHold => { x with sdaHold := v.setWidth 16 }
  | _ => x

/-- Those whose value the core gives back. -/
def Kept (r : Reg) : Prop := r = .ctrl ∨ r = .iser ∨ r = .sclLow ∨ r = .sclHigh ∨ r = .sdaHold

end Csr

namespace Core

def csr (s : Core) : Csr := ⟨s.ctrl, s.iser, s.sclLow, s.sclHigh, s.sdaHold⟩

/-- The core with these registers in the place of its own. -/
def withCsr (s : Core) (x : Csr) : Core :=
  { s with ctrl := x.ctrl, iser := x.iser, sclLow := x.sclLow, sclHigh := x.sclHigh, sdaHold := x.sdaHold }

/-- Only an enabled core rests in `PRE_IDLE`. -/
def Settled (s : Core) : Prop := s.fsm = .preIdle → s.ctrlEn = true

/-- Calm, with these registers. -/
structure Configured (x : Csr) (s : Core) : Prop where
  calm : s.Calm
  csr : s.csr = x

/-- What `s` comes to by itself, but for its registers; it is as much enabled as `s` is. -/
structure Reconfigured (s : Core) (x : Csr) (t : Core) : Prop where
  enabled : enables x.ctrl = s.ctrlEn
  moved : ∃ u, Relation.ReflTransGen device.moves s u ∧ t = u.withCsr x

section
variable {s t : Core} {x : Csr} {r : Reg} {v : BitVec 32} {m : Move}

theorem Step.csr (h : Step s t) : t.csr = s.csr := by
  cases h with
  | received w b hfsm =>
    simp only [shifted, pushRxfifo]
    split
    · rfl
    · split <;> rfl
  | _ => rfl

/-! ### A core that is settled -/

theorem Step.settled (h : Step s t) : t.Settled := by
  have hrest : s.rest = .preIdle → s.ctrlEn = true := by
    unfold rest
    split
    · rename_i hen
      exact fun _ => hen
    · exact fun h => by cases h
  cases h with
  | lost hfsm => exact hrest
  | stopped hfsm =>
    intro hpre
    simp only at hpre
    split at hpre
    · exact hrest hpre
    · cases hpre
  | sent r w hfsm hr =>
    intro hpre
    simp only [shifted] at hpre
    split at hpre <;> cases hpre
  | received w b hfsm =>
    intro hpre
    simp only [shifted] at hpre
    split at hpre <;> cases hpre
  | _ => exact fun hpre => by cases hpre

theorem settled_stable : device.Stable Settled := fun _ _ ⟨_, hmove⟩ _ => (step_of_move hmove).settled

theorem settled_writeCtrl (v : BitVec 6) : (s.writeCtrl v).Settled := by
  intro hpre
  unfold Core.writeCtrl at hpre
  cases hfsm : s.fsm with
  | idle =>
    simp only [hfsm] at hpre
    split at hpre <;> cases hpre
  | preIdle =>
    simp only [hfsm] at hpre
    split at hpre
    · rename_i hv
      exact hv
    · cases hpre
  | _ =>
    rw [hfsm] at hpre
    cases hpre

theorem Settled.write (hs : s.Settled) (v : BitVec 32) (r : Reg) : (s.write v r).Settled := by
  cases r with
  | tfrCmd =>
    simp only [Core.write, putTxfifo]
    split
    · exact hs
    · intro hpre
      simp only at hpre
      split at hpre
      · cases hpre
      · exact hs hpre
  | ctrl => exact settled_writeCtrl _
  | _ => exact hs

theorem Settled.read (hs : s.Settled) (old : BitVec 8) (r : Reg) : (s.read old r).2.Settled := by
  cases r with
  | rxData =>
    simp only [Core.read]
    split <;> exact hs
  | _ => exact hs

theorem settled_of_reachable (h : device.Reachable reset s) : s.Settled := by
  have hreset : reset.Settled := fun hpre => by cases hpre
  refine h.invariant hreset settled_stable ?_ ?_
  · rintro s r v t hs ⟨old, hread⟩
    have hnext := hs.read old r
    rwa [hread] at hnext
  · rintro s r v t hs rfl
    exact hs.write v r

/-- A write that neither enables nor disables a settled core does nothing to its automaton. -/
theorem Settled.writeCtrl_eq (hs : s.Settled) {v : BitVec 6} (h : enables v = s.ctrlEn) : s.writeCtrl v = { s with ctrl := v } := by
  unfold Core.writeCtrl
  cases hfsm : s.fsm with
  | idle =>
    have hnot : ¬(enables v = true ∧ s.ctrlEn = false) := fun hc => by
      rw [h, hc.2] at hc
      cases hc.1
    simp only [hnot, if_false]
  | preIdle => simp only [h, hs hfsm, if_true]
  | _ => rfl

/-! ### The registers and the moves -/

theorem withCsr_fsm : (s.withCsr x).fsm = s.fsm := rfl

theorem withCsr_flushTxfifo : (s.withCsr x).flushTxfifo = s.flushTxfifo := rfl

theorem withCsr_pushRxfifo (b : BitVec 8) : (s.withCsr x).pushRxfifo b = (s.pushRxfifo b).withCsr x := by
  unfold pushRxfifo
  rw [withCsr_flushTxfifo]
  change (if _ then _ else if fifoDepth ≤ s.rxfifo.length then _ else _) = _
  split
  · rfl
  · split <;> rfl

theorem withCsr_take : (s.withCsr x).take = s.take.map fun t => t.withCsr x := by
  unfold take withCsr
  cases s.txfifo <;> rfl

theorem withCsr_rest (h : enables x.ctrl = s.ctrlEn) : (s.withCsr x).rest = s.rest := by
  unfold rest
  rw [← h]
  rfl

/-- The moves of the core depend on none of the registers but for the enable bit. -/
theorem move?_withCsr (h : enables x.ctrl = s.ctrlEn) (m : Move) :
    (s.withCsr x).move? m = (s.move? m).map fun t => t.withCsr x := by
  cases m with
  | start =>
    by_cases hstart : s.fsm = .preStart ∧ s.flushTxfifo = false
    · have hmove : s.move? .start = Core.take { s with message := {}, dir := none } := if_pos hstart
      rw [hmove, ← withCsr_take]
      exact if_pos hstart
    · have hmove : s.move? .start = none := if_neg hstart
      rw [hmove]
      exact if_neg hstart
  | pop =>
    by_cases hhold : s.fsm = .busHold
    · have hmove : s.move? .pop = s.take := if_pos hhold
      rw [hmove, ← withCsr_take]
      exact if_pos hhold
    · have hmove : s.move? .pop = none := if_neg hhold
      rw [hmove]
      exact if_neg hhold
  | ack =>
    simp only [move?, withCsr_fsm]
    split <;> rfl
  | noAck =>
    simp only [move?, withCsr_fsm]
    split <;> rfl
  | data b =>
    simp only [move?, withCsr_fsm, withCsr_pushRxfifo]
    split <;> rfl
  | arbLost =>
    simp only [move?, withCsr_fsm, withCsr_rest h]
    split <;> rfl
  | stopDone =>
    simp only [move?, withCsr_fsm, withCsr_rest h]
    split <;> rfl

theorem csr_of_moves (h : Relation.ReflTransGen device.moves s t) : t.csr = s.csr := by
  induction h with
  | refl => rfl
  | tail _ hmove ih =>
    obtain ⟨m, hm⟩ := hmove
    exact (step_of_move hm).csr.trans ih

/-! ### What follows the registers -/

/-- Predicates of the core that follow what is written into its registers, as long as the enable bit stays. -/
structure View (F : Csr → Core → Prop) : Prop where
  stable : ∀ x, device.Stable (F x)
  csr : ∀ x s, F x s → s.csr = x
  write : ∀ x s r (v : BitVec 32), Csr.Kept r → (r = .ctrl → enables (v.setWidth 6) = enables x.ctrl) → F x s →
    F (x.write v r) (s.write v r)

theorem Configured.disabled (hs : Configured x s) : enables x.ctrl = false := by
  rw [← hs.csr]
  exact hs.calm.disabled

theorem Configured.view : View Configured where
  stable _ _ _ := fun ⟨_, hmove⟩ hs => ⟨hs.calm.step (step_of_move hmove), (step_of_move hmove).csr.trans hs.csr⟩
  csr _ _ hs := hs.csr
  write x s r v hr hctrl hs := by
    have hdisabled := hs.disabled
    obtain ⟨hcalm, rfl⟩ := hs
    rcases hr with rfl | rfl | rfl | rfl | rfl
    · exact ⟨⟨(hctrl rfl).trans hdisabled, hcalm.txfifo, hcalm.rxfifo, hcalm.parked.writeCtrl _⟩, rfl⟩
    all_goals exact ⟨⟨hcalm.disabled, hcalm.txfifo, hcalm.rxfifo, hcalm.parked⟩, rfl⟩

theorem Reconfigured.refl (s : Core) : s.Reconfigured s.csr s := ⟨rfl, s, .refl, rfl⟩

theorem Reconfigured.view (hs : s.Settled) : View s.Reconfigured where
  stable x t t' := by
    rintro ⟨m, hm⟩ ⟨hen, u, hu, rfl⟩
    have hctrl : u.ctrlEn = s.ctrlEn := congrArg (fun y : Csr => enables y.ctrl) (csr_of_moves hu)
    rw [move?_withCsr (hen.trans hctrl.symm), Option.map_eq_some_iff] at hm
    obtain ⟨u', hmove, rfl⟩ := hm
    exact ⟨hen, u', hu.tail ⟨m, hmove⟩, rfl⟩
  csr x t := by
    rintro ⟨hen, u, hu, rfl⟩
    rfl
  write x t r v hr hctrl := by
    rintro ⟨hen, u, hu, rfl⟩
    rcases hr with rfl | rfl | rfl | rfl | rfl
    · have husettled : u.Settled := settled_stable.closed hu hs
      have hctrlEn : u.ctrlEn = s.ctrlEn := congrArg (fun y : Csr => enables y.ctrl) (csr_of_moves hu)
      have hxsettled : (u.withCsr x).Settled := fun hpre => hen.trans (hctrlEn.symm.trans (husettled hpre))
      exact ⟨(hctrl rfl).trans hen, u, hu, hxsettled.writeCtrl_eq (hctrl rfl)⟩
    all_goals exact ⟨hen, u, hu, rfl⟩

end
end Core

section Access
variable {F : Csr → Core → Prop} {x : Csr} {r : Reg}

/-- A read of one of the registers gives the program a value that is known. -/
theorem getCsr_bind {α : Type} {f : BitVec 32 → Io α} {Q : α → Core → Prop} (hF : View F) (hr : Csr.Kept r)
    (h : device.Triple (F x) (f (x.read r)) Q) : device.Triple (F x) (Prog.get r >>= f) Q := by
  refine Triple.bind (R := fun v s => v = x.read r ∧ F x s) (Triple.get (hF.stable x) ?_) fun v => ?_
  · rintro u v t hu ⟨old, hread⟩
    obtain rfl := hF.csr x u hu
    rcases hr with rfl | rfl | rfl | rfl | rfl <;> cases hread <;> exact ⟨rfl, hu⟩
  · rintro s ⟨rfl, hs⟩
    exact h s hs

theorem putCsr_spec (hF : View F) (hr : Csr.Kept r) (hctrl : r ≠ .ctrl) (v : BitVec 32) :
    device.Triple (F x) (Prog.put r v) fun _ => F (x.write v r) :=
  Triple.put (hF.stable x) fun u t hu hwrite => by
    cases hwrite
    exact hF.write x u r v hr (fun h => absurd h hctrl) hu

def rmw (v : BitVec 6) (data mask : BitVec 32) : BitVec 6 := ((v.setWidth 32 &&& ~~~mask) ||| (data &&& mask)).setWidth 6

theorem rmwCsr_spec (hF : View F) {data mask : BitVec 32} (hen : enables (rmw x.ctrl data mask) = enables x.ctrl) :
    device.Triple (F x) (iormwCtrl data mask) fun _ => F { x with ctrl := rmw x.ctrl data mask } :=
  iormwCtrl_spec (hF.stable x) fun s hs => by
    have hctrl : s.ctrl = x.ctrl := congrArg Csr.ctrl (hF.csr x s hs)
    rw [hctrl]
    exact hF.write x s .ctrl _ (Or.inl rfl) (fun _ => hen) hs

end Access

/-! ### The configuration -/

section Configuration
variable {F : Csr → Core → Prop} {s : Core} {dev : Dev} {cfg : MasterConfig} {x : Csr}

/-- The registers of a configuration: of the control register, only the bit of the speed is its. -/
def MasterConfig.csr (cfg : MasterConfig) (x : Csr) : Csr where
  ctrl := (x.ctrl &&& 0x3D#6) ||| ((BitVec.ofBool cfg.speedFast).setWidth 6 <<< 1)
  iser := x.iser
  sclLow := cfg.sclLcnt
  sclHigh := cfg.sclHcnt
  sdaHold := cfg.sdaCnt

theorem rmw_speed (v : BitVec 6) (fast : Bool) :
    rmw v ((BitVec.ofBool fast).setWidth 32 <<< ctrlBusSpeedOfst) ctrlBusSpeedMsk =
      (v &&& 0x3D#6) ||| ((BitVec.ofBool fast).setWidth 6 <<< 1) := by
  revert v
  cases fast <;> decide

theorem speed_enables (v : BitVec 6) (fast : Bool) :
    enables ((v &&& 0x3D#6) ||| ((BitVec.ofBool fast).setWidth 6 <<< 1)) = enables v := by
  revert v
  cases fast <;> decide

theorem speed_get (v : BitVec 6) (fast : Bool) :
    (((v &&& 0x3D#6) ||| ((BitVec.ofBool fast).setWidth 6 <<< 1)).setWidth 32 &&& ctrlBusSpeedMsk) >>> ctrlBusSpeedOfst ≠ 0 ↔
      fast = true := by
  revert v
  cases fast <;> decide

theorem setWidth_half (b : BitVec 16) : (b.setWidth 32).setWidth 16 = b := by
  simp

theorem masterConfigSet_spec (hF : View F) (dev : Dev) (cfg : MasterConfig) (x : Csr) :
    device.Triple (F x) (masterConfigSet dev cfg) fun dev' s =>
      dev' = { dev with addressMode10Bit := cfg.addressMode10Bit } ∧ F (cfg.csr x) s := by
  have hspeed := rmw_speed x.ctrl cfg.speedFast
  refine Triple.bind (rmwCsr_spec hF (hspeed ▸ speed_enables x.ctrl cfg.speedFast)) fun _ => ?_
  refine Triple.bind (putCsr_spec hF (by simp [Csr.Kept]) (by decide) _) fun _ => ?_
  refine Triple.bind (putCsr_spec hF (by simp [Csr.Kept]) (by decide) _) fun _ => ?_
  refine Triple.bind (putCsr_spec hF (by simp [Csr.Kept]) (by decide) _) fun _ => Triple.ret fun s hs => ⟨rfl, ?_⟩
  simpa only [Csr.write, setWidth_half, hspeed, MasterConfig.csr] using hs

theorem masterConfigGet_spec (hF : View F) (cfg : MasterConfig) (x : Csr) :
    device.Triple (F (cfg.csr x)) (masterConfigGet { dev with addressMode10Bit := cfg.addressMode10Bit }) fun cfg' s =>
      cfg' = cfg ∧ F (cfg.csr x) s := by
  refine getCsr_bind hF (by simp [Csr.Kept]) (getCsr_bind hF (by simp [Csr.Kept]) (getCsr_bind hF (by simp [Csr.Kept])
    (getCsr_bind hF (by simp [Csr.Kept]) (Triple.ret fun s hs => ⟨?_, hs⟩))))
  simp only [Csr.read, MasterConfig.csr, setWidth_half, speed_get, Bool.decide_eq_true]

/-- What a configuration is set to is what it is read back as, on a core that is enabled or not and whatever it is doing.
    The core goes on as if it had not been asked: it ends where it could have come to by itself, with the registers of
    the configuration. -/
theorem masterConfig_roundTrip (hs : device.Reachable Core.reset s) (dev : Dev) (cfg : MasterConfig) :
    device.wp (masterConfigSet dev cfg >>= masterConfigGet) (fun cfg' t => cfg' = cfg ∧ s.Reconfigured (cfg.csr s.csr) t)
      s := by
  have hF := Reconfigured.view (settled_of_reachable hs)
  have hset := masterConfigSet_spec hF dev cfg s.csr
  refine Triple.bind hset (fun dev' => ?_) s (Reconfigured.refl s)
  rintro t ⟨rfl, ht⟩
  exact masterConfigGet_spec hF cfg s.csr t ht

/-- The address of a message on its way. -/
def addressing : Core := { Core.reset with ctrl := 1, fsm := .shift .addr 0xA6 }

theorem reachable_addressing : device.Reachable Core.reset addressing :=
  have henabled : device.Reachable Core.reset (Core.reset.write 1 .ctrl) := .write .refl rfl
  have hcommand : device.Reachable Core.reset ((Core.reset.write 1 .ctrl).write 0xA6 .tfrCmd) := .write henabled rfl
  .move hcommand ⟨.start, rfl⟩

theorem masterConfig_roundTrip_addressing :
    device.wp (masterConfigSet ⟨0x53, 50000000, false⟩ ⟨false, true, 122, 2, 1⟩ >>= masterConfigGet)
      (fun cfg' t => cfg' = ⟨false, true, 122, 2, 1⟩ ∧ addressing.Reconfigured ⟨3, 0, 2, 122, 1⟩ t) addressing :=
  masterConfig_roundTrip reachable_addressing ⟨0x53, 50000000, false⟩ ⟨false, true, 122, 2, 1⟩

/-! ### Initialisation -/

theorem rmw_disable (v : BitVec 6) : enables (rmw v 0 ctrlEnMsk) = false := by
  revert v
  decide

/-- The three fields that `init` writes, and the enable bit, are all of the control register. -/
theorem rmw_init (v : BitVec 6) :
    rmw (rmw (rmw v 0 ctrlEnMsk) (tfrCmdFifoNotFull <<< ctrlTfrCmdFifoThdOfst) ctrlTfrCmdFifoThdMsk)
      (rxDataFifoFull <<< ctrlRxDataFifoThdOfst) ctrlRxDataFifoThdMsk &&& 0x3D#6 = 0x3C#6 := by
  revert v
  decide

theorem rmw_threshold (v : BitVec 6) :
    enables (rmw v (tfrCmdFifoNotFull <<< ctrlTfrCmdFifoThdOfst) ctrlTfrCmdFifoThdMsk) = enables v ∧
      enables (rmw v (rxDataFifoFull <<< ctrlRxDataFifoThdOfst) ctrlRxDataFifoThdMsk) = enables v := by
  revert v
  decide

theorem intDisable_spec (hF : View F) : device.Triple (F x) (intDisable isrAllintsMsk) fun _ => F { x with iser := 0 } := by
  have hnone : (isrAllintsMsk &&& ((x.iser.setWidth 32 &&& isrAllintsMsk) &&& ~~~isrAllintsMsk)).setWidth 5 = 0#5 := by
    generalize x.iser = v
    revert v
    decide
  unfold intDisable
  refine getCsr_bind hF (by simp [Csr.Kept]) ?_
  have hwrite : x.write (isrAllintsMsk &&& ((x.iser.setWidth 32 &&& isrAllintsMsk) &&& ~~~isrAllintsMsk)) .iser =
      { x with iser := 0 } := congrArg (fun v => { x with iser := v }) hnone
  rw [← hwrite]
  exact putCsr_spec hF (by simp [Csr.Kept]) (by decide) _

theorem intClear_spec (mask : BitVec 32) : device.Triple (Configured x) (intClear mask) fun _ => Configured x :=
  Triple.put (Configured.view.stable x) fun u t hu hwrite => by
    cases hwrite
    exact ⟨⟨hu.calm.disabled, hu.calm.txfifo, hu.calm.rxfifo, hu.calm.parked⟩, hu.csr⟩

/-- The configuration of a standard speed, in a period of `2 * (ipFreqInHz / 200000)` cycles. -/
def standard (dev : Dev) : MasterConfig where
  addressMode10Bit := false
  speedFast := false
  sclHcnt := (dev.ipFreqInHz / 200000 + diffLcntHcnt).setWidth 16
  sclLcnt := (dev.ipFreqInHz / 200000 - diffLcntHcnt).setWidth 16
  sdaCnt := ((dev.ipFreqInHz / 200000 - diffLcntHcnt) - (dev.ipFreqInHz / 200000 - diffLcntHcnt) / 2).setWidth 16

/-- Nothing is left of what the registers and the stack held before. -/
theorem init_spec (dev : Dev) (cfg : MasterConfig) : device.Triple Calm (init dev cfg) fun dev' s =>
    dev' = { dev with addressMode10Bit := false } ∧ s.Configured
      ⟨0x3C#6, 0, (standard dev).sclLcnt, (standard dev).sclHcnt, (standard dev).sdaCnt⟩ := by
  intro s hs
  let x : Csr := ⟨rmw (rmw (rmw s.csr.ctrl 0 ctrlEnMsk) (tfrCmdFifoNotFull <<< ctrlTfrCmdFifoThdOfst) ctrlTfrCmdFifoThdMsk)
    (rxDataFifoFull <<< ctrlRxDataFifoThdOfst) ctrlRxDataFifoThdMsk, 0, s.csr.sclLow, s.csr.sclHigh, s.csr.sdaHold⟩
  have hinit : device.Triple (Configured s.csr) (init dev cfg) fun dev' t =>
      dev' = { dev with addressMode10Bit := false } ∧ t.Configured ((standard dev).csr x) := by
    have hdisable : enables (rmw s.csr.ctrl 0 ctrlEnMsk) = enables s.csr.ctrl := (rmw_disable _).trans hs.disabled.symm
    refine Triple.bind (rmwCsr_spec Configured.view hdisable) fun _ => Triple.bind (intDisable_spec Configured.view) fun _ => ?_
    refine Triple.bind (intClear_spec isrAllClearableIntsMsk) fun _ => ?_
    refine Triple.bind (rmwCsr_spec Configured.view (rmw_threshold _).1) fun _ => ?_
    refine Triple.bind (rmwCsr_spec Configured.view (rmw_threshold _).2) fun _ => ?_
    exact masterConfigSet_spec Configured.view dev (standard dev) x
  refine wp_mono (hinit s ⟨hs, rfl⟩) fun dev' t ht => ⟨ht.1, ht.2.calm, ht.2.csr.trans ?_⟩
  have hctrl : x.ctrl &&& 0x3D#6 = 0x3C#6 := rmw_init s.ctrl
  have hspeed : 0x3C#6 ||| (BitVec.ofBool false).setWidth 6 <<< 1 = 0x3C#6 := by decide
  simp only [MasterConfig.csr, standard, hctrl, hspeed, x]

end Configuration

/-! ### Speed -/

section Speed
variable {dev : Dev} {cfg : MasterConfig} {speed : BitVec 32}

end Speed

end EcranMagique.AvalonI2c
