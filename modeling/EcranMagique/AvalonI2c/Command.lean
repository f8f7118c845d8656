import EcranMagique.AvalonI2c.Progress

/-! One access, one command, and the beginning and the end of a transaction, whatever the bus does meanwhile. -/

namespace EcranMagique.AvalonI2c
open Registers Registers.Device EcranMagique.AvalonI2c.Core

/-! ### States between transactions -/

namespace Core

/-- Disabled, with nothing left of the last message but a stop. -/
structure Calm (s : Core) : Prop where
  disabled : s.ctrlEn = false
  txfifo : s.txfifo = []
  rxfifo : s.rxfifo = []
  parked : s.Parked

/-- An abort that is flagged has emptied the FIFOs. -/
def Sound (s : Core) : Prop := s.flushTxfifo = true → s.Flushed

section
variable {s t : Core} {cmds : List (BitVec 10)} {popped : List (BitVec 8)}

theorem Calm.step (hs : s.Calm) (h : Step s t) : t.Calm := by
  have hen : t.ctrlEn = false := by
    rw [ctrlEn, h.ctrl]
    exact hs.disabled
  cases h with
  | start w txfifo hpre hflush htx => rw [hs.txfifo] at htx; cases htx
  | pop w txfifo hhold htx => rw [hs.txfifo] at htx; cases htx
  | sent r w hshift hr => exact absurd hshift hs.parked.not_shift
  | received w b hshift => exact absurd hshift hs.parked.not_shift
  | refused r w hshift => exact absurd hshift hs.parked.not_shift
  | lost hactive => exact ⟨hen, rfl, rfl, parked_rest s rfl⟩
  | stopped hstop => exact ⟨hen, hs.txfifo, hs.rxfifo, parked_rest s (by simp [hs.txfifo])⟩

theorem Sound.step (hs : s.Sound) (h : Step s t) : t.Sound := by
  intro hflag
  cases hflush : s.flushTxfifo
  · cases h with
    | refused r w hshift => exact ⟨hflag, rfl, rfl, Or.inl rfl⟩
    | lost hactive => exact ⟨hflag, rfl, rfl, parked_rest s rfl⟩
    | received w b hshift =>
      refine absurd hflag ?_
      simp only [shifted, pushRxfifo, hflush, Bool.false_eq_true, if_false]
      split <;> simp_all [flushTxfifo]
    | _ => exact absurd (hflush.symm.trans hflag) (by decide)
  · exact (hs hflush).step h

theorem Calm.stable : device.Stable Calm := fun _ _ ⟨_, hmove⟩ hs => hs.step (step_of_move hmove)

/-- The driver may add the value that the control register keeps to what it knows. -/
theorem stable_ctrl {P : Core → Prop} (hP : device.Stable P) (v : BitVec 6) :
    device.Stable fun s => P s ∧ s.ctrl = v := fun _ _ hmove hs => by
  obtain ⟨m, h⟩ := hmove
  exact ⟨hP _ _ ⟨m, h⟩ hs.1, (step_of_move h).ctrl.trans hs.2⟩

/-- Disabled after a transaction that ran out of time: what the core is at is not known. -/
def Off (s : Core) : Prop := s.ctrlEn = false ∧ s.Sound

theorem Off.stable : device.Stable Off := fun _ _ ⟨_, hmove⟩ hs => by
  have h := step_of_move hmove
  refine ⟨?_, hs.2.step h⟩
  rw [ctrlEn, h.ctrl]
  exact hs.1

theorem Going.sound (hs : s.Going cmds popped) : s.Sound := fun hflag => by
  rcases hs.message with hflushed | ⟨hflush, -⟩
  · exact hflushed
  · exact absurd (hflush.symm.trans hflag) (by decide)

theorem Calm.sound (hs : s.Calm) : s.Sound := fun hflag => ⟨hflag, hs.txfifo, hs.rxfifo, hs.parked⟩

theorem Parked.writeCtrl (hs : s.Parked) (v : BitVec 6) : (s.writeCtrl v).Parked := by
  unfold Parked at hs ⊢
  rw [idleState_iff] at hs ⊢
  rcases hs with h | h | h | h
  · exact Or.inl (by simp [Core.writeCtrl, h])
  · exact Or.inr (Or.inl (by simp [Core.writeCtrl, h]))
  · by_cases hc : enables v = true ∧ s.ctrlEn = false
    · exact Or.inr (Or.inl (by simp [Core.writeCtrl, h, hc]))
    · exact Or.inr (Or.inr (Or.inl (by simp only [Core.writeCtrl, h, hc, if_false])))
  · cases hc : enables v
    · exact Or.inr (Or.inr (Or.inl (by simp [Core.writeCtrl, h, hc])))
    · exact Or.inr (Or.inr (Or.inr (by simp [Core.writeCtrl, h, hc])))

theorem Sound.writeCtrl (hs : s.Sound) (v : BitVec 6) : (s.writeCtrl v).Sound := fun hflag => by
  have hflushed := hs hflag
  exact ⟨hflag, hflushed.txfifo, hflushed.rxfifo, hflushed.parked.writeCtrl v⟩

/-- An aborted message ends in a calm core when the core is disabled. -/
theorem Flushed.writeCtrl (hs : s.Flushed) {v : BitVec 6} (hc : enables v = false) : (s.writeCtrl v).Calm :=
  ⟨hc, hs.txfifo, hs.rxfifo, hs.parked.writeCtrl v⟩

end

end Core

/-! ### Results -/

/-- A command, or a byte, that did not get through. -/
inductive Failed : Status → Core → Prop where
  | late {s : Core} (cmds : List (BitVec 10)) (popped : List (BitVec 8)) (hlast : StopsLast cmds)
      (hgoing : s.Going cmds popped) : Failed i2cTimeout s
  | aborted {s : Core} {status : Status} (hstatus : status = i2cNackErr ∨ status = i2cArbLostErr)
      (hen : s.ctrlEn = true) (hflushed : s.Flushed) : Failed status s

/-- Either the core is as `P` says, or the status is one of a failure. -/
def Result (P : Core → Prop) (status : Status) (s : Core) : Prop := status = i2cSuccess ∧ P s ∨ Failed status s

/-- A transaction that is over has left the core disabled; but for a timeout, it has left it calm. -/
inductive Ended (P : Core → Prop) : Status → Core → Prop where
  | success {s : Core} (hcalm : s.Calm) (h : s.arblostDet = true ∨ P s) : Ended P i2cSuccess s
  | failed {s : Core} {status : Status} (hstatus : status = i2cNackErr ∨ status = i2cArbLostErr) (hcalm : s.Calm) :
      Ended P status s
  | late {s : Core} (hoff : s.Off) : Ended P i2cTimeout s

section
variable {cmds : List (BitVec 10)} {popped : List (BitVec 8)} {P Q : Core → Prop} {status : Status} {s t : Core}

theorem Failed.ne_success (h : Failed status s) : status ≠ i2cSuccess := by
  cases h with
  | late => decide
  | aborted hstatus => rcases hstatus with rfl | rfl <;> decide

theorem Failed.going (h : Failed status s) : ∃ cmds popped, StopsLast cmds ∧ s.Going cmds popped := by
  cases h with
  | late cmds popped hlast hgoing => exact ⟨cmds, popped, hlast, hgoing⟩
  | aborted _ hen hflushed => exact ⟨[], [], fun ws w vs h => by simp at h, hen, Or.inl hflushed⟩

theorem Failed.step (h : Failed status s) (hstep : Step s t) : Failed status t := by
  cases h with
  | late cmds popped hlast hgoing => exact .late cmds popped hlast (hgoing.step hlast hstep)
  | aborted hstatus hen hflushed =>
    refine .aborted hstatus ?_ (hflushed.step hstep)
    rw [ctrlEn, hstep.ctrl]
    exact hen

theorem Result.stable (hP : device.Stable P) (status : Status) : device.Stable (Result P status) :=
  fun s t hmove hs => by
    rcases hs with ⟨hok, h⟩ | h
    · exact Or.inl ⟨hok, hP s t hmove h⟩
    · obtain ⟨m, hm⟩ := hmove
      exact Or.inr (h.step (step_of_move hm))

theorem Ended.mono (h : Ended P status s) (hPQ : P s → Q s) : Ended Q status s := by
  cases h with
  | success hcalm h => exact .success hcalm (h.imp_right hPQ)
  | failed hstatus hcalm => exact .failed hstatus hcalm
  | late hoff => exact .late hoff

theorem Result.mono (h : Result P status s) (hPQ : P s → Q s) : Result Q status s :=
  h.imp_left fun h => ⟨h.1, hPQ h.2⟩

end

/-! ### Accesses -/

section Access
variable {P : Core → Prop} {Q : Unit → Core → Prop}

theorem iormwCtrl_spec {data mask : BitVec 32} (hP : device.Stable P)
    (h : ∀ s, P s → Q () (s.writeCtrl (((s.ctrl.setWidth 32 &&& ~~~mask) ||| (data &&& mask)).setWidth 6))) :
    device.Triple P (iormwCtrl data mask) Q := by
  refine Triple.bind (R := fun v s => ∃ c : BitVec 6, v = c.setWidth 32 ∧ P s ∧ s.ctrl = c) ?_ fun v => ?_
  · refine Triple.get hP fun u v t hu hread => ?_
    obtain ⟨_, hread⟩ := hread
    cases hread
    exact ⟨u.ctrl, rfl, hu, rfl⟩
  · rintro s ⟨c, rfl, hs⟩
    exact Triple.put (P := fun s => P s ∧ s.ctrl = c) (stable_ctrl hP c)
      (fun u t hu hwrite => by
        obtain ⟨hu, rfl⟩ := hu
        cases hwrite
        exact h u hu) s hs

theorem disable_spec (hP : device.Stable P) (h : ∀ s v, P s → enables v = false → Q () (s.writeCtrl v)) :
    device.Triple P disable Q :=
  iormwCtrl_spec hP fun s hs => h s _ hs (ctrl_disable s.ctrl)

/-- The flags of the core, as one read of them finds them. -/
theorem getIsr_spec {R : BitVec 32 → Core → Prop} (hP : device.Stable P) (h : ∀ s, P s → R s.isr s) :
    device.Triple P (Prog.get .isr) R :=
  Triple.get hP fun u v t hu hread => by
    obtain ⟨_, hread⟩ := hread
    cases hread
    exact h u hu

end Access

/-! ### The beginning of a transaction -/

/-- Enabled, with nothing written yet. -/
structure Core.Fresh (s : Core) : Prop where
  enabled : s.ctrlEn = true
  txfifo : s.txfifo = []
  rxfifo : s.rxfifo = []
  fsm : s.fsm = .preStart ∨ s.fsm = .genStop ∨ s.fsm = .preIdle

theorem Core.Fresh.stable : device.Stable Fresh := fun s t ⟨_, hmove⟩ hs => by
  have hstep := step_of_move hmove
  have hen : t.ctrlEn = true := by
    rw [ctrlEn, hstep.ctrl]
    exact hs.enabled
  have hfsm := hs.fsm
  cases hstep with
  | start w txfifo hpre hflush htx => rw [hs.txfifo] at htx; cases htx
  | pop w txfifo hhold htx => rw [hs.txfifo] at htx; cases htx
  | sent r w hshift hr => simp [hshift] at hfsm
  | received w b hshift => simp [hshift] at hfsm
  | refused r w hshift => simp [hshift] at hfsm
  | lost hactive => exact ⟨hen, rfl, rfl, Or.inr (Or.inr (by simp [rest, hs.enabled]))⟩
  | stopped hstop => exact ⟨hen, hs.txfifo, hs.rxfifo, Or.inr (Or.inr (by simp [hs.txfifo, rest, hs.enabled]))⟩

theorem Core.Calm.writeCtrl {s : Core} (hs : s.Calm) {v : BitVec 6} (hc : enables v = true) : (s.writeCtrl v).Fresh := by
  refine ⟨hc, hs.txfifo, hs.rxfifo, ?_⟩
  have hparked := hs.parked
  simp only [Parked, idleState_iff] at hparked
  rcases hparked with h | h | h | h
  · exact Or.inr (Or.inl (by simp [Core.writeCtrl, h]))
  · exact Or.inl (by simp [Core.writeCtrl, h])
  · exact Or.inl (by simp [Core.writeCtrl, h, hc, hs.disabled])
  · exact Or.inr (Or.inr (by simp [Core.writeCtrl, h, hc]))

theorem enable_spec : device.Triple Calm enable fun status s => status = i2cSuccess ∧ s.Fresh := by
  refine Triple.bind (R := fun v s => v &&& ctrlEnMsk = 0 ∧ s.Calm) ?_ fun v => Triple.ite (fun hv => ?_) fun _ => ?_
  · refine Triple.get Calm.stable fun u v t hu hread => ?_
    obtain ⟨_, hread⟩ := hread
    cases hread
    refine ⟨?_, hu⟩
    by_contra hen
    rw [← ne_eq, ctrl_enabled] at hen
    exact absurd (hu.disabled.symm.trans hen) (by decide)
  · exact fun s hs => absurd hs.1 hv
  · refine Triple.bind (R := fun _ => Fresh) ?_ fun _ => Triple.ret fun s hs => ⟨rfl, hs⟩
    exact (iormwCtrl_spec Calm.stable fun s hs => hs.writeCtrl (ctrl_enable s.ctrl)).conseq (fun s hs => hs.2) fun _ _ h => h

theorem begin_spec : device.Triple Calm (begin false) fun status s => status = i2cSuccess ∧ s.Going [] [] := by
  refine Triple.bind enable_spec fun status => Triple.ite (fun hne => ?_) fun _ => ?_
  · exact fun s hs => absurd hs.1 hne
  · refine Triple.bind (R := fun _ s => s.Going [] []) ?_ fun _ => Triple.ret fun s hs => ⟨rfl, hs⟩
    refine (Triple.put Core.Fresh.stable fun u t hu hwrite => ?_).conseq (fun s hs => hs.2) fun _ _ h => h
    change u.writeIsr isrAllClearableIntsMsk = t at hwrite
    rw [isr_clear] at hwrite
    subst hwrite
    refine ⟨hu.enabled, Or.inr ⟨rfl, .waiting ?_ hu.txfifo hu.rxfifo rfl⟩⟩
    rcases hu.fsm with h | h | h
    · exact Or.inl h
    · exact Or.inr (Or.inl h)
    · exact Or.inr (Or.inr ⟨h, rfl⟩)

/-! ### A command -/

/-- What a command puts in the FIFO. -/
def word (val : BitVec 8) (issueRestart issueStop : Bool) : BitVec 10 := (command val issueRestart issueStop).setWidth 10

section Word
variable (val : BitVec 8) (issueRestart issueStop : Bool)

theorem word_stop : stopCmd (word val issueRestart issueStop) = issueStop := by
  revert val
  cases issueRestart <;> cases issueStop <;> decide

theorem word_restart : restartCmd (word val issueRestart issueStop) = issueRestart := by
  revert val
  cases issueRestart <;> cases issueStop <;> decide

theorem word_byte : (word val issueRestart issueStop).setWidth 8 = val := by
  revert val
  cases issueRestart <;> cases issueStop <;> decide

theorem word_rw : rwCmd (word val issueRestart issueStop) = val.getLsbD 0 := by
  revert val
  cases issueRestart <;> cases issueStop <;> decide

end Word

section Command
variable {cmds : List (BitVec 10)} {popped : List (BitVec 8)} {s : Core}

/-- A command that finds room joins the others, unless the message has been aborted. -/
theorem Core.Going.put (hs : s.Going cmds popped) (hopen : Open cmds) (hroom : s.txfifo.length < fifoDepth)
    (w : BitVec 10) : (s.putTxfifo w).Going (cmds ++ [w]) popped := by
  rcases hs.message with hflushed | ⟨hflush, htransit⟩
  · rw [putTxfifo, if_pos (Or.inl hflushed.flag)]
    exact ⟨hs.enabled, Or.inl hflushed⟩
  · rw [putTxfifo, if_neg (by simp [hflush, hroom])]
    refine ⟨hs.enabled, Or.inr ⟨hflush, ?_⟩⟩
    have hnot : ¬∃ w ∈ cmds, stopCmd w = true := fun ⟨w, hw, hstop⟩ => absurd ((hopen w hw).symm.trans hstop) (by decide)
    cases htransit with
    | waiting hfsm htx hrx hpopped =>
      refine .waiting ?_ (by rw [htx]) hrx hpopped
      rcases hfsm with h | h | ⟨h, -⟩
      · exact Or.inl (by simp [h])
      · exact Or.inr (Or.inl (by simp [h]))
      · exact Or.inl (by simp [h])
    | shifting sent v hfsm hsent hcmds =>
      exact .shifting sent v (by simp [hfsm]) ⟨hsent.acked, hsent.spells, hsent.dir, hsent.bytes⟩ (by simp [hcmds])
    | holding sent hfsm hsent hcmds =>
      exact .holding sent (by simp [hfsm]) ⟨hsent.acked, hsent.spells, hsent.dir, hsent.bytes⟩ (by simp [hcmds])
    | stopping _ _ _ hstop => exact absurd hstop hnot
    | done _ _ _ _ _ hstop => exact absurd hstop hnot

/-- The abort flags, read after a command. -/
theorem check_spec (hlast : StopsLast cmds) : device.Triple (Going cmds popped)
    (do
      let status ← checkNack i2cSuccess
      checkArblost status)
    (Result (Going cmds popped)) := by
  have hstable := going_stable popped hlast
  refine Triple.bind (R := Result (Going cmds popped)) ?_ fun status => ?_
  · refine Triple.bind (R := fun v s => s.Going cmds popped ∧ (v &&& isrNackDetMsk ≠ 0 → s.nackDet = true)) ?_ fun v => ?_
    · exact getIsr_spec hstable fun s hs => ⟨hs, isr_nackDet.mp⟩
    · refine Triple.ret fun s hs => ?_
      split
      · rename_i hv
        exact Or.inr (.aborted (Or.inl rfl) hs.1.enabled (hs.1.sound (by simp [flushTxfifo, hs.2 hv])))
      · exact Or.inl ⟨rfl, hs.1⟩
  · refine Triple.bind (R := fun v s => Result (Going cmds popped) status s ∧
      (v &&& isrArblostDetMsk ≠ 0 → s.arblostDet = true)) ?_ fun v => ?_
    · exact getIsr_spec (Result.stable hstable status) fun s hs => ⟨hs, isr_arblostDet.mp⟩
    · refine Triple.ret fun s hs => ?_
      split
      · rename_i hv
        have hgoing : ∃ cmds popped, s.Going cmds popped := by
          rcases hs.1 with ⟨-, h⟩ | h
          · exact ⟨cmds, popped, h⟩
          · obtain ⟨cmds, popped, -, h⟩ := h.going
            exact ⟨cmds, popped, h⟩
        obtain ⟨cmds, popped, h⟩ := hgoing
        exact Or.inr (.aborted (Or.inr rfl) h.enabled (h.sound (by simp [flushTxfifo, hs.2 hv])))
      · exact hs.1

/-- A command is written when the FIFO says that it is ready, so that none is lost; or the driver gives up. -/
theorem cmdWrite_spec (hopen : Open cmds) (val : BitVec 8) (issueRestart issueStop : Bool) :
    device.Triple (Going cmds popped) (cmdWrite val issueRestart issueStop)
      (Result (Going (cmds ++ [word val issueRestart issueStop]) popped)) := by
  have hstable := going_stable popped hopen.stopsLast
  refine Triple.bind (R := fun ok (s : Core) => if ok = true then s.Going cmds popped ∧ s.txfifo.length < fifoDepth
    else s.Going cmds popped) ?_ fun ok => Triple.ite (fun hok => ?_) fun hok => ?_
  · refine Triple.poll hstable (fun u v t hu hread => ?_) _
    obtain ⟨_, hread⟩ := hread
    cases hread
    split
    · exact hu
    · rename_i hready
      simp only [decide_eq_true_eq, isr_txReady, Bool.not_eq_false] at hready
      exact ⟨hu, (room_of_txReady hready).1⟩
  · subst hok
    refine Triple.bind (R := fun _ => Going (cmds ++ [word val issueRestart issueStop]) popped) ?_ fun _ =>
      check_spec (hopen.snoc_stopsLast _)
    refine Triple.put (P := fun s : Core => s.Going cmds popped ∧ s.txfifo.length < fifoDepth) ?_ fun u t hu hwrite => ?_
    · intro s t hmove hs
      obtain ⟨m, hm⟩ := hmove
      exact ⟨hs.1.step hopen.stopsLast (step_of_move hm),
        Nat.lt_of_le_of_lt (step_of_move hm).txfifo_length_le hs.2⟩
    · cases hwrite
      exact hu.1.put hopen hu.2 _
  · refine Triple.ret fun s hs => Or.inr (.late cmds popped hopen.stopsLast ?_)
    simpa [hok] using hs

end Command

end EcranMagique.AvalonI2c
