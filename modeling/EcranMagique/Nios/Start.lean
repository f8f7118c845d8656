import EcranMagique.Lib.Trace
import EcranMagique.Nios

/-! What the LEDs show when the accelerometer may not be configured. The opening, the read of the identifier
    and every read of the measuring loop are checked, and a failure of theirs shows as an error pattern or as
    dark LEDs; what the two configuration writes report is dropped, so that a later read that succeeds shows
    a level all the same. -/

namespace EcranMagique.Nios
open Trace

/-! ### What a trace shows -/

/-- All that `main` has done after `n` iterations of its endless loop. -/
def trace (bus : Bus) (n : Nat) : List Effect := (main bus n).2.2

def ledShown : Effect → Option (BitVec 32)
  | .iowr v => some v
  | _ => none

/-- Dark LEDs, and the patterns of the two error loops. -/
def errorPatterns : List (BitVec 32) := [0, allLeds, (1#32 <<< 0) ||| (1#32 <<< (nLeds - 1))]

def IsLevel (e : Effect) : Prop := ∃ k : Nat, k < nLeds ∧ e = ledsWrite (level k)

def Failed : Effect → Prop
  | .i2cOpen found => found = false
  | .masterTx _ status => status ≠ i2cSuccess
  | .masterTxRx _ _ status => status ≠ i2cSuccess
  | _ => False

/-- The opening, the read of the identifier and the two configuration writes have all reported success. -/
structure Configured (bus : Bus) (done : List Effect) : Prop where
  opened : .i2cOpen true ∈ done
  devid : .masterTxRx [regDevid] 1 i2cSuccess ∈ done
  value : bus.devid.rx 0 = 0xE5#8
  dataFormat : .masterTx [regDataFormat, 0x08] i2cSuccess ∈ done
  powerCtl : .masterTx [regPowerCtl, 0x08] i2cSuccess ∈ done

/-- In the first `n` iterations levels are only shown once the accelerometer is configured, and the write to
    the LED port that follows a failure, which comes with the next iteration at the latest, is an error
    pattern or dark. -/
structure Guarded (bus : Bus) (n : Nat) : Prop where
  levels : ∀ pre e post, trace bus n = pre ++ e :: post → IsLevel e → Configured bus pre
  failures : ∀ pre e post, trace bus n = pre ++ e :: post → Failed e →
    ∀ v, post.findSome? ledShown = some v → v ∈ errorPatterns
  shown : ∀ pre e post, trace bus n = pre ++ e :: post → Failed e →
    ∃ more v, trace bus (n + 1) = pre ++ e :: (post ++ more) ∧ (post ++ more).findSome? ledShown = some v

/-! ### What a lap does -/

def lapDone (bus : Bus) (k : Nat) : List Effect := (lap (main bus k).1 (main bus k).2.1 (bus.data k)).2

theorem level_not_error {k : Nat} (hk : k < nLeds) : ledsApplyPolarity (level k) ∉ errorPatterns := by
  have h : ∀ k < nLeds, ledsApplyPolarity (level (k : Nat)) ∉ errorPatterns := by decide
  exact h k hk

/-- Nothing but error patterns and dark LEDs is shown. -/
def Dark (l : List Effect) : Prop := ∀ v, .iowr v ∈ l → v ∈ errorPatterns

theorem Dark.not_level {l : List Effect} (h : Dark l) {e : Effect} (he : e ∈ l) : ¬IsLevel e := by
  rintro ⟨k, hk, rfl⟩
  exact level_not_error hk (h _ he)

theorem Dark.findSome? {l : List Effect} (h : Dark l) {v : BitVec 32} (hv : l.findSome? ledShown = some v) :
    v ∈ errorPatterns := by
  obtain ⟨e, he, hshown⟩ := List.exists_of_findSome?_eq_some hv
  cases e <;> cases hshown
  exact h v he

theorem measure_of_failed {s : Nios} {r : Reply 6} (h : r.status ≠ i2cSuccess) :
    (measure s r).2 = [i2cReadMulti regDatax0 r, ledsWrite 0, .usleep 30000] := by
  simp only [measure, h, if_false]

/-- A lap whose read succeeds ends with a level, and does nothing but show and wait after the read. -/
theorem measure_of_succeeded {s : Nios} {r : Reply 6} (h : r.status = i2cSuccess) :
    ∃ shown e, (measure s r).2 = i2cReadMulti regDatax0 r :: (shown ++ [e, .usleep 30000]) ∧ IsLevel e ∧
      (shown = [] ∨ shown = wipeAnimation) := by
  have hrange := yToLedIndex_range (int16 (r.rx 3) (r.rx 2))
  obtain ⟨k, hk⟩ := Int.eq_ofNat_of_zero_le hrange.1
  have hlevel : IsLevel (ledsWrite (level (yToLedIndex (int16 (r.rx 3) (r.rx 2))))) := ⟨k, by omega, by rw [hk]⟩
  refine ⟨(detect s.isFlipped (int16 (r.rx 5) (r.rx 4))).2, _, ?_, hlevel, ?_⟩
  · simp only [measure, h, if_true]
  · unfold detect
    split_ifs
    · exact Or.inr rfl
    · exact Or.inl rfl
    · exact Or.inl rfl

/-- Neither a transaction nor the opening of the device. -/
def Local : Effect → Prop
  | .iowr _ => True
  | .usleep _ => True
  | _ => False

theorem not_failed_of_local {e : Effect} (h : Local e) : ¬Failed e := by
  cases e <;> first | exact h.elim | exact id

theorem local_flash {v : BitVec 32} {us : Nat} : ∀ e ∈ flash v us, Local e := by
  simp [flash, ledsWrite, Local]

theorem local_wipeAnimation : ∀ e ∈ wipeAnimation, Local e := by
  intro e he
  rcases List.mem_append.mp he with hout | hflash
  · obtain ⟨i, -, hi⟩ := List.mem_flatMap.mp hout
    simp only [List.mem_cons, List.not_mem_nil, or_false] at hi
    rcases hi with rfl | rfl <;> exact trivial
  · obtain ⟨l, hl, hel⟩ := List.mem_flatten.mp hflash
    rw [(List.mem_replicate.mp hl).2] at hel
    exact local_flash e hel

/-- The only transaction of an iteration is the read of its sample. -/
theorem measure_spec (s : Nios) (r : Reply 6) :
    ∃ rest, (measure s r).2 = i2cReadMulti regDatax0 r :: rest ∧ ∀ e ∈ rest, Local e := by
  by_cases h : r.status = i2cSuccess
  · obtain ⟨shown, e, hdone, ⟨k, -, rfl⟩, hshown⟩ := measure_of_succeeded (s := s) h
    refine ⟨_, hdone, fun e he => ?_⟩
    rcases List.mem_append.mp he with he | he
    · rcases hshown with rfl | rfl
      · cases he
      · exact local_wipeAnimation e he
    · simp only [List.mem_cons, List.not_mem_nil, or_false] at he
      rcases he with rfl | rfl <;> exact trivial
  · exact ⟨_, measure_of_failed h, by simp [ledsWrite, Local]⟩

theorem answered_measure (s : Nios) (r : Reply 6) : Answered Failed ledShown (· ∈ errorPatterns) (measure s r).2 := by
  obtain ⟨rest, hdone, hlocal⟩ := measure_spec s r
  have hsilent : Answered Failed ledShown (· ∈ errorPatterns) rest :=
    answered_of_silent fun e he => not_failed_of_local (hlocal e he)
  rw [hdone]
  refine ⟨fun hfail => ?_, hsilent⟩
  rw [measure_of_failed hfail] at hdone
  obtain ⟨-, rfl⟩ := List.cons.inj hdone
  exact ⟨0, rfl, by decide⟩

/-! ### Runs -/

section Runs
variable {bus : Bus} {n : Nat} {e : Effect}

theorem startUp_of_probed (h : Probed bus) : (startUp bus).1 = .measuring ∧ (startUp bus).2.2 =
    [.i2cOpen true, .targetSet adxl345Addr, .masterTxRx [regDevid] 1 i2cSuccess,
      .masterTx [regDataFormat, 0x08] bus.dataFormat, .masterTx [regPowerCtl, 0x08] bus.powerCtl,
      .usleep 10000] := by
  obtain ⟨hdev, hstatus, hvalue⟩ := h
  simp [startUp, hdev, hstatus, hvalue, i2cReadReg, i2cWriteReg]

theorem startUp_measuring_iff : (startUp bus).1 = .measuring ↔ Probed bus := by
  unfold startUp Probed
  dsimp only
  by_cases hdev : bus.device = false
  · simp [hdev]
  · rw [if_neg hdev]
    split_ifs with hbad
    · simp only [false_iff]
      exact fun hp => hbad.elim (fun hs => hs hp.2.1) (fun hv => hv hp.2.2)
    · rw [not_or, not_not, not_not] at hbad
      exact iff_of_true rfl ⟨Bool.eq_true_of_not_eq_false hdev, hbad⟩

theorem iowr_not_mem_startUp (v : BitVec 32) : .iowr v ∉ (startUp bus).2.2 := by
  unfold startUp
  dsimp only
  split_ifs <;> simp [i2cReadReg, i2cWriteReg]

theorem trace_succ : trace bus (n + 1) = trace bus n ++ lapDone bus n := rfl

theorem loop_main : (main bus n).1 = (startUp bus).1 := by
  induction n with
  | zero => rfl
  | succ n ih => exact ih

theorem variables_main : (main bus (n + 1)).2.1 = (lap (startUp bus).1 (main bus n).2.1 (bus.data n)).1 := by
  rw [← loop_main (n := n)]
  rfl

theorem mem_trace : e ∈ trace bus n ↔ e ∈ (startUp bus).2.2 ∨ ∃ k < n, e ∈ lapDone bus k := by
  induction n with
  | zero => simp [trace, main]
  | succ n ih =>
    rw [trace_succ, List.mem_append, ih, or_assoc]
    simp only [Nat.lt_succ_iff_lt_or_eq, or_and_right, exists_or, exists_eq_left]

theorem lapDone_of_probed (h : Probed bus) (k : Nat) : ∃ s, lapDone bus k = (measure s (bus.data k)).2 := by
  refine ⟨(main bus k).2.1, ?_⟩
  rw [lapDone, loop_main, startUp_measuring_iff.mpr h, lap]

theorem lapDone_of_not_probed (h : ¬Probed bus) (k : Nat) :
    ∃ v us, lapDone bus k = flash v us ∧ ledsApplyPolarity v ∈ errorPatterns := by
  rw [lapDone, loop_main]
  match hloop : (startUp bus).1 with
  | .noDevice => exact ⟨_, _, rfl, by decide⟩
  | .badDevid => exact ⟨_, _, rfl, by decide⟩
  | .measuring => exact absurd (startUp_measuring_iff.mp hloop) h

theorem dark_lapDone {k : Nat} (h : Probed bus → (bus.data k).status ≠ i2cSuccess) : Dark (lapDone bus k) := by
  intro v hv
  by_cases hp : Probed bus
  · obtain ⟨s, hs⟩ := lapDone_of_probed hp k
    rw [hs, measure_of_failed (h hp)] at hv
    simp only [i2cReadMulti, ledsWrite, List.mem_cons, reduceCtorEq, Effect.iowr.injEq, List.not_mem_nil, or_false,
      false_or] at hv
    rw [hv]
    decide
  · obtain ⟨u, us, hlap, hu⟩ := lapDone_of_not_probed hp k
    rw [hlap] at hv
    simp only [flash, ledsWrite, List.mem_cons, reduceCtorEq, Effect.iowr.injEq, List.not_mem_nil, or_false,
      false_or] at hv
    rcases hv with rfl | rfl
    · exact hu
    · decide

theorem exists_iowr_mem_lapDone (bus : Bus) (k : Nat) : ∃ v, .iowr v ∈ lapDone bus k := by
  by_cases hp : Probed bus
  · obtain ⟨s, hs⟩ := lapDone_of_probed hp k
    rw [hs]
    by_cases h : (bus.data k).status = i2cSuccess
    · obtain ⟨shown, e, hdone, ⟨i, -, rfl⟩, -⟩ := measure_of_succeeded (s := s) h
      exact ⟨ledsApplyPolarity (level i), by simp [hdone, ledsWrite]⟩
    · exact ⟨ledsApplyPolarity 0, by simp [measure_of_failed h, ledsWrite]⟩
  · obtain ⟨v, us, hlap, -⟩ := lapDone_of_not_probed hp k
    exact ⟨ledsApplyPolarity v, by rw [hlap]; exact List.mem_cons_self⟩

/-! ### Failures at the start -/

theorem dark_trace (h : Probed bus → ∀ k < n, (bus.data k).status ≠ i2cSuccess) : Dark (trace bus n) := by
  intro v hv
  rcases mem_trace.mp hv with hstart | ⟨k, hk, hlap⟩
  · exact absurd hstart (iowr_not_mem_startUp v)
  · exact dark_lapDone (fun hp => h hp k hk) v hlap

theorem startUp_prefix (bus : Bus) (n : Nat) : (startUp bus).2.2 <+: trace bus n := by
  induction n with
  | zero => exact List.prefix_refl _
  | succ n ih => exact ih.trans (List.prefix_append _ _)

theorem configured_of_level (hp : Probed bus) (hconf : bus.dataFormat = i2cSuccess ∧ bus.powerCtl = i2cSuccess)
    {pre post : List Effect} (hsplit : trace bus n = pre ++ e :: post) (he : IsLevel e) : Configured bus pre := by
  obtain ⟨rest, hrest⟩ := startUp_prefix bus n
  obtain ⟨k, -, rfl⟩ := he
  have hpre := prefix_of_split (hrest.trans hsplit) (iowr_not_mem_startUp _)
  rw [(startUp_of_probed hp).2, hconf.1, hconf.2] at hpre
  have hmem := hpre.subset
  exact ⟨hmem (by simp), hmem (by simp), hp.2.2, hmem (by simp), hmem (by simp)⟩

theorem answered_trace (hp : Probed bus) (hconf : bus.dataFormat = i2cSuccess ∧ bus.powerCtl = i2cSuccess) (n : Nat) :
    Answered Failed ledShown (· ∈ errorPatterns) (trace bus n) := by
  induction n with
  | zero =>
    rw [trace, main, (startUp_of_probed hp).2, hconf.1, hconf.2]
    exact answered_of_silent (by simp [Failed])
  | succ n ih =>
    obtain ⟨s, hs⟩ := lapDone_of_probed hp n
    rw [trace_succ, hs]
    exact ih.append (answered_measure s (bus.data n))

theorem masterTx_mem_trace (hp : Probed bus) {buf : List (BitVec 8)} {status : Status}
    (h : .masterTx buf status ∈ trace bus n) :
    buf = [regDataFormat, 0x08] ∧ status = bus.dataFormat ∨ buf = [regPowerCtl, 0x08] ∧ status = bus.powerCtl := by
  rcases mem_trace.mp h with hstart | ⟨k, -, hlap⟩
  · rw [(startUp_of_probed hp).2] at hstart
    simpa using hstart
  · obtain ⟨s, hs⟩ := lapDone_of_probed hp k
    obtain ⟨rest, hdone, hlocal⟩ := measure_spec s (bus.data k)
    rw [hs, hdone, List.mem_cons] at hlap
    rcases hlap with hread | hrest
    · cases hread
    · exact (hlocal _ hrest).elim

theorem statuses_of_configured (hp : Probed bus) (h : Configured bus (trace bus n)) :
    bus.dataFormat = i2cSuccess ∧ bus.powerCtl = i2cSuccess := by
  constructor
  · rcases masterTx_mem_trace hp h.dataFormat with ⟨-, hs⟩ | ⟨hbuf, -⟩
    · exact hs.symm
    · exact absurd hbuf (by decide)
  · rcases masterTx_mem_trace hp h.powerCtl with ⟨hbuf, -⟩ | ⟨-, hs⟩
    · exact absurd hbuf (by decide)
    · exact hs.symm

theorem level_mem_trace (hp : Probed bus) {k : Nat} (hk : k < n) (h : (bus.data k).status = i2cSuccess) :
    ∃ e ∈ trace bus n, IsLevel e := by
  obtain ⟨s, hs⟩ := lapDone_of_probed hp k
  obtain ⟨shown, e, hdone, he, -⟩ := measure_of_succeeded (s := s) h
  exact ⟨e, mem_trace.mpr (Or.inr ⟨k, hk, by simp [hs, hdone]⟩), he⟩

theorem Configured.mono {done more : List Effect} (h : Configured bus done) (hsub : done ⊆ more) :
    Configured bus more :=
  ⟨hsub h.opened, hsub h.devid, h.value, hsub h.dataFormat, hsub h.powerCtl⟩

theorem shown_next {pre post : List Effect} (h : trace bus n = pre ++ e :: post) :
    ∃ more v, trace bus (n + 1) = pre ++ e :: (post ++ more) ∧ (post ++ more).findSome? ledShown = some v := by
  obtain ⟨u, hu⟩ := exists_iowr_mem_lapDone bus n
  have hsome : ((post ++ lapDone bus n).findSome? ledShown).isSome = true :=
    List.findSome?_isSome_iff.mpr ⟨.iowr u, List.mem_append_right post hu, rfl⟩
  obtain ⟨v, hv⟩ := Option.isSome_iff_exists.mp hsome
  exact ⟨lapDone bus n, v, by rw [trace_succ, h, List.append_assoc, List.cons_append], hv⟩

end Runs

/-- The LEDs are guarded exactly when both configuration writes succeed, or a failure of theirs has nothing to
    show: the program does not get as far as them, or no read of a sample has succeeded yet. -/
theorem guarded_iff (bus : Bus) (n : Nat) : Guarded bus n ↔
    (Probed bus → (bus.dataFormat = i2cSuccess ∧ bus.powerCtl = i2cSuccess) ∨
      ∀ k < n, (bus.data k).status ≠ i2cSuccess) := by
  constructor
  · intro hguard hp
    by_contra hbad
    rw [not_or] at hbad
    simp only [not_forall, not_not] at hbad
    obtain ⟨hconf, k, hk, hread⟩ := hbad
    obtain ⟨e, he, hlevel⟩ := level_mem_trace hp hk hread
    obtain ⟨pre, post, hsplit⟩ := List.append_of_mem he
    have hpre : pre ⊆ trace bus n := by
      rw [hsplit]
      exact List.subset_append_left _ _
    exact hconf (statuses_of_configured hp ((hguard.levels pre e post hsplit hlevel).mono hpre))
  · intro hcond
    by_cases hgood : Probed bus ∧ bus.dataFormat = i2cSuccess ∧ bus.powerCtl = i2cSuccess
    · obtain ⟨hp, hconf⟩ := hgood
      refine ⟨fun pre e post hsplit he => configured_of_level hp hconf hsplit he, fun pre e post hsplit he v hv => ?_,
        fun pre e post hsplit _ => shown_next hsplit⟩
      obtain ⟨u, hu, herror⟩ := (answered_trace hp hconf n).split hsplit he
      rw [hv] at hu
      cases hu
      exact herror
    · have hdark : Dark (trace bus n) := dark_trace fun hp => (hcond hp).resolve_left fun hconf => hgood ⟨hp, hconf⟩
      refine ⟨fun pre e post hsplit he => ?_, fun pre e post hsplit _ v hv => ?_,
        fun pre e post hsplit _ => shown_next hsplit⟩
      · exact absurd he (hdark.not_level (by rw [hsplit]; simp))
      · have hpost : Dark post := fun v hv => hdark v (by rw [hsplit]; simp [hv])
        exact hpost.findSome? hv

/-- The write of `POWER_CTL` fails and the first read of a sample succeeds: a level is shown. -/
def standby : Bus where
  device := true
  devid := ⟨i2cSuccess, fun _ => 0xE5⟩
  dataFormat := i2cSuccess
  powerCtl := 1
  data _ := ⟨i2cSuccess, fun _ => 0⟩

theorem level_unconfigured : ¬ ∀ (bus : Bus) (n : Nat), Guarded bus n := fun h => by
  have hsplit : trace standby 1 = (startUp standby).2.2 ++ [i2cReadMulti regDatax0 (standby.data 0)] ++
      ledsWrite (level 4) :: [.usleep 30000] := by decide
  have hpower := ((h standby 1).levels _ _ _ hsplit ⟨4, by decide, rfl⟩).powerCtl
  revert hpower
  decide

end EcranMagique.Nios
