import EcranMagique.AvalonI2c.Core

/-! How far a message has come: the commands that the driver has written are those that the automaton has taken and
    those that are still in the FIFO, the message on the bus spells the former, and the bytes that the slave has sent
    are in the driver's buffer or on their way to it. -/

namespace EcranMagique.AvalonI2c.Core

/-! ### What commands spell -/

/-- The commands `ws`, after a direction, spell the bytes `items` on the bus. -/
def Spells : Option Bool → List (BitVec 10) → List Item → Prop
  | _, [], items => items = []
  | _, _ :: _, [] => False
  | dir, w :: ws, i :: items =>
    i.role = role dir w ∧ (i.role ≠ .rx → i.byte = w.setWidth 8) ∧ Spells (turn dir w) ws items

/-- The bytes of the slave. -/
def received (items : List Item) : List (BitVec 8) := (items.filter fun i => i.role = .rx).map Item.byte

/-- The bytes that commands ask for. -/
def asked : Option Bool → List (BitVec 10) → Nat
  | _, [] => 0
  | dir, w :: ws => (if role dir w = .rx then 1 else 0) + asked (turn dir w) ws

section Spells
variable {dir : Option Bool} {ws : List (BitVec 10)} {items : List Item} {w : BitVec 10} {i : Item}

theorem turn_addr (h : role dir w = .addr) : turn dir w = some (rwCmd w) := if_pos h

theorem Spells.snoc (h : Spells dir ws items) (hrole : i.role = role (ws.foldl turn dir) w)
    (hbyte : i.role ≠ .rx → i.byte = w.setWidth 8) : Spells dir (ws ++ [w]) (items ++ [i]) := by
  induction ws generalizing dir items with
  | nil =>
    obtain rfl : items = [] := h
    exact ⟨hrole, hbyte, rfl⟩
  | cons v ws ih =>
    cases items with
    | nil => exact h.elim
    | cons j items =>
      obtain ⟨hj, hjbyte, hrest⟩ := h
      exact ⟨hj, hjbyte, ih hrest hrole⟩

theorem received_append (items more : List Item) : received (items ++ more) = received items ++ received more := by
  simp [received]

theorem received_singleton (role : Role) (b : BitVec 8) : received [⟨role, b⟩] = if role = .rx then [b] else [] := by
  cases role <;> rfl

theorem Spells.received_length (h : Spells dir ws items) : (received items).length = asked dir ws := by
  induction ws generalizing dir items with
  | nil =>
    obtain rfl : items = [] := h
    rfl
  | cons w ws ih =>
    cases items with
    | nil => exact h.elim
    | cons i items =>
      obtain ⟨hi, -, hrest⟩ := h
      obtain ⟨r, b⟩ := i
      obtain rfl : r = role dir w := hi
      rw [← List.singleton_append, received_append, List.length_append, ih hrest, received_singleton, asked]
      split <;> rfl

theorem asked_append (dir : Option Bool) (ws vs : List (BitVec 10)) :
    asked dir (ws ++ vs) = asked dir ws + asked (ws.foldl turn dir) vs := by
  induction ws generalizing dir with
  | nil => exact (Nat.zero_add _).symm
  | cons w ws ih => rw [List.cons_append, asked, asked, ih, List.foldl_cons, Nat.add_assoc]

end Spells

/-! ### Steps of the automaton -/

/-- What a move can do. -/
inductive Step (s : Core) : Core → Prop where
  | start (w : BitVec 10) (txfifo : List (BitVec 10)) (hfsm : s.fsm = .preStart) (hflush : s.flushTxfifo = false)
      (htx : s.txfifo = w :: txfifo) :
      Step s { s with message := {}, dir := none, txfifo := txfifo, fsm := .shift .addr w }
  | pop (w : BitVec 10) (txfifo : List (BitVec 10)) (hfsm : s.fsm = .busHold) (htx : s.txfifo = w :: txfifo) :
      Step s { s with txfifo := txfifo, fsm := .shift (role s.dir w) w }
  | sent (r : Role) (w : BitVec 10) (hfsm : s.fsm = .shift r w) (hr : r ≠ .rx) : Step s (s.shifted r w (w.setWidth 8))
  | received (w : BitVec 10) (b : BitVec 8) (hfsm : s.fsm = .shift .rx w) : Step s ((s.pushRxfifo b).shifted .rx w b)
  | refused (r : Role) (w : BitVec 10) (hfsm : s.fsm = .shift r w) :
      Step s { s with
        nackDet := true
        txfifo := []
        rxfifo := []
        message := { s.message with acked := false }
        fsm := .genStop }
  | lost (hfsm : s.fsm = .busHold ∨ s.fsm = .genStop ∨ ∃ r w, s.fsm = .shift r w) :
      Step s { s with
        arblostDet := true
        txfifo := []
        rxfifo := []
        message := {}
        fsm := s.rest }
  | stopped (hfsm : s.fsm = .genStop) :
      Step s { s with
        log := s.log ++ [s.message]
        message := {}
        dir := none
        fsm := if s.txfifo = [] then s.rest else .preStart }

section Step
variable {s t : Core} {m : Move}

theorem step_of_move (h : s.move? m = some t) : Step s t := by
  cases m with
  | start =>
    simp only [move?, take] at h
    split at h
    · rename_i hcond
      cases htx : s.txfifo with
      | nil =>
        simp only [htx, reduceCtorEq] at h
      | cons w txfifo =>
        simp only [htx, Option.some.injEq] at h
        subst h
        exact .start w txfifo hcond.1 hcond.2 htx
    · cases h
  | pop =>
    simp only [move?, take] at h
    split at h
    · rename_i hcond
      cases htx : s.txfifo with
      | nil =>
        simp only [htx, reduceCtorEq] at h
      | cons w txfifo =>
        simp only [htx, Option.some.injEq] at h
        subst h
        exact .pop w txfifo hcond htx
    · cases h
  | ack =>
    cases hfsm : s.fsm <;> simp only [move?, hfsm, reduceCtorEq] at h
    rename_i r w
    cases r <;> simp only [reduceCtorEq, Option.some.injEq] at h <;> subst h
    · exact .sent .addr w hfsm (by decide)
    · exact .sent .tx w hfsm (by decide)
  | noAck =>
    cases hfsm : s.fsm <;> simp only [move?, hfsm, reduceCtorEq] at h
    rename_i r w
    cases r <;> simp only [reduceCtorEq, Option.some.injEq] at h <;> subst h <;> exact .refused _ w hfsm
  | data b =>
    cases hfsm : s.fsm <;> simp only [move?, hfsm, reduceCtorEq] at h
    rename_i r w
    cases r <;> simp only [reduceCtorEq, Option.some.injEq] at h
    subst h
    exact .received w b hfsm
  | arbLost =>
    cases hfsm : s.fsm <;> simp only [move?, hfsm, reduceCtorEq, Option.some.injEq] at h <;> subst h
    · exact .lost (Or.inl hfsm)
    · exact .lost (Or.inr (Or.inl hfsm))
    · exact .lost (Or.inr (Or.inr ⟨_, _, hfsm⟩))
  | stopDone =>
    simp only [move?] at h
    split at h
    · rename_i hfsm
      cases h
      exact .stopped hfsm
    · cases h

@[simp] theorem pushRxfifo_ctrl (b : BitVec 8) : (s.pushRxfifo b).ctrl = s.ctrl := by
  unfold pushRxfifo
  split
  · rfl
  · split <;> rfl

/-- The control register is the driver's. -/
theorem Step.ctrl (h : Step s t) : t.ctrl = s.ctrl := by
  cases h with
  | received w b hfsm => exact pushRxfifo_ctrl b
  | _ => rfl

/-- The core only takes from the command FIFO. -/
theorem Step.txfifo_length_le (h : Step s t) : t.txfifo.length ≤ s.txfifo.length := by
  cases h with
  | start w txfifo hfsm hflush htx => simp [htx]
  | pop w txfifo hfsm htx => simp [htx]
  | received w b hfsm =>
    simp only [shifted, pushRxfifo]
    split
    · exact Nat.le_refl _
    · split <;> exact Nat.le_refl _
  | refused r w hfsm => exact Nat.zero_le _
  | lost hfsm => exact Nat.zero_le _
  | _ => exact Nat.le_refl _

end Step

/-! ### An aborted message -/

/-- The automaton takes no command from an empty FIFO and has none at work. -/
def Parked (s : Core) : Prop := s.fsm = .genStop ∨ s.fsm = .preStart ∨ s.idleState = true

/-- An abort is flagged and not yet cleared. -/
structure Flushed (s : Core) : Prop where
  flag : s.flushTxfifo = true
  txfifo : s.txfifo = []
  rxfifo : s.rxfifo = []
  parked : s.Parked

section Flushed
variable {s t : Core}

theorem idleState_iff : s.idleState = true ↔ s.fsm = .idle ∨ s.fsm = .preIdle := by
  simp [idleState]

theorem parked_rest (s : Core) {t : Core} (h : t.fsm = s.rest) : t.Parked := by
  refine Or.inr (Or.inr ?_)
  simp only [idleState, h, rest]
  split <;> decide

theorem Parked.not_shift (hs : s.Parked) {r : Role} {w : BitVec 10} : s.fsm ≠ .shift r w := by
  simp only [Parked, idleState_iff] at hs
  rcases hs with h | h | h | h <;> simp [h]

theorem Flushed.step (hs : s.Flushed) (h : Step s t) : t.Flushed := by
  cases h with
  | start w txfifo hpre hflush htx => rw [hs.txfifo] at htx; cases htx
  | pop w txfifo hhold htx => rw [hs.txfifo] at htx; cases htx
  | sent r w hshift hr => exact absurd hshift hs.parked.not_shift
  | received w b hshift => exact absurd hshift hs.parked.not_shift
  | refused r w hshift => exact absurd hshift hs.parked.not_shift
  | lost hactive => exact ⟨by simp [flushTxfifo], rfl, rfl, parked_rest s rfl⟩
  | stopped hstop => exact ⟨hs.flag, hs.txfifo, hs.rxfifo, parked_rest s (by simp [hs.txfifo])⟩

/-- A byte that has come stays until the driver takes it, unless the message is aborted. -/
theorem Step.rxfifo (h : Step s t) : s.rxfifo <+: t.rxfifo ∨ t.Flushed := by
  cases h with
  | received w b hfsm =>
    left
    simp only [shifted, pushRxfifo]
    split
    · exact List.prefix_refl _
    · split
      · exact List.prefix_refl _
      · exact List.prefix_append _ _
  | refused r w hfsm => exact Or.inr ⟨by simp [flushTxfifo], rfl, rfl, Or.inl rfl⟩
  | lost hfsm => exact Or.inr ⟨by simp [flushTxfifo], rfl, rfl, parked_rest s rfl⟩
  | _ => exact Or.inl (List.prefix_refl _)

end Flushed

/-! ### A message on its way -/

/-- The automaton has taken the commands `sent` and put them on the bus. -/
structure Sent (sent : List (BitVec 10)) (popped : List (BitVec 8)) (s : Core) : Prop where
  acked : s.message.acked = true
  spells : Spells none sent s.message.items
  dir : s.dir = sent.foldl turn none
  bytes : (popped ++ s.rxfifo).Sublist (received s.message.items)

/-- The last message on the bus is `items`, and each byte of the master in it has been acknowledged. -/
def Last (items : List Item) (s : Core) : Prop := ∃ earlier, s.log = earlier ++ [⟨items, true⟩]

/-- It is one that the commands spell. -/
def Delivered (cmds : List (BitVec 10)) (items : List Item) (s : Core) : Prop := s.Last items ∧ Spells none cmds items

/-- The driver has written the commands `cmds` and has read the bytes `popped`. In `waiting` the automaton may still be
    at the stop of an earlier message. -/
inductive Transit (cmds : List (BitVec 10)) (popped : List (BitVec 8)) (s : Core) : Prop where
  | waiting (hfsm : s.fsm = .preStart ∨ s.fsm = .genStop ∨ s.fsm = .preIdle ∧ cmds = []) (htx : s.txfifo = cmds)
      (hrx : s.rxfifo = []) (hpopped : popped = [])
  | shifting (sent : List (BitVec 10)) (w : BitVec 10) (hfsm : s.fsm = .shift (role s.dir w) w)
      (hsent : Sent sent popped s) (hcmds : cmds = sent ++ w :: s.txfifo)
  | holding (sent : List (BitVec 10)) (hfsm : s.fsm = .busHold) (hsent : Sent sent popped s)
      (hcmds : cmds = sent ++ s.txfifo)
  | stopping (hfsm : s.fsm = .genStop) (hsent : Sent cmds popped s) (htx : s.txfifo = [])
      (hstop : ∃ w ∈ cmds, stopCmd w = true)
  | done (items : List Item) (hfsm : s.fsm = .preIdle) (hdelivered : s.Delivered cmds items) (htx : s.txfifo = [])
      (hbytes : (popped ++ s.rxfifo).Sublist (received items)) (hstop : ∃ w ∈ cmds, stopCmd w = true)

/-- None of the commands stops. -/
def Open (cmds : List (BitVec 10)) : Prop := ∀ w ∈ cmds, stopCmd w = false

/-- None but the last does. -/
def StopsLast (cmds : List (BitVec 10)) : Prop := ∀ ws w vs, cmds = ws ++ w :: vs → stopCmd w = true → vs = []

theorem Open.stopsLast {cmds : List (BitVec 10)} (h : Open cmds) : StopsLast cmds := fun ws w vs hcmds hw => by
  rw [h w (by simp [hcmds])] at hw
  cases hw

theorem Open.snoc_stopsLast {cmds : List (BitVec 10)} (h : Open cmds) (w : BitVec 10) : StopsLast (cmds ++ [w]) :=
  fun ws v vs hcmds hv => by
    rcases List.eq_nil_or_concat vs with rfl | ⟨us, u, rfl⟩
    · rfl
    · rw [List.concat_eq_append, ← List.cons_append, ← List.append_assoc] at hcmds
      obtain ⟨hinit, -⟩ := List.append_inj' hcmds rfl
      rw [h v (by simp [hinit])] at hv
      cases hv

/-- Enabled, with an aborted message or one on its way. -/
structure Going (cmds : List (BitVec 10)) (popped : List (BitVec 8)) (s : Core) : Prop where
  enabled : s.ctrlEn = true
  message : s.Flushed ∨ s.flushTxfifo = false ∧ s.Transit cmds popped

section Going
variable {s t : Core} {cmds sent : List (BitVec 10)} {popped : List (BitVec 8)} {w : BitVec 10}

/-- A command that is over: the automaton goes on to the next or to the stop. -/
theorem Sent.shifted {r : Role} {b : BitVec 8} (hs : Sent sent popped s) (hr : r = role s.dir w)
    (hb : r ≠ .rx → b = w.setWidth 8)
    (hbytes : (popped ++ t.rxfifo).Sublist (received s.message.items ++ if r = .rx then [b] else []))
    (hmsg : t.message = { s.message with items := s.message.items ++ [⟨r, b⟩] }) (hdir : t.dir = turn s.dir w) :
    Sent (sent ++ [w]) popped t := by
  refine ⟨?_, ?_, ?_, ?_⟩
  · rw [hmsg]
    exact hs.acked
  · rw [hmsg]
    exact hs.spells.snoc (by rw [← hs.dir]; exact hr) hb
  · rw [hdir, List.foldl_append, ← hs.dir]
    rfl
  · rw [hmsg, received_append, received_singleton]
    exact hbytes

theorem transit_shifted {r : Role} (hsent : Sent (sent ++ [w]) popped t) (hcmds : cmds = sent ++ w :: t.txfifo)
    (hlast : StopsLast cmds) (hfsm : t.fsm = if r ≠ .addr ∧ stopCmd w = true then .genStop else .busHold) :
    t.Transit cmds popped := by
  split at hfsm
  · rename_i hstop
    have htx := hlast sent w t.txfifo hcmds hstop.2
    rw [htx] at hcmds
    exact .stopping hfsm (hcmds ▸ hsent) htx ⟨w, by simp [hcmds], hstop.2⟩
  · exact .holding (sent ++ [w]) hfsm hsent (by rw [hcmds]; simp)

theorem pushRxfifo_sublist {l : List (BitVec 8)} (b : BitVec 8) (h : (popped ++ s.rxfifo).Sublist l) :
    (popped ++ (s.pushRxfifo b).rxfifo).Sublist (l ++ [b]) := by
  unfold pushRxfifo
  split
  · exact h.trans (List.sublist_append_left _ _)
  · split
    · exact h.trans (List.sublist_append_left _ _)
    · rw [← List.append_assoc]
      exact h.append (List.Sublist.refl _)

theorem Transit.step (hs : s.Transit cmds popped) (hlast : StopsLast cmds) (hen : s.ctrlEn = true)
    (hflush : s.flushTxfifo = false) (h : Step s t) : t.Flushed ∨ t.flushTxfifo = false ∧ t.Transit cmds popped := by
  cases h with
  | start w txfifo hfsm hfl htx =>
    refine Or.inr ⟨hflush, ?_⟩
    cases hs with
    | waiting _ hcmds hrx hpopped =>
      exact .shifting [] w rfl ⟨rfl, rfl, rfl, by simp [hpopped, hrx, received]⟩ (by rw [← hcmds, htx]; rfl)
    | shifting _ _ hfsm' => rw [hfsm] at hfsm'; cases hfsm'
    | holding _ hfsm' => rw [hfsm] at hfsm'; cases hfsm'
    | stopping hfsm' => rw [hfsm] at hfsm'; cases hfsm'
    | done _ hfsm' => rw [hfsm] at hfsm'; cases hfsm'
  | pop w txfifo hfsm htx =>
    refine Or.inr ⟨hflush, ?_⟩
    cases hs with
    | waiting hfsm' => simp [hfsm] at hfsm'
    | shifting _ _ hfsm' => rw [hfsm] at hfsm'; cases hfsm'
    | holding sent _ hsent hcmds =>
      exact .shifting sent w rfl ⟨hsent.acked, hsent.spells, hsent.dir, hsent.bytes⟩ (by rw [hcmds, htx])
    | stopping hfsm' => rw [hfsm] at hfsm'; cases hfsm'
    | done _ hfsm' => rw [hfsm] at hfsm'; cases hfsm'
  | sent r w hfsm hr =>
    refine Or.inr ⟨hflush, ?_⟩
    cases hs with
    | waiting hfsm' => simp [hfsm] at hfsm'
    | shifting sent v hfsm' hsent hcmds =>
      rw [hfsm] at hfsm'
      obtain ⟨hrole, rfl⟩ := Fsm.shift.inj hfsm'
      exact transit_shifted (hsent.shifted hrole (fun _ => rfl) (by simpa [Core.shifted, hr] using hsent.bytes) rfl rfl)
        hcmds hlast rfl
    | holding _ hfsm' => rw [hfsm] at hfsm'; cases hfsm'
    | stopping hfsm' => rw [hfsm] at hfsm'; cases hfsm'
    | done _ hfsm' => rw [hfsm] at hfsm'; cases hfsm'
  | received w b hfsm =>
    cases hs with
    | waiting hfsm' => simp [hfsm] at hfsm'
    | shifting sent v hfsm' hsent hcmds =>
      rw [hfsm] at hfsm'
      obtain ⟨hrole, rfl⟩ := Fsm.shift.inj hfsm'
      have hpush : (s.pushRxfifo b).flushTxfifo = s.flushTxfifo ∧ (s.pushRxfifo b).txfifo = s.txfifo ∧
          (s.pushRxfifo b).message = s.message ∧ (s.pushRxfifo b).dir = s.dir := by
        unfold pushRxfifo
        split
        · exact ⟨rfl, rfl, rfl, rfl⟩
        · split <;> exact ⟨rfl, rfl, rfl, rfl⟩
      obtain ⟨hfl, htx, hmsg, hdir⟩ := hpush
      have hrest : cmds = sent ++ w :: ((s.pushRxfifo b).shifted .rx w b).txfifo := by rw [hcmds, ← htx]; rfl
      refine Or.inr ⟨hfl.trans hflush, transit_shifted (r := .rx) ?_ hrest hlast rfl⟩
      exact hsent.shifted hrole (fun h => absurd rfl h) (by simpa [Core.shifted] using pushRxfifo_sublist b hsent.bytes)
        (by simp [Core.shifted, hmsg]) (by simp [Core.shifted, hdir])
    | holding _ hfsm' => rw [hfsm] at hfsm'; cases hfsm'
    | stopping hfsm' => rw [hfsm] at hfsm'; cases hfsm'
    | done _ hfsm' => rw [hfsm] at hfsm'; cases hfsm'
  | refused r w hfsm => exact Or.inl ⟨by simp [flushTxfifo], rfl, rfl, Or.inl rfl⟩
  | lost hfsm => exact Or.inl ⟨by simp [flushTxfifo], rfl, rfl, parked_rest s rfl⟩
  | stopped hfsm =>
    refine Or.inr ⟨hflush, ?_⟩
    cases hs with
    | waiting _ htx hrx hpopped =>
      refine .waiting ?_ htx hrx hpopped
      by_cases hnil : s.txfifo = []
      · exact Or.inr (Or.inr ⟨by simp [hnil, rest, hen], htx.symm.trans hnil⟩)
      · exact Or.inl (by simp [hnil])
    | shifting _ _ hfsm' => rw [hfsm] at hfsm'; cases hfsm'
    | holding _ hfsm' => rw [hfsm] at hfsm'; cases hfsm'
    | stopping _ hsent htx hstop =>
      refine .done s.message.items (by simp [htx, rest, hen]) ⟨⟨s.log, ?_⟩, hsent.spells⟩ htx hsent.bytes hstop
      rw [← hsent.acked]
    | done _ hfsm' => rw [hfsm] at hfsm'; cases hfsm'

theorem Going.step (hs : s.Going cmds popped) (hlast : StopsLast cmds) (h : Step s t) : t.Going cmds popped := by
  refine ⟨?_, ?_⟩
  · rw [ctrlEn, h.ctrl]
    exact hs.enabled
  · rcases hs.message with hflushed | ⟨hflush, htransit⟩
    · exact Or.inl (hflushed.step h)
    · exact htransit.step hlast hs.enabled hflush h

theorem going_stable (popped : List (BitVec 8)) (hlast : StopsLast cmds) : device.Stable (Going cmds popped) :=
  fun _ _ ⟨_, hmove⟩ hs => hs.step hlast (step_of_move hmove)

end Going

end EcranMagique.AvalonI2c.Core
