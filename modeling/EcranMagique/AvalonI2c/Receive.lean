import EcranMagique.AvalonI2c.Transmit

/-! The transactions that receive. The driver never stores a byte outside its buffer, and a reception that reports
    success has filled the buffer with the bytes of the slave, in order and none missing. -/

namespace EcranMagique.AvalonI2c
open Registers Registers.Device EcranMagique.AvalonI2c.Core

def reception (dev : Dev) (bytes : List (BitVec 8)) : List Item :=
  ⟨.addr, addressByte dev 1⟩ :: bytes.map fun b => ⟨.rx, b⟩

/-! ### A byte -/

section Byte
variable {cmds : List (BitVec 10)} {popped buffer : List (BitVec 8)} {s t : Core}

/-- A byte in the FIFO is one that has been asked for and is not in the buffer yet. -/
theorem Core.Going.popped_lt (hs : s.Going cmds popped) (hrx : s.rxfifo ≠ []) : popped.length < asked none cmds := by
  have hpos := List.length_pos_iff.mpr hrx
  have hbound : ∀ {sent rest : List (BitVec 10)}, Sent sent popped s → cmds = sent ++ rest →
      popped.length + s.rxfifo.length ≤ asked none cmds := fun hsent hcmds => by
    have hlen := hsent.bytes.length_le
    rw [List.length_append, hsent.spells.received_length] at hlen
    rw [hcmds, asked_append]
    exact Nat.le_add_right_of_le hlen
  rcases hs.message with hflushed | ⟨-, htransit⟩
  · exact absurd hflushed.rxfifo hrx
  · cases htransit with
    | waiting _ _ hnil => exact absurd hnil hrx
    | shifting sent w _ hsent hcmds => exact Nat.lt_of_lt_of_le (Nat.lt_add_of_pos_right hpos) (hbound hsent hcmds)
    | holding sent _ hsent hcmds => exact Nat.lt_of_lt_of_le (Nat.lt_add_of_pos_right hpos) (hbound hsent hcmds)
    | stopping _ hsent =>
      exact Nat.lt_of_lt_of_le (Nat.lt_add_of_pos_right hpos) (hbound hsent (List.append_nil cmds).symm)
    | done items _ hdelivered _ hbytes =>
      have hlen := hbytes.length_le
      rw [List.length_append, hdelivered.2.received_length] at hlen
      exact Nat.lt_of_lt_of_le (Nat.lt_add_of_pos_right hpos) hlen

/-- A message with a byte to be read, or one that has been aborted since the driver looked. -/
def Core.Filled (cmds : List (BitVec 10)) (popped : List (BitVec 8)) (s : Core) : Prop :=
  s.Going cmds popped ∧ (s.Flushed ∨ s.rxfifo ≠ [])

theorem Core.Filled.stable (hlast : StopsLast cmds) : device.Stable (Filled cmds popped) := fun s t ⟨_, hmove⟩ hs => by
  have hstep := step_of_move hmove
  refine ⟨hs.1.step hlast hstep, ?_⟩
  rcases hs.2 with hflushed | hne
  · exact Or.inl (hflushed.step hstep)
  · rcases hstep.rxfifo with hpfx | hflushed
    · exact Or.inr fun hnil => hne (List.prefix_nil.mp (hnil ▸ hpfx))
    · exact Or.inl hflushed

theorem Core.Going.pop {b : BitVec 8} {rest : List (BitVec 8)} (hs : s.Going cmds popped) (hrx : s.rxfifo = b :: rest) :
    Going cmds (popped ++ [b]) { s with rxfifo := rest } := by
  refine ⟨hs.enabled, ?_⟩
  rcases hs.message with hflushed | ⟨hflush, htransit⟩
  · rw [hflushed.rxfifo] at hrx
    cases hrx
  · have hsent : ∀ {sent : List (BitVec 10)}, Sent sent popped s → Sent sent (popped ++ [b]) { s with rxfifo := rest } :=
      fun h => ⟨h.acked, h.spells, h.dir, by simpa [hrx] using h.bytes⟩
    refine Or.inr ⟨hflush, ?_⟩
    cases htransit with
    | waiting _ _ hnil => rw [hnil] at hrx; cases hrx
    | shifting sent w hfsm h hcmds => exact .shifting sent w hfsm (hsent h) hcmds
    | holding sent hfsm h hcmds => exact .holding sent hfsm (hsent h) hcmds
    | stopping hfsm h htx hstop => exact .stopping hfsm (hsent h) htx hstop
    | done items hfsm hdelivered htx hbytes hstop =>
      exact .done items hfsm hdelivered htx (by simpa [hrx] using hbytes) hstop

theorem setWidth_byte (b : BitVec 8) : (b.setWidth 32).setWidth 8 = b := by
  simp

/-- A read of the data register takes the next byte, if there is one. -/
theorem read_rxData {old : BitVec 8} {v : BitVec 32} (hs : s.Going cmds popped) (hread : s.read old .rxData = (v, t)) :
    s.rxfifo = [] ∧ t = s ∨ t.Going cmds (popped ++ [v.setWidth 8]) := by
  cases hrx : s.rxfifo with
  | nil =>
    simp only [Core.read, hrx] at hread
    cases hread
    exact Or.inl ⟨rfl, rfl⟩
  | cons b rest =>
    simp only [Core.read, hrx] at hread
    cases hread
    rw [setWidth_byte]
    exact Or.inr (hs.pop hrx)

theorem getRxData_spec (hlast : StopsLast cmds) : device.Triple (Filled cmds popped) (Prog.get .rxData) fun v s =>
    s.Going cmds (popped ++ [v.setWidth 8]) := by
  refine Triple.get (Filled.stable hlast) fun u v t hu hread => ?_
  obtain ⟨old, hread⟩ := hread
  rcases read_rxData hu.1 hread with ⟨hrx, rfl⟩ | hgoing
  · exact ⟨hu.1.enabled, Or.inl (hu.2.resolve_right fun hne => hne hrx)⟩
  · exact hgoing

/-- The same when it is not known that there is one. -/
theorem getRxData_late (hlast : StopsLast cmds) : device.Triple (Going cmds popped) (Prog.get .rxData) fun _ s =>
    ∃ popped, s.Going cmds popped := by
  refine Triple.get (going_stable _ hlast) fun u v t hu hread => ?_
  obtain ⟨old, hread⟩ := hread
  rcases read_rxData hu hread with ⟨-, rfl⟩ | hgoing
  · exact ⟨popped, hu⟩
  · exact ⟨_, hgoing⟩

theorem level_zero (h : BitVec.ofNat 32 s.rxfifo.length ≠ 0) : s.rxfifo ≠ [] := fun hnil => h (by simp [hnil])

theorem prefix_set {b : BitVec 8} (h : popped <+: buffer) (hlt : popped.length < buffer.length) :
    popped ++ [b] <+: buffer.set popped.length b := by
  obtain ⟨rest, rfl⟩ := h
  cases rest with
  | nil => simp at hlt
  | cons c rest => exact ⟨rest, by simp⟩

end Byte

/-! ### Bytes -/

section Bytes
variable {cmds : List (BitVec 10)} {popped buffer : List (BitVec 8)} {fuel start k : Nat} {P : Core → Prop}

theorem store_spec {i : Nat} (hi : i < buffer.length) (b : BitVec 8) :
    device.Triple P (store buffer i b) fun r s => r = buffer.set i b ∧ P s := by
  unfold store
  exact Triple.ite (fun _ => Triple.ret fun s hs => ⟨rfl, hs⟩) fun h => absurd hi h

/-- What the driver has read so far, in its buffer. -/
structure Stored (cmds : List (BitVec 10)) (size count : Nat) (buffer : List (BitVec 8)) (s : Core) : Prop where
  length : buffer.length = size
  bytes : ∃ popped, s.Going cmds popped ∧ popped <+: buffer ∧ popped.length = count
  asked : count ≤ asked none cmds

/-- The loop ends, within the bytes that have been asked for, and with what there was in the buffer. -/
theorem rxReadAvailable_spec (hlast : StopsLast cmds) (hasked : asked none cmds ≤ buffer.length)
    (hpfx : popped <+: buffer) (hcount : popped.length = start + k) (hle : popped.length ≤ asked none cmds)
    (hfuel : asked none cmds < popped.length + fuel) :
    device.Triple (Going cmds popped) (rxReadAvailable 0 start fuel buffer k) fun r s =>
      Stored cmds buffer.length (start + r.2) r.1 s := by
  induction fuel generalizing popped buffer k with
  | zero => exact absurd hfuel (Nat.not_lt.mpr hle)
  | succ fuel ih =>
    refine Triple.bind (R := fun v s => s.Going cmds popped ∧ (v ≠ 0 → s.rxfifo ≠ [])) ?_ fun v =>
      Triple.ite (fun _ => ?_) fun hne => ?_
    · refine Triple.get (going_stable _ hlast) fun u v t hu hread => ?_
      obtain ⟨_, hread⟩ := hread
      cases hread
      exact ⟨hu, level_zero⟩
    · exact Triple.ret fun s hs => ⟨rfl, ⟨popped, hs.1, hpfx, hcount⟩, hcount ▸ hle⟩
    · by_cases hlt : popped.length < asked none cmds
      · have hindex : popped.length < buffer.length := Nat.lt_of_lt_of_le hlt hasked
        refine Triple.bind ((getRxData_spec hlast).conseq (fun s hs => ⟨hs.1, Or.inr (hs.2 hne)⟩) fun _ _ h => h) fun v => ?_
        refine Triple.bind (store_spec (hcount ▸ hindex) _) fun stored => ?_
        refine Triple.ite (fun h => absurd rfl h.2) fun _ s hs => ?_
        obtain ⟨rfl, hs⟩ := hs
        have hpfx' : popped ++ [v.setWidth 8] <+: buffer.set (start + k) (v.setWidth 8) :=
          hcount ▸ prefix_set hpfx hindex
        have hcount' : (popped ++ [v.setWidth 8]).length = start + (k + 1) := by simp [hcount, Nat.add_assoc]
        have hnext := ih (by simpa using hasked) hpfx' hcount' (by simpa using Nat.succ_le_of_lt hlt) (by simp; omega)
        rw [List.length_set] at hnext
        exact hnext s hs
      · exact fun s hs => absurd (hs.1.popped_lt (hs.2 hne)) hlt

/-- A byte that has not come in time is read all the same, and is not counted. -/
theorem rxRead_spec (hlast : StopsLast cmds) (hpfx : popped <+: buffer) (hlt : popped.length < buffer.length) :
    device.Triple (Going cmds popped) (rxRead buffer popped.length) fun r s => r.2.length = buffer.length ∧
      Result (fun s => ∃ b, s.Going cmds (popped ++ [b]) ∧ popped ++ [b] <+: r.2) r.1 s := by
  refine Triple.bind (R := fun ok s => if ok = true then Filled cmds popped s else Going cmds popped s) ?_ fun ok => ?_
  · refine Triple.poll (going_stable _ hlast) (fun u v t hu hread => ?_) _
    obtain ⟨_, hread⟩ := hread
    cases hread
    split
    · exact hu
    · rename_i hne
      exact ⟨hu, Or.inr (level_zero (by simpa using hne))⟩
  · cases ok with
    | true =>
      refine Triple.bind (getRxData_spec hlast) fun v => Triple.bind (store_spec hlt _) fun stored => ?_
      refine Triple.ret fun s hs => ?_
      obtain ⟨rfl, hs⟩ := hs
      exact ⟨List.length_set, Or.inl ⟨rfl, _, hs, prefix_set hpfx hlt⟩⟩
    | false =>
      refine Triple.bind (getRxData_late hlast) fun v => Triple.bind (store_spec hlt _) fun stored => ?_
      refine Triple.ret fun s hs => ?_
      obtain ⟨rfl, popped, hs⟩ := hs
      exact ⟨List.length_set, Or.inr (.late cmds popped hlast hs)⟩

/-- The bytes that are still to come fill the buffer, or one does not come. -/
theorem readRest_spec (hlast : StopsLast cmds) {left : Nat} (hpfx : popped <+: buffer)
    (hleft : popped.length + left = buffer.length) :
    device.Triple (Going cmds popped) (readRest left buffer popped.length) fun r s => r.2.length = buffer.length ∧
      Result (Going cmds r.2) r.1 s := by
  induction left generalizing popped buffer with
  | zero =>
    obtain rfl := hpfx.eq_of_length hleft
    exact Triple.ret fun s hs => ⟨rfl, Or.inl ⟨rfl, hs⟩⟩
  | succ left ih =>
    have hlt : popped.length < buffer.length := by omega
    refine Triple.bind (rxRead_spec hlast hpfx hlt) fun r => ?_
    obtain ⟨status, stored⟩ := r
    refine Triple.ite (fun hok s hs => ?_) fun hfail => Triple.ret fun s hs => ?_
    · obtain ⟨hlen, ⟨-, b, hgoing, hpfx'⟩ | hfailed⟩ := hs
      · have hnext := ih hpfx' (by rw [hlen, List.length_append, List.length_singleton]; omega)
        rw [List.length_append, List.length_singleton, hlen] at hnext
        exact hnext s hgoing
      · exact absurd hok hfailed.ne_success
    · obtain ⟨hlen, ⟨hok, -⟩ | hfailed⟩ := hs
      · exact absurd hok hfail
      · exact ⟨hlen, Or.inr hfailed⟩

theorem asked_snoc (hdir : cmds.foldl turn none = some true) (issueStop : Bool) :
    asked none (cmds ++ [word 0 false issueStop]) = asked none cmds + 1 := by
  rw [asked_append, hdir]
  exact congrArg _ (asked_byteWords issueStop true [0])

/-- Every byte that the driver asks for has its place in the buffer. -/
theorem readCommands_spec (issueStop : Bool) {left count : Nat} (hopen : Open cmds)
    (hdir : cmds.foldl turn none = some true) (hroom : asked none cmds + (left + 1) ≤ buffer.length)
    (hfuel : buffer.length < fuel) :
    device.Triple (Stored cmds buffer.length count buffer) (readCommands fuel issueStop left buffer count) fun r s =>
      r.2.1.length = buffer.length ∧ Result
        (Stored (cmds ++ byteWords issueStop (List.replicate (left + 1) 0)) buffer.length r.2.2 r.2.1) r.1 s := by
  induction left generalizing cmds buffer count with
  | zero =>
    rintro s ⟨hlen, ⟨popped, hgoing, hpfx, hcount⟩, hle⟩
    refine Triple.bind (cmdWrite_spec hopen 0 false issueStop) (fun status => Triple.ret fun s hs => ?_) s hgoing
    exact ⟨rfl, hs.mono fun hgoing => ⟨rfl, ⟨popped, hgoing, hpfx, hcount⟩, hle.trans (by rw [asked_append]; omega)⟩⟩
  | succ left ih =>
    rintro s ⟨hlen, ⟨popped, hgoing, hpfx, hcount⟩, hle⟩
    have hopen' := hopen.snoc (word_stop 0 false false)
    have hmore := asked_snoc hdir false
    refine Triple.bind (cmdWrite_spec hopen 0 false false) (fun status => Triple.ite (fun hok => ?_) fun hfail => ?_) s hgoing
    · refine Triple.bind ((rxReadAvailable_spec (k := 0) hopen'.stopsLast (by rw [hmore]; omega) hpfx hcount
        (by rw [hmore]; omega) (by rw [hmore]; omega)).conseq (fun s hs => ?_) fun _ _ h => h) fun r => ?_
      · rcases hs with ⟨-, h⟩ | h
        · exact h
        · exact absurd hok h.ne_success
      · obtain ⟨stored, more⟩ := r
        rintro s ⟨hlen', hbytes, hasked⟩
        have hdir' : (cmds ++ [word 0 false false]).foldl turn none = some true := by
          rw [List.foldl_append, hdir]
          exact turn_word true 0 false
        have hstored : Stored (cmds ++ [word 0 false false]) stored.length (count + more) stored s :=
          ⟨rfl, hbytes, hasked⟩
        have hnext := ih hopen' hdir' (by rw [hmore, hlen']; omega) (by rw [hlen']; exact hfuel) s hstored
        rw [List.append_assoc, hlen'] at hnext
        exact hnext
    · refine Triple.ret fun s hs => ⟨rfl, ?_⟩
      rcases hs with ⟨hok, -⟩ | h
      · exact absurd hok hfail
      · exact Or.inr h

end Bytes

/-! ### A reception -/

section Receive
variable {dev : Dev} {cmds : List (BitVec 10)} {buffer : List (BitVec 8)} {fuel : Nat} {P : Core → Prop}
  {items : List Item}

theorem Core.Spells.answers {issueStop : Bool} {bytes : List (BitVec 8)}
    (h : Spells (some true) (byteWords issueStop bytes) items) : items = (received items).map fun b => ⟨.rx, b⟩ := by
  induction bytes generalizing items with
  | nil =>
    obtain rfl : items = [] := h
    rfl
  | cons b rest ih =>
    obtain ⟨stop, hcons⟩ := byteWords_cons issueStop b rest
    rw [hcons] at h
    cases items with
    | nil => exact h.elim
    | cons i items =>
      obtain ⟨hi, -, hrest⟩ := h
      obtain ⟨r, c⟩ := i
      rw [role_word] at hi
      obtain rfl : r = .rx := hi
      rw [turn_word] at hrest
      have htail := ih hrest
      rw [← List.singleton_append, received_append, List.map_append, ← htail]
      rfl

theorem Core.Spells.reception {dir : Option Bool} {issueRestart issueStop : Bool} {bytes : List (BitVec 8)}
    (hrole : role dir (word (addressByte dev 1) issueRestart false) = .addr)
    (h : Spells dir (word (addressByte dev 1) issueRestart false :: byteWords issueStop bytes) items) :
    items = AvalonI2c.reception dev (received items) := by
  cases items with
  | nil => exact h.elim
  | cons i items =>
    obtain ⟨hi, hbyte, hrest⟩ := h
    obtain ⟨r, c⟩ := i
    rw [hrole] at hi
    obtain rfl : r = .addr := hi
    obtain rfl : c = addressByte dev 1 := (hbyte fun hrx => by cases hrx).trans (word_byte _ issueRestart false)
    rw [turn_addr hrole, word_rw, addressByte_read] at hrest
    have htail := hrest.answers
    rw [AvalonI2c.reception, ← List.singleton_append, received_append, received_singleton, if_neg (by decide), List.nil_append,
      ← htail]
    rfl

theorem Core.Spells.received_eq_nil (h : Spells none cmds items) (hnone : asked none cmds = 0) : received items = [] :=
  List.length_eq_zero_iff.mp (h.received_length.trans hnone)

/-- A reception that goes on from `cmds`, which ask for nothing, and reports success: the message on the bus is that of
    `cmds`, then the address, then the bytes that are in the buffer. -/
theorem masterReceive_spec (issueRestart : Bool) (hdev : dev.addressMode10Bit = false) (hne : buffer ≠ [])
    (hfuel : buffer.length < fuel) (hopen : Open cmds) (hnone : asked none cmds = 0)
    (hrole : role (cmds.foldl turn none) (word (addressByte dev 1) issueRestart false) = .addr)
    (hbegin : device.Triple P (begin issueRestart) fun status s => status = i2cSuccess ∧ s.Going cmds []) :
    device.Triple P (masterReceive fuel dev buffer issueRestart true) fun r s => r.2.length = buffer.length ∧
      Ended (fun s => ∃ items, Spells none cmds items ∧ s.Last (items ++ reception dev r.2)) r.1 s := by
  have hpos := List.length_pos_iff.mpr hne
  have hturn : turn (cmds.foldl turn none) (word (addressByte dev 1) issueRestart false) = some true := by
    rw [turn_addr hrole, word_rw, addressByte_read]
  have hopen' := hopen.snoc (word_stop (addressByte dev 1) issueRestart false)
  have hdir' : (cmds ++ [word (addressByte dev 1) issueRestart false]).foldl turn none = some true := by
    rw [List.foldl_append]
    exact hturn
  have hnone' : asked none (cmds ++ [word (addressByte dev 1) issueRestart false]) = 0 := by
    rw [asked_append, hnone, asked, hrole]
    rfl
  have hall : asked none (cmds ++ [word (addressByte dev 1) issueRestart false] ++
      byteWords true (List.replicate buffer.length 0)) = buffer.length := by
    rw [asked_append, hnone', hdir', asked_byteWords, if_pos rfl, List.length_replicate, Nat.zero_add]
  have hzeros : List.replicate buffer.length (0 : BitVec 8) ≠ [] := by simpa using hne
  have hlast := (stops_of_bytes hopen' hzeros).1
  have hcmds : buffer.length - 1 + 1 = buffer.length := Nat.sub_add_cancel hpos
  unfold masterReceive
  rw [if_neg (by simpa using hne)]
  refine Triple.bind hbegin fun status => Triple.ite (fun hfail s hs => absurd hs.1 hfail) fun _ => ?_
  refine Triple.bind ((sendAddress_spec hdev hopen 1 issueRestart).conseq (fun s hs => hs.2) fun _ _ h => h) fun status => ?_
  refine Triple.bind (R := fun r s => r.2.1.length = buffer.length ∧ Result (Stored (cmds ++ [word (addressByte dev 1)
    issueRestart false] ++ byteWords true (List.replicate buffer.length 0)) buffer.length r.2.2 r.2.1) r.1 s) ?_ fun r => ?_
  · refine Triple.result ?_ fun _ => Triple.ret fun s hs => ⟨rfl, Or.inr hs⟩
    have hroom : asked none (cmds ++ [word (addressByte dev 1) issueRestart false]) + (buffer.length - 1 + 1) ≤ buffer.length := by
      rw [hnone', hcmds, Nat.zero_add]
    intro s hs
    have h := readCommands_spec true hopen' hdir' hroom hfuel s ⟨rfl, ⟨[], hs, List.nil_prefix, rfl⟩, Nat.zero_le _⟩
    rw [hcmds] at h
    exact h
  · obtain ⟨status, stored, count⟩ := r
    refine Triple.bind (R := fun r s => r.2.length = buffer.length ∧ Result (Going (cmds ++ [word (addressByte dev 1)
      issueRestart false] ++ byteWords true (List.replicate buffer.length 0)) r.2) r.1 s) ?_ fun r => ?_
    · refine Triple.ite (fun hok s hs => ?_) fun hfail => Triple.ret fun s hs => ?_
      · obtain ⟨hlen, ⟨-, -, ⟨popped, hgoing, hpfx, rfl⟩, -⟩ | hfailed⟩ := hs
        · have hle := hpfx.length_le
          have h := readRest_spec hlast hpfx (Nat.add_sub_cancel' hle)
          rw [hlen] at h hle
          rw [hlen]
          exact h s hgoing
        · exact absurd hok hfailed.ne_success
      · obtain ⟨hlen, ⟨hok, -⟩ | hfailed⟩ := hs
        · exact absurd hok hfail
        · exact ⟨hlen, Or.inr hfailed⟩
    · obtain ⟨status, stored⟩ := r
      refine Triple.ite (fun _ => ?_) fun h => absurd (Or.inl rfl) h
      by_cases hlen : stored.length = buffer.length
      · refine Triple.bind ((finish_spec (going_stable stored hlast) (fun s hs => ⟨_, _, hlast, hs⟩)
          (fun s hs hidle => hs.over (by simp) (hlen.trans hall.symm) hidle) (fun s v hs => hs) stored.length).conseq
          (fun s hs => hs.2) fun _ _ h => h.2) fun status => Triple.ret fun s hs => ⟨hlen, hs.mono ?_⟩
        rintro ⟨items, ⟨hitems, hspells⟩, rfl⟩
        rw [List.append_assoc] at hspells
        obtain ⟨a, b, rfl, ha, hb⟩ := hspells.split
        refine ⟨a, ha, ?_⟩
        rw [received_append, ha.received_eq_nil hnone, List.nil_append, ← hb.reception hrole]
        exact hitems
      · exact fun s hs => absurd hs.1 hlen

end Receive

end EcranMagique.AvalonI2c
