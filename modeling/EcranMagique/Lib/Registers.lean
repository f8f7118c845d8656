import Mathlib.Logic.Relation

/-! Programs that reach a device through its registers. The device moves by itself between the accesses and may answer
    one in several ways; a program is right when it is right for all of them. -/

namespace Registers
open Relation

variable {ρ ω σ α β : Type}

/-! ### Programs -/

/-- A program over registers `ρ` of words `ω`. `fail` stands for what must not happen: an access outside a buffer, or a
    loop that outlives its fuel. -/
inductive Prog (ρ ω α : Type) where
  | ret (a : α)
  | read (r : ρ) (k : ω → Prog ρ ω α)
  | write (r : ρ) (v : ω) (p : Prog ρ ω α)
  | wait (us : Nat) (p : Prog ρ ω α)
  | fail

namespace Prog

def bind : Prog ρ ω α → (α → Prog ρ ω β) → Prog ρ ω β
  | .ret a, f => f a
  | .read r k, f => .read r fun v => (k v).bind f
  | .write r v p, f => .write r v (p.bind f)
  | .wait us p, f => .wait us (p.bind f)
  | .fail, _ => .fail

instance : Monad (Prog ρ ω) where
  pure := .ret
  bind := Prog.bind

def get (r : ρ) : Prog ρ ω ω := .read r .ret

def put (r : ρ) (v : ω) : Prog ρ ω Unit := .write r v (.ret ())

def sleepIf (late : Bool) (us : Nat) : Prog ρ ω Unit := if late = true then .wait us (.ret ()) else pure ()

/-- Reads a register while `again` holds of it, at most `n` times; whether it stopped holding. The program sleeps
    between two reads when it is `late` with so many of them left. -/
def poll (r : ρ) (again : ω → Bool) (late : Nat → Bool) (us : Nat) : Nat → Prog ρ ω Bool
  | 0 => pure false
  | n + 1 => do
    let v ← get r
    if again v = true then
      sleepIf (late (n + 1)) us
      poll r again late us n
    else pure true

/-- Attempts while `again` holds of the result, at most `n` times; an attempt may use the result of the one before. -/
def retry (again : α → Bool) (late : Nat → Bool) (us : Nat) (attempt : α → Prog ρ ω α) : Nat → α → Prog ρ ω α
  | 0, a => pure a
  | n + 1, a => do
    sleepIf (late n) us
    let a ← attempt a
    if again a = true then retry again late us attempt n a else pure a

end Prog

/-! ### Devices -/

/-- What a device does by itself, and what an access may find and do; no access is refused. -/
structure Device (ρ ω σ : Type) where
  moves : σ → σ → Prop
  reads : σ → ρ → ω → σ → Prop
  writes : σ → ρ → ω → σ → Prop
  exists_reads : ∀ s r, ∃ v t, reads s r v t
  exists_writes : ∀ s r v, ∃ t, writes s r v t

namespace Device

/-- The program ends, without a failure, and with `Q`. -/
def wp (D : Device ρ ω σ) : Prog ρ ω α → (α → σ → Prop) → σ → Prop
  | .ret a, Q, s => Q a s
  | .read r k, Q, s => ∀ u, ReflTransGen D.moves s u → ∀ v t, D.reads u r v t → D.wp (k v) Q t
  | .write r v p, Q, s => ∀ u, ReflTransGen D.moves s u → ∀ t, D.writes u r v t → D.wp p Q t
  | .wait _ p, Q, s => ∀ u, ReflTransGen D.moves s u → D.wp p Q u
  | .fail, _, _ => False

/-- A run of the program from `s` may end with `a` and leave the device in `t`. -/
def exec (D : Device ρ ω σ) : Prog ρ ω α → σ → α → σ → Prop
  | .ret a, s, b, t => b = a ∧ t = s
  | .read r k, s, b, t => ∃ u, ReflTransGen D.moves s u ∧ ∃ v w, D.reads u r v w ∧ D.exec (k v) w b t
  | .write r v p, s, b, t => ∃ u, ReflTransGen D.moves s u ∧ ∃ w, D.writes u r v w ∧ D.exec p w b t
  | .wait _ p, s, b, t => ∃ u, ReflTransGen D.moves s u ∧ D.exec p u b t
  | .fail, _, _, _ => False

/-- What the device keeps when it moves by itself. -/
def Stable (D : Device ρ ω σ) (P : σ → Prop) : Prop := ∀ s t, D.moves s t → P s → P t

def Triple (D : Device ρ ω σ) (P : σ → Prop) (p : Prog ρ ω α) (Q : α → σ → Prop) : Prop := ∀ s, P s → D.wp p Q s

variable {D : Device ρ ω σ} {P P' : σ → Prop} {p : Prog ρ ω α} {Q Q' : α → σ → Prop} {s t : σ}

theorem Stable.closed (hP : D.Stable P) (h : ReflTransGen D.moves s t) (hs : P s) : P t := by
  induction h with
  | refl => exact hs
  | tail _ hmove ih => exact hP _ _ hmove ih

theorem wp_mono (h : D.wp p Q s) (hQ : ∀ a t, Q a t → Q' a t) : D.wp p Q' s := by
  induction p generalizing s with
  | ret a => exact hQ a s h
  | read r k ih => exact fun u hu v t hread => ih v (h u hu v t hread)
  | write r v p ih => exact fun u hu t hwrite => ih (h u hu t hwrite)
  | wait us p ih => exact fun u hu => ih (h u hu)
  | fail => exact h

theorem wp_bind {f : α → Prog ρ ω β} {Q : β → σ → Prop} (h : D.wp p (fun a t => D.wp (f a) Q t) s) :
    D.wp (p >>= f) Q s := by
  change D.wp (p.bind f) Q s
  induction p generalizing s with
  | ret a => exact h
  | read r k ih => exact fun u hu v t hread => ih v (h u hu v t hread)
  | write r v p ih => exact fun u hu t hwrite => ih (h u hu t hwrite)
  | wait us p ih => exact fun u hu => ih (h u hu)
  | fail => exact h

/-- What holds of every run holds of each. -/
theorem wp_exec {a : α} (h : D.wp p Q s) (hrun : D.exec p s a t) : Q a t := by
  induction p generalizing s with
  | ret b =>
    obtain ⟨rfl, rfl⟩ := hrun
    exact h
  | read r k ih =>
    obtain ⟨u, hu, v, w, hread, hrest⟩ := hrun
    exact ih v (h u hu v w hread) hrest
  | write r v p ih =>
    obtain ⟨u, hu, w, hwrite, hrest⟩ := hrun
    exact ih (h u hu w hwrite) hrest
  | wait us p ih =>
    obtain ⟨u, hu, hrest⟩ := hrun
    exact ih (h u hu) hrest
  | fail => exact hrun.elim

/-- A run against one behaviour of the device: `settle` is what it does by itself before each access. -/
def run (settle : σ → σ) (read : σ → ρ → ω × σ) (write : σ → ρ → ω → σ) : Prog ρ ω α → σ → Option (α × σ)
  | .ret a, s => some (a, s)
  | .read r k, s => run settle read write (k (read (settle s) r).1) (read (settle s) r).2
  | .write r v p, s => run settle read write p (write (settle s) r v)
  | .wait _ p, s => run settle read write p (settle s)
  | .fail, _ => none

theorem exec_of_run {settle : σ → σ} {read : σ → ρ → ω × σ} {write : σ → ρ → ω → σ} {a : α}
    (hsettle : ∀ s, ReflTransGen D.moves s (settle s)) (hread : ∀ s r, D.reads s r (read s r).1 (read s r).2)
    (hwrite : ∀ s r v, D.writes s r v (write s r v)) (h : run settle read write p s = some (a, t)) : D.exec p s a t := by
  induction p generalizing s with
  | ret b =>
    simp only [run, Option.some.injEq, Prod.mk.injEq] at h
    exact ⟨h.1.symm, h.2.symm⟩
  | read r k ih => exact ⟨_, hsettle s, _, _, hread _ r, ih _ h⟩
  | write r v p ih => exact ⟨_, hsettle s, _, hwrite _ r v, ih h⟩
  | wait us p ih => exact ⟨_, hsettle s, ih h⟩
  | fail => simp [run] at h

/-! ### Reachable states -/

/-- The states that a device comes to from `s`, under whatever accesses. -/
inductive Reachable (D : Device ρ ω σ) (s : σ) : σ → Prop where
  | refl : Reachable D s s
  | move {t u : σ} (h : Reachable D s t) (hmove : D.moves t u) : Reachable D s u
  | read {t u : σ} {r : ρ} {v : ω} (h : Reachable D s t) (hread : D.reads t r v u) : Reachable D s u
  | write {t u : σ} {r : ρ} {v : ω} (h : Reachable D s t) (hwrite : D.writes t r v u) : Reachable D s u

theorem Reachable.invariant (h : D.Reachable s t) (h0 : P s) (hP : D.Stable P)
    (hread : ∀ s r v t, P s → D.reads s r v t → P t) (hwrite : ∀ s r v t, P s → D.writes s r v t → P t) : P t := by
  induction h with
  | refl => exact h0
  | move _ hmove ih => exact hP _ _ hmove ih
  | read _ hr ih => exact hread _ _ _ _ ih hr
  | write _ hw ih => exact hwrite _ _ _ _ ih hw

/-! ### Recorded accesses -/

inductive Access (ρ : Type) where
  | read (r : ρ)
  | write (r : ρ)
  deriving DecidableEq, Repr

/-- The device with a record of the accesses to it, in their order. -/
def recorded (D : Device ρ ω σ) : Device ρ ω (σ × List (Access ρ)) where
  moves a b := D.moves a.1 b.1 ∧ b.2 = a.2
  reads a r v b := D.reads a.1 r v b.1 ∧ b.2 = a.2 ++ [.read r]
  writes a r v b := D.writes a.1 r v b.1 ∧ b.2 = a.2 ++ [.write r]
  exists_reads a r :=
    have ⟨v, t, h⟩ := D.exists_reads a.1 r
    ⟨v, (t, _), h, rfl⟩
  exists_writes a r v :=
    have ⟨t, h⟩ := D.exists_writes a.1 r v
    ⟨(t, _), h, rfl⟩

section Recorded
variable {l : List (Access ρ)}

theorem recorded_moves (h : ReflTransGen D.moves s t) (l : List (Access ρ)) :
    ReflTransGen D.recorded.moves (s, l) (t, l) := by
  induction h with
  | refl => exact .refl
  | tail _ hmove ih => exact ih.tail ⟨hmove, rfl⟩

/-- The record changes nothing: what holds of a program with it holds without it. -/
theorem wp_of_recorded (h : D.recorded.wp p (fun a s => Q a s.1) (s, l)) : D.wp p Q s := by
  induction p generalizing s l with
  | ret a => exact h
  | read r k ih => exact fun u hu v t hread => ih v (h (u, l) (recorded_moves hu l) v (t, _) ⟨hread, rfl⟩)
  | write r v p ih => exact fun u hu t hwrite => ih (h (u, l) (recorded_moves hu l) (t, _) ⟨hwrite, rfl⟩)
  | wait us p ih => exact fun u hu => ih (h (u, l) (recorded_moves hu l))
  | fail => exact h

end Recorded

/-! ### Rules -/

namespace Triple

theorem ret {a : α} (h : ∀ s, P s → Q a s) : D.Triple P (pure a) Q := h

theorem bind {β : Type} {f : α → Prog ρ ω β} {R : α → σ → Prop} {Q : β → σ → Prop} (hp : D.Triple P p R)
    (hf : ∀ a, D.Triple (R a) (f a) Q) : D.Triple P (p >>= f) Q :=
  fun s hs => wp_bind (wp_mono (hp s hs) fun a t ht => hf a t ht)

theorem conseq (h : D.Triple P p Q) (hP : ∀ s, P' s → P s) (hQ : ∀ a s, Q a s → Q' a s) : D.Triple P' p Q' :=
  fun s hs => wp_mono (h s (hP s hs)) hQ

theorem get {r : ρ} {R : ω → σ → Prop} (hP : D.Stable P) (h : ∀ u v t, P u → D.reads u r v t → R v t) :
    D.Triple P (Prog.get r) R :=
  fun _ hs u hu v t hread => h u v t (hP.closed hu hs) hread

theorem put {r : ρ} {v : ω} {R : Unit → σ → Prop} (hP : D.Stable P) (h : ∀ u t, P u → D.writes u r v t → R () t) :
    D.Triple P (Prog.put r v) R :=
  fun _ hs u hu t hwrite => h u t (hP.closed hu hs) hwrite

theorem ite {c : Prop} [Decidable c] {q : Prog ρ ω α} (hp : c → D.Triple P p Q) (hq : ¬c → D.Triple P q Q) :
    D.Triple P (if c then p else q) Q := by
  split
  · rename_i h
    exact hp h
  · rename_i h
    exact hq h

theorem sleepIf {late : Bool} {us : Nat} (hP : D.Stable P) : D.Triple P (Prog.sleepIf late us) (fun _ => P) :=
  ite (fun _ _ hs _ hu => hP.closed hu hs) fun _ => ret fun _ hs => hs

/-- A poll that goes on leaves what it relies on; one that ends has seen what it waits for. -/
theorem poll {r : ρ} {again : ω → Bool} {late : Nat → Bool} {us : Nat} {R : σ → Prop} (hP : D.Stable P)
    (hread : ∀ u v t, P u → D.reads u r v t → if again v = true then P t else R t) (n : Nat) :
    D.Triple P (Prog.poll r again late us n) fun ok t => if ok = true then R t else P t := by
  induction n with
  | zero => exact ret fun s hs => by simpa using hs
  | succ n ih =>
    refine bind (get hP hread) fun v => ite (fun hagain => ?_) fun hagain => ?_
    · refine bind (R := fun _ => P) ?_ fun _ => ih
      simp only [hagain, if_true]
      exact sleepIf hP
    · exact ret fun s hs => by simpa [hagain] using hs

/-- An attempt that is to be made again leaves what the next one relies on. -/
theorem retry {again : α → Bool} {late : Nat → Bool} {us : Nat} {attempt : α → Prog ρ ω α} {P : α → σ → Prop}
    (hP : ∀ a, D.Stable (P a))
    (h : ∀ a, D.Triple (P a) (attempt a) fun b t => Q b t ∧ (again b = true → P b t)) {n : Nat} (hn : 0 < n) (a : α) :
    D.Triple (P a) (Prog.retry again late us attempt n a) Q := by
  induction n generalizing a with
  | zero => exact absurd hn (Nat.lt_irrefl 0)
  | succ n ih =>
    refine bind (sleepIf (hP a)) fun _ => bind (h a) fun b => ite (fun hagain => ?_) fun _ => ?_
    · rcases Nat.eq_zero_or_pos n with rfl | hpos
      · exact ret fun s hs => hs.1
      · exact (ih hpos b).conseq (fun s hs => hs.2 hagain) fun _ _ hq => hq
    · exact ret fun s hs => hs.1

/-- Attempts that are all to be made again are all made; `P` counts them. -/
theorem retry_all {again : α → Bool} {late : Nat → Bool} {us : Nat} {attempt : α → Prog ρ ω α} {P : Nat → α → σ → Prop}
    (hP : ∀ k a, D.Stable (P k a))
    (h : ∀ k a, D.Triple (P k a) (attempt a) fun b t => again b = true ∧ P (k + 1) b t) (n k : Nat) (a : α) :
    D.Triple (P k a) (Prog.retry again late us attempt n a) (P (k + n)) := by
  induction n generalizing k a with
  | zero => exact ret fun s hs => hs
  | succ n ih =>
    refine bind (sleepIf (hP k a)) fun _ => bind (h k a) fun b => ite (fun _ => ?_) fun hagain s hs => ?_
    · have hcount : k + 1 + n = k + (n + 1) := Nat.succ_add_eq_add_succ k n
      exact (ih (k + 1) b).conseq (fun s hs => hs.2) fun _ _ hq => hcount ▸ hq
    · exact absurd hs.1 hagain

end Triple
end Device
end Registers
