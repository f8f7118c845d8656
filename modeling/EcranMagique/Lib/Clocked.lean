import Mathlib.Data.List.Induction
import Mathlib.Tactic.Common

/-! Clocked logic: a register state, the update that a clock edge makes on it, and its runs on
    waveforms.

    A waveform gives the inputs of every edge, so a property of all waveforms and all counts of edges is
    a property of all finite input sequences. A process with an asynchronous reset is activated by its
    clock and by its reset; what it holds is the run of its update over the inputs clocked in since the
    last reset. -/

namespace Clocked

variable {σ τ ι κ : Type*}

/-! ### Runs -/

def run (step : σ → ι → σ) (s : σ) (w : Nat → ι) : Nat → σ
  | 0 => s
  | n + 1 => step (run step s w n) (w n)

section Run
variable {step : σ → ι → σ} {s : σ} {w w' : Nat → ι}

@[simp] theorem run_zero : run step s w 0 = s := rfl

theorem run_succ (n : Nat) : run step s w (n + 1) = step (run step s w n) (w n) := rfl

theorem run_add (m n : Nat) : run step s w (m + n) = run step (run step s w m) (fun k => w (m + k)) n := by
  induction n with
  | zero => rfl
  | succ n ih => rw [← Nat.add_assoc, run_succ, run_succ, ih]

theorem run_congr {n : Nat} (h : ∀ i < n, w i = w' i) : run step s w n = run step s w' n := by
  induction n with
  | zero => rfl
  | succ n ih =>
    rw [run_succ, run_succ, ih fun i hi => h i (by omega), h n (by omega)]

theorem run_invariant {P : σ → Prop} (h0 : P s) (hstep : ∀ s i, P s → P (step s i)) (n : Nat) :
    P (run step s w n) := by
  induction n with
  | zero => exact h0
  | succ n ih => exact hstep _ _ ih

/-- What the edges after `k` keep, and an edge establishes where `Q` holds, holds from the first such edge on. -/
theorem run_settles {P Q : σ → Prop} {k n : Nat} (hset : Q (run step s w k))
    (hstep : ∀ m, k ≤ m → Q (run step s w m) ∨ P (run step s w m) → P (run step s w (m + 1))) (hn : k < n) :
    P (run step s w n) := by
  induction n with
  | zero => exact absurd hn (Nat.not_lt_zero k)
  | succ n ih =>
    rcases Nat.lt_succ_iff_lt_or_eq.mp hn with hlt | rfl
    · exact hstep n (Nat.le_of_lt hlt) (Or.inr (ih hlt))
    · exact hstep k (Nat.le_refl k) (Or.inl hset)

/-- A view that every edge commutes with commutes with every run. -/
theorem run_map {step' : τ → κ → τ} {f : σ → τ} {g : ι → κ} (h : ∀ s i, f (step s i) = step' (f s) (g i))
    (n : Nat) : f (run step s w n) = run step' (f s) (fun k => g (w k)) n := by
  induction n with
  | zero => rfl
  | succ n ih => rw [run_succ, h, ih, run_succ]

/-- A component that is driven by the whole state runs on the waveform that the whole run gives it. -/
theorem run_component {step' : τ → κ → τ} {f : σ → τ} {g : σ → ι → κ} (h : ∀ s i, f (step s i) = step' (f s) (g s i))
    (n : Nat) : f (run step s w n) = run step' (f s) (fun k => g (run step s w k) (w k)) n := by
  induction n with
  | zero => rfl
  | succ n ih => rw [run_succ, h, ih, run_succ]

end Run

/-! ### Closed loops -/

/-- The run of a system whose inputs answer its states. -/
def driven (step : σ → ι → σ) (answer : Nat → σ → ι) (s : σ) : Nat → σ
  | 0 => s
  | n + 1 => step (driven step answer s n) (answer n (driven step answer s n))

/-- A closed loop is the run on the waveform of its answers. -/
theorem run_driven (step : σ → ι → σ) (answer : Nat → σ → ι) (s : σ) (n : Nat) :
    run step s (fun k => answer k (driven step answer s k)) n = driven step answer s n := by
  induction n with
  | zero => rfl
  | succ n ih =>
    rw [run_succ, ih]
    rfl

def Reachable (step : σ → ι → σ) (s t : σ) : Prop := ∃ w n, t = run step s w n

namespace Reachable
variable {step : σ → ι → σ} {s t : σ}

theorem invariant {P : σ → Prop} (h : Reachable step s t) (h0 : P s) (hstep : ∀ s i, P s → P (step s i)) : P t := by
  obtain ⟨w, n, rfl⟩ := h
  exact run_invariant h0 hstep n

end Reachable

/-! ### Runs that may fail -/

/-- The state after `n` edges, when none of them fails. -/
def run? (step : σ → ι → Option σ) (s : σ) (w : Nat → ι) : Nat → Option σ
  | 0 => some s
  | n + 1 => (run? step s w n).bind fun t => step t (w n)

section RunOption
variable {step : σ → ι → Option σ} {s t : σ} {w : Nat → ι}

theorem run?_succ {n : Nat} :
    run? step s w (n + 1) = some t ↔ ∃ u, run? step s w n = some u ∧ step u (w n) = some t := by
  simp only [run?, Option.bind_eq_some_iff]

theorem run?_of_le {m n : Nat} (h : run? step s w n = some t) (hm : m ≤ n) : ∃ u, run? step s w m = some u := by
  induction hm generalizing t with
  | refl => exact ⟨t, h⟩
  | step _ ih =>
    obtain ⟨u, hu, -⟩ := run?_succ.mp h
    exact ih hu

theorem run?_invariant {P : σ → Prop} {n : Nat} (h : run? step s w n = some t) (h0 : P s)
    (hstep : ∀ s i t, P s → step s i = some t → P t) : P t := by
  induction n generalizing t with
  | zero =>
    cases h
    exact h0
  | succ n ih =>
    obtain ⟨u, hu, ht⟩ := run?_succ.mp h
    exact hstep _ _ _ (ih hu) ht

/-- When every edge of the waveform succeeds in a state that keeps an invariant, and keeps it, no run of it
    from such a state fails. -/
theorem run?_isSome {P : σ → Prop} (h0 : P s) (hstep : ∀ s n, P s → ∃ t, step s (w n) = some t ∧ P t) (n : Nat) :
    ∃ t, run? step s w n = some t ∧ P t := by
  induction n with
  | zero => exact ⟨s, rfl, h0⟩
  | succ n ih =>
    obtain ⟨u, hu, hP⟩ := ih
    obtain ⟨t, ht, hPt⟩ := hstep u n hP
    exact ⟨t, run?_succ.mpr ⟨u, hu, ht⟩, hPt⟩

/-- A view of the state that every edge computes on its own is computed so by every run. -/
theorem run?_map {step' : τ → κ → τ} {f : σ → τ} {g : ι → κ}
    (hstep : ∀ s i t, step s i = some t → f t = step' (f s) (g i)) {n : Nat} (h : run? step s w n = some t) :
    f t = run step' (f s) (fun k => g (w k)) n := by
  induction n generalizing t with
  | zero =>
    cases h
    rfl
  | succ n ih =>
    obtain ⟨u, hu, ht⟩ := run?_succ.mp h
    rw [hstep _ _ _ ht, ih hu, run_succ]

end RunOption

/-! ### Processes with an asynchronous reset -/

/-- What a process sees when its clock or its reset changes. -/
structure Activation (ι : Type*) where
  rst_n : Bool
  rising : Bool
  pins : ι
  deriving DecidableEq, Repr

/-- `if rst_n = '0' then reset elsif rising_edge(clk) then update end if`. -/
def process (reset : σ) (update : σ → ι → σ) (s : σ) (a : Activation ι) : σ :=
  if a.rst_n = false then reset
  else if a.rising = true then update s a.pins
  else s

/-- The inputs clocked in since the last reset, oldest first. -/
def sinceReset (acts : Nat → Activation ι) : Nat → List ι
  | 0 => []
  | n + 1 =>
    if (acts n).rst_n = false then []
    else if (acts n).rising = true then sinceReset acts n ++ [(acts n).pins]
    else sinceReset acts n

section Process
variable {reset : σ} {update : σ → ι → σ}

/-- What the reset establishes and the update keeps, every activation keeps. -/
theorem process_keeps {P : σ → Prop} (hreset : P reset) (hupdate : ∀ s i, P s → P (update s i)) (s : σ)
    (a : Activation ι) (hs : P s) : P (process reset update s a) := by
  unfold process
  split
  · exact hreset
  · split
    · exact hupdate s a.pins hs
    · exact hs

/-- A process holds what its update makes, from the reset values, of the inputs since the last reset. -/
theorem run_process (acts : Nat → Activation ι) (n : Nat) :
    run (process reset update) reset acts n = (sinceReset acts n).foldl update reset := by
  induction n with
  | zero => rfl
  | succ n ih =>
    rw [run_succ, ih, sinceReset]
    unfold process
    split
    · rfl
    · split
      · rw [List.foldl_append]
        rfl
      · rfl

/-- Outside the reset, and activated by rising edges only, a process runs its update. -/
theorem run_process_edges (s : σ) (w : Nat → ι) (n : Nat) :
    run (process reset update) s (fun i => ⟨true, true, w i⟩) n = run update s w n := by
  induction n with
  | zero => rfl
  | succ n ih =>
    rw [run_succ, run_succ, ih]
    rfl

theorem foldl_eq_run (l : List ι) (d : ι) (s : σ) :
    l.foldl update s = run update s (fun i => l.getD i d) l.length := by
  induction l using List.reverseRecOn with
  | nil => rfl
  | append_singleton l x ih =>
    have hinit : run update s (fun i => l.getD i d) l.length = run update s (fun i => (l ++ [x]).getD i d) l.length :=
      run_congr fun i hi => by simp [List.getElem?_append_left hi]
    rw [List.foldl_append, ih, hinit, List.length_append, List.length_singleton, run_succ]
    simp

end Process

end Clocked
