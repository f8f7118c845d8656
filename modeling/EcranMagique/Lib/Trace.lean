import Mathlib.Data.List.Infix
import Mathlib.Tactic.Common

/-! Traces of events: what comes before an event of a trace, and how the events that ask for a reply are
    answered by the next event that is one. -/

namespace Trace

variable {α β : Type*}

/-- What comes before an event that a trace does not start with includes the start. -/
theorem prefix_of_split {start rest pre post : List α} {e : α} (h : start ++ rest = pre ++ e :: post)
    (he : e ∉ start) : start <+: pre := by
  rcases List.append_eq_append_iff.mp h with ⟨more, hpre, -⟩ | ⟨more, hstart, hmore⟩
  · exact ⟨more, hpre.symm⟩
  · cases more with
    | nil => exact ⟨[], by rw [List.append_nil, hstart, List.append_nil]⟩
    | cons a more =>
      obtain ⟨rfl, -⟩ := List.cons.inj hmore
      exact absurd (by rw [hstart]; simp) he

section Answers
variable {asks : α → Prop} {reply : α → Option β} {good : β → Prop}

/-- Every event that asks is followed by a reply, and the next one is good. -/
def Answered (asks : α → Prop) (reply : α → Option β) (good : β → Prop) : List α → Prop
  | [] => True
  | e :: l => (asks e → ∃ v, l.findSome? reply = some v ∧ good v) ∧ Answered asks reply good l

theorem answered_of_silent {l : List α} (h : ∀ e ∈ l, ¬asks e) : Answered asks reply good l := by
  induction l with
  | nil => trivial
  | cons e l ih => exact ⟨fun he => absurd he (h e List.mem_cons_self), ih fun a ha => h a (List.mem_cons_of_mem e ha)⟩

theorem Answered.append {l l' : List α} (h : Answered asks reply good l) (h' : Answered asks reply good l') :
    Answered asks reply good (l ++ l') := by
  induction l with
  | nil => exact h'
  | cons e l ih =>
    rw [List.cons_append]
    refine ⟨fun he => ?_, ih h.2⟩
    obtain ⟨v, hv, hgood⟩ := h.1 he
    exact ⟨v, by rw [List.findSome?_append, hv, Option.some_or], hgood⟩

theorem Answered.split {l pre post : List α} {e : α} (h : Answered asks reply good l) (hl : l = pre ++ e :: post)
    (he : asks e) : ∃ v, post.findSome? reply = some v ∧ good v := by
  subst hl
  induction pre with
  | nil => exact h.1 he
  | cons a pre ih => exact ih h.2

end Answers

end Trace
