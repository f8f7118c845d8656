import Mathlib.Data.List.Range
import Mathlib.Data.Nat.Find
import Mathlib.Tactic.Common

/-! A list of items worked through in order, each tried until it is accepted. -/

namespace Retry

/-- The item of attempt `j`, from the item `first` on, when `ok` says which attempts are accepted. -/
def item (ok : Nat → Bool) (first : Nat) : Nat → Nat
  | 0 => first
  | j + 1 => if ok j = true then item ok first j + 1 else item ok first j

section Item
variable {ok : Nat → Bool} {first i j : Nat}

@[simp] theorem item_zero : item ok first 0 = first := rfl

theorem item_accepted (h : ok j = true) : item ok first (j + 1) = item ok first j + 1 := if_pos h

theorem item_refused (h : ok j = false) : item ok first (j + 1) = item ok first j := if_neg (by simp [h])

theorem item_le_succ : item ok first j ≤ item ok first (j + 1) := by
  cases h : ok j
  · exact Nat.le_of_eq (item_refused h).symm
  · rw [item_accepted h]
    exact Nat.le_succ _

theorem item_mono (h : i ≤ j) : item ok first i ≤ item ok first j := by
  induction h with
  | refl => exact Nat.le_refl _
  | step _ ih => exact Nat.le_trans ih item_le_succ

theorem first_le_item : first ≤ item ok first j := item_mono (Nat.zero_le j)

/-- The accepted attempts are at the items in order, each once. -/
theorem accepted_items :
    ((List.range j).filter ok).map (item ok first) = List.range' first (item ok first j - first) := by
  induction j with
  | zero => simp
  | succ j ih =>
    rw [List.range_succ, List.filter_append, List.map_append, ih]
    cases h : ok j
    · simp [h, item_refused h]
    · have hle : first ≤ item ok first j := first_le_item
      rw [item_accepted h, Nat.sub_add_comm hle, List.range'_concat]
      simp [h, hle]

/-- An item that is left behind was accepted. -/
theorem accepted_of_lt {k : Nat} (hk : first ≤ k) (h : k < item ok first j) :
    ∃ i < j, item ok first i = k ∧ ok i = true := by
  induction j with
  | zero => exact absurd h (Nat.not_lt.mpr hk)
  | succ j ih =>
    rcases Nat.lt_or_ge k (item ok first j) with hlt | hge
    · obtain ⟨i, hi, hitem⟩ := ih hlt
      exact ⟨i, Nat.lt_succ_of_lt hi, hitem⟩
    · cases hok : ok j
      · rw [item_refused hok] at h
        exact absurd h (Nat.not_lt.mpr hge)
      · rw [item_accepted hok] at h
        exact ⟨j, Nat.lt_succ_self j, Nat.le_antisymm hge (Nat.le_of_lt_succ h), hok⟩

theorem item_of_refused {d : Nat} (h : ∀ i < d, ok (j + i) = false) : item ok first (j + d) = item ok first j := by
  induction d with
  | zero => rfl
  | succ d ih => exact (item_refused (h d (Nat.lt_succ_self d))).trans (ih fun i hi => h i (Nat.lt_succ_of_lt hi))

/-- When no item before `first + m` is refused for ever, that item is reached, by an acceptance. -/
theorem reaches {m : Nat} (h : ∀ j, item ok first j < first + m → ∃ i, j ≤ i ∧ ok i = true) :
    ∃ j, item ok first j = first + m := by
  induction m with
  | zero => exact ⟨0, rfl⟩
  | succ m ih =>
    obtain ⟨j, hj⟩ := ih fun j hlt => h j (Nat.lt_succ_of_lt hlt)
    -- The first acceptance from attempt `j` on is of the item of `j`.
    have hex : ∃ d, ok (j + d) = true := by
      obtain ⟨i, hi, hok⟩ := h j (hj ▸ Nat.lt_succ_self _)
      exact ⟨i - j, by rwa [Nat.add_sub_cancel' hi]⟩
    have hsame : item ok first (j + Nat.find hex) = item ok first j :=
      item_of_refused fun i hi => by simpa using Nat.find_min hex hi
    exact ⟨j + Nat.find hex + 1, by rw [item_accepted (Nat.find_spec hex), hsame, hj, Nat.add_assoc]⟩

end Item

end Retry
