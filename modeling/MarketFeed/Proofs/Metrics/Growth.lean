import MarketFeed.Metrics.Ledger
import Mathlib.Data.List.Perm.Basic

/-!
# How counters grow

A counter has the total it had before and one more for each time it was counted, whatever else
was measured in between. So what became of the ledger is told by the list of series that were
counted, in any order.

Here are the series that tell what deliveries came to. Others grow for other reasons.
-/

namespace MarketFeed

/-- The series that count what deliveries came to. -/
def Series.ofDeliveries : Series → Bool
  | outcomes _ | deadLetters _ _ | backfillLookups _ | publishErrors _ => true
  | _ => false

namespace Ledger

/-- The series that was put has the new reading. -/
@[simp] theorem reading?_put_self (ledger : Ledger) (series : Series) (reading : Reading) :
    (ledger.put series reading).reading? series = some reading := by
  induction ledger with
  | nil => simp [put, reading?]
  | cons entry rest ih =>
    obtain ⟨s, r⟩ := entry
    by_cases h : s = series
    · simp [put, reading?, h]
    · simpa [put, reading?, h] using ih

/-- All other series keep their readings. -/
theorem reading?_put_of_ne {ledger : Ledger} {series other : Series} (h : other ≠ series)
    (reading : Reading) : (ledger.put series reading).reading? other = ledger.reading? other := by
  induction ledger with
  | nil => simp [put, reading?, h.symm]
  | cons entry rest ih =>
    obtain ⟨s, r⟩ := entry
    by_cases hs : s = series
    · subst hs
      simp [put, reading?, h.symm]
    · by_cases ho : s = other
      · subst ho
        simp [put, reading?, hs]
      · simpa [put, reading?, hs, ho] using ih

/-- A series that is counted has one more, and all others have what they had. -/
theorem total_count (ledger : Ledger) (series other : Series) :
    (ledger.count series).total other = ledger.total other + [series].count other := by
  by_cases h : other = series
  · subst h
    simp [Ledger.count, add, total]
  · have hnone : [series].count other = 0 := List.count_eq_zero.mpr (by simpa using h)
    rw [hnone]
    simp [Ledger.count, add, total, reading?_put_of_ne h]

/-- Recording a duration counts nothing else. -/
theorem total_record {ledger : Ledger} {series other : Series} (h : other ≠ series) (millis : Nat) :
    (ledger.record series millis).total other = ledger.total other := by
  simp [record, total, reading?_put_of_ne h]

/-- The counters of deliveries have grown by one for each of the series counted. -/
def GrowsBy (before after : Ledger) (counted : List Series) : Prop :=
  ∀ series, series.ofDeliveries = true →
    after.total series = before.total series + counted.count series

namespace GrowsBy

variable {before mid after : Ledger} {counted counted' : List Series}

/-- Nothing grows by itself. -/
theorem refl (ledger : Ledger) : ledger.GrowsBy ledger [] := by
  intro series _
  simp

/-- A ledger that stays the same does not grow. -/
theorem of_eq (h : after = before) : before.GrowsBy after [] := h ▸ refl before

/-- What grows twice grows by both. -/
theorem trans (h : before.GrowsBy mid counted) (h' : mid.GrowsBy after counted') :
    before.GrowsBy after (counted ++ counted') := by
  intro series hseries
  rw [h' series hseries, h series hseries, List.count_append, Nat.add_assoc]

/-- The order in which series were counted does not matter. -/
theorem perm (h : before.GrowsBy after counted) (hperm : counted.Perm counted') :
    before.GrowsBy after counted' := by
  intro series hseries
  rw [h series hseries, hperm.count_eq]

/-- A counter that is counted grows. -/
theorem count (h : before.GrowsBy after counted) (series : Series) :
    before.GrowsBy (after.count series) (counted ++ [series]) := by
  intro other hother
  rw [total_count, h other hother, List.count_append, Nat.add_assoc]

/-- No duration is a counter of deliveries. -/
theorem record (h : before.GrowsBy after counted) {series : Series}
    (hseries : series.ofDeliveries = false) (millis : Nat) :
    before.GrowsBy (after.record series millis) counted := by
  intro other hother
  have hne : other ≠ series := by
    rintro rfl
    simp [hseries] at hother
  rw [total_record hne, h other hother]

end GrowsBy

end Ledger

end MarketFeed
