import MarketFeed.Proofs.Guard.Queue
import MarketFeed.Rehearsal.Pipeline

/-!
# Calls of the guard in a row

Whatever is asked of the guard, it does one of three things: nothing, or it drops some entries,
or it sets one mark. So a guard that was in order stays in order over any row of calls in which
no id is marked twice at one instant, however the instants run.
-/

namespace MarketFeed

open Rehearsal

/-- A call of the guard and the instant at which it is made. -/
abbrev TimedCall := Instant × GuardCall

namespace Guard

/-- The mark that a call sets, if it sets one. -/
def inserted? (g : Guard) (now : Instant) : GuardCall → Option Mark
  | .mark id => some (id, now)
  | .tryMark id => if (g.tryMark now id).1 then some (id, now) else none
  | _ => none

/-- The guard after calls in a row. -/
def after (g : Guard) : List TimedCall → Guard
  | [] => g
  | (now, call) :: rest => (call.perform now g).2.after rest

/-- The answers to calls in a row. -/
def answers (g : Guard) : List TimedCall → List GuardAnswer
  | [] => []
  | (now, call) :: rest => (call.perform now g).1 :: (call.perform now g).2.answers rest

/-- The marks that calls in a row set, in order. -/
def insertions (g : Guard) : List TimedCall → List Mark
  | [] => []
  | (now, call) :: rest =>
    (g.inserted? now call).toList ++ (call.perform now g).2.insertions rest

/-- Calls after calls. -/
@[simp] theorem after_append (g : Guard) (calls later : List TimedCall) :
    g.after (calls ++ later) = (g.after calls).after later := by
  induction calls generalizing g with
  | nil => rfl
  | cons call rest ih => simp [after, ih]

/-- The marks of calls after calls. -/
@[simp] theorem insertions_append (g : Guard) (calls later : List TimedCall) :
    g.insertions (calls ++ later) = g.insertions calls ++ (g.after calls).insertions later := by
  induction calls generalizing g with
  | nil => rfl
  | cons call rest ih => simp [insertions, after, ih]

/-! ## One call -/

/-- What a call does to the guard, by the mark that it sets. -/
inductive Effect (now : Instant) (g : Guard) : Option Mark → Guard → Prop
  | keep : Effect now g none g
  /-- Some entries are dropped. The queue stays, or loses the positions that do not count. -/
  | drop (select : Mark → Bool) (order : List Mark)
      (horder : order = g.order ∨ order = g.order.filter (counts (g.entries.filter select))) :
      Effect now g none { g with entries := g.entries.filter select, order := order }
  | mark (id : String) : Effect now g (some (id, now)) (g.mark now id)

/-- Everything that a call can do to the guard. -/
theorem perform_effect (call : GuardCall) (now : Instant) (g : Guard) :
    Effect now g (g.inserted? now call) (call.perform now g).2 := by
  cases call with
  | seen id =>
    simp only [GuardCall.perform, inserted?, seen]
    split
    · exact .keep
    · exact .drop _ _ (.inl rfl)
  | mark id => exact .mark id
  | tryMark id =>
    simp only [GuardCall.perform, inserted?, tryMark]
    split
    · exact .keep
    · exact .mark id
  | forget id => exact .drop _ _ (.inl rfl)
  | sweep => exact .drop _ _ (.inr rfl)
  | size => exact .keep

/-- A call that sets a mark does nothing else. -/
theorem perform_of_inserted {call : GuardCall} {now : Instant} {g : Guard} {id : String}
    (h : g.inserted? now call = some (id, now)) : (call.perform now g).2 = g.mark now id := by
  have heffect := perform_effect call now g
  rw [h] at heffect
  generalize (call.perform now g).2 = g' at heffect
  cases heffect
  rfl

/-- A mark that is set without being set twice was not set before. -/
theorem not_mem_of_inserted {call : GuardCall} {now : Instant} {g : Guard} {mark : Mark}
    {marks : List Mark} (hnew : (marks ++ (g.inserted? now call).toList).Nodup)
    (h : g.inserted? now call = some mark) : mark ∉ marks := by
  rw [h] at hnew
  exact fun hold => List.disjoint_of_nodup_append hnew hold (by simp)

/-- The limits of the guard are never changed. -/
theorem Effect.limits {now : Instant} {g g' : Guard} {mark? : Option Mark}
    (h : Effect now g mark? g') : g'.ttl = g.ttl ∧ g'.capacity = g.capacity := by
  cases h <;> exact ⟨rfl, rfl⟩

/-- A call keeps the guard in order, unless it sets a mark that was set before. -/
theorem Orderly.step {marks : List Mark} {now : Instant} {g g' : Guard} {mark? : Option Mark}
    (h : g.Orderly marks) (heffect : Effect now g mark? g') (hnew : (marks ++ mark?.toList).Nodup) :
    g'.Orderly (marks ++ mark?.toList) := by
  cases heffect with
  | keep => simpa using h
  | drop select order horder => simpa using h.filter select horder
  | mark id =>
    refine h.mark fun hold => ?_
    exact (List.disjoint_of_nodup_append hnew) hold (by simp)

/-! ## All calls -/

/-- Calls in a row keep a guard in order, unless they set a mark that was set before. -/
theorem Orderly.after {marks : List Mark} {g : Guard} (h : g.Orderly marks)
    (calls : List TimedCall) (hnew : (marks ++ g.insertions calls).Nodup) :
    (g.after calls).Orderly (marks ++ g.insertions calls) := by
  induction calls generalizing marks g with
  | nil => simpa [Guard.after, insertions] using h
  | cons call rest ih =>
    obtain ⟨now, call⟩ := call
    simp only [insertions, ← List.append_assoc] at hnew ⊢
    have hnow : (marks ++ (g.inserted? now call).toList).Nodup :=
      hnew.sublist (List.sublist_append_left _ _)
    exact ih (h.step (perform_effect call now g) hnow) hnew

/-- A new guard is in order after calls in a row that set no mark twice. -/
theorem orderly_after {ttl maxEntries : Nat} {calls : List TimedCall}
    (hnew : ((new ttl maxEntries).insertions calls).Nodup) :
    ((new ttl maxEntries).after calls).Orderly ((new ttl maxEntries).insertions calls) := by
  simpa using (orderly_new ttl maxEntries).after calls (by simpa using hnew)

/-- Calls in a row do not change the limits of the guard. -/
theorem after_limits (g : Guard) (calls : List TimedCall) :
    (g.after calls).ttl = g.ttl ∧ (g.after calls).capacity = g.capacity := by
  induction calls generalizing g with
  | nil => exact ⟨rfl, rfl⟩
  | cons call rest ih =>
    obtain ⟨now, call⟩ := call
    obtain ⟨httl, hcapacity⟩ := (perform_effect call now g).limits
    obtain ⟨httl', hcapacity'⟩ := ih (call.perform now g).2
    exact ⟨httl'.trans httl, hcapacity'.trans hcapacity⟩

end Guard

end MarketFeed
