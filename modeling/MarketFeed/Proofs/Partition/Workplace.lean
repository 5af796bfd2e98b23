import MarketFeed.Partition.Worker

/-!
# What lies around a worker

A worker does nothing to what lies around it but through its workplace: it asks the historical
store, it publishes, and it stores places. So what these three keep is kept by everything that a
worker does.
-/

namespace MarketFeed

variable {σ : Type} {P : σ → Prop}

/-- Asking the store and publishing keep what is known of the surroundings. -/
structure Surroundings.Keeps (around : Surroundings σ) (P : σ → Prop) : Prop where
  lookup : ∀ id s x, P x → P (around.lookup id s x).2.2
  publish : ∀ output x, P x → P (around.publish output x).2

/-- So does storing a place. -/
structure Workplace.Keeps (place : Workplace σ) (P : σ → Prop) : Prop where
  surroundings : place.toSurroundings.Keeps P
  store : ∀ next x, P x → P (place.store next x).2

namespace Surroundings.Keeps

variable {around : Surroundings σ}

/-- Bringing a verdict to the sink keeps it. -/
theorem emit (h : around.Keeps P) (d : Delivery) (verdict : Verdict) (s : Shared) {x : σ}
    (hx : P x) : P (d.emit around verdict s x).2.2 := by
  unfold Delivery.emit
  split
  · exact hx
  · rename_i output s' _
    have hpublished := h.publish output x hx
    split <;> rename_i hreport <;> rw [hreport] at hpublished <;> exact hpublished

/-- Processing a message keeps it. -/
theorem process (h : around.Keeps P) (intake : Intake) (s : Shared) {x : σ} (hx : P x) :
    P (process around intake s x).2.2 := by
  unfold MarketFeed.process Delivery.run
  split
  · exact hx
  · exact h.emit _ _ _ hx
  · rename_i quote _ s' _
    exact h.emit _ _ _ (h.lookup quote.instrumentId s' x hx)

end Surroundings.Keeps

namespace Workplace.Keeps

variable {place : Workplace σ}

/-- Trying to finish a message keeps it. -/
theorem attempt (h : place.Keeps P) (m : InputMessage) (s : Shared) {x : σ} (hx : P x) :
    P (Worker.attempt place m s x).2.2 := by
  have hprocessed := h.surroundings.process (.ofMessage m.payload m.source) s hx
  unfold Worker.attempt
  split
  · rename_i hprocess
    rw [hprocess] at hprocessed
    exact hprocessed
  · rename_i s' x' hprocess
    rw [hprocess] at hprocessed
    have hstored := h.store m.next x' hprocessed
    simp only [Worker.storeNext]
    split <;> rename_i hstore <;> rw [hstore] at hstored <;> exact hstored

/-- Finishing messages in order keeps it. -/
theorem serve (h : place.Keeps P) (messages : List InputMessage) (s : Shared) {x : σ} (hx : P x) :
    P (Worker.serve place messages s x).2.2 := by
  induction messages generalizing s x with
  | nil => exact hx
  | cons m rest ih =>
    have hattempted := h.attempt m s hx
    unfold Worker.serve
    split <;> rename_i hattempt <;> rw [hattempt] at hattempted
    · exact ih _ hattempted
    · exact hattempted

/-- Whatever a worker does until it has to wait keeps it. -/
theorem run (h : place.Keeps P) (w : Worker) (stopping closed : Bool) (s : Shared) {x : σ}
    (hx : P x) : P (w.run place stopping closed s x).2.2 := by
  have hserved := h.serve w.messages s hx
  unfold Worker.run
  split
  · exact hx
  · split <;> rename_i hserve <;> rw [hserve] at hserved <;> exact hserved

end Workplace.Keeps

end MarketFeed
