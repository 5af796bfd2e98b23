import MarketFeed.Proofs.Guard.Fresh
import MarketFeed.Proofs.Guard.Positions
import MarketFeed.Proofs.Traffic.Step
import Mathlib.Logic.Relation

/-!
# What processing a message asks of its surroundings

A delivery asks two things of what lies around it: the historical store for a price, and the sink
to take an output. Surroundings that record what they are asked give the same answers, so the
record tells what processing a message really does there.

While no other delivery moves, an id that was found not to be live cannot be marked before the
delivery marks it itself. Its output then goes to the sink, whatever the store has replied.
-/

namespace MarketFeed

/-- What a delivery asks of its surroundings, and what it is told. -/
inductive Request
  /-- The store is asked for the last tick of an instrument. -/
  | lookup (instrumentId : String) (reply : LookupAnswer)
  /-- The sink is to take an output. -/
  | publish (output : Output) (report : Except PublishError Unit)

namespace Surroundings

variable {σ : Type}

/-- The same surroundings with a record of what they are asked. -/
def recorded (around : Surroundings σ) : Surroundings (σ × List Request) where
  backfills := around.backfills
  lookup id s x :=
    let (reply, s, y) := around.lookup id s x.1
    (reply, s, y, x.2 ++ [.lookup id reply])
  publish output x :=
    let (report, y) := around.publish output x.1
    (report, y, x.2 ++ [.publish output report])

/-- Whether a missing price is looked up does not depend on the record. -/
theorem recorded_backfills (around : Surroundings σ) :
    around.recorded.backfills = around.backfills := rfl

/-- A publication is recorded with what the sink reports. -/
theorem recorded_publish (around : Surroundings σ) (output : Output) (x : σ)
    (before : List Request) :
    around.recorded.publish output (x, before) =
      ((around.publish output x).1, (around.publish output x).2,
        before ++ [.publish output (around.publish output x).1]) := rfl

/-- While the store is asked no other delivery moves. -/
def Undisturbed (around : Surroundings σ) : Prop :=
  ∀ id s x, Relation.ReflTransGen Ambient s (around.lookup id s x).2.1

/-- While the store is asked nothing happens to the guard at all. -/
def LeavesGuard (around : Surroundings σ) : Prop :=
  ∀ id s x, (around.lookup id s x).2.1.guard = s.guard

end Surroundings

variable {σ : Type} {around : Surroundings σ} {d : Delivery} {intake : Intake}

/-! ## Keeping a record -/

/-- A result with a record is the plain result, and what was asked for it was added to the
record. -/
def Records (before : List Request) (plain : Except PublishError Outcome × Shared × σ)
    (result : Except PublishError Outcome × Shared × σ × List Request) : Prop :=
  ∃ requests, result = (plain.1, plain.2.1, plain.2.2, before ++ requests)

/-- What was recorded later was recorded since the beginning. -/
theorem Records.since {before : List Request} {request : Request}
    {plain : Except PublishError Outcome × Shared × σ}
    {result : Except PublishError Outcome × Shared × σ × List Request}
    (h : Records (before ++ [request]) plain result) : Records before plain result := by
  obtain ⟨requests, rfl⟩ := h
  exact ⟨request :: requests, by simp⟩

/-- Bringing a verdict to the sink is the same with a record. -/
theorem Delivery.emit_records (d : Delivery) (around : Surroundings σ) (verdict : Verdict)
    (s : Shared) (x : σ) (before : List Request) :
    Records before (d.emit around verdict s x) (d.emit around.recorded verdict s (x, before)) := by
  unfold emit
  rcases d.commit verdict s with ⟨_ | output, s'⟩
  · exact ⟨[], by simp⟩
  · dsimp only
    rw [Surroundings.recorded_publish]
    rcases around.publish output x with ⟨_ | _, y⟩ <;> exact ⟨_, rfl⟩

/-- Processing a message is the same with a record. -/
theorem process_records (around : Surroundings σ) (intake : Intake) (s : Shared) (x : σ)
    (before : List Request) :
    Records before (process around intake s x)
      (process around.recorded intake s (x, before)) := by
  unfold process Delivery.run
  rw [Surroundings.recorded_backfills]
  rcases (⟨intake, around.backfills, s.instant⟩ : Delivery).check s with ⟨course, s₁⟩
  cases course with
  | drop => exact ⟨[], by simp⟩
  | settle verdict => exact Delivery.emit_records _ around verdict s₁ x before
  | ask event quote since =>
    let asked : Request := .lookup quote.instrumentId (around.lookup quote.instrumentId s₁ x).1
    exact (Delivery.emit_records _ around _ _ _ (before ++ [asked])).since

/-! ## The guard until the id is marked -/

/-- The clock has not gone back, and the guard has lost the entry of an id and expired entries of
the others at most. -/
structure Shared.Cleared (id : String) (s s' : Shared) : Prop where
  later : s.instant ≤ s'.instant
  ttl : s'.guard.ttl = s.guard.ttl
  capacity : s'.guard.capacity = s.guard.capacity
  sublist : s'.guard.entries.Sublist (Guard.dropEntry s.guard.entries id)
  fresh : ∀ entry ∈ Guard.dropEntry s.guard.entries id,
    s.guard.isFresh s'.instant entry.2 = true → entry ∈ s'.guard.entries
  reachable : ∀ ttl maxEntries, s.guard.Reachable ttl maxEntries s.instant →
    s'.guard.Reachable ttl maxEntries s'.instant

namespace Shared.Cleared

variable {id : String} {s s' s'' : Shared}

/-- A check that finds an id not live clears its entry. -/
theorem of_check (h : s.guard.isLive s.instant d.id = false) :
    s.Cleared d.id (d.check s).2 ∧ (d.check s).2.guard = s.guard.forget d.id := by
  obtain ⟨-, hguard, hinstant⟩ := Delivery.check_of_not_live h
  replace hguard : (d.check s).2.guard = s.guard.forget d.id := by
    rw [hguard]
    simp [Guard.seen, h, Guard.forget]
  refine ⟨⟨Nat.le_of_eq hinstant.symm, by rw [hguard]; rfl, by rw [hguard]; rfl, ?_,
    fun entry hmem _ => ?_, fun ttl maxEntries hreachable => ?_⟩, hguard⟩
  · rw [hguard]
    exact List.Sublist.refl _
  · rw [hguard]
    exact hmem
  · rw [hguard, hinstant]
    exact hreachable.perform (.forget d.id)

/-- An id without an entry needs no clearing. -/
theorem of_absent (h : ∀ entry ∈ s.guard.entries, entry.1 ≠ id) : s.Cleared id s := by
  refine ⟨Nat.le_refl _, rfl, rfl, ?_, fun entry hmem _ => (Guard.mem_dropEntry.mp hmem).1,
    fun _ _ hreachable => hreachable⟩
  rw [Guard.dropEntry_of_absent h]

/-- The entry stays away while no delivery moves. -/
theorem ambient (h : s.Cleared id s') (hambient : Ambient s' s'') : s.Cleared id s'' := by
  cases hambient with
  | sweep =>
    refine ⟨h.later, h.ttl, h.capacity, List.filter_sublist.trans h.sublist,
      fun entry hmem hfresh => List.mem_filter.mpr ⟨h.fresh entry hmem hfresh, ?_⟩,
      fun ttl maxEntries hreachable => (h.reachable ttl maxEntries hreachable).perform .sweep⟩
    rw [Guard.isFresh, h.ttl]
    exact hfresh
  | elapse instant wall hle =>
    exact ⟨Nat.le_trans h.later hle, h.ttl, h.capacity, h.sublist,
      fun entry hmem hfresh => h.fresh entry hmem (Guard.isFresh_of_later hle hfresh),
      fun ttl maxEntries hreachable => (h.reachable ttl maxEntries hreachable).mono hle⟩
  | measure change => exact ⟨h.later, h.ttl, h.capacity, h.sublist, h.fresh, h.reachable⟩

/-- The entry stays away as long as no delivery moves. -/
theorem ambients (h : s.Cleared id s') (hambient : Relation.ReflTransGen Ambient s' s'') :
    s.Cleared id s'' := by
  induction hambient with
  | refl => exact h
  | tail _ hlast ih => exact ih.ambient hlast

/-- The entry does not come back as long as the guard and the clock are left alone. -/
theorem of_eq (h : s.Cleared id s') (hguard : s''.guard = s'.guard)
    (hinstant : s''.instant = s'.instant) : s.Cleared id s'' := by
  obtain ⟨hlater, httl, hcapacity, hsublist, hfresh, hreachable⟩ := h
  rw [← hguard] at httl hcapacity hsublist hfresh hreachable
  rw [← hinstant] at hlater hfresh hreachable
  exact ⟨hlater, httl, hcapacity, hsublist, hfresh, hreachable⟩

/-- The id has no entry. -/
theorem absent (h : s.Cleared id s') : ∀ entry ∈ s'.guard.entries, entry.1 ≠ id :=
  fun _ hmem => (Guard.mem_dropEntry.mp (h.sublist.subset hmem)).2

/-- An id without an entry is not live. -/
theorem not_live (h : s.Cleared id s') : s'.guard.isLive s'.instant id = false :=
  Guard.isLive_of_absent h.absent s'.instant

end Shared.Cleared

/-! ## The courses of a message that is not live -/

/-- The verdict that a message comes to, and what the store is asked before. -/
inductive Decides (backfills : Bool) (intake : Intake) : List Request → Verdict → Prop
  /-- The message has its verdict without a lookup. -/
  | settle {verdict : Verdict}
      (h : Setting.Admits ⟨backfills, fun _ _ => False⟩ intake verdict) :
      Decides backfills intake [] verdict
  /-- The message is an event whose price is looked up, once. -/
  | ask {event : RawEvent} {quote : Quote}
      (h : Setting.Asks ⟨backfills, fun _ _ => False⟩ intake event quote)
      (reply : LookupAnswer) :
      Decides backfills intake [.lookup quote.instrumentId reply]
        (lookupVerdict event quote reply)

/-- A dropped message is a duplicate, and nothing is asked of the surroundings. -/
theorem Delivery.run_of_drop {s s' : Shared} (h : d.check s = (.drop, s'))
    (around : Surroundings σ) (x : σ) :
    d.run around s x = (.ok .duplicate, d.finish .duplicate s', x) := by
  rw [run, h]

/-- A verdict that is clear is brought to the sink. -/
theorem Delivery.run_of_settle {s s' : Shared} {verdict : Verdict}
    (h : d.check s = (.settle verdict, s')) (around : Surroundings σ) (x : σ) :
    d.run around s x = d.emit around verdict s' x := by
  rw [run, h]

/-- A verdict that depends on the store is brought to the sink after the reply. -/
theorem Delivery.run_of_ask {s s' : Shared} {event : RawEvent} {quote : Quote} {since : Instant}
    (h : d.check s = (.ask event quote since, s')) (around : Surroundings σ) (x : σ) :
    d.run around s x =
      d.emit around (lookupVerdict event quote (around.lookup quote.instrumentId s' x).1)
        (d.answer event quote since (around.lookup quote.instrumentId s' x).1
          (around.lookup quote.instrumentId s' x).2.1).2
        (around.lookup quote.instrumentId s' x).2.2 := by
  rw [run, h, ← Setting.answer_verdict d event quote since _
    (around.lookup quote.instrumentId s' x).2.1]

/-- A live message is a duplicate, and nothing is asked of the surroundings. -/
theorem process_of_live (around : Surroundings σ) {s : Shared} (x : σ)
    (hlive : s.guard.isLive s.instant intake.id = true) :
    ∃ s', process around intake s x = (.ok .duplicate, s', x) := by
  let d : Delivery := ⟨intake, around.backfills, s.instant⟩
  obtain ⟨hdrop, -⟩ := Delivery.check_of_live (d := d) hlive
  exact ⟨_, Delivery.run_of_drop (Prod.ext hdrop rfl) around x⟩

/-- A message that is not live comes to a verdict while its id stays without an entry, and the
verdict is brought to the sink. -/
theorem process_of_not_live {s : Shared} (x : σ) (hundisturbed : around.Undisturbed)
    (hlive : s.guard.isLive s.instant intake.id = false) :
    ∃ asked verdict s₁ y, Decides around.backfills intake asked verdict ∧
      s.Cleared intake.id s₁ ∧ (around.LeavesGuard → s₁.guard = s.guard.forget intake.id) ∧
      process around.recorded intake s (x, []) =
        Delivery.emit ⟨intake, around.backfills, s.instant⟩ around.recorded verdict s₁
          (y, asked) := by
  let setting : Setting := ⟨around.backfills, fun _ _ => False⟩
  let d := setting.delivery intake s.instant
  obtain ⟨hcleared, hforgotten⟩ := Shared.Cleared.of_check (d := d) hlive
  have hgoesOn := (Delivery.check_of_not_live (d := d) hlive).1
  rcases hcheck : d.check s with ⟨course, s₁⟩
  rw [hcheck] at hcleared hforgotten hgoesOn
  have htakes := setting.takes_of_check hcheck
  cases course with
  | drop => exact absurd rfl hgoesOn
  | settle verdict =>
    exact ⟨[], verdict, s₁, x, .settle htakes, hcleared, fun _ => hforgotten,
      Delivery.run_of_settle hcheck around.recorded (x, [])⟩
  | ask event quote since =>
    have hpassed := hcleared.ambients (hundisturbed quote.instrumentId s₁ x)
    have hrun := Delivery.run_of_ask hcheck around.recorded (x, [])
    obtain ⟨hguard, hinstant⟩ := Delivery.answer_frame
      (rfl : d.answer event quote since (around.lookup quote.instrumentId s₁ x).1
        (around.lookup quote.instrumentId s₁ x).2.1 = (_, _))
    exact ⟨_, _, _, _, .ask htakes _, hpassed.of_eq hguard hinstant,
      fun hleaves => hguard.trans ((hleaves ..).trans hforgotten), hrun⟩

/-! ## Handing the output over -/

/-- The guard after an output was handed to the sink: the id is marked, and the mark is withdrawn
if the sink failed. -/
def Guard.reported (g : Guard) (now : Instant) (id : String) : Except PublishError Unit → Guard
  | .ok () => g.mark now id
  | .error _ => (g.mark now id).forget id

/-- The record of a verdict on a message that is not live is handed to the sink, once, and the
report of the sink is the result. -/
theorem Delivery.emit_of_not_live {s : Shared} (hlive : s.guard.isLive s.instant d.id = false)
    (around : Surroundings σ) (verdict : Verdict) (x : σ) (before : List Request) :
    ∃ output report s' y, output = (d.record s verdict).1 ∧
      d.emit around.recorded verdict s (x, before) =
        (report.map fun () => .published output, s', y, before ++ [.publish output report]) ∧
      s'.wall = s.wall ∧ s'.instant = s.instant ∧
      s'.guard = s.guard.reported s.instant d.id report := by
  unfold emit
  rw [commit_of_not_live hlive]
  dsimp only
  rw [Surroundings.recorded_publish]
  rcases around.publish (d.record s verdict).1 x with ⟨error | ⟨⟩, y⟩
  · refine ⟨_, .error error, _, y, rfl, rfl, ?_⟩
    cases verdict <;> exact ⟨rfl, rfl, rfl⟩
  · refine ⟨_, .ok (), _, y, rfl, rfl, ?_⟩
    cases verdict <;> exact ⟨rfl, rfl, rfl⟩

/-- How a message that is not live was processed: it has come to a verdict by the lookups that were
made, its id was without an entry until it was marked, and the record of the verdict was handed to
the sink with a report. -/
structure Handled (around : Surroundings σ) (intake : Intake) (s : Shared) (asked : List Request)
    (verdict : Verdict) (s₁ : Shared) (output : Output) (report : Except PublishError Unit)
    (s' : Shared) : Prop where
  decides : Decides around.backfills intake asked verdict
  cleared : s.Cleared intake.id s₁
  left : around.LeavesGuard → s₁.guard = s.guard.forget intake.id
  output : output = (Delivery.record ⟨intake, around.backfills, s.instant⟩ s₁ verdict).1
  wall : s'.wall = s₁.wall
  instant : s'.instant = s₁.instant
  guard : s'.guard = s₁.guard.reported s₁.instant intake.id report

/-- A message that is not live leads to one publication, after one lookup at most, and the report
of the sink is the result. -/
theorem exists_handled {s : Shared} (hundisturbed : around.Undisturbed)
    (hlive : s.guard.isLive s.instant intake.id = false) (x : σ) :
    ∃ asked verdict s₁ output report s' y,
      process around.recorded intake s (x, []) =
        (report.map fun () => .published output, s', y, asked ++ [.publish output report]) ∧
      Handled around intake s asked verdict s₁ output report s' := by
  obtain ⟨asked, verdict, s₁, y, hdecides, hcleared, hleft, hprocess⟩ :=
    process_of_not_live x hundisturbed hlive
  let d : Delivery := ⟨intake, around.backfills, s.instant⟩
  obtain ⟨output, report, s', y', houtput, hemit, hwall, hinstant, hguard⟩ :=
    d.emit_of_not_live hcleared.not_live around verdict y asked
  exact ⟨asked, verdict, s₁, output, report, s', y', hprocess.trans hemit,
    hdecides, hcleared, hleft, houtput, hwall, hinstant, hguard⟩

/-- Lookups are no publications. -/
theorem Decides.not_publish {backfills : Bool} {asked : List Request} {verdict : Verdict}
    (h : Decides backfills intake asked verdict) (output : Output)
    (report : Except PublishError Unit) : .publish output report ∉ asked := by
  cases h <;> simp

end MarketFeed
