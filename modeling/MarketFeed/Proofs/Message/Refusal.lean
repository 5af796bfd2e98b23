import MarketFeed.Partition.Worker
import MarketFeed.Proofs.Message.Requests

/-!
# A failed publication is undone

A message whose output was refused leaves the guard as if it had not come in, with one exception:
its mark may have needed the room of another entry, and that entry does not come back. It is not
younger than any other. What the mark leaves in the queue of the guard does not matter later, since
the guard is still one that can be reached by calls in a row.
-/

namespace MarketFeed

variable {σ : Type} {around : Surroundings σ} {ttl maxEntries : Nat} {s s' : Shared}

/-- The entries that the other ids have when an id is marked. They can have lost expired ones only,
and none if nothing happened to the guard while the store was asked. -/
structure Shared.OthersHold (around : Surroundings σ) (id : String) (s s' : Shared)
    (held : List Mark) : Prop where
  sublist : held.Sublist (Guard.dropEntry s.guard.entries id)
  fresh : ∀ entry ∈ Guard.dropEntry s.guard.entries id,
    s.guard.isFresh s'.instant entry.2 = true → entry ∈ held
  all : around.LeavesGuard → held = Guard.dropEntry s.guard.entries id

/-- A state after a mark was withdrawn: the id has no entry, the other ids have all theirs or, if
the guard was full, all but one that is not younger than any other, and the guard is one that calls
in a row lead to. -/
structure Shared.RolledBack (ttl maxEntries : Nat) (id : String) (held : List Mark)
    (s' : Shared) : Prop where
  absent : ∀ entry ∈ s'.guard.entries, entry.1 ≠ id
  others : Guard.SparesOthers (max 1 maxEntries) held s'.guard.entries
  reachable : s'.guard.Reachable ttl maxEntries s'.instant

/-- A message whose publication was refused is rolled back. -/
theorem Handled.rolledBack {intake : Intake} {asked : List Request} {verdict : Verdict}
    {s₁ : Shared} {output : Output} {error : PublishError}
    (h : Handled around intake s asked verdict s₁ output (.error error) s')
    (hreachable : s.guard.Reachable ttl maxEntries s.instant) :
    s.OthersHold around intake.id s' s₁.guard.entries ∧
      Shared.RolledBack ttl maxEntries intake.id s₁.guard.entries s' := by
  have hreached := h.cleared.reachable ttl maxEntries hreachable
  have hspares := hreached.inLine.sparesOthers intake.id
  rw [Guard.dropEntry_of_absent h.cleared.absent, hreached.limits.2] at hspares
  have hfresh := h.cleared.fresh
  rw [← h.instant] at hfresh
  refine ⟨⟨h.cleared.sublist, hfresh, fun hleaves => by rw [h.left hleaves]; rfl⟩, ?_, ?_, ?_⟩
  · rw [h.guard]
    exact fun entry hmem => (Guard.mem_dropEntry.mp hmem).2
  · rw [h.guard]
    exact hspares
  · rw [h.guard, h.instant]
    exact (hreached.perform (.mark intake.id)).perform (.forget intake.id)

/-- If the sink refuses the output of a message, and no other delivery moves meanwhile, then the
failure is the result, the mark of the id is withdrawn, and the guard has lost nothing but an
oldest entry if it was full. The next attempt brings an output to the sink again, unless another
delivery marks the id before. -/
theorem refused_rolled_back (hundisturbed : around.Undisturbed) {m : InputMessage}
    (hreachable : s.guard.Reachable ttl maxEntries s.instant)
    (hlive : s.guard.isLive s.instant ((statedId? m.payload).getD m.source.text) = false)
    {x y : σ} {result : Except PublishError Outcome} {requests : List Request}
    (hprocess : process around.recorded (.ofMessage m.payload m.source) s (x, []) =
      (result, s', y, requests))
    {output : Output} {error : PublishError}
    (hrefused : .publish output (.error error) ∈ requests) :
    result = .error error ∧
      (∃ held, s.OthersHold around ((statedId? m.payload).getD m.source.text) s' held ∧
        Shared.RolledBack ttl maxEntries ((statedId? m.payload).getD m.source.text) held s') ∧
      ∀ s₂ z, Relation.ReflTransGen Ambient s' s₂ → ∃ asked again report s₃ z',
        process around.recorded (.ofMessage m.payload m.source) s₂ (z, []) =
          (report.map fun () => .published again, s₃, z', asked ++ [.publish again report]) := by
  rw [← Intake.id_ofMessage] at hlive ⊢
  obtain ⟨asked, verdict, s₁, made, report, s₂, y', hmade, hhandled⟩ :=
    exists_handled hundisturbed hlive x
  cases hmade.symm.trans hprocess
  -- Lookups are no publications, so the one that was refused is the last request.
  obtain ⟨rfl, rfl⟩ : output = made ∧ report = .error error := by
    rcases List.mem_append.mp hrefused with hlookup | hlast
    · exact absurd hlookup (hhandled.decides.not_publish _ _)
    · cases List.mem_singleton.mp hlast
      exact ⟨rfl, rfl⟩
  obtain ⟨hothers, hrolled⟩ := hhandled.rolledBack hreachable
  refine ⟨rfl, ⟨_, hothers, hrolled⟩, fun s₂ z hpasses => ?_⟩
  have hnext := (Shared.Cleared.of_absent hrolled.absent).ambients hpasses
  obtain ⟨asked', _, _, again, report, s₃, z', hagain, -⟩ :=
    exists_handled hundisturbed hnext.not_live z
  exact ⟨asked', again, report, s₃, z', hagain⟩

/-- The guard has room for one entry, and another id has it. A message that is no event comes in,
and the sink refuses the dead letter: the entry is gone, and nothing is marked. -/
theorem refused_rolled_back_of_full :
    let failure : PublishError := ⟨"dead_letters", "timed out"⟩
    let around : Surroundings Unit :=
      ⟨false, fun _ s x => (.ok none, s, x), fun _ x => (.error failure, x)⟩
    let m : InputMessage := ⟨⟨"in", 0, 7⟩, utf8 "?"⟩
    let s : Shared := ⟨(Guard.new 10 1).after [(0, .mark "a")], 3, 0, 0, [], []⟩
    s.guard.Reachable 10 1 s.instant ∧ s.guard.entries = [("a", 0)] ∧
      ∃ s' output held,
        process around.recorded (.ofMessage m.payload m.source) s ((), []) =
          (.error failure, s', (), [.publish output (.error failure)]) ∧
        s.OthersHold around ((statedId? m.payload).getD m.source.text) s' held ∧
        Shared.RolledBack 10 1 ((statedId? m.payload).getD m.source.text) held s' ∧
        s'.guard.entries = [] := by
  intro failure around m s
  have hreachable : s.guard.Reachable 10 1 s.instant :=
    ⟨[(0, .mark "a")], List.pairwise_singleton _ _, by simp [s], rfl⟩
  obtain ⟨s', output, hprocess, hempty⟩ : ∃ s' output,
      process around.recorded (.ofMessage m.payload m.source) s ((), []) =
        (.error failure, s', (), [.publish output (.error failure)]) ∧ s'.guard.entries = [] :=
    ⟨_, _, rfl, rfl⟩
  obtain ⟨-, ⟨held, hothers, hrolled⟩, -⟩ :=
    refused_rolled_back (fun _ _ _ => .refl) hreachable rfl hprocess List.mem_cons_self
  exact ⟨hreachable, rfl, s', output, held, hprocess, hothers, hrolled, hempty⟩

end MarketFeed
