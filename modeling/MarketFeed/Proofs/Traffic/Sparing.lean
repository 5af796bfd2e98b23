import MarketFeed.Proofs.Traffic.Marks
import MarketFeed.Proofs.Traffic.Record

/-!
# A mark that is not evicted

A mark is lost before it expires if another one needs the room of its entry, or if an output is
refused and the mark of its id is withdrawn. A run may spare one mark the former and be free of the
latter. Then the id of this mark is live until the mark expires, whatever becomes of all others.
-/

namespace MarketFeed

/-! ## Deliveries whose outputs are accepted -/

/-- The delivery has not had its output refused. -/
def Progress.Unrefused : Progress → Prop
  | answered _ _ _ _ false => False
  | failed => False
  | _ => True

/-- A delivery whose output is not refused withdraws nothing. -/
theorem Advance.unrefused {ι : Type} {setting : Setting} {i : ι} {intake : Intake}
    {progress progress' : Progress} {s s' : Shared} {move : Move ι}
    (h : Advance setting i intake progress s move progress' s') (haccepted : ∀ j, move ≠ .refused j)
    (hbefore : progress.Unrefused) :
    progress'.Unrefused ∧ ∀ j marked now, move ≠ .withdrawn j marked now := by
  cases h with
  | refuse => exact absurd rfl (haccepted i)
  | withdraw => exact hbefore.elim
  | retry => exact hbefore.elim
  | _ => exact ⟨trivial, nofun⟩

namespace Traffic

variable {ι : Type} [DecidableEq ι] {setting : Setting} {ttl maxEntries : Nat} {s : Shared}
  {moves : List (Move ι)} {t t' : Traffic ι} {move : Move ι} {i : ι}

/-- No output has been refused. -/
def Unrefused (t : Traffic ι) : Prop :=
  ∀ i passage, t.passages i = some passage → passage.progress.Unrefused

/-- If a step refuses no output, it withdraws no mark. -/
theorem Unrefused.step (h : t.Unrefused) (hstep : Step setting t move t')
    (haccepted : ∀ j, move ≠ .refused j) :
    t'.Unrefused ∧ ∀ j marked now, move ≠ .withdrawn j marked now := by
  constructor
  · intro i passage hpassage
    rcases hstep.passage_cases hpassage with
      ⟨hold, -⟩ | ⟨intake, -, rfl⟩ | ⟨intake, progress, progress', rfl, hold, hadvance⟩
    · exact h i passage hold
    · trivial
    · exact (hadvance.unrefused haccepted (h i _ hold)).1
  · cases hstep with
    | enter => exact nofun
    | advance hpassage hadvance => exact (hadvance.unrefused haccepted (h _ _ hpassage)).2
    | ambient => exact nofun

/-- If no output is refused in a run, no delivery has failed. -/
theorem Run.unrefused (hrun : Run setting (.start ttl maxEntries s) moves t)
    (haccepted : ∀ i, .refused i ∉ moves) : t.Unrefused := by
  induction hrun with
  | nil =>
    intro i passage hpassage
    cases hpassage
  | snoc _ hstep ih =>
    refine ((ih fun i hmem => haccepted i (List.mem_append_left _ hmem)).step hstep ?_).1
    rintro i rfl
    exact haccepted i (by simp)

/-! ## Marks that are not evicted -/

/-- A step does not evict a mark: if an id is marked, be it that of the mark itself, there is room
for the entry of the mark. -/
def LeavesRoom (t t' : Traffic ι) (move : Move ι) (mark : Mark) : Prop :=
  ∀ i id, move = .committed i id →
    mark ∈ Guard.withMark t.shared.guard.entries t.shared.instant id →
    mark ∈ t'.shared.guard.entries

/-- A run in which a mark is never evicted. -/
inductive Sparing (setting : Setting) (t₀ : Traffic ι) (mark : Mark) :
    List (Move ι) → Traffic ι → Prop
  | nil : Sparing setting t₀ mark [] t₀
  | snoc {moves : List (Move ι)} {t t' : Traffic ι} {move : Move ι}
      (hrun : Sparing setting t₀ mark moves t) (hstep : Step setting t move t')
      (hroom : LeavesRoom t t' move mark) :
      Sparing setting t₀ mark (moves ++ [move]) t'

/-- A mark that a delivery holds is not set in the future, and until it expires its entry is on the
guard. -/
structure Keeps (ttl : Nat) (mark : Mark) (t : Traffic ι) : Prop where
  held : t.Held
  sameTtl : t.shared.guard.ttl = ttl
  past : ∀ i, t.marks i = some mark → mark.2 ≤ t.shared.instant
  kept : ∀ i, t.marks i = some mark → t.shared.instant < mark.2 + ttl →
    mark ∈ t.shared.guard.entries

namespace Keeps

variable {mark : Mark}

omit [DecidableEq ι] in
/-- An entry whose mark has not expired is fresh. -/
theorem fresh (h : t.Keeps ttl mark) (hmark : t.marks i = some mark)
    (hsoon : t.shared.instant < mark.2 + ttl) :
    t.shared.guard.isFresh t.shared.instant mark.2 = true := by
  rw [Guard.isFresh, h.sameTtl, decide_eq_true_eq]
  exact Nat.sub_lt_left_of_lt_add (h.past i hmark) hsoon

omit [DecidableEq ι] in
/-- The id of a mark that has not expired is live. -/
theorem live (h : t.Keeps ttl mark) (hmark : t.marks i = some mark)
    (hsoon : t.shared.instant < mark.2 + ttl) :
    t.shared.guard.isLive t.shared.instant mark.1 = true :=
  Guard.isLive_of_fresh h.held.oneEach (h.kept i hmark hsoon) (h.fresh hmark hsoon)

/-- A step that neither evicts the mark nor withdraws any keeps it. -/
theorem step (h : t.Keeps ttl mark) (hstep : Step setting t move t')
    (hroom : LeavesRoom t t' move mark)
    (hstays : ∀ i marked now, move ≠ .withdrawn i marked now) : t'.Keeps ttl mark := by
  have hheld := h.held.step hstep
  cases hstep.effect h.held.oneEach with
  | tidy hmarks hclock hguard _ =>
    refine ⟨hheld, hguard.ttl.trans h.sameTtl, ?past, ?kept⟩
    case past =>
      rw [hmarks]
      exact fun i hmark => Nat.le_trans (h.past i hmark) hclock
    case kept =>
      rw [hmarks]
      intro i hmark hsoon
      have hsoon' := Nat.lt_of_le_of_lt hclock hsoon
      exact hguard.fresh _ (h.kept i hmark hsoon') (h.fresh hmark hsoon')
  | mark j id _ hmarks hlive hclock hguard hmove =>
    refine ⟨hheld, (congrArg Guard.ttl hguard).trans h.sameTtl, ?past, ?kept⟩
    case past =>
      rw [hmarks, hclock]
      intro i hmark
      rcases update_marks_eq_some.mp hmark with ⟨-, hnew⟩ | ⟨-, hold⟩
      · cases hnew
        exact Nat.le_refl _
      · exact h.past i hold
    case kept =>
      rw [hmarks, hclock]
      intro i hmark hsoon
      refine hroom j id hmove (Guard.mem_withMark.mpr ?_)
      rcases update_marks_eq_some.mp hmark with ⟨-, hnew⟩ | ⟨-, hold⟩
      · exact .inr (Option.some.inj hnew).symm
      · -- The id that is marked is not live, so it is another one.
        refine .inl ⟨h.kept i hold hsoon, ?_⟩
        rintro rfl
        exact Bool.noConfusion ((h.live hold hsoon).symm.trans hlive)
  | forget j id marked _ _ _ _ hmove => exact absurd hmove (hstays _ _ _)

end Keeps

namespace Sparing

variable {mark : Mark}

/-- A run in which a mark is not evicted is a run. -/
theorem run (h : Sparing setting (.start ttl maxEntries s) mark moves t) :
    Run setting (.start ttl maxEntries s) moves t := by
  induction h with
  | nil => exact .nil
  | snoc _ hstep _ ih => exact ih.snoc hstep

/-- If no output is refused, the entry of a mark that is not evicted stays until it expires. -/
theorem keeps (h : Sparing setting (.start ttl maxEntries s) mark moves t)
    (haccepted : ∀ i, .refused i ∉ moves) : t.Keeps ttl mark := by
  induction h with
  | nil =>
    have hstart : Run setting (.start ttl maxEntries s) [] (.start ttl maxEntries s : Traffic ι) :=
      .nil
    exact ⟨hstart.held, rfl, by simp [marks, start], by simp [marks, start]⟩
  | @snoc moves t t' move hrun hstep hroom ih =>
    have hbefore : ∀ i, .refused i ∉ moves := fun i hmem =>
      haccepted i (List.mem_append_left _ hmem)
    have hnow : ∀ i, move ≠ .refused i := by
      rintro i rfl
      exact haccepted i (by simp)
    have hstays := ((hrun.run.unrefused hbefore).step hstep hnow).2
    exact (ih hbefore).step hstep hroom hstays

end Sparing

end Traffic

end MarketFeed
