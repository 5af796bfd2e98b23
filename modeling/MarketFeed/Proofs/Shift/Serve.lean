import MarketFeed.Proofs.Shift.Step
import MarketFeed.Proofs.Traffic.Solo

/-!
# A worker without interruption

When a worker runs until it has to wait, as the program lets it, it takes the steps of a crew at
work while no other worker moves. So whatever is known of all runs of a crew at work is known of
the workers of the program. The outputs that the surroundings of the worker have accepted meanwhile,
and the places that they were to store, are those of its deeds, in the same order.
-/

namespace MarketFeed

/-- A worker without a message that is under way, and with these messages: it has begun the
first, if any. -/
def Worker.resting : List InputMessage → Worker
  | [] => .idle
  | m :: rest => ⟨some m, rest, false⟩

/-- What a worker has settled with its surroundings. -/
inductive Settlement
  /-- The sink has accepted an output. -/
  | accepted (output : Output)
  /-- A place was to be stored, and was stored or not. -/
  | stored (place : Coordinates) (done : Bool)

/-- What was settled in one step of a crew at work. -/
def Deed.settlement? : Deed → Option Settlement
  | moved (.published _ output _) => some (.accepted output)
  | stored _ place done => some (.stored place done)
  | _ => none

/-- What was settled by some deeds, in order. -/
def settlements (deeds : List Deed) : List Settlement := deeds.filterMap Deed.settlement?

/-- What was settled in one stretch after the other. -/
theorem settlements_append (deeds deeds' : List Deed) :
    settlements (deeds ++ deeds') = settlements deeds ++ settlements deeds' :=
  List.filterMap_append ..

/-- What a workplace writes down, from one state to another, are the outputs that it accepts and
the places that it is to store. -/
structure Workplace.Notes {σ : Type} (place : Workplace σ)
    (noted : σ → List Settlement → σ → Prop) : Prop where
  outputs : place.toSurroundings.Notes fun x outputs y => noted x (outputs.map .accepted) y
  append : ∀ {x y z settled more}, noted x settled y → noted y more z → noted x (settled ++ more) z
  store : ∀ {next x y done}, place.store next x = (done, y) → noted x [.stored next done] y

namespace Shift

variable {setting : Setting} {first mid shift shift' : Shift} {deeds deeds' : List Deed}
  {p : Partition}

/-- A run goes on after a run. -/
theorem Run.append (h : Run setting first deeds mid) (h' : Run setting mid deeds' shift) :
    Run setting first (deeds ++ deeds') shift := by
  induction h' with
  | nil => simpa using h
  | snoc _ hstep ih =>
    rw [← List.append_assoc]
    exact ih.snoc hstep

/-- Nothing has changed but the deliveries of one partition, its worker, and what all deliveries
share. -/
structure Alone (p : Partition) (shift shift' : Shift) : Prop where
  others : ∀ q, q ≠ p → shift'.crew.worker? q = shift.crew.worker? q
  passages : ∀ k : Ticket, k.partition ≠ p →
    shift'.traffic.passages k = shift.traffic.passages k
  finished : ∀ q, q ≠ p → shift'.finished q = shift.finished q
  capacity : shift'.crew.capacity = shift.crew.capacity
  dismissed : shift'.crew.dismissed = shift.crew.dismissed
  calling : shift'.calling = shift.calling
  stopping : shift'.stopping = shift.stopping

/-- Nothing has changed at all. -/
theorem Alone.refl (p : Partition) (shift : Shift) : Alone p shift shift :=
  ⟨fun _ _ => rfl, fun _ _ => rfl, fun _ _ => rfl, rfl, rfl, rfl, rfl⟩

/-- Nothing else has changed in one stretch after the other. -/
theorem Alone.trans (h : Alone p first mid) (h' : Alone p mid shift) : Alone p first shift where
  others := fun q hq => (h'.others q hq).trans (h.others q hq)
  passages := fun k hk => (h'.passages k hk).trans (h.passages k hk)
  finished := fun q hq => (h'.finished q hq).trans (h.finished q hq)
  capacity := h'.capacity.trans h.capacity
  dismissed := h'.dismissed.trans h.dismissed
  calling := h'.calling.trans h.calling
  stopping := h'.stopping.trans h.stopping

/-- Replacing the worker, with or without another look, changes nothing else. -/
theorem Alone.set (shift : Shift) (p : Partition) (w : Worker) (looked : Partition → Bool) :
    Alone p shift { shift with crew := shift.crew.set p w, looked := looked } :=
  ⟨fun q hq => by simp [Crew.worker?_set, hq], fun _ _ => rfl, fun _ _ => rfl, rfl, rfl, rfl, rfl⟩

/-- The delivery of the worker has come so far. -/
def reach (shift : Shift) (p : Partition) (passage : Passage) (s : Shared) : Shift :=
  { shift with traffic := shift.traffic.put (shift.ticket p) passage s }

/-- Where the delivery of the worker has come to replaces where it was. -/
theorem reach_reach (shift : Shift) (p : Partition) (passage passage' : Passage) (s s' : Shared) :
    (shift.reach p passage s).reach p passage' s' = shift.reach p passage' s' := by
  simp [reach, ticket]

/-- Where the delivery of the worker has come to. -/
theorem passages_reach (shift : Shift) (p : Partition) (passage : Passage) (s : Shared) :
    (shift.reach p passage s).traffic.passages ((shift.reach p passage s).ticket p) =
      some passage := by
  simp [reach, ticket, Traffic.put]

/-- A delivery that stays where it is. -/
theorem reach_self {passage : Passage}
    (h : shift.traffic.passages (shift.ticket p) = some passage) :
    shift.reach p passage shift.traffic.shared = shift := by
  rw [reach, Traffic.put, ← h, Function.update_eq_self]

/-- While a delivery moves, nothing else changes. -/
theorem Alone.reach (shift : Shift) (p : Partition) (passage : Passage) (s : Shared) :
    Alone p shift (shift.reach p passage s) where
  others := fun _ _ => rfl
  passages := fun _ hk => Function.update_of_ne (fun heq => hk (congrArg Ticket.partition heq)) _ _
  finished := fun _ _ => rfl
  capacity := rfl
  dismissed := rfl
  calling := rfl
  stopping := rfl

/-! ## What is settled -/

/-- What a delivery has put out is settled with the surroundings of its worker. -/
theorem settlements_moved (solo : List (Move Ticket)) :
    settlements (solo.map Deed.moved) = (outputsIn solo).map Settlement.accepted := by
  simp only [settlements, outputsIn, publications, List.filterMap_map, List.map_filterMap]
  exact List.filterMap_congr fun move _ => by cases move <;> rfl

/-! ## One message -/

/-- What a delivery does alone, the worker of its message does. -/
theorem work_solo {w : Worker} {m : InputMessage} {intake : Intake} {progress progress' : Progress}
    {solo : List (Move Ticket)} {s' : Shared} (hworker : shift.crew.worker? p = some w)
    (hbegun : w.begun = some m)
    (hpassage : shift.traffic.passages (shift.ticket p) = some ⟨intake, progress⟩)
    (h : Solo setting (shift.ticket p) intake progress shift.traffic.shared solo progress' s') :
    Run setting shift (solo.map Deed.moved) (shift.reach p ⟨intake, progress'⟩ s') := by
  induction h with
  | nil =>
    rw [reach_self hpassage]
    exact .nil
  | @advance _ move progress₁ progress₂ s₁ s₂ _ hadvance ih =>
    have hstep : Step setting (shift.reach p ⟨intake, progress₁⟩ s₁) (.moved move)
        ((shift.reach p ⟨intake, progress₁⟩ s₁).reach p ⟨intake, progress₂⟩ s₂) :=
      .work hworker hbegun (passages_reach ..) hadvance
    rw [reach_reach] at hstep
    rw [List.map_append]
    exact ih.snoc hstep
  | ambient _ hambient ih =>
    rw [List.map_append]
    exact ih.snoc (.ambient hambient)

/-- Storing a place measures a failure, and changes nothing else that deliveries share. -/
theorem storeNext_eq {σ : Type} (place : Workplace σ) (m : InputMessage) (s : Shared) (x : σ) :
    Worker.storeNext place m s x =
      (s.stored (place.store m.next x).1, (place.store m.next x).2) := by
  unfold Worker.storeNext
  split <;> simp_all [Shared.stored]

/-- Trying to finish a message that was begun: its place is stored, or it has failed. -/
theorem attempt_alone {σ : Type} {place : Workplace σ} {noted : σ → List Settlement → σ → Prop}
    {x x' : σ} {s' : Shared} {done : Bool} {w : Worker} {m : InputMessage}
    (hfits : place.toSurroundings.Fits setting) (hnotes : place.Notes noted)
    (hworker : shift.crew.worker? p = some w) (hbegun : w.begun = some m)
    (hpassage : shift.traffic.passages (shift.ticket p) = some ⟨m.intake, .waiting⟩)
    (hattempt : Worker.attempt place m shift.traffic.shared x = (done, s', x')) :
    ∃ deeds shift', Run setting shift deeds shift' ∧ Alone p shift shift' ∧
      shift'.traffic.shared = s' ∧ noted x (settlements deeds) x' ∧
      if done then shift'.crew.worker? p = some { w with begun := none }
      else shift'.crew.worker? p = some w ∧
        shift'.traffic.passages (shift'.ticket p) = some ⟨m.intake, .failed⟩ := by
  unfold Worker.attempt at hattempt
  split at hattempt
  · rename_i e s₁ x₁ hprocess
    cases hattempt
    obtain ⟨solo, progress, hsolo, hends, hnoted⟩ := Solo.process hfits hnotes.outputs hprocess
    obtain rfl : progress = .failed := hends
    have hrun := work_solo hworker hbegun hpassage hsolo
    rw [← settlements_moved] at hnoted
    exact ⟨_, _, hrun, .reach .., rfl, hnoted, hworker, passages_reach ..⟩
  · rename_i outcome s₁ x₁ hprocess
    obtain ⟨solo, progress, hsolo, hends, hnoted⟩ := Solo.process hfits hnotes.outputs hprocess
    have hrun := work_solo hworker hbegun hpassage hsolo
    rw [← settlements_moved] at hnoted
    have houtcome : (shift.reach p ⟨m.intake, progress⟩ s₁).traffic.outcome?
        ((shift.reach p ⟨m.intake, progress⟩ s₁).ticket p) = some outcome := by
      rw [Traffic.outcome?, passages_reach]
      exact hends
    rw [storeNext_eq] at hattempt
    cases hattempt
    have hstored := hrun.snoc (.store (place.store m.next x₁).1 hworker hbegun houtcome)
    refine ⟨_, _, hstored, ?_, rfl, ?_, ?_⟩
    · exact (Alone.reach shift p _ s₁).trans
        ⟨fun q hq => by simp [Crew.worker?_set, hq], fun _ _ => rfl,
          fun q hq => Function.update_of_ne hq _ _, rfl, rfl, rfl, rfl⟩
    · rw [settlements_append]
      exact hnotes.append hnoted (hnotes.store rfl)
    · simp [reach, Crew.worker?_set, hworker]

/-! ## All messages of a worker -/

/-- A worker that waits: it has begun no message, or one that failed. -/
structure Rests (shift : Shift) (p : Partition) (w : Worker) : Prop where
  hired : shift.crew.worker? p = some w
  present : w.ended = false
  failed : ∀ m, w.begun = some m →
    shift.traffic.passages (shift.ticket p) = some ⟨m.intake, .failed⟩

/-- A worker that waits begins its first message, or tries it again. -/
theorem Rests.begin {w : Worker} {m : InputMessage} {rest : List InputMessage}
    (h : shift.Rests p w) (hgo : shift.stopping = false) (hmessages : w.messages = m :: rest) :
    ∃ deeds shift', Run setting shift deeds shift' ∧ Alone p shift shift' ∧
      settlements deeds = [] ∧ shift'.traffic.shared = shift.traffic.shared ∧
      shift'.crew.worker? p = some ⟨some m, rest, false⟩ ∧
      shift'.traffic.passages (shift'.ticket p) = some ⟨m.intake, .waiting⟩ := by
  obtain ⟨begun, queue, ended⟩ := w
  obtain rfl : ended = false := h.present
  cases begun with
  | none =>
    obtain rfl : queue = m :: rest := by simpa [Worker.messages] using hmessages
    have hlooked : Run setting shift [.looked p] _ := Run.nil.snoc (.look hgo h.hired rfl rfl)
    have htaken := hlooked.snoc (.take (by simp) h.hired rfl rfl rfl)
    refine ⟨_, _, htaken, ?_, rfl, rfl, ?_, ?_⟩
    · exact (Alone.reach shift p ⟨m.intake, .waiting⟩ shift.traffic.shared).trans (.set _ p _ _)
    · simp [Crew.worker?_set, h.hired]
    · simp [ticket, Traffic.put]
  | some m' =>
    obtain ⟨rfl, rfl⟩ : m' = m ∧ queue = rest := by simpa [Worker.messages] using hmessages
    have hfailed := h.failed m' rfl
    refine ⟨_, shift.reach p ⟨m'.intake, .waiting⟩ shift.traffic.shared,
      Run.nil.snoc (.work h.hired rfl hfailed .retry), .reach .., rfl, rfl, h.hired,
      passages_reach ..⟩

section Work

variable {σ : Type} {place : Workplace σ} {noted : σ → List Settlement → σ → Prop} {x x' : σ}
  {s' : Shared} {w w' : Worker}

/-- Finishing messages in order, until an attempt fails. -/
theorem Rests.serve {left : List InputMessage} (h : shift.Rests p w)
    (hfits : place.toSurroundings.Fits setting) (hnotes : place.Notes noted)
    (hgo : shift.stopping = false)
    (hserve : Worker.serve place w.messages shift.traffic.shared x = (left, s', x')) :
    ∃ deeds shift', Run setting shift deeds shift' ∧ Alone p shift shift' ∧
      shift'.traffic.shared = s' ∧ noted x (settlements deeds) x' ∧
      shift'.Rests p (.resting left) := by
  generalize hmessages : w.messages = messages at hserve
  induction messages generalizing shift w x with
  | nil =>
    cases hserve
    obtain ⟨begun, queue, ended⟩ := w
    obtain rfl : ended = false := h.present
    obtain ⟨rfl, rfl⟩ : begun = none ∧ queue = [] := by simpa [Worker.messages] using hmessages
    exact ⟨[], shift, .nil, .refl .., rfl, hnotes.outputs.nothing _, h⟩
  | cons m rest ih =>
    obtain ⟨deeds, mid, hbegin, halone, hnone, hshared, hworker, hpassage⟩ :=
      h.begin hgo hmessages
    rw [Worker.serve, ← hshared] at hserve
    split at hserve
    · rename_i s₁ x₁ hattempt
      obtain ⟨deeds', mid', hrun, halone', rfl, hnoted, hdone⟩ :=
        attempt_alone hfits hnotes hworker rfl hpassage hattempt
      have hrests : mid'.Rests p ⟨none, rest, false⟩ := ⟨hdone, rfl, nofun⟩
      have hgo' : mid'.stopping = false := (halone.trans halone').stopping.trans hgo
      obtain ⟨deeds'', shift', hrun', halone'', hshared', hnoted', hresting⟩ :=
        ih hrests hgo' rfl hserve
      refine ⟨_, shift', (hbegin.append hrun).append hrun', (halone.trans halone').trans halone'',
        hshared', ?_, hresting⟩
      rw [settlements_append, settlements_append, hnone]
      exact hnotes.append hnoted hnoted'
    · rename_i s₁ x₁ hattempt
      cases hserve
      obtain ⟨deeds', shift', hrun, halone', hshared', hnoted, hworker', hfailed⟩ :=
        attempt_alone hfits hnotes hworker rfl hpassage hattempt
      refine ⟨_, shift', hbegin.append hrun, halone.trans halone', hshared', ?_, hworker', rfl, ?_⟩
      · rw [settlements_append, hnone]
        exact hnoted
      · intro m' hm
        obtain rfl := Option.some.inj hm
        exact hfailed

/-- Letting a worker run until it has to wait is a run of the crew in which nobody else moves.
Unless it has ended, it waits then. The workplace has written down what the worker has settled. -/
theorem Rests.run (h : shift.Rests p w) (hfits : place.toSurroundings.Fits setting)
    (hnotes : place.Notes noted)
    (hrun : w.run place shift.stopping shift.crew.dismissed shift.traffic.shared x = (w', s', x')) :
    ∃ deeds shift', Run setting shift deeds shift' ∧ Alone p shift shift' ∧
      shift'.traffic.shared = s' ∧ noted x (settlements deeds) x' ∧
      shift'.crew.worker? p = some w' ∧ (w' = .gone ∨ shift'.Rests p w') := by
  unfold Worker.run at hrun
  split at hrun
  · rename_i hend
    cases hrun
    have hstopping : shift.stopping = true := by simpa [h.present] using hend
    have hat : w.begun = none ∨
        ∃ intake, shift.traffic.passages (shift.ticket p) = some ⟨intake, .failed⟩ := by
      cases hbegun : w.begun with
      | none => exact .inl rfl
      | some m => exact .inr ⟨_, h.failed m hbegun⟩
    exact ⟨_, _, Run.nil.snoc (.stop hstopping h.hired h.present hat), .set .., rfl,
      hnotes.outputs.nothing x, by simp [Crew.worker?_set, h.hired], .inl rfl⟩
  · rename_i hend
    have hgo : shift.stopping = false := by simpa [h.present] using hend
    split at hrun
    · rename_i s₁ x₁ hserve
      obtain ⟨deeds, shift', hserved, halone, hshared, hnoted, hrests⟩ :=
        h.serve hfits hnotes hgo hserve
      cases hclosed : shift.crew.dismissed with
      | true =>
        rw [hclosed] at hrun
        cases hrun
        have hdismissed := halone.dismissed.trans hclosed
        have hgo' := halone.stopping.trans hgo
        have hlooked := hserved.snoc (.look hgo' hrests.hired rfl rfl)
        have hdrained := hlooked.snoc (.drain (by simp) hdismissed hrests.hired rfl rfl rfl)
        refine ⟨_, _, hdrained, ?_, hshared, ?_, by simp [Crew.worker?_set, hrests.hired],
          .inl rfl⟩
        · exact halone.trans (.set _ p _ _)
        · simpa [settlements, Deed.settlement?, List.filterMap_cons] using hnoted
      | false =>
        rw [hclosed] at hrun
        cases hrun
        exact ⟨deeds, shift', hserved, halone, hshared, hnoted, hrests.hired, .inr hrests⟩
    · rename_i m rest s₁ x₁ hserve
      cases hrun
      obtain ⟨deeds, shift', hserved, halone, hshared, hnoted, hrests⟩ :=
        h.serve hfits hnotes hgo hserve
      exact ⟨deeds, shift', hserved, halone, hshared, hnoted, hrests.hired, .inr hrests⟩

end Work

end Shift

end MarketFeed
