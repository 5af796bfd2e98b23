import MarketFeed.Proofs.Shift.Desk

/-!
# The books of a partition

The messages handed over for a partition fall into those that are finished, the one its worker
has begun, those in the queue, and those that were left when the worker had ended, in this
order. The places stored are the ones after the finished messages. A worker that has not ended
has left no message.
-/

namespace MarketFeed

namespace Deed

/-- The message that was handed over. -/
def handed? : Deed → Option InputMessage
  | handed m _ => some m
  | _ => none

/-- The message that was to be handed over. -/
def called? : Deed → Option InputMessage
  | called m => some m
  | _ => none

/-- The number of the message after which a place of the partition was to be stored, and the
place. -/
def stored? (p : Partition) : Deed → Option (Nat × Coordinates)
  | stored ticket place _ => if ticket.partition = p then some (ticket.number, place) else none
  | _ => none

/-- The number of the message that the worker of the partition has taken, and the message. -/
def taken? (p : Partition) : Deed → Option (Nat × InputMessage)
  | taken ticket m => if ticket.partition = p then some (ticket.number, m) else none
  | _ => none

end Deed

/-- The messages that were handed over for a partition. -/
def handedTo (p : Partition) (deeds : List Deed) : List InputMessage :=
  (deeds.filterMap Deed.handed?).filter fun m => m.partition = p

/-- The messages that were to be handed over for a partition. -/
def calledFor (p : Partition) (deeds : List Deed) : List InputMessage :=
  (deeds.filterMap Deed.called?).filter fun m => m.partition = p

/-- The places that were to be stored for a partition, numbered. -/
def storedFor (p : Partition) (deeds : List Deed) : List (Nat × Coordinates) :=
  deeds.filterMap (Deed.stored? p)

/-- The messages that the worker of a partition has taken, numbered. -/
def takenFor (p : Partition) (deeds : List Deed) : List (Nat × InputMessage) :=
  deeds.filterMap (Deed.taken? p)

/-- The messages handed over after one more deed. -/
theorem handedTo_snoc (p : Partition) (deeds : List Deed) (deed : Deed) :
    handedTo p (deeds ++ [deed]) =
      handedTo p deeds ++ deed.handed?.toList.filter fun m => m.partition = p := by
  cases h : deed.handed? <;> simp [handedTo, h]

/-- The places stored after one more deed. -/
theorem storedFor_snoc (p : Partition) (deeds : List Deed) (deed : Deed) :
    storedFor p (deeds ++ [deed]) = storedFor p deeds ++ (deed.stored? p).toList := by
  cases h : deed.stored? p <;> simp [storedFor, h]

/-- Further deeds take back no place that was stored. -/
theorem length_storedFor_append (p : Partition) (deeds deeds' : List Deed) :
    (storedFor p deeds).length ≤ (storedFor p (deeds ++ deeds')).length := by
  simp [storedFor]

/-- The messages taken after one more deed. -/
theorem takenFor_snoc (p : Partition) (deeds : List Deed) (deed : Deed) :
    takenFor p (deeds ++ [deed]) = takenFor p deeds ++ (deed.taken? p).toList := by
  cases h : deed.taken? p <;> simp [takenFor, h]

namespace Shift

variable {setting : Setting} {shift shift' : Shift} {deeds : List Deed} {deed : Deed}

/-- The message that is to be handed over has a worker. -/
def Hired (shift : Shift) : Prop :=
  ∀ m, shift.calling = some m → ∃ w, shift.crew.worker? m.partition = some w

/-- Hired workers stay hired. -/
theorem Hired.set {crew : Crew} {p q : Partition} {w : Worker} (h : ∃ w, crew.worker? q = some w)
    (w' : Worker) (hw : crew.worker? p = some w) : ∃ w, (crew.set p w').worker? q = some w := by
  by_cases hq : q = p
  · subst hq
    exact ⟨w', by simp [Crew.worker?_set, hw]⟩
  · simpa [Crew.worker?_set, hq] using h

/-- Every step keeps the workers that were hired. -/
theorem Hired.step (h : shift.Hired) (hstep : Step setting shift deed shift') : shift'.Hired := by
  intro m hcalling
  cases hstep with
  | call m' =>
    obtain rfl := Option.some.inj hcalling
    exact ⟨_, by rw [Crew.worker?_hire, if_pos rfl]⟩
  | handOver => cases hcalling
  | abandon => cases hcalling
  | look => exact h m hcalling
  | take _ hworker => exact Hired.set (h m hcalling) _ hworker
  | work => exact h m hcalling
  | store _ hworker => exact Hired.set (h m hcalling) _ hworker
  | stop _ hworker => exact Hired.set (h m hcalling) _ hworker
  | drain _ _ hworker => exact Hired.set (h m hcalling) _ hworker
  | signal => exact h m hcalling
  | dismiss => exact h m hcalling
  | ambient => exact h m hcalling

/-- The messages handed over for a partition are the finished ones, those of its worker and those
left, and the places stored are those after the finished ones. -/
structure Accounts (w : Worker) (finished : Nat) (handed : List InputMessage)
    (stored : List (Nat × Coordinates)) (past left : List InputMessage) : Prop where
  handed_eq : handed = past ++ (w.messages ++ left)
  stored_eq : stored = past.mapIdx fun number m => (number, m.next)
  length_past : past.length = finished
  left_eq_nil : w.ended = false → left = []

namespace Accounts

variable {w : Worker} {finished : Nat} {handed : List InputMessage}
  {stored : List (Nat × Coordinates)} {past left : List InputMessage} {m : InputMessage}

/-- A message is the last of the queue. -/
theorem queued (h : Accounts w finished handed stored past left) (hpresent : w.ended = false)
    (m : InputMessage) :
    Accounts { w with queue := w.queue ++ [m] } finished (handed ++ [m]) stored past left where
  handed_eq := by
    rw [h.handed_eq, h.left_eq_nil hpresent]
    simp [Worker.messages]
  stored_eq := h.stored_eq
  length_past := h.length_past
  left_eq_nil := h.left_eq_nil

/-- A message comes after the worker has ended. -/
theorem late (h : Accounts w finished handed stored past left) (hended : w.ended = true)
    (m : InputMessage) : Accounts w finished (handed ++ [m]) stored past (left ++ [m]) where
  handed_eq := by simp [h.handed_eq]
  stored_eq := h.stored_eq
  length_past := h.length_past
  left_eq_nil := by simp [hended]

/-- The worker begins the first message of its queue. -/
theorem begin (h : Accounts w finished handed stored past left) (hfree : w.begun = none)
    {rest : List InputMessage} (hqueue : w.queue = m :: rest) :
    Accounts { w with begun := some m, queue := rest } finished handed stored past left where
  handed_eq := by simpa [Worker.messages, hfree, hqueue] using h.handed_eq
  stored_eq := h.stored_eq
  length_past := h.length_past
  left_eq_nil := h.left_eq_nil

/-- The worker has finished the message it had begun. -/
theorem finish (h : Accounts w finished handed stored past left) (hbegun : w.begun = some m) :
    Accounts { w with begun := none } (finished + 1) handed (stored ++ [(finished, m.next)])
      (past ++ [m]) left where
  handed_eq := by simpa [Worker.messages, hbegun] using h.handed_eq
  stored_eq := by simp [h.stored_eq, h.length_past]
  length_past := by simp [h.length_past]
  left_eq_nil := h.left_eq_nil

/-- A worker that ends leaves its messages. -/
theorem gone (h : Accounts w finished handed stored past left) :
    Accounts .gone finished handed stored past (w.messages ++ left) where
  handed_eq := by simpa [Worker.gone, Worker.messages] using h.handed_eq
  stored_eq := h.stored_eq
  length_past := h.length_past
  left_eq_nil := nofun

/-- The places stored are the ones after the finished messages. -/
theorem places (h : Accounts w finished handed stored past left) :
    stored.map Prod.snd = past.map InputMessage.next := by
  rw [h.stored_eq]
  exact List.ext_getElem? fun number => by simp [Function.comp_def]

/-- The message of the worker is the first of those handed over that is not finished. -/
theorem current (h : Accounts w finished handed stored past left) {rest : List InputMessage}
    (hmessages : w.messages = m :: rest) : handed[finished]? = some m := by
  rw [h.handed_eq, hmessages, ← h.length_past]
  simp

end Accounts

/-- The books of all partitions are in order. -/
def Books (shift : Shift) (deeds : List Deed) : Prop :=
  ∀ p, ∃ past left, Accounts (shift.crew.worker p) (shift.finished p) (handedTo p deeds)
    (storedFor p deeds) past left

/-- When a worker ends, the books stay in order. -/
theorem Books.ended (h : shift.Books deeds) {p : Partition} {w : Worker}
    (hworker : shift.crew.worker? p = some w) :
    Books { shift with crew := shift.crew.set p .gone } deeds := by
  intro q
  obtain ⟨past, left, hq⟩ := h q
  by_cases hp : q = p
  · subst hp
    refine ⟨past, (shift.crew.worker q).messages ++ left, ?_⟩
    simpa [Crew.worker_set hworker] using hq.gone
  · exact ⟨past, left, by simpa [Crew.worker_set hworker, hp] using hq⟩

/-- Every step keeps the books in order. -/
theorem Books.step (h : shift.Books deeds) (hhired : shift.Hired)
    (hstep : Step setting shift deed shift') : shift'.Books (deeds ++ [deed]) := by
  intro q
  rw [handedTo_snoc, storedFor_snoc]
  obtain ⟨past, left, hq⟩ := h q
  cases hstep with
  | call m => exact ⟨past, left, by simpa [Deed.handed?, Deed.stored?] using hq⟩
  | @handOver m handover crew hcalling hhandOver hdone =>
    by_cases hm : m.partition = q
    · subst hm
      rcases Crew.handOver_cases hhandOver with ⟨-, w, hw, hpresent, rfl⟩ | ⟨-, rfl, hended⟩ |
        ⟨rfl, -⟩
      · rw [Crew.worker_eq hw] at hq
        refine ⟨past, left, ?_⟩
        simpa [Crew.worker_set hw, Deed.handed?, Deed.stored?] using hq.queued hpresent m
      · obtain ⟨w, hw⟩ := hhired m hcalling
        have hended' := hended w hw
        rw [← Crew.worker_eq hw] at hended'
        exact ⟨past, left ++ [m], by simpa [Deed.handed?, Deed.stored?] using hq.late hended' m⟩
      · exact absurd rfl hdone
    · refine ⟨past, left, ?_⟩
      rcases Crew.handOver_cases hhandOver with ⟨-, w, hw, -, rfl⟩ | ⟨-, rfl, -⟩ | ⟨rfl, -⟩
      · simpa [Crew.worker_set hw, Deed.handed?, Deed.stored?, hm, Ne.symm hm] using hq
      · simpa [Deed.handed?, Deed.stored?, hm] using hq
      · exact absurd rfl hdone
  | abandon => exact ⟨past, left, by simpa [Deed.handed?, Deed.stored?] using hq⟩
  | look => exact ⟨past, left, by simpa [Deed.handed?, Deed.stored?] using hq⟩
  | @take p w m rest hlooked hworker hpresent hfree hqueue =>
    refine ⟨past, left, ?_⟩
    by_cases hp : q = p
    · subst hp
      rw [Crew.worker_eq hworker] at hq
      simpa [Crew.worker_set hworker, Deed.handed?, Deed.stored?] using hq.begin hfree hqueue
    · simpa [Crew.worker_set hworker, Deed.handed?, Deed.stored?, hp] using hq
  | work => exact ⟨past, left, by simpa [Deed.handed?, Deed.stored?] using hq⟩
  | @store p w m outcome done hworker hbegun hfinished =>
    by_cases hp : q = p
    · subst hp
      rw [Crew.worker_eq hworker] at hq
      refine ⟨past ++ [m], left, ?_⟩
      simpa [Crew.worker_set hworker, Deed.handed?, Deed.stored?, ticket] using hq.finish hbegun
    · refine ⟨past, left, ?_⟩
      simpa [Crew.worker_set hworker, Deed.handed?, Deed.stored?, ticket, hp, Ne.symm hp] using hq
  | stop _ hworker => simpa [Deed.handed?, Deed.stored?] using h.ended hworker q
  | drain _ _ hworker => simpa [Deed.handed?, Deed.stored?] using h.ended hworker q
  | signal => exact ⟨past, left, by simpa [Deed.handed?, Deed.stored?] using hq⟩
  | dismiss => exact ⟨past, left, by simpa [Deed.handed?, Deed.stored?] using hq⟩
  | ambient => exact ⟨past, left, by simpa [Deed.handed?, Deed.stored?] using hq⟩

section Run

variable {ttl maxEntries queueSize : Nat} {s : Shared}

/-- In every run, the message that is to be handed over has a worker. -/
theorem Run.hired (hrun : Run setting (.start ttl maxEntries queueSize s) deeds shift) :
    shift.Hired := by
  induction hrun with
  | nil => exact nofun
  | snoc _ hstep ih => exact ih.step hstep

/-- In every run, the books are in order. -/
theorem Run.books (hrun : Run setting (.start ttl maxEntries queueSize s) deeds shift) :
    shift.Books deeds := by
  induction hrun with
  | nil => exact fun p => ⟨[], [], rfl, rfl, rfl, fun _ => rfl⟩
  | snoc hrun hstep ih => exact ih.step hrun.hired hstep

/-- As many places are stored for a partition as its worker has finished messages. -/
theorem Run.length_storedFor
    (hrun : Run setting (.start ttl maxEntries queueSize s) deeds shift) (p : Partition) :
    (storedFor p deeds).length = shift.finished p := by
  obtain ⟨past, left, haccounts⟩ := hrun.books p
  rw [haccounts.stored_eq, List.length_mapIdx, haccounts.length_past]

/-- If no caller gave up, the messages handed over are the first of those that were to be. -/
theorem Run.handedTo_prefix (hrun : Run setting (.start ttl maxEntries queueSize s) deeds shift)
    (hnone : ∀ m, .abandoned m ∉ deeds) (p : Partition) :
    handedTo p deeds <+: calledFor p deeds := by
  have hall : deeds.filterMap Deed.called? =
      deeds.filterMap Deed.handed? ++ shift.calling.toList := by
    induction hrun with
    | nil => rfl
    | @snoc deeds shift shift' deed _ hstep ih =>
      have hold := ih fun m hmem => hnone m (List.mem_append_left _ hmem)
      cases hstep with
      | call m hfree => simp [hold, hfree, List.filterMap_cons, Deed.called?, Deed.handed?]
      | handOver hcalling => simp [hold, hcalling, List.filterMap_cons, Deed.called?, Deed.handed?]
      | @abandon m hcalling => exact absurd (by simp) (hnone m)
      | _ => simpa [List.filterMap_cons, Deed.called?, Deed.handed?] using hold
  unfold handedTo calledFor
  rw [hall, List.filter_append]
  exact List.prefix_append _ _

end Run

end Shift

end MarketFeed
