import MarketFeed.Proofs.Traffic.Account

/-!
# Runs with an account of all calls

The account is kept over a whole run, however the calls cross each other and whatever happens to
the guard and the clocks between their steps. It tells of each delivery how far it has come, every
call that has answered has ended in one of four ways, and the counters have grown by what the
account says, no more and no less.
-/

namespace MarketFeed

/-! ## The account -/

/-- The calls of a run, each with the delivery it is an attempt of; the latest come first. -/
abbrev Account (ι : Type) := List (ι × Call)

namespace Account

variable {ι : Type} [DecidableEq ι]

/-- All calls. -/
def calls (account : Account ι) : List Call := account.map (·.2)

/-- The latest call of a delivery. -/
def latest? (account : Account ι) (i : ι) : Option Call :=
  (account.find? fun entry => entry.1 = i).map (·.2)

/-- Note something on the latest call of a delivery. -/
def note (i : ι) (remark : Remark) : Account ι → Account ι
  | [] => []
  | (j, call) :: rest =>
    if j = i then (j, call.add remark) :: rest else (j, call) :: note i remark rest

/-- The latest call of a delivery is in the account. -/
theorem mem_of_latest? {account : Account ι} {i : ι} {call : Call}
    (h : account.latest? i = some call) : (i, call) ∈ account := by
  obtain ⟨⟨j, call'⟩, hfind, rfl⟩ := Option.map_eq_some_iff.mp h
  obtain rfl : j = i := by simpa using List.find?_some hfind
  exact List.mem_of_find?_eq_some hfind

/-- A call that has just begun is the latest of its delivery. -/
@[simp] theorem latest?_cons_self (account : Account ι) (i : ι) (call : Call) :
    latest? ((i, call) :: account) i = some call := by
  simp [latest?]

/-- A call that has just begun is no call of another delivery. -/
theorem latest?_cons_of_ne {i j : ι} (h : j ≠ i) (account : Account ι) (call : Call) :
    latest? ((i, call) :: account) j = account.latest? j := by
  simp [latest?, h.symm]

/-- What is noted is found on the call. -/
theorem latest?_note_self {account : Account ι} {i : ι} {call : Call}
    (h : account.latest? i = some call) (remark : Remark) :
    (account.note i remark).latest? i = some (call.add remark) := by
  induction account with
  | nil => cases h
  | cons entry rest ih =>
    obtain ⟨j, first⟩ := entry
    by_cases hj : j = i
    · subst hj
      obtain rfl : first = call := by simpa using h
      simp [note]
    · rw [latest?_cons_of_ne (Ne.symm hj)] at h
      simpa [note, hj, latest?_cons_of_ne (Ne.symm hj)] using ih h

/-- What is noted on the call of one delivery changes no call of another. -/
theorem latest?_note_of_ne {i j : ι} (h : j ≠ i) (account : Account ι) (remark : Remark) :
    (account.note i remark).latest? j = account.latest? j := by
  induction account with
  | nil => rfl
  | cons entry rest ih =>
    obtain ⟨k, first⟩ := entry
    by_cases hk : k = i
    · subst hk
      simp [note, latest?_cons_of_ne h]
    · by_cases hj : j = k
      · subst hj
        simp [note, hk]
      · simpa [note, hk, latest?_cons_of_ne hj] using ih

/-- Noting something changes one call. -/
theorem mem_note {account : Account ι} {i : ι} {remark : Remark} {entry : ι × Call}
    (h : entry ∈ account.note i remark) :
    entry ∈ account ∨ ∃ call, account.latest? i = some call ∧ entry = (i, call.add remark) := by
  induction account with
  | nil => cases h
  | cons first rest ih =>
    obtain ⟨j, call⟩ := first
    by_cases hj : j = i
    · subst hj
      simp only [note, if_true, List.mem_cons] at h
      rcases h with rfl | hmem
      · exact .inr ⟨call, by simp, rfl⟩
      · exact .inl (List.mem_cons_of_mem _ hmem)
    · simp only [note, hj, if_false, List.mem_cons] at h
      rcases h with rfl | hmem
      · exact .inl List.mem_cons_self
      · rw [latest?_cons_of_ne (Ne.symm hj)]
        exact (ih hmem).imp_left (List.mem_cons_of_mem _)

/-- What is noted on a call without an answer is counted beside the rest. -/
theorem counted_note {account : Account ι} {i : ι} {call : Call}
    (h : account.latest? i = some call) (hopen : call.answer? = none) (remark : Remark) :
    ((account.note i remark).calls.flatMap Call.counted).Perm
      (account.calls.flatMap Call.counted ++ remark.counted) := by
  induction account with
  | nil => cases h
  | cons entry rest ih =>
    obtain ⟨j, first⟩ := entry
    by_cases hj : j = i
    · subst hj
      obtain rfl : first = call := by simpa using h
      have hadd := (Call.counted_add hopen remark).append_right (calls rest |>.flatMap Call.counted)
      have hswap : (first.counted ++ remark.counted ++ (calls rest).flatMap Call.counted).Perm
          (first.counted ++ (calls rest).flatMap Call.counted ++ remark.counted) := by
        rw [List.append_assoc, List.append_assoc]
        exact List.perm_append_comm.append_left _
      simpa [note, calls] using hadd.trans hswap
    · rw [latest?_cons_of_ne (Ne.symm hj)] at h
      simpa [note, hj, calls] using (ih h).append_left first.counted

end Account

/-! ## What a call comes to -/

namespace Call

/-- The outputs that the sink accepted. -/
def accepted (call : Call) : List Output := (call.handed.filter (·.2)).map (·.1)

/-- The store had a usable price. -/
def isHit (call : Call) : Bool := call.replies.any LookupAnswer.isHit

/-- The call has answered that the message is dropped. -/
def isDropped (call : Call) : Bool :=
  match call.answer? with
  | some (.ok .duplicate) => true
  | _ => false

/-- The call has answered that its output was not published. -/
def isFailed (call : Call) : Bool :=
  match call.answer? with
  | some (.error _) => true
  | _ => false

/-- The call has answered that an output of this kind was not published. -/
def failedOn (kind : OutputKind) (call : Call) : Bool :=
  match call.answer? with
  | some (.error output) => output.kind = kind
  | _ => false

/-- The answer of a call is the result of processing its message. -/
def Answers (call : Call) : Except PublishError Outcome → Prop
  | .ok outcome => call.answer? = some (.ok outcome)
  | .error _ => call.isFailed = true

/-- The four ways in which a call can end. -/
inductive Ends : Call → Prop
  /-- The sink has accepted a tick, which says that its price was looked up if it was. -/
  | tick {replies : List LookupAnswer} {tick : CanonicalTick} (once : replies.length ≤ 1)
      (hfallback : (Output.tick tick).isFallback = replies.any LookupAnswer.isHit) :
      Ends ⟨replies, [(.tick tick, true)], some (.ok (.published (.tick tick)))⟩
  /-- The sink has accepted a dead letter about a known issue; no price was found. -/
  | deadLetter {replies : List LookupAnswer} {letter : DeadLetter} (once : replies.length ≤ 1)
      (hnone : replies.any LookupAnswer.isHit = false) (issue : Issue)
      (hissue : letter.metadata.issue = issue.code) :
      Ends ⟨replies, [(.deadLetter letter, true)], some (.ok (.published (.deadLetter letter)))⟩
  /-- The sink was handed nothing. -/
  | dropped {replies : List LookupAnswer} (once : replies.length ≤ 1) :
      Ends ⟨replies, [], some (.ok .duplicate)⟩
  /-- The sink has refused the output. -/
  | failed {replies : List LookupAnswer} {output : Output} (once : replies.length ≤ 1) :
      Ends ⟨replies, [(output, false)], some (.error output)⟩

/-- A call that has answered has ended in one of the four ways. -/
theorem ends_of_tells {setting : Setting} {intake : Intake} {progress : Progress} {call : Call}
    (h : progress.Tells setting intake call) (hanswered : call.answer? ≠ none) : call.Ends := by
  obtain ⟨replies, handed, answer?⟩ := call
  cases progress with
  | waiting => exact absurd (congrArg Call.answer? h) hanswered
  | asking => exact absurd (congrArg Call.answer? h.1) hanswered
  | decided => exact absurd (congrArg Call.answer? h.2) hanswered
  | sending => exact absurd (congrArg Call.answer? h.2.2) hanswered
  | answered => exact absurd (congrArg Call.answer? h.2.2) hanswered
  | published output =>
    obtain ⟨verdict, hrests, hrecords, hcall⟩ := h
    obtain ⟨-, rfl, rfl⟩ := Call.mk.inj hcall
    have hfallback := hrecords.isFallback hrests
    cases verdict with
    | tick event quote price backfilled =>
      obtain ⟨d, s, rfl⟩ := hrecords
      exact .tick hrests.once hfallback
    | deadLetter error =>
      obtain ⟨d, s, rfl⟩ := hrecords
      exact .deadLetter hrests.once hrests.hit.symm error.issue rfl
  | dropped =>
    obtain ⟨-, rfl, rfl⟩ := Call.mk.inj h.2
    exact .dropped h.1
  | failed =>
    obtain ⟨output, honce, hcall⟩ := h
    obtain ⟨-, rfl, rfl⟩ := Call.mk.inj hcall
    exact .failed honce

end Call

/-! ## Runs with their accounts -/

namespace Traffic

variable {ι : Type} [DecidableEq ι] {setting : Setting}

/-- One step of the traffic and what becomes of the account by it. Whatever is done to the shared
state besides, it leaves the counters of deliveries alone. -/
inductive Entry (setting : Setting) (t : Traffic ι) (account : Account ι) :
    Traffic ι → Account ι → Prop
  | enter {i : ι} (intake : Intake) (hnew : t.passages i = none) :
      Entry setting t account (t.put i ⟨intake, .waiting⟩ t.shared) ((i, .begun) :: account)
  | retry {i : ι} {intake : Intake} (hpassage : t.passages i = some ⟨intake, .failed⟩) :
      Entry setting t account (t.put i ⟨intake, .waiting⟩ t.shared) ((i, .begun) :: account)
  | advance {i : ι} {intake : Intake} {progress progress' : Progress} {remark : Remark}
      {s : Shared} (hpassage : t.passages i = some ⟨intake, progress⟩)
      (h : Telling setting i intake progress t.shared remark progress' s) :
      Entry setting t account (t.put i ⟨intake, progress'⟩ s) (account.note i remark)
  | ambient {s : Shared} (h : t.shared.ledger.GrowsBy s.ledger []) :
      Entry setting t account { t with shared := s } account

/-- A run from any shared state, with its account. -/
inductive Audited (setting : Setting) (s : Shared) : Traffic ι → Account ι → Prop
  | start : Audited setting s ⟨s, fun _ => none⟩ []
  | step {t t' : Traffic ι} {account account' : Account ι} (h : Audited setting s t account)
      (hentry : Entry setting t account t' account') : Audited setting s t' account'

/-- Each step of the traffic has its entry, unless it changes the counters of deliveries while no
delivery moves. -/
theorem Step.exists_entry {t t' : Traffic ι} {move : Move ι} (h : Step setting t move t')
    (hcounts : move = .elapsed → t.shared.ledger.GrowsBy t'.shared.ledger [])
    (account : Account ι) : ∃ account', Entry setting t account t' account' := by
  cases h with
  | enter intake hnew => exact ⟨_, .enter intake hnew⟩
  | @advance i _ _ _ _ _ hpassage h =>
    by_cases hretried : move = .retried i
    · subst hretried
      cases h
      exact ⟨_, .retry hpassage⟩
    · obtain ⟨remark, htelling⟩ := h.exists_telling hretried
      exact ⟨_, .advance hpassage htelling⟩
  | ambient => exact ⟨_, .ambient (hcounts rfl)⟩

/-- The account is kept: it tells of each delivery how far it has come, all calls that have
answered have ended in one of the four ways, and the counters have grown by what it says. -/
structure Kept (setting : Setting) (s : Shared) (t : Traffic ι) (account : Account ι) : Prop where
  tells : ∀ i passage, t.passages i = some passage → ∃ call, account.latest? i = some call ∧
    passage.progress.Tells setting passage.intake call
  ends : ∀ call ∈ account.calls, call.answer? ≠ none → call.Ends
  grows : s.ledger.GrowsBy t.shared.ledger (account.calls.flatMap Call.counted)

section Kept

variable {s : Shared} {t t' : Traffic ι} {account account' : Account ι}

/-- A new call is kept in the account. -/
theorem Kept.begin (h : Kept setting s t account) (i : ι) (intake : Intake) :
    Kept setting s (t.put i ⟨intake, .waiting⟩ t.shared) ((i, .begun) :: account) := by
  refine ⟨fun j passage hpassage => ?_, fun call hmem hanswered => ?_, ?_⟩
  · by_cases hj : j = i
    · subst hj
      obtain rfl : _ = passage := by simpa using hpassage
      exact ⟨.begun, by simp, rfl⟩
    · rw [Account.latest?_cons_of_ne hj]
      exact h.tells j passage (by simpa [hj] using hpassage)
  · rcases List.mem_cons.mp hmem with rfl | hold
    · exact absurd rfl hanswered
    · exact h.ends call hold hanswered
  · have hgrows := h.grows
    simpa [Account.calls, Call.counted, Call.begun, put] using hgrows

/-- Every step keeps the account. -/
theorem Kept.step (h : Kept setting s t account) (hentry : Entry setting t account t' account') :
    Kept setting s t' account' := by
  cases hentry with
  | @enter i intake hnew => exact h.begin i intake
  | @retry i intake hpassage => exact h.begin i intake
  | @advance i intake progress progress' remark s' hpassage htelling =>
    obtain ⟨call, hlatest, htells⟩ := h.tells i _ hpassage
    have hopen := htelling.unanswered htells
    have htells' := htelling.tells htells
    refine ⟨fun j passage hpassage' => ?_, fun call' hmem hanswered => ?_, ?_⟩
    · by_cases hj : j = i
      · subst hj
        obtain rfl : _ = passage := by simpa using hpassage'
        exact ⟨_, Account.latest?_note_self hlatest remark, htells'⟩
      · rw [Account.latest?_note_of_ne hj]
        exact h.tells j passage (by simpa [hj] using hpassage')
    · obtain ⟨entry, hnoted, rfl⟩ := List.mem_map.mp hmem
      rcases Account.mem_note hnoted with hold | ⟨call'', hlatest', rfl⟩
      · exact h.ends _ (List.mem_map_of_mem hold) hanswered
      · obtain rfl := Option.some.inj (hlatest.symm.trans hlatest')
        exact Call.ends_of_tells htells' hanswered
    · exact (h.grows.trans (htelling.grows htells)).perm
        (Account.counted_note hlatest hopen remark).symm
  | ambient hambient => exact ⟨h.tells, h.ends, by simpa using h.grows.trans hambient⟩

/-- The account of every run is kept. -/
theorem Audited.kept (h : Audited setting s t account) : Kept setting s t account := by
  induction h with
  | start =>
    refine ⟨fun i passage hpassage => ?_, by simp [Account.calls], Ledger.GrowsBy.refl s.ledger⟩
    cases hpassage
  | step _ hentry ih => exact ih.step hentry

end Kept

/-! ## A call without interruption -/

section Process

variable {σ : Type} {around : Surroundings σ} {x x' : σ} {s s₁ s₂ s' : Shared} {t : Traffic ι}
  {account : Account ι} {i : ι} {intake : Intake} {progress progress' : Progress} {call : Call}
  {result : Except PublishError Outcome}

/-- The call that has begun last goes on. -/
theorem Audited.advance {remark : Remark}
    (h : Audited setting s (t.put i ⟨intake, progress⟩ s₁) ((i, call) :: account))
    (htelling : Telling setting i intake progress s₁ remark progress' s₂) :
    Audited setting s (t.put i ⟨intake, progress'⟩ s₂) ((i, call.add remark) :: account) := by
  have hpassage : (t.put i ⟨intake, progress⟩ s₁).passages i = some ⟨intake, progress⟩ := by
    simp
  simpa [Account.note] using h.step (.advance hpassage htelling)

/-- A call that has failed is followed by another one for its message. -/
theorem Audited.retry (h : Audited setting s (t.put i ⟨intake, .failed⟩ s₁) account) :
    Audited setting s (t.put i ⟨intake, .waiting⟩ s₁) ((i, .begun) :: account) := by
  have hpassage : (t.put i ⟨intake, .failed⟩ s₁).passages i = some ⟨intake, .failed⟩ := by
    simp
  simpa [put] using h.step (.retry hpassage)

/-- Bringing a verdict to the sink goes on to the answer. -/
theorem Audited.emit {started : Instant} {verdict : Verdict}
    (h : Audited setting s (t.put i ⟨intake, .decided started verdict⟩ s₁) ((i, call) :: account))
    (hemit : (setting.delivery intake started).emit around verdict s₁ x = (result, s', x')) :
    ∃ progress' call',
      Audited setting s (t.put i ⟨intake, progress'⟩ s') ((i, call') :: account) ∧
        call'.Answers result := by
  unfold Delivery.emit at hemit
  split at hemit
  · rename_i s₂ hcommit
    cases hemit
    exact ⟨_, _, h.advance (.finish (.forgo hcommit)), rfl⟩
  · rename_i output s₂ hcommit
    have hsending := h.advance (.quiet (.inr rfl) (.commit hcommit))
    split at hemit
    · cases hemit
      exact ⟨_, _, (hsending.advance (.hand true)).advance (.finish .accept), rfl⟩
    · cases hemit
      exact ⟨_, _, (hsending.advance (.hand false)).advance .withdraw, rfl⟩

/-- Processing a message is a call of its own, which answers as the processing does. -/
theorem Audited.process (h : Audited setting s t account) (hnew : t.passages i = none)
    (hbackfills : around.backfills = setting.backfills)
    (hreplies : ∀ id (s : Shared) (x : σ), setting.replies id (around.lookup id s x).1)
    (hleaves : ∀ id (s : Shared) (x : σ), s.ledger.GrowsBy (around.lookup id s x).2.1.ledger [])
    (hprocess : MarketFeed.process around intake t.shared x = (result, s', x')) :
    ∃ progress' call',
      Audited setting s (t.put i ⟨intake, progress'⟩ s') ((i, call') :: account) ∧
        call'.Answers result := by
  have hdelivery : (⟨intake, around.backfills, t.shared.instant⟩ : Delivery) =
      setting.delivery intake t.shared.instant := by
    rw [hbackfills]
    rfl
  have hentered := h.step (.enter intake hnew)
  rw [MarketFeed.process, hdelivery, Delivery.run] at hprocess
  split at hprocess
  · rename_i s₁ hcheck
    cases hprocess
    exact ⟨_, _, hentered.advance (.finish (.drop hcheck)), rfl⟩
  · rename_i verdict s₁ hcheck
    exact (hentered.advance (.quiet (.inl rfl) (.settle hcheck))).emit hprocess
  · rename_i event quote since s₁ hcheck
    have hasked := hentered.advance (.quiet (.inl rfl) (.ask hcheck))
    have hwaited := hasked.step (.ambient (hleaves quote.instrumentId s₁ x))
    exact (hwaited.advance (.reply (hreplies quote.instrumentId s₁ x) rfl)).emit hprocess

end Process

end Traffic

end MarketFeed
