import MarketFeed.Proofs.Traffic.Audit

/-!
# What the attempts at one message have in common

A delivery whose output was refused is tried again, and each attempt is a call of its own, which
takes the message from the beginning. What a call hands to the sink rests on the message and on
what the store has replied to this call, so two calls for one message that got the same reply hand
over the same output, up to the instants and the identifier of a dead letter.

The store is asked anew in each attempt at a message whose price it may have. If it replies
differently, a tick whose publication was refused is followed by another tick or by a dead letter.
-/

namespace MarketFeed

/-! ## Outputs of one verdict -/

/-- An output without the instants and without the identifier of a dead letter. The place that the
message was read from is kept, since it is the same in all attempts. -/
def Output.undated : Output → Output
  | tick t => tick { t with payload := { t.payload with normalizedAt := 0 } }
  | deadLetter letter => deadLetter { letter with id := "", failedAt := 0 }

/-- Outputs that differ in their dates only are of one kind. -/
theorem Output.kind_of_undated {output output' : Output} (h : output.undated = output'.undated) :
    output.kind = output'.kind := by
  cases output <;> cases output' <;> first | rfl | cases h

/-- The same setting, but with a store that makes these replies only. -/
def Setting.told (setting : Setting) (replies : List LookupAnswer) : Setting :=
  ⟨setting.backfills, fun _ reply => reply ∈ replies⟩

/-- One reply settles the verdict. -/
theorem Setting.Admits.unique_of_told {setting : Setting} {replies : List LookupAnswer}
    (honce : replies.length ≤ 1) {intake : Intake} {verdict verdict' : Verdict}
    (h : (setting.told replies).Admits intake verdict)
    (h' : (setting.told replies).Admits intake verdict') : verdict = verdict' := by
  obtain ⟨answer, hanswer⟩ : ∃ answer, ∀ reply ∈ replies, reply = answer := by
    rcases replies with _ | ⟨reply, _ | _⟩
    · exact ⟨.ok none, nofun⟩
    · exact ⟨reply, by simp⟩
    · simp at honce
  have hfixed : ∀ {verdict}, (setting.told replies).Admits intake verdict →
      Setting.Admits ⟨setting.backfills, fun _ reply => reply = answer⟩ intake verdict :=
    fun hadmits => hadmits.mono fun _ reply hreply => hanswer reply hreply
  exact (hfixed h).unique (.refl intake) (hfixed h')

/-- One reply settles the output, up to its dates. -/
theorem Setting.Emits.undated_unique {setting : Setting} {replies : List LookupAnswer}
    (honce : replies.length ≤ 1) {intake : Intake} {output output' : Output}
    (h : (setting.told replies).Emits intake output)
    (h' : (setting.told replies).Emits intake output') : output.undated = output'.undated := by
  obtain ⟨started, s, verdict, hadmits, rfl⟩ := h
  obtain ⟨started', s', verdict', hadmits', rfl⟩ := h'
  obtain rfl := hadmits.unique_of_told honce hadmits'
  cases verdict with
  | tick event quote price backfilled => simp [Delivery.record, Output.undated, Quote.tick]
  | deadLetter error =>
    simp [Delivery.record, Output.undated, DeadLetter.route, Setting.delivery]

/-- A message whose price is to be looked up has no verdict without a reply. -/
theorem Setting.Asks.ne_nil {setting : Setting} {replies : List LookupAnswer} {intake : Intake}
    {event : RawEvent} {quote : Quote} {verdict : Verdict} (h : setting.Asks intake event quote)
    (hadmits : (setting.told replies).Admits intake verdict) : replies ≠ [] := by
  obtain ⟨⟨source, rfl⟩, hvalid, hnone, hon⟩ := h
  cases hadmits with
  | breach hinvalid => cases hvalid.symm.trans hinvalid
  | priced hvalid' hprice =>
    obtain rfl := Except.ok.inj (hvalid.symm.trans hvalid')
    cases hnone.symm.trans hprice
  | unpriced _ _ hoff => cases hon.symm.trans hoff
  | lookedUp _ _ _ hreply => exact List.ne_nil_of_mem hreply

/-! ## One call -/

/-- What a call tells of its message: it has got one reply at most, and only to a question that the
message asks; and what it has handed to the sink is what the message comes to by this reply. -/
structure Call.Voices (setting : Setting) (intake : Intake) (call : Call) : Prop where
  once : call.replies.length ≤ 1
  asks : call.replies ≠ [] → ∃ event quote, setting.Asks intake event quote
  handed : ∀ entry ∈ call.handed, (setting.told call.replies).Emits intake entry.1

/-- A call that has just begun tells nothing yet. -/
theorem Call.voices_begun (setting : Setting) (intake : Intake) :
    Call.begun.Voices setting intake :=
  ⟨Nat.zero_le 1, fun h => absurd rfl h, nofun⟩

/-- What a delivery is about to put out rests on what its call was replied. -/
def Progress.Heeds (setting : Setting) (intake : Intake) (call : Call) : Progress → Prop
  | decided _ verdict => (setting.told call.replies).Admits intake verdict
  | sending _ _ output _ => (setting.told call.replies).Emits intake output
  | _ => True

/-- A step of a delivery adds to its call what its message and the replies lead to. -/
theorem Telling.voices {ι : Type} {setting : Setting} {i : ι} {intake : Intake}
    {progress progress' : Progress} {s s' : Shared} {remark : Remark} {call : Call}
    (h : Telling setting i intake progress s remark progress' s')
    (htells : progress.Tells setting intake call) (hheeds : progress.Heeds setting intake call)
    (hvoices : call.Voices setting intake) :
    (call.add remark).Voices setting intake ∧
      progress'.Heeds setting intake (call.add remark) := by
  cases h with
  | quiet hmove h =>
    refine ⟨hvoices, ?_⟩
    rcases hmove with rfl | rfl
    · cases h with
      | settle h =>
        obtain rfl : call = .begun := htells
        exact Setting.admits_of_settle h _
      | ask => trivial
    · cases h with
      | commit h =>
        obtain ⟨-, -, -, hrecord⟩ := Delivery.of_commit_some h
        exact ⟨_, _, _, hheeds, hrecord⟩
  | @reply _ _ started since event quote reply verdict hreply h =>
    obtain ⟨rfl, hasks⟩ := htells
    obtain rfl : lookupVerdict event quote reply = verdict :=
      (Setting.answer_verdict ..).symm.trans (congrArg Prod.fst h)
    refine ⟨⟨Nat.le_refl 1, fun _ => ⟨event, quote, hasks⟩, nofun⟩, ?_⟩
    have hasked : (setting.told [reply]).Asks intake event quote :=
      ⟨hasks.isEvent, hasks.valid, hasks.noPrice, hasks.backfills⟩
    exact hasked.admits (List.mem_singleton_self reply)
  | @hand _ _ _ verdict output accepted =>
    refine ⟨⟨hvoices.once, hvoices.asks, fun entry hentry => ?_⟩, trivial⟩
    rcases List.mem_append.mp hentry with hold | hnew
    · exact hvoices.handed entry hold
    · obtain rfl := List.mem_singleton.mp hnew
      exact hheeds
  | finish h =>
    refine ⟨⟨hvoices.once, hvoices.asks, hvoices.handed⟩, ?_⟩
    cases h <;> trivial
  | withdraw => exact ⟨⟨hvoices.once, hvoices.asks, hvoices.handed⟩, trivial⟩

/-! ## All calls -/

/-- The calls of one delivery, its attempts. -/
def Account.attempts {ι : Type} [DecidableEq ι] (account : Account ι) (i : ι) : List Call :=
  (account.filter fun entry => entry.1 = i).map (·.2)

/-- Two calls have handed over outputs of one kind, with the same content up to their dates. -/
def Call.SameOutputs (call other : Call) : Prop :=
  ∀ handed ∈ call.handed, ∀ handed' ∈ other.handed,
    handed.1.kind = handed'.1.kind ∧ handed.1.undated = handed'.1.undated

namespace Traffic

variable {ι : Type} [DecidableEq ι] {setting : Setting} {s : Shared} {t t' : Traffic ι}
  {account account' : Account ι}

/-- All calls of an account tell of the messages of their deliveries, and what each delivery is
about to put out rests on its latest call. -/
structure Voiced (setting : Setting) (t : Traffic ι) (account : Account ι) : Prop where
  voices : ∀ entry ∈ account, ∃ intake, t.intake? entry.1 = some intake ∧
    entry.2.Voices setting intake
  heeds : ∀ i passage call, t.passages i = some passage → account.latest? i = some call →
    passage.progress.Heeds setting passage.intake call

namespace Voiced

/-- Calls tell of their messages wherever a delivery has come. -/
theorem voices_put (h : Voiced setting t account) {i : ι} {intake : Intake}
    (hsame : ∀ intake', t.intake? i = some intake' → intake' = intake) (progress : Progress)
    (s : Shared) : ∀ entry ∈ account, ∃ intake',
      (t.put i ⟨intake, progress⟩ s).intake? entry.1 = some intake' ∧
        entry.2.Voices setting intake' := by
  intro entry hentry
  obtain ⟨intake', hintake, hvoices⟩ := h.voices entry hentry
  by_cases hi : entry.1 = i
  · subst hi
    obtain rfl := hsame intake' hintake
    exact ⟨intake', by simp [intake?], hvoices⟩
  · exact ⟨intake', by simpa [intake?, hi] using hintake, hvoices⟩

/-- A new call tells nothing yet. -/
theorem begin (h : Voiced setting t account) {i : ι} {intake : Intake}
    (hsame : ∀ intake', t.intake? i = some intake' → intake' = intake) :
    Voiced setting (t.put i ⟨intake, .waiting⟩ t.shared) ((i, .begun) :: account) where
  voices := by
    intro entry hentry
    rcases List.mem_cons.mp hentry with rfl | hold
    · exact ⟨intake, by simp [intake?], Call.voices_begun setting intake⟩
    · exact h.voices_put hsame .waiting t.shared entry hold
  heeds := by
    intro j passage call hpassage hlatest
    by_cases hj : j = i
    · subst hj
      obtain rfl : _ = passage := by simpa using hpassage
      trivial
    · rw [Account.latest?_cons_of_ne hj] at hlatest
      exact h.heeds j passage call (by simpa [hj] using hpassage) hlatest

/-- After every step all calls tell of their messages. -/
theorem step (h : Voiced setting t account) (hkept : Kept setting s t account)
    (hentry : Entry setting t account t' account') : Voiced setting t' account' := by
  cases hentry with
  | enter intake hnew => exact h.begin fun intake' hintake => by simp [intake?, hnew] at hintake
  | retry hpassage =>
    exact h.begin fun intake' hintake => by simpa [intake?, hpassage] using hintake.symm
  | @advance i intake progress progress' remark s' hpassage htelling =>
    have hintake : t.intake? i = some intake := by simp [intake?, hpassage]
    obtain ⟨call, hlatest, htells⟩ := hkept.tells i _ hpassage
    obtain ⟨intake', hintake', hvoices⟩ := h.voices _ (Account.mem_of_latest? hlatest)
    obtain rfl : intake = intake' := Option.some.inj (hintake.symm.trans hintake')
    obtain ⟨hvoices', hheeds'⟩ :=
      htelling.voices htells (h.heeds i _ call hpassage hlatest) hvoices
    refine ⟨fun entry hmem => ?_, fun j passage call' hpassage' hlatest' => ?_⟩
    · rcases Account.mem_note hmem with hold | ⟨call', hlatest', rfl⟩
      · have hsame : ∀ intake', t.intake? i = some intake' → intake' = intake :=
          fun intake' hintake' => Option.some.inj (hintake'.symm.trans hintake)
        exact h.voices_put hsame _ _ entry hold
      · obtain rfl := Option.some.inj (hlatest.symm.trans hlatest')
        exact ⟨intake, by simp [intake?], hvoices'⟩
    · by_cases hj : j = i
      · subst hj
        obtain rfl : _ = passage := by simpa using hpassage'
        rw [Account.latest?_note_self hlatest] at hlatest'
        obtain rfl := Option.some.inj hlatest'
        exact hheeds'
      · rw [Account.latest?_note_of_ne hj] at hlatest'
        exact h.heeds j passage call' (by simpa [hj] using hpassage') hlatest'
  | ambient => exact ⟨h.voices, h.heeds⟩

end Voiced

/-- All calls of a run tell of their messages. -/
theorem Audited.voiced (h : Audited setting s t account) : Voiced setting t account := by
  induction h with
  | start => exact ⟨nofun, fun i passage call hpassage => by cases hpassage⟩
  | step haudited hentry ih => exact ih.step haudited.kept hentry

/-! ## Two attempts -/

/-- As long as its id is not live, an attempt at a message whose price is to be looked up comes to
the sink with the record of the verdict, whatever the store replies. -/
theorem Audited.sent {i : ι} {intake : Intake} {event : RawEvent} {quote : Quote}
    {reply : LookupAnswer} {s₁ : Shared}
    (h : Audited setting s (t.put i ⟨intake, .waiting⟩ s₁) ((i, .begun) :: account))
    (hlive : s₁.guard.isLive s₁.instant intake.id = false)
    (hasks : setting.Asks intake event quote) (hreply : setting.replies quote.instrumentId reply) :
    ∃ started output marked s₂,
      Audited setting s
          (t.put i ⟨intake, .sending started (lookupVerdict event quote reply) output marked⟩ s₂)
          ((i, ⟨[reply], [], none⟩) :: account) ∧
        output.Records (lookupVerdict event quote reply) := by
  let d := setting.delivery intake s₁.instant
  obtain ⟨hgoesOn, hguard, hinstant⟩ := Delivery.check_of_not_live (d := d) hlive
  rcases hcheck : d.check s₁ with ⟨course, s₂⟩
  rw [hcheck] at hgoesOn hguard hinstant
  cases course with
  | drop => exact absurd rfl hgoesOn
  | settle verdict =>
    have hadmits : (setting.told []).Admits intake verdict := Setting.admits_of_settle hcheck _
    exact absurd rfl (hasks.ne_nil hadmits)
  | ask event' quote' since =>
    obtain ⟨rfl, rfl⟩ := hasks.unique (Setting.takes_of_check hcheck)
    have hasked := h.advance (.quiet (.inl rfl) (.ask hcheck))
    rcases hanswer : d.answer event quote since reply s₂ with ⟨verdict, s₃⟩
    obtain rfl : lookupVerdict event quote reply = verdict :=
      (Setting.answer_verdict ..).symm.trans (congrArg Prod.fst hanswer)
    have hreplied := hasked.advance (.reply hreply hanswer)
    have hlive₃ : s₃.guard.isLive s₃.instant d.id = false := by
      obtain ⟨hguard₃, hinstant₃⟩ := Delivery.answer_frame hanswer
      rw [hguard₃, hinstant₃, hguard, hinstant]
      exact Guard.isLive_seen hlive
    have hcommitted :=
      hreplied.advance (.quiet (.inr rfl) (.commit (Delivery.commit_of_not_live hlive₃)))
    exact ⟨_, _, _, _, hcommitted, d, s₃, rfl⟩

/-- A message whose price is to be looked up is tried twice, and no other delivery comes in. The
store may reply anything to either attempt. The sink refuses the first output and accepts the
second. -/
theorem Audited.tried_twice {intake : Intake} {event : RawEvent} {quote : Quote}
    (hlive : s.guard.isLive s.instant intake.id = false)
    (hasks : setting.Asks intake event quote) (i : ι) (reply reply' : LookupAnswer)
    (hreply : setting.replies quote.instrumentId reply)
    (hreply' : setting.replies quote.instrumentId reply') :
    ∃ (t : Traffic ι) (output output' : Output),
      Audited setting s t
          [(i, ⟨[reply'], [(output', true)], some (.ok (.published output'))⟩),
            (i, ⟨[reply], [(output, false)], some (.error output)⟩)] ∧
        t.intake? i = some intake ∧ output.Records (lookupVerdict event quote reply) ∧
        output'.Records (lookupVerdict event quote reply') := by
  have hstart : Audited setting s (⟨s, fun _ => none⟩ : Traffic ι) [] := .start
  have hentered := hstart.step (.enter (i := i) intake rfl)
  obtain ⟨_, output, _, s₂, hsent, hrecords⟩ := hentered.sent hlive hasks hreply
  have hfailed := (hsent.advance (.hand false)).advance .withdraw
  obtain ⟨_, output', _, s₃, hsent', hrecords'⟩ :=
    hfailed.retry.sent (Guard.isLive_forget ..) hasks hreply'
  have hpublished := (hsent'.advance (.hand true)).advance (.finish .accept)
  exact ⟨_, output, output', hpublished, by simp [intake?], hrecords, hrecords'⟩

/-- There is an event whose price is to be looked up. -/
theorem exists_asks :
    ∃ intake event quote, Setting.Asks ⟨true, fun _ _ => True⟩ intake event quote :=
  ⟨.event ⟨⟨"e", "t", "1", "x", "p", 5, 5⟩,
    ⟨"feed", "N", "A", 1, 5, some "[null]", some "json", ⟨some " A.N ", 0, []⟩⟩⟩
    (some ⟨"in", 0, 7⟩), _, _, ⟨_, rfl⟩, rfl, rfl, rfl⟩

/-! ## All attempts -/

/-- The attempts at one message, over any run. In each the store is asked once at most, and just
once in those that come to an output for a message whose price is to be looked up. Two attempts that
got the same reply, or none, hand over the same output. -/
theorem Audited.attempts_alike (h : Audited setting s t account) {i : ι} {intake : Intake}
    (hintake : t.intake? i = some intake) :
    (∀ call ∈ account.attempts i, call.replies.length ≤ 1 ∧
      (call.replies ≠ [] → ∃ event quote, setting.Asks intake event quote) ∧
      ((∃ event quote, setting.Asks intake event quote) → call.handed ≠ [] →
        call.replies.length = 1)) ∧
    ∀ call ∈ account.attempts i, ∀ other ∈ account.attempts i, call.replies = other.replies →
      call.SameOutputs other := by
  have hvoices : ∀ call ∈ account.attempts i, call.Voices setting intake := by
    intro call hcall
    obtain ⟨⟨j, call'⟩, hmem, rfl⟩ := List.mem_map.mp hcall
    obtain ⟨hentry, hj⟩ := List.mem_filter.mp hmem
    obtain rfl : j = i := by simpa using hj
    obtain ⟨intake', hintake', hvoices⟩ := h.voiced.voices _ hentry
    obtain rfl := Option.some.inj (hintake.symm.trans hintake')
    exact hvoices
  refine ⟨fun call hcall => ⟨(hvoices call hcall).once, (hvoices call hcall).asks, ?_⟩, ?_⟩
  · rintro ⟨event, quote, hasks⟩ hhanded
    obtain ⟨entry, hentry⟩ := List.exists_mem_of_ne_nil _ hhanded
    obtain ⟨_, _, _, hadmits, -⟩ := (hvoices call hcall).handed entry hentry
    have hreplied := List.length_pos_of_ne_nil (hasks.ne_nil hadmits)
    have honce := (hvoices call hcall).once
    omega
  · intro call hcall other hother hreplies handed hhanded handed' hhanded'
    have hemits' := (hvoices other hother).handed handed' hhanded'
    rw [← hreplies] at hemits'
    have hundated :=
      ((hvoices call hcall).handed handed hhanded).undated_unique (hvoices call hcall).once hemits'
    exact ⟨Output.kind_of_undated hundated, hundated⟩

/-- The store does not know the instrument in either of two attempts, and the sink refuses the dead
letter of the first one. -/
theorem Audited.attempts_alike_of_unknown :
    ∃ (t : Traffic Nat) (intake : Intake) (first second : Call),
      Audited ⟨true, fun _ _ => True⟩ ⟨.new 10 4, 0, 7, 0, [], []⟩ t [(0, second), (0, first)] ∧
        t.intake? 0 = some intake ∧ first.replies = [.ok none] ∧ second.replies = [.ok none] ∧
        first.SameOutputs second := by
  obtain ⟨intake, event, quote, hasks⟩ := exists_asks
  obtain ⟨t, output, output', h, hintake, -, -⟩ :=
    Audited.tried_twice (s := ⟨.new 10 4, 0, 7, 0, [], []⟩) rfl hasks 0 (.ok none) (.ok none)
      trivial trivial
  exact ⟨t, intake, _, _, h, hintake, rfl, rfl,
    (h.attempts_alike hintake).2 _ (.tail _ (.head _)) _ (.head _) rfl⟩

/-- In the first of two attempts the store has a price, and the sink refuses the tick. In the second
the store does not know the instrument any more, and a dead letter goes out. No other delivery comes
in. -/
theorem Audited.attempts_differ :
    ∃ (t : Traffic Nat) (account : Account Nat),
      Audited ⟨true, fun _ _ => True⟩ ⟨.new 10 4, 0, 7, 0, [], []⟩ t account ∧
        (∀ entry ∈ account, entry.1 = 0) ∧
        ¬ (∀ call ∈ account.attempts 0, ∀ other ∈ account.attempts 0, call.SameOutputs other) ∧
        ¬ ((account.attempts 0).flatMap Call.replies).length ≤ 1 := by
  have husable : isUsablePrice 1 = true := by decide +kernel
  obtain ⟨intake, event, quote, hasks⟩ := exists_asks
  have hhit : lookupVerdict event quote (.ok (some ⟨1, none, none⟩)) =
      .tick event quote 1 true := by
    simp [lookupVerdict, lookupPrice, LatestTick.usablePrice?, husable]
  obtain ⟨t, output, output', h, -, hrecords, hrecords'⟩ :=
    Audited.tried_twice (s := ⟨.new 10 4, 0, 7, 0, [], []⟩) rfl hasks 0
      (.ok (some ⟨1, none, none⟩)) (.ok none) trivial trivial
  have hdiffer : output.kind ≠ output'.kind := by
    obtain ⟨d, s, rfl⟩ := hrecords
    obtain ⟨d', s', rfl⟩ := hrecords'
    rw [hhit]
    exact nofun
  refine ⟨t, _, h, by simp, fun hall => ?_, by simp [Account.attempts]⟩
  have hsame := hall _ (.tail _ (.head _)) _ (.head _)
  exact hdiffer (hsame _ (.head _) _ (.head _)).1

end Traffic

end MarketFeed
