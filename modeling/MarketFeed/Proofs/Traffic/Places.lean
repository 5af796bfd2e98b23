import MarketFeed.Proofs.Traffic.Redelivery
import MarketFeed.Proofs.Traffic.Sparing
import MarketFeed.Proofs.Traffic.Window

/-!
# Messages that are known by their places

A message that is no event and carries no id goes under the place it was read from. Different places
have different texts, so such messages are as good as messages with ids of their own, as long as no
two of them are read from one place. None is dropped, and each has one output, a dead letter that
tells its place.

A message that is read from the same place once more goes under the same text. If the output for it
is out, and its mark has neither expired nor been evicted, the message is dropped.
-/

namespace MarketFeed

/-! ## One message -/

/-- A message that states no id goes under the text of its place. -/
theorem Intake.stray_of_unstated {m : InputMessage} (h : statedId? m.payload = none) :
    ∃ reason, Intake.ofMessage m.payload m.source =
      .stray m.source.text (probeEnvelope m.payload) m.source reason := by
  unfold statedId? at h
  unfold Intake.ofMessage
  cases hdecode : RawEvent.decode m.payload with
  | ok event => simp [hdecode] at h
  | error fault =>
    have hprobe : probeEventId m.payload = none := by simpa [hdecode] using h
    exact ⟨fault.message, by simp [hprobe]⟩

/-- A dead letter about a message that is no event, which is known by its place. -/
structure DeadLetter.TellsPlace (letter : DeadLetter) (place : Coordinates) : Prop where
  eventId : letter.eventId = place.text
  source : letter.metadata.source = some place
  code : letter.code = .validationError
  issue : letter.metadata.issue = Issue.schemaValidationFailed.code

/-- A message that goes under its place comes to a dead letter that tells the place. -/
theorem Setting.Emits.tellsPlace {setting : Setting} {place : Coordinates}
    {envelope : Option Envelope} {reason : String} {output : Output}
    (h : setting.Emits (.stray place.text envelope place reason) output) :
    ∃ letter, output = .deadLetter letter ∧ letter.TellsPlace place := by
  obtain ⟨started, s, verdict, hadmits, rfl⟩ := h
  cases hadmits
  exact ⟨_, rfl, rfl, rfl, rfl, rfl⟩

/-! ## Going on alone -/

/-- A step by which a delivery comes closer to its output. -/
def Move.IsForward {ι : Type} (i : ι) : Move ι → Prop
  | checked j => j = i
  | committed j _ => j = i
  | published j _ _ => j = i
  | finished j _ => j = i
  | _ => False

namespace Traffic

variable {ι : Type} [DecidableEq ι] {setting : Setting} {ttl maxEntries : Nat} {s : Shared}
  {moves : List (Move ι)} {t t' : Traffic ι} {move : Move ι} {i : ι}

omit [DecidableEq ι] in
/-- No message comes in while a delivery comes closer to its output. -/
theorem entered_of_append {moves' : List (Move ι)} (hforward : ∀ move ∈ moves', move.IsForward i)
    {j : ι} {intake : Intake} (hmem : .entered j intake ∈ moves ++ moves') :
    .entered j intake ∈ moves :=
  (List.mem_append.mp hmem).resolve_right fun hlater => hforward _ hlater

/-- A delivery can finish by its own steps, one after the other, with its output accepted. -/
def Finishes (setting : Setting) (t : Traffic ι) (i : ι) : Prop :=
  ∃ moves t' outcome, Run setting t moves t' ∧ (∀ move ∈ moves, move.IsForward i) ∧
    .finished i outcome ∈ moves

/-- A delivery that can finish after one of its steps can finish. -/
theorem Finishes.of_step (hstep : Step setting t move t') (hforward : move.IsForward i)
    (h : Finishes setting t' i) : Finishes setting t i := by
  obtain ⟨moves, t'', outcome, hrun, hown, hfinished⟩ := h
  refine ⟨[move] ++ moves, t'', outcome, (Run.nil.snoc hstep).append hrun, ?_,
    List.mem_append_right _ hfinished⟩
  rintro other hother
  rcases List.mem_append.mp hother with hfirst | hlater
  · obtain rfl := List.mem_singleton.mp hfirst
    exact hforward
  · exact hown other hlater

/-- A step that finishes a delivery is enough. -/
theorem Finishes.of_finished {outcome : Outcome} (hstep : Step setting t (.finished i outcome) t') :
    Finishes setting t i := by
  refine ⟨[.finished i outcome], t', outcome, Run.nil.snoc hstep, ?_, List.mem_singleton_self _⟩
  intro move hmove
  obtain rfl := List.mem_singleton.mp hmove
  rfl

/-- A delivery that is decided can finish: it commits, and its output is accepted, or it finds its
id live. -/
theorem finishes_of_decided {intake : Intake} {started : Instant} {verdict : Verdict}
    (hpassage : t.passages i = some ⟨intake, .decided started verdict⟩) :
    Finishes setting t i := by
  rcases hcommit : (setting.delivery intake started).commit verdict t.shared with
    ⟨_ | output, s'⟩
  · exact .of_finished (.advance hpassage (.forgo hcommit))
  · refine .of_step (.advance hpassage (.commit hcommit)) rfl ?_
    refine .of_step (.advance (Function.update_self ..) .publish) rfl ?_
    exact .of_finished (.advance (Function.update_self ..) .accept)

/-- A message that is no event can finish from any stage, unless its output was refused. -/
theorem finishes_of_stray {id : String} {envelope : Option Envelope} {source : Coordinates}
    {reason : String} {progress : Progress}
    (hpassage : t.passages i = some ⟨.stray id envelope source reason, progress⟩)
    (hsound : Passage.Sound setting ⟨.stray id envelope source reason, progress⟩)
    (hunrefused : progress.Unrefused) (hunfinished : progress.outcome? = none) :
    Finishes setting t i := by
  cases progress with
  | waiting =>
    rcases hcheck : (setting.delivery (.stray id envelope source reason) t.shared.instant).check
      t.shared with ⟨_ | ⟨event, quote, since⟩ | verdict, s'⟩
    · exact .of_finished (.advance hpassage (.drop hcheck))
    · obtain ⟨⟨_, hevent⟩, -⟩ := setting.takes_of_check hcheck
      cases hevent
    · refine .of_step (.advance hpassage (.settle hcheck)) rfl ?_
      exact finishes_of_decided (Function.update_self ..)
  | asking =>
    obtain ⟨⟨_, hevent⟩, -⟩ := hsound
    cases hevent
  | decided => exact finishes_of_decided hpassage
  | sending =>
    refine .of_step (.advance hpassage .publish) rfl ?_
    exact .of_finished (.advance (Function.update_self ..) .accept)
  | answered _ _ _ _ accepted =>
    cases accepted with
    | true => exact .of_finished (.advance hpassage .accept)
    | false => exact hunrefused.elim
  | failed => exact hunrefused.elim
  | published => cases hunfinished
  | dropped => cases hunfinished

/-! ## Being dropped -/

/-- The step of a delivery starts where the delivery has come to. -/
theorem Step.advance_of_subject {intake : Intake} {progress : Progress}
    (hstep : Step setting t move t') (hpassage : t.passages i = some ⟨intake, progress⟩)
    (hmoves : move.subject? = some i) :
    ∃ progress' s', Advance setting i intake progress t.shared move progress' s' := by
  cases hstep with
  | enter _ hnew =>
    obtain rfl := Option.some.inj hmoves
    cases hnew.symm.trans hpassage
  | advance hother hadvance =>
    obtain rfl := Option.some.inj (hadvance.subject.symm.trans hmoves)
    cases hother.symm.trans hpassage
    exact ⟨_, _, hadvance⟩
  | ambient => cases hmoves

/-- A message that is no event is dropped by the next step of its delivery if its id is live, unless
the delivery holds a mark itself or has failed. -/
theorem dropped_of_stray {id : String} {envelope : Option Envelope} {source : Coordinates}
    {reason : String} {progress : Progress}
    (hpassage : t.passages i = some ⟨.stray id envelope source reason, progress⟩)
    (hsound : Passage.Sound setting ⟨.stray id envelope source reason, progress⟩)
    (hunrefused : progress.Unrefused) (hnone : progress.mark? = none)
    (hunfinished : progress.outcome? = none)
    (hlive : t.shared.guard.isLive t.shared.instant id = true) :
    (∃ t', Step setting t (.finished i .duplicate) t') ∧
      ∀ move t', Step setting t move t' → move.subject? = some i →
        move = .finished i .duplicate := by
  cases progress with
  | waiting =>
    let d := setting.delivery (.stray id envelope source reason) t.shared.instant
    have hdrop : (d.check t.shared).1 = .drop := (Delivery.check_of_live hlive).1
    refine ⟨⟨_, .advance hpassage (.drop (Prod.ext hdrop rfl))⟩, fun move t' hstep hmoves => ?_⟩
    obtain ⟨progress', s', hadvance⟩ := hstep.advance_of_subject hpassage hmoves
    cases hadvance with
    | drop => rfl
    | settle hcheck => cases hdrop.symm.trans (congrArg Prod.fst hcheck)
    | ask hcheck => cases hdrop.symm.trans (congrArg Prod.fst hcheck)
  | decided started verdict =>
    let d := setting.delivery (.stray id envelope source reason) started
    have hforgo : d.commit verdict t.shared = (none, t.shared.trace d.id .dedupCheck) :=
      Delivery.commit_of_live hlive
    refine ⟨⟨_, .advance hpassage (.forgo hforgo)⟩, fun move t' hstep hmoves => ?_⟩
    obtain ⟨progress', s', hadvance⟩ := hstep.advance_of_subject hpassage hmoves
    cases hadvance with
    | commit hcommit => cases hforgo.symm.trans hcommit
    | forgo => rfl
  | asking =>
    obtain ⟨⟨_, hevent⟩, -⟩ := hsound
    cases hevent
  | sending => cases hnone
  | answered => cases hnone
  | failed => exact hunrefused.elim
  | published => cases hnone
  | dropped => cases hunfinished

/-! ## Runs over messages that state no ids -/

/-- A run over messages that are no events and state no ids, in which no output is refused. -/
structure Unstated (setting : Setting) (ttl maxEntries : Nat) (s : Shared)
    (messages : ι → InputMessage) (moves : List (Move ι)) (t : Traffic ι) : Prop where
  run : Run setting (.start ttl maxEntries s) moves t
  delivers : Delivers messages moves
  unstated : ∀ i intake, .entered i intake ∈ moves → statedId? (messages i).payload = none
  accepted : ∀ i, .refused i ∉ moves

/-- No two messages of a run were read from one place. -/
def Scattered (messages : ι → InputMessage) (moves : List (Move ι)) : Prop :=
  ∀ i j intake intake', .entered i intake ∈ moves → .entered j intake' ∈ moves →
    (messages i).source = (messages j).source → i = j

namespace Unstated

variable {messages : ι → InputMessage}

/-- Each message is taken for a stray one that goes under its place. -/
theorem stray (h : Unstated setting ttl maxEntries s messages moves t) {intake : Intake}
    (hintake : t.intake? i = some intake) :
    ∃ reason, intake = .stray (messages i).source.text (probeEnvelope (messages i).payload)
      (messages i).source reason := by
  have hentered := (h.run.entered_iff i intake).mpr hintake
  rw [h.delivers i intake hentered]
  exact Intake.stray_of_unstated (h.unstated i intake hentered)

/-- The delivery of a message has come to some stage, at which its output has not been refused. -/
theorem passage (h : Unstated setting ttl maxEntries s messages moves t) {intake : Intake}
    (hentered : .entered i intake ∈ moves) :
    ∃ reason progress,
      let passage : Passage := ⟨.stray (messages i).source.text
        (probeEnvelope (messages i).payload) (messages i).source reason, progress⟩
      t.passages i = some passage ∧ passage.Sound setting ∧ progress.Unrefused := by
  obtain ⟨⟨intake', progress⟩, hpassage, rfl⟩ :=
    Option.map_eq_some_iff.mp ((h.run.entered_iff i intake).mp hentered)
  have hintake : t.intake? i = some intake' := by simp [intake?, hpassage]
  obtain ⟨reason, rfl⟩ := h.stray hintake
  exact ⟨reason, progress, hpassage, h.run.sound _ _ hpassage,
    h.run.unrefused h.accepted _ _ hpassage⟩

/-- Messages of one id were read from one place. -/
theorem source_eq (h : Unstated setting ttl maxEntries s messages moves t) {j : ι}
    {intake intake' : Intake} (hintake : t.intake? i = some intake)
    (hintake' : t.intake? j = some intake') (hid : intake.id = intake'.id) :
    (messages i).source = (messages j).source := by
  obtain ⟨reason, rfl⟩ := h.stray hintake
  obtain ⟨reason', rfl⟩ := h.stray hintake'
  exact Coordinates.text_injective hid

/-- What is published is a dead letter that tells the place of its message. -/
theorem tellsPlace (h : Unstated setting ttl maxEntries s messages moves t) {p : Publication ι}
    (hp : p ∈ publications moves) :
    ∃ letter, p.output = .deadLetter letter ∧
      letter.TellsPlace (messages p.delivery).source := by
  obtain ⟨intake, hintake, hemits⟩ := h.run.emits hp
  obtain ⟨reason, rfl⟩ := h.stray hintake
  exact hemits.tellsPlace

/-- If the messages are read from different places, none is dropped. -/
theorem not_dropped (h : Unstated setting ttl maxEntries s messages moves t)
    (hscattered : Scattered messages moves) : .finished i .duplicate ∉ moves := by
  intro hfinished
  have hdropped := (h.run.finished_iff i _).mp hfinished
  obtain ⟨passage, hpassage, -⟩ := Option.bind_eq_some_iff.mp hdropped
  have hintake : t.intake? i = some passage.intake := by simp [intake?, hpassage]
  obtain ⟨j, intake', hintake', hid, hnot⟩ := h.run.covered i _ hintake hdropped
  obtain rfl : j = i := hscattered j i _ _ ((h.run.entered_iff _ _).mpr hintake')
    ((h.run.entered_iff _ _).mpr hintake) (h.source_eq hintake' hintake hid)
  exact hnot hdropped

/-- If the messages are read from different places, no two outputs are about one place. -/
theorem ids_nodup (h : Unstated setting ttl maxEntries s messages moves t)
    (hscattered : Scattered messages moves) :
    ((publications moves).map fun p => p.output.eventId).Nodup := by
  refine List.pairwise_map.mpr ((List.pairwise_map.mp h.run.publications_nodup).imp_of_mem ?_)
  intro p q hp hq hne hid
  obtain ⟨intake, hintake, hemits⟩ := h.run.emits hp
  obtain ⟨intake', hintake', hemits'⟩ := h.run.emits hq
  refine hne (hscattered _ _ _ _ ((h.run.entered_iff _ _).mpr hintake)
    ((h.run.entered_iff _ _).mpr hintake') (h.source_eq hintake hintake' ?_))
  exact hemits.eventId.symm.trans (hid.trans hemits'.eventId)

/-- If the messages are read from different places, a delivery that has finished has put out a dead
letter of its own, and nothing else is put out about its place. -/
theorem of_finished (h : Unstated setting ttl maxEntries s messages moves t)
    (hscattered : Scattered messages moves) {outcome : Outcome}
    (hfinished : .finished i outcome ∈ moves) :
    ∃ letter marked, outcome = .published (.deadLetter letter) ∧
      letter.TellsPlace (messages i).source ∧
      ⟨i, .deadLetter letter, marked⟩ ∈ publications moves ∧
      ((publications moves).map fun p => p.output.eventId).count
        (messages i).source.text = 1 := by
  cases outcome with
  | duplicate => exact absurd hfinished (h.not_dropped hscattered)
  | published output =>
    have houtcome := (h.run.finished_iff i _).mp hfinished
    obtain ⟨passage, hpassage, hprogress⟩ := Option.bind_eq_some_iff.mp houtcome
    obtain ⟨marked, haccepted⟩ := Progress.accepted?_of_outcome? hprogress
    have hpublished : .published i output marked ∈ moves :=
      (h.run.published_iff _ _ _).mpr (by simp [accepted?, hpassage, haccepted])
    have hp : ⟨i, output, marked⟩ ∈ publications moves := mem_publications.mpr hpublished
    obtain ⟨letter, rfl, htells⟩ := h.tellsPlace hp
    refine ⟨letter, marked, rfl, htells, hp, ?_⟩
    refine List.count_eq_one_of_mem (h.ids_nodup hscattered) (List.mem_map.mpr ⟨_, hp, ?_⟩)
    exact htells.eventId

/-- A delivery that has not finished can finish. -/
theorem finishes (h : Unstated setting ttl maxEntries s messages moves t) {intake : Intake}
    (hentered : .entered i intake ∈ moves) (hunfinished : t.outcome? i = none) :
    Finishes setting t i := by
  obtain ⟨reason, progress, hpassage, hsound, hunrefused⟩ := h.passage hentered
  refine finishes_of_stray hpassage hsound hunrefused ?_
  simpa [outcome?, hpassage] using hunfinished

/-- The run may go on with the steps of a delivery to its output. -/
theorem extend (h : Unstated setting ttl maxEntries s messages moves t) {moves' : List (Move ι)}
    (hrun : Run setting t moves' t') (hforward : ∀ move ∈ moves', move.IsForward i) :
    Unstated setting ttl maxEntries s messages (moves ++ moves') t' := by
  refine ⟨h.run.append hrun,
    fun j intake hmem => h.delivers j intake (entered_of_append hforward hmem),
    fun j intake hmem => h.unstated j intake (entered_of_append hforward hmem), fun j hmem => ?_⟩
  rcases List.mem_append.mp hmem with hbefore | hlater
  · exact h.accepted j hbefore
  · exact hforward _ hlater

/-- A message that is read from the place of one whose output is out is dropped, if the mark of that
output has neither expired nor been evicted. -/
theorem dropped_again (h : Unstated setting ttl maxEntries s messages moves t)
    {p : Publication ι} (hp : p ∈ publications moves) {j : ι} {intake : Intake}
    (hentered : .entered j intake ∈ moves)
    (hsame : (messages j).source = (messages p.delivery).source) (hnone : t.marks j = none)
    (hunfinished : t.outcome? j = none)
    (hspared : Sparing setting (.start ttl maxEntries s) (p.output.eventId, p.marked) moves t)
    (hsoon : t.shared.instant < p.marked + ttl) :
    (∃ t', Step setting t (.finished j .duplicate) t') ∧
      ∀ move t', Step setting t move t' → move.subject? = some j →
        move = .finished j .duplicate := by
  have hlive := (hspared.keeps h.accepted).live (h.run.mark_of_publication hp) hsoon
  obtain ⟨letter, houtput, htells⟩ := h.tellsPlace hp
  have hid : p.output.eventId = (messages j).source.text := by
    rw [houtput, hsame]
    exact htells.eventId
  obtain ⟨reason, progress, hpassage, hsound, hunrefused⟩ := h.passage hentered
  refine dropped_of_stray hpassage hsound hunrefused ?_ ?_ (hid ▸ hlive)
  · simpa [marks, hpassage, Passage.mark?] using hnone
  · simpa [outcome?, hpassage] using hunfinished

/-- Messages that state no ids are told apart by the places they were read from. If these are all
different, none is dropped, each that has finished has put out just one output, a dead letter of its
own, and any other can finish in this way by its own steps. A message that is read from a place
again is dropped as long as the mark of the first output has neither expired nor been evicted. -/
theorem told_apart (h : Unstated setting ttl maxEntries s messages moves t) :
    Function.Injective Coordinates.text ∧
    (Scattered messages moves →
      (∀ i outcome, .finished i outcome ∈ moves →
        ∃ letter marked, outcome = .published (.deadLetter letter) ∧
          letter.TellsPlace (messages i).source ∧
          ⟨i, .deadLetter letter, marked⟩ ∈ publications moves ∧
          ((publications moves).map fun p => p.output.eventId).count
            (messages i).source.text = 1) ∧
      ∀ i intake, .entered i intake ∈ moves → t.outcome? i = none →
        ∃ moves' t' letter, Run setting t moves' t' ∧ (∀ move ∈ moves', move.IsForward i) ∧
          .finished i (.published (.deadLetter letter)) ∈ moves') ∧
    ∀ p ∈ publications moves, ∀ j intake, .entered j intake ∈ moves →
      (messages j).source = (messages p.delivery).source →
      t.marks j = none → t.outcome? j = none →
      Sparing setting (.start ttl maxEntries s) (p.output.eventId, p.marked) moves t →
      t.shared.instant < p.marked + ttl →
      (∃ t', Step setting t (.finished j .duplicate) t') ∧
        ∀ move t', Step setting t move t' → move.subject? = some j →
          move = .finished j .duplicate := by
  refine ⟨Coordinates.text_injective, fun hscattered => ⟨fun i outcome hfinished =>
    h.of_finished hscattered hfinished, fun i intake hentered hunfinished => ?_⟩,
    fun p hp j intake hentered hsame hnone hunfinished hspared hsoon =>
      h.dropped_again hp hentered hsame hnone hunfinished hspared hsoon⟩
  obtain ⟨moves', t', outcome, hrun, hforward, hfinished⟩ := h.finishes hentered hunfinished
  have hscattered' : Scattered messages (moves ++ moves') := by
    intro j k intake' intake'' hj hk
    exact hscattered j k intake' intake'' (entered_of_append hforward hj)
      (entered_of_append hforward hk)
  obtain ⟨letter, marked, rfl, -⟩ := (h.extend hrun hforward).of_finished hscattered'
    (List.mem_append_right _ hfinished)
  exact ⟨moves', t', letter, hrun, hforward, hfinished⟩

/-- A message that is no event comes in, and its output is accepted. -/
theorem exists_published :
    ∃ (moves : List (Move Nat)) (t : Traffic Nat) (output : Output),
      Sparing ⟨false, fun _ _ => False⟩ (.start 10 2 ⟨.new 10 2, 0, 0, 0, [], []⟩) ("in:0:7", 0)
        moves t ∧
      (∀ i intake, .entered i intake ∈ moves →
        i = 0 ∧ intake = .ofMessage (utf8 "?") ⟨"in", 0, 7⟩) ∧
      (∀ i, .refused i ∉ moves) ∧ .finished 0 (.published output) ∈ moves ∧
      .published 0 output 0 ∈ moves ∧ t.passages 1 = none ∧ t.shared.instant = 0 := by
  let stray : Intake := .stray "in:0:7" none ⟨"in", 0, 7⟩ "not a document of the expected shape"
  have hstray : stray = .ofMessage (utf8 "?") ⟨"in", 0, 7⟩ := rfl
  have h : Sparing ⟨false, fun _ _ => False⟩ (.start 10 2 ⟨.new 10 2, 0, 0, 0, [], []⟩)
      ("in:0:7", 0) ([] : List (Move Nat)) _ := .nil
  have h := h.snoc (.enter (i := 0) stray rfl) nofun
  have h := h.snoc (.advance (i := 0) rfl (.settle rfl)) nofun
  have h := h.snoc (.advance (i := 0) rfl (.commit rfl)) (fun _ _ _ _ => .head _)
  have h := h.snoc (.advance (i := 0) rfl .publish) nofun
  have h := h.snoc (.advance (i := 0) rfl .accept) nofun
  refine ⟨_, _, _, h, fun i intake hentered => ?_, by simp, (h.run.finished_iff 0 _).mpr rfl,
    (h.run.published_iff 0 _ 0).mpr rfl, rfl, rfl⟩
  simp only [List.nil_append, List.cons_append, List.mem_cons, reduceCtorEq, Move.entered.injEq,
    List.not_mem_nil, or_false] at hentered
  exact ⟨hentered.1, hentered.2.trans hstray⟩

/-- A message that is no event is published, and dropped when it is read from its place again. -/
theorem told_apart_of_again :
    ∃ (messages : Nat → InputMessage) (moves : List (Move Nat)) (again : Intake)
      (t t' : Traffic Nat),
      Unstated ⟨false, fun _ _ => False⟩ 10 2 ⟨.new 10 2, 0, 0, 0, [], []⟩ messages moves t ∧
      Scattered messages moves ∧
      (∃ letter, .finished 0 (.published (.deadLetter letter)) ∈ moves ∧
        letter.TellsPlace ⟨"in", 0, 7⟩) ∧
      Unstated ⟨false, fun _ _ => False⟩ 10 2 ⟨.new 10 2, 0, 0, 0, [], []⟩ messages
        (moves ++ [.entered 1 again]) t' ∧
      ∀ move t'', Step ⟨false, fun _ _ => False⟩ t' move t'' → move.subject? = some 1 →
        move = .finished 1 .duplicate := by
  obtain ⟨moves, t, output, hrun, hentered, haccepted, hfinished, hpublished, hnew, hinstant⟩ :=
    exists_published
  let messages : Nat → InputMessage := fun _ => ⟨⟨"in", 0, 7⟩, utf8 "?"⟩
  let again : Intake := .ofMessage (utf8 "?") ⟨"in", 0, 7⟩
  have hagain := hrun.snoc (.enter (i := 1) again hnew) nofun
  have hfirst : Unstated ⟨false, fun _ _ => False⟩ 10 2 ⟨.new 10 2, 0, 0, 0, [], []⟩ messages
      moves t :=
    ⟨hrun.run, fun i intake hmem => (hentered i intake hmem).2, fun _ _ _ => rfl, haccepted⟩
  have hsecond : Unstated ⟨false, fun _ _ => False⟩ 10 2 ⟨.new 10 2, 0, 0, 0, [], []⟩ messages
      (moves ++ [.entered 1 again]) (t.put 1 ⟨again, .waiting⟩ t.shared) := by
    refine ⟨hagain.run, fun i intake hmem => ?_, fun _ _ _ => rfl, by simpa using haccepted⟩
    rcases List.mem_append.mp hmem with hbefore | hlast
    · exact (hentered i intake hbefore).2
    · cases List.mem_singleton.mp hlast
      rfl
  have hscattered : Scattered messages moves := fun i j intake intake' hi hj _ =>
    (hentered i intake hi).1.trans (hentered j intake' hj).1.symm
  obtain ⟨letter, -, houtcome, htells, -⟩ := (hfirst.told_apart.2.1 hscattered).1 0 _ hfinished
  cases houtcome
  refine ⟨messages, moves, again, t, _, hfirst, hscattered, ⟨letter, hfinished, htells⟩, hsecond,
    ?_⟩
  have hid : (Output.deadLetter letter).eventId = "in:0:7" := htells.eventId
  have hp : ⟨0, .deadLetter letter, 0⟩ ∈ publications (moves ++ [.entered 1 again]) :=
    mem_publications.mpr (List.mem_append_left _ hpublished)
  refine (hsecond.told_apart.2.2 _ hp 1 again (by simp) rfl ?marks ?outcome ?spared ?soon).2
  case marks => simp [marks, Passage.mark?, Progress.mark?]
  case outcome => simp [outcome?, Progress.outcome?]
  case spared =>
    rw [hid]
    exact hagain
  case soon =>
    change t.shared.instant < 0 + 10
    rw [hinstant]
    decide

end Unstated

end Traffic

end MarketFeed
