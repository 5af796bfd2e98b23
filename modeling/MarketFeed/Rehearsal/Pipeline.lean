import MarketFeed.Rehearsal.Broker

/-!
# Rehearsing the pipeline

A rehearsal runs the pipeline on one message after the other, with a historical store that
answers from a script and a sink whose failures are set. Between messages the clocks are
moved and the guard is used directly. A scripted answer may first mark an id, as another
delivery would, and may take time.
-/

namespace MarketFeed.Rehearsal

/-- The answer the script has for a lookup. -/
inductive ScriptedAnswer
  | tick (price : Float)
  | miss
  | fail

/-- One scripted lookup: an id that is marked meanwhile, the time that passes, the answer. -/
structure ScriptedLookup where
  answer : ScriptedAnswer
  mark : Option String
  advance : Nat

/-- The answer of the store to a lookup. -/
def ScriptedAnswer.toAnswer (instrumentId : String) : ScriptedAnswer → LookupAnswer
  | .tick price => .ok (some ⟨price, none, none⟩)
  | .miss => .ok none
  | .fail => .error (.status instrumentId 503)

/-- The world of a rehearsal besides what deliveries share: the script, if there is a store,
the instruments that were asked for, and the sink. -/
structure Stage where
  script : Option (List ScriptedLookup)
  asked : List String
  broker : Broker
  flushes : Nat

/-- What happens to the shared state during a scripted lookup. -/
def ScriptedLookup.pass (lookup : ScriptedLookup) (s : Shared) : Shared :=
  let s := match lookup.mark with
    | some id => { s with guard := s.guard.mark s.instant id }
    | none => s
  { s with instant := s.instant + lookup.advance }

/-- Ask the scripted store. After the last scripted answer it has none. -/
def Stage.lookup (instrumentId : String) (s : Shared) (stage : Stage) :
    LookupAnswer × Shared × Stage :=
  let stage := { stage with asked := stage.asked ++ [instrumentId] }
  match stage.script with
  | some (next :: rest) =>
    (next.answer.toAnswer instrumentId, next.pass s, { stage with script := some rest })
  | _ => (.ok none, s, stage)

/-- Hand an output to the sink. -/
def Stage.publish (output : Output) (stage : Stage) : Except PublishError Unit × Stage :=
  let (reply, broker) := stage.broker.publish output
  (reply, { stage with broker := broker })

/-- The surroundings of deliveries on this stage. -/
def Stage.surroundings (stage : Stage) : Surroundings Stage where
  backfills := stage.script.isSome
  lookup := Stage.lookup
  publish := Stage.publish

/-- The shared state at the beginning: a guard without entries, the monotonic clock at zero. -/
def sharedAt (wall : Int64) (ttl maxEntries : Nat) : Shared :=
  ⟨Guard.new ttl maxEntries, 0, wall, 0, [], []⟩

/-- What is done with the guard directly. -/
inductive GuardCall
  | seen (id : String)
  | mark (id : String)
  | tryMark (id : String)
  | forget (id : String)
  | sweep
  | size

/-- The answer of the guard to a call. -/
inductive GuardAnswer
  | nothing
  | truth (b : Bool)
  | count (n : Nat)
  | size (n : Nat)

/-- Call the guard. -/
def GuardCall.perform (call : GuardCall) (now : Instant) (g : Guard) : GuardAnswer × Guard :=
  match call with
  | .seen id => let (live, g) := g.seen now id; (.truth live, g)
  | .mark id => (.nothing, g.mark now id)
  | .tryMark id => let (marked, g) := g.tryMark now id; (.truth marked, g)
  | .forget id => (.nothing, g.forget id)
  | .sweep => let (removed, g) := g.sweep now; (.count removed, g)
  | .size => (.size g.size, g)

/-- One step of a rehearsal. -/
inductive PipelineStep
  | message (bytes : Bytes) (source : Coordinates)
  | event (bytes : Bytes)
  | advance (millis : Nat)
  | setWall (micros : Int64)
  | failNext (count : Nat)
  | flush
  | guard (call : GuardCall)

/-- The answer to a step. -/
inductive PipelineAnswer
  | nothing
  | notAnEvent (fault : Json.Fault)
  | processed (result : Except PublishError Outcome)
  | flushes (n : Nat)
  | guard (answer : GuardAnswer)

/-- Process a message on a stage. -/
def handle (intake : Intake) (s : Shared) (stage : Stage) : PipelineAnswer × Shared × Stage :=
  let (result, s, stage) := process stage.surroundings intake s stage
  (.processed result, s, stage)

/-- Take one step. -/
def PipelineStep.perform (step : PipelineStep) (s : Shared) (stage : Stage) :
    PipelineAnswer × Shared × Stage :=
  match step with
  | .message bytes source => handle (.ofMessage bytes source) s stage
  | .event bytes =>
    match RawEvent.decode bytes with
    | .ok e => handle (.event e none) s stage
    | .error fault => (.notAnEvent fault, s, stage)
  | .advance millis => (.nothing, { s with instant := s.instant + millis }, stage)
  | .setWall micros => (.nothing, { s with wall := micros }, stage)
  | .failNext count => (.nothing, s, { stage with broker := stage.broker.ordain .dropped count })
  | .flush => (.flushes (stage.flushes + 1), s, { stage with flushes := stage.flushes + 1 })
  | .guard call =>
    let (reply, held) := call.perform s.instant s.guard
    (.guard reply, { s with guard := held }, stage)

/-- Take all steps in order. -/
def performAll : List PipelineStep → Shared → Stage → List PipelineAnswer × Shared × Stage
  | [], s, stage => ([], s, stage)
  | step :: rest, s, stage =>
    let (answer, s, stage) := step.perform s stage
    let (answers, s, stage) := performAll rest s stage
    (answer :: answers, s, stage)

/-- Topics that are named after the outputs. -/
def kindTopics : OutputTopics := ⟨OutputKind.normalized.word, OutputKind.deadLetter.word⟩

/-- The stage of a rehearsal with a script, whose sink names its topics after the outputs. -/
def Stage.new (script : Option (List ScriptedLookup)) : Stage :=
  ⟨script, [], Broker.new kindTopics, 0⟩

end MarketFeed.Rehearsal
