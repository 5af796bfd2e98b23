import MarketFeed.Rehearsal.Dispatch
import MarketFeed.Service.Startup
import Std.Time.DateTime.Timestamp

/-!
# The program

The program takes its settings from the environment and its messages from standard input,
one a line, as the messages of one partition of the input topic. Each record it puts out is a
line of standard output: the topic, the key and the record, with tabs between them. It ends
with the input, or with a failure if its settings do not let it start.
-/

namespace MarketFeed.Program

open Rehearsal

/-- The environment of the process, as far as settings are read from it. -/
def environment : IO Environment :=
  Config.variables.filterMapM fun name => do
    let value ← IO.getEnv name
    pure (value.map fun text => (name, text))

/-- The instant of the wall clock, in microseconds since the Unix epoch. -/
def wallClock : IO Int64 := do
  let now ← Std.Time.Timestamp.now
  pure (Int64.ofInt (now.toNanosecondsSinceUnixEpoch.toInt / 1000))

/-- Set the clocks, of which the monotonic one began at a number of milliseconds. -/
def setClocks (beginning : Nat) (s : Shared) : IO Shared := do
  let instant ← IO.monoMsNow
  let wall ← wallClock
  pure { s with instant := instant - beginning, wall := wall }

/-- The line for a record. -/
def recordLine (r : Record) : String := r.topic ++ "\t" ++ r.key ++ "\t" ++ r.payload ++ "\n"

/-- A line without its end. -/
def withoutEnd (line : String) : String :=
  match line.toList.reverse with
  | '\n' :: rest => String.ofList rest.reverse
  | _ => line

/-- Process messages until the input ends. -/
partial def relay (config : Config) (place : Workplace Broker) (beginning : Nat) (offset : Int64)
    (s : Shared) (broker : Broker) : IO Unit := do
  let line ← (← IO.getStdin).getLine
  if line.isEmpty then return
  let s ← setClocks beginning s
  let message : InputMessage := ⟨⟨config.inputTopic, 0, offset⟩, utf8 (withoutEnd line)⟩
  let (_, s, broker) := Worker.attempt place message s broker
  for output in broker.published do
    (← IO.getStdout).putStr (recordLine (config.outputTopics.record output))
  relay config place beginning (offset + 1) s { broker with log := [], published := [] }

/-- Start with the settings of an environment. -/
def prepare (env : Environment) : Except ProgramError (Config × Bool) := do
  let config ← Config.load env
  match config.broker.queueKibibytes?, config.store with
  | none, _ => throw (.startup .overflow)
  | some _, .ok store => pure (config, store.isSome)
  | some _, .error e => throw (.startup (.store e))

end MarketFeed.Program

open MarketFeed MarketFeed.Program MarketFeed.Rehearsal in
/-- Run the program. -/
def main : IO UInt32 := do
  match prepare (← environment) with
  | .error e => do
    (← IO.getStderr).putStr e.report
    pure e.exitCode
  | .ok (config, backfills) => do
    let shared := sharedAt (← wallClock) config.guardTtl config.guardMaxEntries.toNat
    relay config (workplace backfills) (← IO.monoMsNow) 0 shared (Broker.new config.outputTopics)
    pure 0
