import MarketFeed.Rehearsal.Service

/-!
# Rehearsing the program

The program starts with an environment and brokers without faults, and is told to stop as
soon as its consumer loop listens.
-/

namespace MarketFeed.Rehearsal

/-- Brokers without faults. -/
def noFaults : StartupFaults := ⟨none, none, none, none⟩

/-- Why the program does not come up in an environment, if it does not. -/
def programFailure? (env : Environment) : Option ProgramError :=
  match Config.load env with
  | .error e => some e
  | .ok config =>
    match (Service.start config 0 noFaults).1 with
    | .error e => some (.startup e)
    | .ok service => service.signal.join.failure?

end MarketFeed.Rehearsal
