/-!
# Who runs when

In a rehearsal only one party runs at a time, until it has to wait. Those that have something
to do run in the order in which they got it. A party may also wait for an instant; when
nobody has anything to do, the clock goes on to the next instant somebody waits for.
-/

namespace MarketFeed.Rehearsal

/-- The clock, in milliseconds, those that have something to do, and those that wait for an
instant, in the order in which they began to wait. -/
structure Agenda (τ : Type) where
  clock : Nat
  ready : List τ
  timers : List (Nat × τ)

namespace Agenda

variable {τ : Type} [DecidableEq τ]

/-- An agenda on which nobody is. -/
def empty : Agenda τ := ⟨0, [], []⟩

/-- A party has something to do. -/
def wake (agenda : Agenda τ) (party : τ) : Agenda τ :=
  if party ∈ agenda.ready then agenda else { agenda with ready := agenda.ready ++ [party] }

/-- Parties have something to do, in order. -/
def wakeAll (agenda : Agenda τ) (parties : List τ) : Agenda τ := parties.foldl wake agenda

/-- A party waits for an instant. -/
def waitUntil (agenda : Agenda τ) (instant : Nat) (party : τ) : Agenda τ :=
  { agenda with timers := agenda.timers ++ [(instant, party)] }

/-- A party waits for a span of time. -/
def waitFor (agenda : Agenda τ) (span : Nat) (party : τ) : Agenda τ :=
  agenda.waitUntil (agenda.clock + span) party

/-- The first instant somebody waits for. -/
def next? (agenda : Agenda τ) : Option Nat := (agenda.timers.map (·.1)).min?

/-- Let the clock go on to an instant; those that waited for it have something to do. -/
def goTo (agenda : Agenda τ) (instant : Nat) : Agenda τ :=
  let due := agenda.timers.filter fun timer => timer.1 ≤ instant
  let later := agenda.timers.filter fun timer => instant < timer.1
  let agenda := { agenda with clock := instant, timers := later }
  agenda.wakeAll (due.map fun timer => timer.2)

end Agenda

/-- A world with an agenda, and what happens when a party runs. -/
structure Scene (τ σ : Type) where
  agenda : σ → Agenda τ
  setAgenda : Agenda τ → σ → σ
  run : τ → σ → σ

namespace Scene

variable {τ σ : Type} [DecidableEq τ]

/-- How often parties may run. Only a party that never has to wait could reach this bound. -/
def roundLimit : Nat := 10000000

/-- Let all that have something to do run, at most so often. -/
def settle (scene : Scene τ σ) : Nat → σ → σ
  | 0, x => x
  | rounds + 1, x =>
    let agenda := scene.agenda x
    match agenda.ready with
    | [] => x
    | party :: rest =>
      scene.settle rounds (scene.run party (scene.setAgenda { agenda with ready := rest } x))

/-- Let the clock go on until an instant, or until something is so when all have run. -/
def play (scene : Scene τ σ) (last : Nat) (isOver : σ → Bool) : Nat → σ → σ
  | 0, x => x
  | rounds + 1, x =>
    let x := scene.settle roundLimit x
    let agenda := scene.agenda x
    if isOver x then x
    else
      match agenda.next? with
      | some instant =>
        if instant ≤ last then
          scene.play last isOver rounds (scene.setAgenda (agenda.goTo instant) x)
        else scene.setAgenda { agenda with clock := last } x
      | none => scene.setAgenda { agenda with clock := last } x

/-- Let the clock go on until an instant, or until something is so when all have run. -/
def playUntil (scene : Scene τ σ) (last : Nat) (isOver : σ → Bool) (x : σ) : σ :=
  scene.play last isOver roundLimit x

/-- Let time pass. -/
def pass (scene : Scene τ σ) (millis : Nat) (x : σ) : σ :=
  scene.playUntil ((scene.agenda x).clock + millis) (fun _ => false) x

end Scene

end MarketFeed.Rehearsal
