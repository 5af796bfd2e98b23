import MarketFeed.Guard

/-!
# Liveness

The service is live while every component that was registered keeps reporting that it is
healthy. A healthy report counts up to a deadline, which each handle chooses for itself; from
the deadline on the component is stalled until it reports again. Several handles may report
for one component, and its last report counts.
-/

namespace MarketFeed

/-- What a component has reported last. -/
inductive ComponentStatus
  /-- It was registered and has not reported. -/
  | starting
  /-- It is healthy, up to an instant. -/
  | healthyUntil (deadline : Instant)
  | unhealthy
  | stalled
  deriving DecidableEq, Repr

/-- The word for a status. -/
def ComponentStatus.word : ComponentStatus → String
  | starting => "starting"
  | healthyUntil _ => "healthy"
  | unhealthy => "unhealthy"
  | stalled => "stalled"

/-- The status at an instant: a healthy report that has run out is a stall. -/
def ComponentStatus.at (now : Instant) : ComponentStatus → ComponentStatus
  | healthyUntil deadline => if deadline ≤ now then stalled else healthyUntil deadline
  | other => other

/-- The status is that of a healthy component. -/
def ComponentStatus.isHealthy : ComponentStatus → Bool
  | healthyUntil _ => true
  | _ => false

/-- The last report of each component. -/
abbrev HealthRegistry := List (String × ComponentStatus)

/-- What reports for a component, and how long its healthy reports count. -/
structure HealthHandle where
  component : String
  span : Nat
  deriving DecidableEq, Repr

namespace HealthRegistry

/-- Take a report of a component in place of its last one. -/
def report (component : String) (status : ComponentStatus) : HealthRegistry → HealthRegistry
  | [] => [(component, status)]
  | (name, last) :: rest =>
    if name = component then (name, status) :: rest
    else (name, last) :: report component status rest

/-- Register a component, which starts. -/
def register (registry : HealthRegistry) (component : String) (span : Nat) :
    HealthHandle × HealthRegistry :=
  (⟨component, span⟩, registry.report component .starting)

/-- Report through a handle that its component is healthy now. -/
def reportHealthy (registry : HealthRegistry) (handle : HealthHandle) (now : Instant) :
    HealthRegistry :=
  registry.report handle.component (.healthyUntil (now + handle.span))

/-- The status of every component at an instant. -/
def components (registry : HealthRegistry) (now : Instant) : List (String × ComponentStatus) :=
  registry.map fun entry => (entry.1, entry.2.at now)

/-- There are components, and each is healthy at an instant. -/
def isHealthy (registry : HealthRegistry) (now : Instant) : Bool :=
  !registry.isEmpty && (registry.components now).all fun entry => entry.2.isHealthy

end HealthRegistry

end MarketFeed
