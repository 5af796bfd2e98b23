import MarketFeed.Health

/-!
# The status server

The server has a page that is always there and one whose status code tells whether the
service is live. Pages are read only; a query after the path does not matter.
-/

namespace MarketFeed

/-- What stands in the body of a reply. -/
inductive PageBody
  | text (s : String)
  /-- The status of each component, for people to read. -/
  | report (components : List (String × ComponentStatus))

/-- A reply of the status server. -/
structure PageReply where
  code : Nat
  body : PageBody

/-- The pages. -/
inductive Page
  | index
  | liveness

/-- The page at a path. -/
def Page.at? : String → Option Page
  | "/" => some .index
  | "/_readiness" => some .index
  | "/_liveness" => some .liveness
  | _ => none

/-- The path of a request target, without its query. -/
def pathOf (target : String) : String := String.ofList (target.toList.takeWhile (· ≠ '?'))

/-- The status code that tells whether the service is live. -/
def livenessCode (registry : HealthRegistry) (now : Instant) : Nat :=
  if registry.isHealthy now then 200 else 500

/-- A page at an instant. -/
def Page.reply (registry : HealthRegistry) (now : Instant) : Page → PageReply
  | index => ⟨200, .text "tick normalizer"⟩
  | liveness => ⟨livenessCode registry now, .report (registry.components now)⟩

/-- Answer a request. A request for the head of a page is answered without its body. -/
def answerPage (registry : HealthRegistry) (now : Instant) (method target : String) : PageReply :=
  match Page.at? (pathOf target) with
  | none => ⟨404, .text ""⟩
  | some page =>
    if method = "GET" then page.reply registry now
    else if method = "HEAD" then ⟨(page.reply registry now).code, .text ""⟩
    else ⟨405, .text ""⟩

end MarketFeed
