import MarketFeed.Health
import Mathlib.Data.List.Induction
import Mathlib.Data.List.Nodup

/-!
# Liveness is the conjunction of fresh reports

The registry keeps one status for each component: what the last call for it has reported, be it
its registration, a healthy report or any other one. Whether a healthy report has run out is
decided only when the status is asked for, and asking changes nothing. So the service is healthy
exactly if there are components and the last call for each was a healthy report that still counts.
Time alone can only end this. It never makes an unhealthy service healthy again.

A stall that is shown need not be a report that has run out. A component can also report itself
that it is stalled. And if it is registered again after its report has run out, it starts.
-/

namespace MarketFeed

/-! ## The statuses that are kept -/

namespace HealthRegistry

variable {component name : String} {status : ComponentStatus}

/-- The names of the components. -/
def names (registry : HealthRegistry) : List String := registry.map Prod.fst

/-- The last report of a component counts. -/
theorem lookup_report_self (registry : HealthRegistry) :
    (registry.report component status).lookup component = some status := by
  induction registry with
  | nil => exact List.lookup_cons_self
  | cons entry rest ih =>
    obtain ⟨other, last⟩ := entry
    rw [report]
    split
    · rename_i hsame
      rw [hsame]
      exact List.lookup_cons_self
    · rename_i hother
      rw [List.lookup_cons, beq_false_of_ne (Ne.symm hother)]
      exact ih

/-- The last reports of the other components stay. -/
theorem lookup_report_of_ne (registry : HealthRegistry) (hne : name ≠ component) :
    (registry.report name status).lookup component = registry.lookup component := by
  have hbeq : (component == name) = false := beq_false_of_ne hne.symm
  induction registry with
  | nil => rw [report, List.lookup_cons, hbeq]
  | cons entry rest ih =>
    obtain ⟨other, last⟩ := entry
    rw [report]
    split
    · rename_i hsame
      rw [hsame, List.lookup_cons, List.lookup_cons, hbeq]
    · rw [List.lookup_cons, List.lookup_cons, ih]

/-- A report adds the name of its component, unless it is there. -/
theorem mem_names_report (registry : HealthRegistry) :
    name ∈ (registry.report component status).names ↔ name = component ∨ name ∈ registry.names := by
  induction registry with
  | nil => simp [report, names]
  | cons entry rest ih =>
    obtain ⟨other, last⟩ := entry
    rw [report]
    split
    · rename_i hsame
      simp [names, hsame]
    · have hrest : name ∈ List.map Prod.fst (report component status rest) ↔
          name = component ∨ name ∈ List.map Prod.fst rest := ih
      simp only [names, List.map_cons, List.mem_cons, hrest]
      exact or_left_comm

/-- A report gives no component a second status. -/
theorem nodup_names_report {registry : HealthRegistry} (h : registry.names.Nodup) :
    (registry.report component status).names.Nodup := by
  induction registry with
  | nil => exact List.nodup_singleton component
  | cons entry rest ih =>
    obtain ⟨other, last⟩ := entry
    obtain ⟨hnew, hrest⟩ := List.nodup_cons.mp h
    rw [report]
    split
    · exact h
    · rename_i hother
      refine List.nodup_cons.mpr ⟨fun hmem => ?_, ih hrest⟩
      rcases (mem_names_report rest).mp hmem with hsame | hold
      · exact hother hsame
      · exact hnew hold

/-- The status that is found for a component is kept. -/
theorem mem_of_lookup {registry : HealthRegistry} (h : registry.lookup name = some status) :
    (name, status) ∈ registry := by
  obtain ⟨before, after, rfl, -⟩ := List.lookup_eq_some_iff.mp h
  exact List.mem_append_right _ List.mem_cons_self

/-- If no component has two statuses, the status that is found for one is the one that is kept. -/
theorem mem_iff_lookup {registry : HealthRegistry} (h : registry.names.Nodup) :
    (name, status) ∈ registry ↔ registry.lookup name = some status := by
  constructor
  · intro hmem
    induction registry with
    | nil => exact absurd hmem List.not_mem_nil
    | cons entry rest ih =>
      obtain ⟨hnew, hrest⟩ := List.nodup_cons.mp h
      rcases List.mem_cons.mp hmem with rfl | hlater
      · exact List.lookup_cons_self
      · have hother : name ≠ entry.1 := by
          rintro rfl
          exact hnew (List.mem_map.mpr ⟨_, hlater, rfl⟩)
        rw [List.lookup_cons, beq_false_of_ne hother]
        exact ih hrest hlater
  · exact mem_of_lookup

/-- The names that are shown are those of the components. -/
theorem names_components (registry : HealthRegistry) (now : Instant) :
    names (registry.components now) = registry.names := by
  rw [names, components, List.map_map]
  rfl

/-- A status counts as healthy at an instant if it is a healthy report up to a later one. -/
theorem isHealthy_at_iff {now : Instant} :
    (status.at now).isHealthy = true ↔ ∃ deadline, status = .healthyUntil deadline ∧
      now < deadline := by
  cases status with
  | healthyUntil deadline =>
    by_cases hover : deadline ≤ now
    · simp [ComponentStatus.at, hover, ComponentStatus.isHealthy]
    · simp [ComponentStatus.at, hover, ComponentStatus.isHealthy, Nat.not_le.mp hover]
  | starting => exact ⟨nofun, nofun⟩
  | unhealthy => exact ⟨nofun, nofun⟩
  | stalled => exact ⟨nofun, nofun⟩

/-- A status is shown as a stall if it is a healthy report that has run out, or a stall itself. -/
theorem at_eq_stalled_iff {now : Instant} :
    status.at now = .stalled ↔
      status = .stalled ∨ ∃ deadline ≤ now, status = .healthyUntil deadline := by
  cases status with
  | healthyUntil deadline =>
    by_cases hover : deadline ≤ now <;> simp [ComponentStatus.at, hover]
  | starting => simp [ComponentStatus.at]
  | unhealthy => simp [ComponentStatus.at]
  | stalled => simp [ComponentStatus.at]

/-- The service is healthy if there are components and all of them are. -/
theorem isHealthy_iff {registry : HealthRegistry} {now : Instant} :
    registry.isHealthy now = true ↔
      registry ≠ [] ∧ ∀ entry ∈ registry, (entry.2.at now).isHealthy = true := by
  simp [isHealthy, components]

/-- A component whose last report is that it is unhealthy is so at every instant, and so is the
service. -/
theorem unhealthy_of_lookup {registry : HealthRegistry}
    (h : registry.lookup component = some .unhealthy) (now : Instant) :
    (component, .unhealthy) ∈ registry.components now ∧ registry.isHealthy now = false := by
  have hmem := mem_of_lookup h
  refine ⟨List.mem_map.mpr ⟨_, hmem, rfl⟩, Bool.eq_false_iff.mpr fun hhealthy => ?_⟩
  exact Bool.false_ne_true ((isHealthy_iff.mp hhealthy).2 _ hmem)

/-- A service that is not healthy does not become so by time alone. -/
theorem isHealthy_mono {registry : HealthRegistry} {now later : Instant} (hle : now ≤ later)
    (h : registry.isHealthy later = true) : registry.isHealthy now = true := by
  obtain ⟨hsome, hall⟩ := isHealthy_iff.mp h
  refine isHealthy_iff.mpr ⟨hsome, fun entry hentry => ?_⟩
  obtain ⟨deadline, hreport, hlater⟩ := isHealthy_at_iff.mp (hall entry hentry)
  exact isHealthy_at_iff.mpr ⟨deadline, hreport, Nat.lt_of_le_of_lt hle hlater⟩

end HealthRegistry

/-! ## Calls -/

/-- A call of the registry or of one of its handles. -/
inductive HealthCall
  | register (component : String) (span : Nat)
  | reportHealthy (handle : HealthHandle)
  | reportStatus (handle : HealthHandle) (status : ComponentStatus)
  /-- The status of all components is asked for. -/
  | getStatus
  deriving DecidableEq

/-- A call and the instant at which it is made. -/
abbrev TimedHealthCall := Instant × HealthCall

namespace HealthCall

/-- Make a call at an instant. -/
def perform (call : HealthCall) (now : Instant) (registry : HealthRegistry) : HealthRegistry :=
  match call with
  | register component span => (registry.register component span).2
  | reportHealthy handle => registry.reportHealthy handle now
  | reportStatus handle status => registry.report handle.component status
  | getStatus => registry

/-- What a call at an instant tells of a component. A registration tells that it starts. -/
def report? (now : Instant) : HealthCall → Option (String × ComponentStatus)
  | register component _ => some (component, .starting)
  | reportHealthy handle => some (handle.component, .healthyUntil (now + handle.span))
  | reportStatus handle status => some (handle.component, status)
  | getStatus => none

/-- The handle that a report goes through. -/
def handle? : HealthCall → Option HealthHandle
  | reportHealthy handle => some handle
  | reportStatus handle _ => some handle
  | _ => none

/-- All that a call does is to keep what it tells. -/
theorem perform_eq (call : HealthCall) (now : Instant) (registry : HealthRegistry) :
    call.perform now registry =
      (call.report? now).elim registry fun told => registry.report told.1 told.2 := by
  cases call <;> rfl

/-- A call tells something of a component if it registers it, or reports through its handle. -/
theorem of_report? {call : HealthCall} {now : Instant} {name : String} {status : ComponentStatus}
    (h : call.report? now = some (name, status)) :
    (∃ span, call = register name span) ∨ ∃ handle, call.handle? = some handle ∧
      handle.component = name := by
  cases call with
  | register component span => cases h; exact .inl ⟨span, rfl⟩
  | reportHealthy handle => cases h; exact .inr ⟨handle, rfl, rfl⟩
  | reportStatus handle told => cases h; exact .inr ⟨handle, rfl, rfl⟩
  | getStatus => cases h

end HealthCall

namespace HealthRegistry

/-- The registry after calls in a row. -/
def after (registry : HealthRegistry) : List TimedHealthCall → HealthRegistry
  | [] => registry
  | (now, call) :: rest => (call.perform now registry).after rest

/-- What the last call for a component has told. -/
def lastReport? (calls : List TimedHealthCall) (name : String) : Option ComponentStatus :=
  (calls.filterMap fun call => call.2.report? call.1).reverse.lookup name

/-- The calls register a component. -/
def Registers (calls : List TimedHealthCall) (name : String) : Prop :=
  ∃ now span, (now, .register name span) ∈ calls

/-- Each report goes through a handle that an earlier registration has given. -/
def ThroughHandles (calls : List TimedHealthCall) : Prop :=
  ∀ (i : Nat) (h : i < calls.length), ∀ handle ∈ (calls.get ⟨i, h⟩).2.handle?,
    ∃ call ∈ calls.take i, call.2 = .register handle.component handle.span

instance (calls : List TimedHealthCall) : Decidable (ThroughHandles calls) :=
  inferInstanceAs (Decidable (∀ (i : Nat) (h : i < calls.length),
    ∀ handle ∈ (calls.get ⟨i, h⟩).2.handle?,
      ∃ call ∈ calls.take i, call.2 = .register handle.component handle.span))

/-- What went through handles before one more call did so, and that call does. -/
theorem ThroughHandles.of_snoc {calls : List TimedHealthCall} {call : TimedHealthCall}
    (h : ThroughHandles (calls ++ [call])) :
    ThroughHandles calls ∧ ∀ handle, call.2.handle? = some handle →
      ∃ earlier ∈ calls, earlier.2 = .register handle.component handle.span := by
  constructor
  · intro i hi handle hhandle
    have hi' : i < (calls ++ [call]).length := by
      rw [List.length_append]
      omega
    have hgiven := h i hi' handle (by simpa [List.getElem_append_left hi] using hhandle)
    rwa [List.take_append_of_le_length (Nat.le_of_lt hi)] at hgiven
  · intro handle hhandle
    have hgiven := h calls.length (by simp) handle (by simpa using hhandle)
    rwa [List.take_left] at hgiven

/-- Calls after calls. -/
theorem after_append (registry : HealthRegistry) (calls later : List TimedHealthCall) :
    registry.after (calls ++ later) = (registry.after calls).after later := by
  induction calls generalizing registry with
  | nil => rfl
  | cons call rest ih => exact ih (call.2.perform call.1 registry)

/-- One more call after calls. -/
theorem after_snoc (registry : HealthRegistry) (calls : List TimedHealthCall)
    (call : TimedHealthCall) :
    registry.after (calls ++ [call]) = call.2.perform call.1 (registry.after calls) :=
  after_append registry calls [call]

/-- The last call for a component tells what counts; if one more call is not for it, it stays. -/
theorem lastReport?_snoc (calls : List TimedHealthCall) (call : TimedHealthCall) (name : String) :
    lastReport? (calls ++ [call]) name =
      (call.2.report? call.1).elim (lastReport? calls name) fun told =>
        if name = told.1 then some told.2 else lastReport? calls name := by
  rw [lastReport?, List.filterMap_append, List.reverse_append]
  cases htold : call.2.report? call.1 with
  | none => simp [htold, lastReport?]
  | some told =>
    obtain ⟨component, status⟩ := told
    by_cases hsame : name = component
    · simp [htold, hsame]
    · simp [htold, hsame, List.lookup_cons, beq_false_of_ne hsame, lastReport?]

/-- The registry keeps what the last call for each component has told. -/
theorem lookup_after (calls : List TimedHealthCall) (name : String) :
    (after [] calls).lookup name = lastReport? calls name := by
  induction calls using List.reverseRecOn with
  | nil => rfl
  | append_singleton calls call ih =>
    rw [after_snoc, lastReport?_snoc, HealthCall.perform_eq]
    cases call.2.report? call.1 with
    | none => exact ih
    | some told =>
      by_cases hsame : name = told.1
      · subst hsame
        rw [Option.elim_some, Option.elim_some, if_pos rfl, lookup_report_self]
      · rw [Option.elim_some, Option.elim_some, if_neg hsame,
          lookup_report_of_ne _ (Ne.symm hsame), ih]

/-- Calls give no component a second status. -/
theorem nodup_names_after (calls : List TimedHealthCall) : (after [] calls).names.Nodup := by
  induction calls using List.reverseRecOn with
  | nil => exact List.nodup_nil
  | append_singleton calls call ih =>
    rw [after_snoc, HealthCall.perform_eq]
    cases call.2.report? call.1 with
    | none => exact ih
    | some told => exact nodup_names_report ih

/-- The components are those that were registered. -/
theorem mem_names_after_iff {calls : List TimedHealthCall} (hgiven : ThroughHandles calls)
    {name : String} : name ∈ (after [] calls).names ↔ Registers calls name := by
  induction calls using List.reverseRecOn with
  | nil => simp [after, names, Registers]
  | append_singleton calls call ih =>
    obtain ⟨now, call⟩ := call
    obtain ⟨hbefore, hlast⟩ := hgiven.of_snoc
    have hmore : Registers calls name → Registers (calls ++ [(now, call)]) name :=
      fun ⟨earlier, span, hmem⟩ => ⟨earlier, span, List.mem_append_left _ hmem⟩
    rw [after_snoc, HealthCall.perform_eq]
    cases htold : call.report? now with
    | none =>
      refine (ih hbefore).trans ⟨hmore, ?_⟩
      rintro ⟨earlier, span, hmem⟩
      rcases List.mem_append.mp hmem with hold | hnew
      · exact ⟨earlier, span, hold⟩
      · cases List.mem_singleton.mp hnew
        cases htold
    | some told =>
      obtain ⟨component, status⟩ := told
      refine (mem_names_report _).trans ?_
      rw [ih hbefore]
      constructor
      · rintro (rfl | hold)
        · rcases HealthCall.of_report? htold with ⟨span, rfl⟩ | ⟨handle, hhandle, rfl⟩
          · exact ⟨now, span, by simp⟩
          · obtain ⟨⟨earlier, _⟩, hmem, rfl⟩ := hlast handle hhandle
            exact hmore ⟨earlier, handle.span, hmem⟩
        · exact hmore hold
      · rintro ⟨earlier, span, hmem⟩
        rcases List.mem_append.mp hmem with hold | hnew
        · exact .inr ⟨earlier, span, hold⟩
        · cases List.mem_singleton.mp hnew
          cases htold
          exact .inl rfl

/-- Asking for the status changes nothing. -/
theorem after_filter (registry : HealthRegistry) (calls : List TimedHealthCall) :
    registry.after (calls.filter fun call => call.2 ≠ .getStatus) = registry.after calls := by
  induction calls generalizing registry with
  | nil => rfl
  | cons call rest ih =>
    obtain ⟨now, call⟩ := call
    by_cases hask : call = .getStatus
    · subst hask
      exact (congrArg registry.after (List.filter_cons_of_neg (by simp))).trans (ih registry)
    · rw [List.filter_cons_of_pos (by simpa using hask)]
      exact ih (call.perform now registry)

/-- A registration does not make a service healthy. -/
theorem isHealthy_report_starting {registry : HealthRegistry} {now : Instant} :
    (registry.report name .starting).isHealthy now = false := by
  refine Bool.eq_false_iff.mpr fun hhealthy => ?_
  have hlast : (registry.report name .starting).lookup name = some .starting :=
    lookup_report_self registry
  have hmem := mem_of_lookup hlast
  exact Bool.false_ne_true ((isHealthy_iff.mp hhealthy).2 _ hmem)

/-- As long as nothing is reported, a service that is not healthy does not become so. -/
theorem isHealthy_after_of_unreported {registry : HealthRegistry} {later : Instant}
    (h : registry.isHealthy later = false) {more : List TimedHealthCall}
    (hunreported : ∀ call ∈ more, call.2.handle? = none) :
    (registry.after more).isHealthy later = false := by
  induction more generalizing registry with
  | nil => exact h
  | cons call rest ih =>
    obtain ⟨now, call⟩ := call
    have hquiet : call.handle? = none := hunreported (now, call) List.mem_cons_self
    have hrest : ∀ call ∈ rest, call.2.handle? = none := fun call hcall =>
      hunreported call (List.mem_cons_of_mem _ hcall)
    cases call with
    | register component span => exact ih isHealthy_report_starting hrest
    | reportHealthy handle => cases hquiet
    | reportStatus handle status => cases hquiet
    | getStatus => exact ih h hrest

/-! ## Liveness after calls in a row -/

/-- The last call for a component has told something of it. -/
theorem mem_names_after_iff_lastReport {calls : List TimedHealthCall} :
    name ∈ (after [] calls).names ↔ ∃ status, lastReport? calls name = some status := by
  constructor
  · intro hmem
    obtain ⟨⟨other, status⟩, hentry, rfl⟩ := List.mem_map.mp hmem
    exact ⟨status, (lookup_after calls other) ▸
      (mem_iff_lookup (nodup_names_after calls)).mp hentry⟩
  · rintro ⟨status, hlast⟩
    exact List.mem_map.mpr ⟨_, mem_of_lookup ((lookup_after calls name).trans hlast), rfl⟩

/-- Each component is shown with what the last call for it has told, as it is at the instant. -/
theorem mem_components_after_iff {calls : List TimedHealthCall} {now : Instant} :
    (name, status) ∈ (after [] calls).components now ↔
      ∃ last, lastReport? calls name = some last ∧ last.at now = status := by
  constructor
  · intro hmem
    obtain ⟨⟨other, last⟩, hentry, hshown⟩ := List.mem_map.mp hmem
    obtain ⟨rfl, rfl⟩ := Prod.mk.inj hshown
    exact ⟨last, (lookup_after calls other) ▸
      (mem_iff_lookup (nodup_names_after calls)).mp hentry, rfl⟩
  · rintro ⟨last, hlast, rfl⟩
    exact List.mem_map.mpr ⟨_, mem_of_lookup ((lookup_after calls name).trans hlast), rfl⟩

/-- The service is healthy if something was registered, and the last call for each component was a
healthy report that still counts. -/
theorem isHealthy_after_iff {calls : List TimedHealthCall} (hgiven : ThroughHandles calls)
    {now : Instant} :
    (after [] calls).isHealthy now = true ↔
      (∃ name, Registers calls name) ∧ ∀ name, Registers calls name →
        ∃ deadline, lastReport? calls name = some (.healthyUntil deadline) ∧ now < deadline := by
  rw [isHealthy_iff]
  refine and_congr ?some ?all
  case some =>
    constructor
    · intro hsome
      obtain ⟨entry, hentry⟩ := List.exists_mem_of_ne_nil _ hsome
      exact ⟨entry.1, (mem_names_after_iff hgiven).mp (List.mem_map_of_mem hentry)⟩
    · rintro ⟨name, hregistered⟩ hnone
      have hmem := (mem_names_after_iff hgiven).mpr hregistered
      rw [hnone] at hmem
      exact List.not_mem_nil hmem
  case all =>
    constructor
    · intro hall name hregistered
      obtain ⟨status, hlast⟩ :=
        mem_names_after_iff_lastReport.mp ((mem_names_after_iff hgiven).mpr hregistered)
      obtain ⟨deadline, rfl, hfuture⟩ := isHealthy_at_iff.mp
        (hall _ (mem_of_lookup ((lookup_after calls name).trans hlast)))
      exact ⟨deadline, hlast, hfuture⟩
    · rintro hall ⟨name, status⟩ hentry
      have hmem : name ∈ (after [] calls).names := List.mem_map.mpr ⟨_, hentry, rfl⟩
      obtain ⟨deadline, hlast, hfuture⟩ := hall name ((mem_names_after_iff hgiven).mp hmem)
      have hkept := (mem_iff_lookup (nodup_names_after calls)).mp hentry
      rw [lookup_after, hlast] at hkept
      exact isHealthy_at_iff.mpr ⟨deadline, (Option.some_inj.mp hkept).symm, hfuture⟩

/-- After calls in a row whose reports go through handles that were given, the components that are
shown are those that were registered, each once. The service is healthy exactly if there are any
and the last call for each was a healthy report whose deadline is still to come. Shown as stalled
are exactly those for which the last call was a healthy report that has run out, or told itself
that they are stalled. Asking changes nothing; and once the service is not healthy, it stays so
as long as nothing is reported. -/
theorem live_iff_reports_fresh {calls : List TimedHealthCall} (hgiven : ThroughHandles calls)
    (now : Instant) :
    let registry := after [] calls
    (names (registry.components now)).Nodup ∧
      (∀ name, name ∈ names (registry.components now) ↔ Registers calls name) ∧
      (registry.isHealthy now = true ↔
        (∃ name, Registers calls name) ∧ ∀ name, Registers calls name →
          ∃ deadline, lastReport? calls name = some (.healthyUntil deadline) ∧ now < deadline) ∧
      (∀ name, (name, .stalled) ∈ registry.components now ↔
        lastReport? calls name = some .stalled ∨
          ∃ deadline ≤ now, lastReport? calls name = some (.healthyUntil deadline)) ∧
      after [] (calls.filter fun call => call.2 ≠ .getStatus) = registry ∧
      (registry.isHealthy now = false → ∀ later ≥ now, ∀ more : List TimedHealthCall,
        (∀ call ∈ more, call.2.handle? = none) →
          (registry.after more).isHealthy later = false) := by
  intro registry
  rw [names_components]
  refine ⟨nodup_names_after calls, fun name => mem_names_after_iff hgiven,
    isHealthy_after_iff hgiven, fun name => ?_, after_filter [] calls, ?_⟩
  · refine mem_components_after_iff.trans ?_
    constructor
    · rintro ⟨last, hlast, hstalled⟩
      rcases at_eq_stalled_iff.mp hstalled with rfl | ⟨deadline, hover, rfl⟩
      · exact .inl hlast
      · exact .inr ⟨deadline, hover, hlast⟩
    · rintro (hlast | ⟨deadline, hover, hlast⟩)
      · exact ⟨_, hlast, at_eq_stalled_iff.mpr (.inl rfl)⟩
      · exact ⟨_, hlast, at_eq_stalled_iff.mpr (.inr ⟨deadline, hover, rfl⟩)⟩
  · intro hunhealthy later hle more hunreported
    have hlater : registry.isHealthy later = false :=
      Bool.eq_false_iff.mpr fun hhealthy =>
        Bool.false_ne_true (hunhealthy.symm.trans (isHealthy_mono hle hhealthy))
    exact isHealthy_after_of_unreported hlater hunreported

/-- A component is registered twice and reports through its first handle. The report of another one
counts up to instant 70: the service is healthy before, and not from there on, even if that one
is registered again. -/
theorem live_iff_reports_fresh_of_two_handles :
    let calls : List TimedHealthCall :=
      [(0, .register "a" 100), (0, .register "b" 50), (10, .register "a" 20),
        (12, .reportHealthy ⟨"a", 100⟩), (20, .reportHealthy ⟨"b", 50⟩), (21, .getStatus)]
    ThroughHandles calls ∧ (after [] calls).isHealthy 69 = true ∧
      names ((after [] calls).components 70) = ["a", "b"] ∧
      ("b", .stalled) ∈ (after [] calls).components 70 ∧
      ∀ later ≥ 70, ((after [] calls).after [(80, .register "b" 50)]).isHealthy later = false := by
  intro calls
  have hgiven : ThroughHandles calls := by decide
  obtain ⟨-, -, -, hstalled, -, hstays⟩ := live_iff_reports_fresh hgiven 70
  refine ⟨hgiven, by decide, rfl, (hstalled "b").mpr (.inr ⟨70, Nat.le_refl _, rfl⟩),
    fun later hle => hstays (by decide) later hle _ (by decide)⟩

/-- A component that has reported itself that it is stalled is shown as stalled, though no report
of it has run out. And one whose report has run out is shown as starting, once it is registered
again. -/
theorem stalled_without_running_out :
    let calls : List TimedHealthCall :=
      [(0, .register "a" 100), (0, .reportStatus ⟨"a", 100⟩ .stalled), (0, .register "b" 100),
        (0, .reportHealthy ⟨"b", 100⟩), (200, .register "b" 100)]
    let reports := calls.filter fun call => call.2.handle?.isSome
    (after [] calls).components 200 = [("a", .stalled), ("b", .starting)] ∧
      ¬ (∃ deadline ≤ 200, lastReport? reports "a" = some (.healthyUntil deadline)) ∧
      (∃ deadline ≤ 200, lastReport? reports "b" = some (.healthyUntil deadline)) ∧
      ¬ ∀ name, (name, .stalled) ∈ (after [] calls).components 200 ↔
        ∃ deadline ≤ 200, lastReport? reports name = some (.healthyUntil deadline) := by
  intro calls reports
  have hshown : (after [] calls).components 200 = [("a", .stalled), ("b", .starting)] := rfl
  have hlast : lastReport? reports "a" = some .stalled := rfl
  have hnone : ¬ ∃ deadline ≤ 200, lastReport? reports "a" = some (.healthyUntil deadline) := by
    rintro ⟨deadline, -, hhealthy⟩
    cases hlast.symm.trans hhealthy
  refine ⟨hshown, hnone, ⟨100, by decide, rfl⟩, fun hall => hnone ((hall "a").mp ?_)⟩
  rw [hshown]
  exact List.mem_cons_self

end HealthRegistry

end MarketFeed
