import MarketFeed.Config
import Mathlib.Data.List.Nodup

/-!
# The configurations that are accepted

No rule is broken exactly if prices are looked up only where a store is named, all bounds are
positive, and no two topics are the same. So a configuration is refused for no other reason, and
no pair of topics escapes the comparison.
-/

namespace MarketFeed.Config

/-- Prices are looked up only where a store is named, the bounds are positive, and the topics
differ from each other. -/
structure Sound (c : Config) : Prop where
  store : c.backfillEnabled = true → c.backfillUrl ≠ none
  guardTtl : c.guardTtlSeconds ≠ 0
  guardMaxEntries : c.guardMaxEntries ≠ 0
  queueSize : c.queueSize ≠ 0
  sweep : c.sweepSeconds ≠ 0
  shutdown : c.shutdownSeconds ≠ 0
  inputOutput : c.inputTopic ≠ c.outputTopic
  inputDeadLetter : c.inputTopic ≠ c.deadLetterTopic
  outputDeadLetter : c.outputTopic ≠ c.deadLetterTopic

/-- No two topics are reported as shared exactly if no topic occurs twice. -/
theorem sharedTopic?_eq_none {topics : List (String × String)} :
    sharedTopic? topics = none ↔ (topics.map Prod.snd).Nodup := by
  induction topics with
  | nil => simp [sharedTopic?]
  | cons entry rest ih =>
    obtain ⟨name, topic⟩ := entry
    rw [sharedTopic?, List.map_cons, List.nodup_cons, ← ih]
    cases hfind : rest.find? fun other => other.2 = topic with
    | none =>
      have hnew : topic ∉ rest.map Prod.snd := by
        intro hmem
        obtain ⟨other, hother, htopic⟩ := List.mem_map.mp hmem
        simpa [htopic] using List.find?_eq_none.mp hfind other hother
      simp [hnew]
    | some other =>
      have hold : topic ∈ rest.map Prod.snd := by
        obtain rfl : other.2 = topic := by simpa using List.find?_some hfind
        exact List.mem_map_of_mem (List.mem_of_find?_eq_some hfind)
      simp [hold]

/-- A configuration breaks no rule exactly if it is sound. -/
theorem breach?_eq_none_iff (c : Config) : c.breach? = none ↔ c.Sound := by
  have hbounds : (c.bounds.find? fun bound => bound.2 = 0) = none ↔
      c.guardTtlSeconds ≠ 0 ∧ c.guardMaxEntries ≠ 0 ∧ c.queueSize ≠ 0 ∧ c.sweepSeconds ≠ 0 ∧
        c.shutdownSeconds ≠ 0 := by
    rw [List.find?_eq_none]
    simp [bounds]
  have htopics : sharedTopic? c.topics = none ↔
      c.inputTopic ≠ c.outputTopic ∧ c.inputTopic ≠ c.deadLetterTopic ∧
        c.outputTopic ≠ c.deadLetterTopic := by
    rw [sharedTopic?_eq_none]
    simp [topics, and_assoc]
  have hstore : (c.backfillEnabled && c.backfillUrl.isNone) = false ↔
      (c.backfillEnabled = true → c.backfillUrl ≠ none) := by
    cases c.backfillEnabled <;> cases c.backfillUrl <;> simp
  constructor
  · intro h
    unfold breach? at h
    split at h
    · cases h
    · rename_i hnamed
      split at h
      · cases h
      · rename_i hfind
        obtain ⟨httl, hentries, hqueue, hsweep, hshutdown⟩ := hbounds.mp hfind
        obtain ⟨hoi, hdi, hdo⟩ := htopics.mp h
        exact ⟨hstore.mp (Bool.eq_false_iff.mpr hnamed), httl, hentries, hqueue, hsweep, hshutdown,
          hoi, hdi, hdo⟩
  · intro h
    have hnamed := hstore.mpr h.store
    have hfind := hbounds.mpr
      ⟨h.guardTtl, h.guardMaxEntries, h.queueSize, h.sweep, h.shutdown⟩
    have hdiffer := htopics.mpr ⟨h.inputOutput, h.inputDeadLetter, h.outputDeadLetter⟩
    simp [breach?, hnamed, hfind, hdiffer]

end MarketFeed.Config
