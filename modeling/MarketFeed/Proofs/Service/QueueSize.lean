import MarketFeed.Proofs.Config.Environment
import MarketFeed.Rehearsal.Program

/-!
# The size of the producer's queue

The size is set in mebibytes and handed to the producer in kibibytes, both as numbers of 32 bits. As
long as it is below four tebibytes the producer gets what was set. From there on the product has
more than 32 bits: its check fails, and the start is aborted before anything is asked of the broker.
Neither the reader of the variable nor a rule for configurations keeps a size from getting there.
-/

namespace MarketFeed

open Number Rehearsal

/-! ## The product -/

namespace BrokerConfig

variable (c : BrokerConfig)

/-- The checked product, if there is one, is the product. -/
theorem queueKibibytes?_eq_some_iff (kibibytes : UInt32) :
    c.queueKibibytes? = some kibibytes ↔ kibibytes.toNat = c.queueMebibytes.toNat * 1024 := by
  have hword := kibibytes.toNat_lt_size
  simp only [queueKibibytes?, Option.ite_none_right_eq_some, Option.some.injEq]
  constructor
  · rintro ⟨hfits, rfl⟩
    exact UInt32.toNat_ofNat_of_lt hfits
  · intro h
    rw [← h]
    exact ⟨hword, UInt32.ofNat_toNat⟩

/-- The product has no more than 32 bits exactly for sizes below four tebibytes. -/
theorem queueKibibytes?_eq_none_iff :
    c.queueKibibytes? = none ↔ 2 ^ 22 ≤ c.queueMebibytes.toNat := by
  simp only [queueKibibytes?, UInt32.size, ite_eq_right_iff, reduceCtorEq, imp_false]
  omega

/-- The producer is told one size for its queue. -/
theorem queue_mem_producerSettings_iff (kibibytes : UInt32) (text : String) :
    ("queue.buffering.max.kbytes", text) ∈ c.producerSettings kibibytes ↔
      text = natText kibibytes.toNat := by
  cases htls : c.tls <;> simp [producerSettings, clientSettings, htls]

end BrokerConfig

/-! ## What the producer is asked for -/

section Start

variable {c : Config} (wall : Int64) (faults : StartupFaults)

/-- When a service starts, one producer is created, with the settings of its configuration. -/
theorem Rehearsal.Service.producerCreated_of_start {kibibytes : UInt32}
    (h : c.broker.queueKibibytes? = some kibibytes) (settings : ClientSettings) :
    .producerCreated settings ∈ (Service.start c wall faults).2.log ↔
      settings = c.broker.producerSettings kibibytes := by
  have hlog : ∃ more, (Service.start c wall faults).2.log =
      .producerCreated (c.broker.producerSettings kibibytes) :: more ∧
        ∀ settings, .producerCreated settings ∉ more := by
    simp only [Service.start, Config.start, h]
    rcases faults with ⟨_ | _, _ | _, _ | _, _ | _⟩ <;> exact ⟨_, rfl, by simp⟩
  obtain ⟨more, hlog, hother⟩ := hlog
  rw [hlog]
  simp [hother]

/-- Without a size for the producer's queue the start is aborted, with nothing asked of the
broker. -/
theorem Rehearsal.Service.start_of_overflow (h : c.broker.queueKibibytes? = none) :
    Service.start c wall faults = (.error .overflow, Broker.new c.outputTopics) := by
  simp only [Service.start, Config.start, h]
  rfl

end Start

/-- Where an environment gives a configuration with a size below four tebibytes, the one producer
that is created is told the product of that size with 1024 for its queue. With any other size the
start is aborted before a producer is created. Such a size can be set all the same: whatever size is
set in front of the environment, it gives the same configuration with that size. -/
theorem Config.producer_queue_size {env : Environment} {c : Config} (h : Config.load env = .ok c)
    (wall : Int64) (faults : StartupFaults) :
    let mebibytes := c.broker.queueMebibytes.toNat
    (mebibytes < 2 ^ 22 → ∃ settings,
      (∀ created, .producerCreated created ∈ (Service.start c wall faults).2.log ↔
        created = settings) ∧
      ∀ text, ("queue.buffering.max.kbytes", text) ∈ settings ↔
        text = natText (mebibytes * 1024)) ∧
      (2 ^ 22 ≤ mebibytes → Service.start c wall faults =
        (.error .overflow, Broker.new c.outputTopics)) ∧
      ∀ n : UInt32, Config.load (("KAFKA_PRODUCER_QUEUE_MIB", natText n.toNat) :: env) =
        .ok { c with broker := { c.broker with queueMebibytes := n } } := by
  intro mebibytes
  refine ⟨?_, ?_, Config.load_queueMebibytes h⟩
  · intro hbelow
    obtain ⟨kibibytes, hsize⟩ : ∃ kibibytes, c.broker.queueKibibytes? = some kibibytes := by
      rw [← Option.ne_none_iff_exists', Ne, c.broker.queueKibibytes?_eq_none_iff]
      omega
    refine ⟨_, Service.producerCreated_of_start wall faults hsize, ?_⟩
    intro text
    rw [c.broker.queue_mem_producerSettings_iff,
      (c.broker.queueKibibytes?_eq_some_iff kibibytes).mp hsize]
  · intro hbeyond
    exact Service.start_of_overflow wall faults (c.broker.queueKibibytes?_eq_none_iff.mpr hbeyond)

/-- The greatest size that the producer can be told. -/
theorem Config.producer_queue_size_of_greatest :
    let c : Config := { backfillEnabled := false, broker := { queueMebibytes := 4194303 } }
    Config.load [("BACKFILL_ENABLED", "false"), ("KAFKA_PRODUCER_QUEUE_MIB", "4194303")] = .ok c ∧
      ∃ settings, .producerCreated settings ∈ (Service.start c 0 noFaults).2.log ∧
        ("queue.buffering.max.kbytes", "4294966272") ∈ settings := by
  intro c
  have hload : Config.load
      [("BACKFILL_ENABLED", "false"), ("KAFKA_PRODUCER_QUEUE_MIB", "4194303")] = .ok c := by rfl
  obtain ⟨settings, hcreated, htold⟩ :=
    (Config.producer_queue_size hload 0 noFaults).1 (by decide +kernel)
  exact ⟨hload, settings, (hcreated settings).mpr rfl, (htold _).mpr (by decide +kernel)⟩

/-- With a size just beyond four tebibytes, which is accepted, no producer is created. -/
theorem Config.producer_queue_overflow :
    let c : Config := { backfillEnabled := false, broker := { queueMebibytes := 4194305 } }
    Config.load [("BACKFILL_ENABLED", "false"), ("KAFKA_PRODUCER_QUEUE_MIB", "4194305")] = .ok c ∧
      UInt32.size ≤ c.broker.queueMebibytes.toNat * 1024 ∧
      (Service.start c 0 noFaults).1 = .error .overflow ∧
      ∀ settings, .producerCreated settings ∉ (Service.start c 0 noFaults).2.log := by
  intro c
  have hstart := Service.start_of_overflow 0 noFaults (c := c) (by decide +kernel)
  refine ⟨by rfl, by decide +kernel, by rw [hstart], ?_⟩
  rw [hstart]
  nofun

end MarketFeed
