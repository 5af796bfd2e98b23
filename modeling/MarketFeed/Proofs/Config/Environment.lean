import MarketFeed.Proofs.Json.Record
import MarketFeed.Proofs.Number.Word
import MarketFeed.Service.Startup

/-!
# Setting a variable

A variable that is set in front of an environment hides what the environment has for it, and no
other variable sees it. So whatever configuration an environment gives, the setting that one
variable stands for can be given any other value that its text can hold, as long as no rule is
broken by it; and no rule looks at the settings of the brokers.
-/

namespace MarketFeed

open Number

namespace Environment

variable {α : Type} {env : Environment} {name other text : String} {read? : String → Option α}
  {absent : α}

/-- A variable that is set is read from its text. -/
theorem read_cons_self {a : α} (h : read? text = some a) :
    read ((name, text) :: env) name read? absent = pure a := by
  simp [read, value?, h, pure, Except.pure]

/-- Other variables are read as before. -/
theorem read_cons_of_ne (h : name ≠ other) :
    read ((name, text) :: env) other read? absent = env.read other read? absent := by
  simp [read, value?, h]

end Environment

open Environment

/-- With another size of the producer's queue in the environment, the settings of the brokers are
the same but for it. -/
theorem BrokerConfig.read_queueMebibytes {env : Environment} {b : BrokerConfig}
    (h : BrokerConfig.read env = .ok b) (n : UInt32) :
    BrokerConfig.read (("KAFKA_PRODUCER_QUEUE_MIB", natText n.toNat) :: env) =
      .ok { b with queueMebibytes := n } := by
  unfold BrokerConfig.read at h ⊢
  obtain ⟨hosts, hhosts, h⟩ := Json.bind_eq_ok.mp h
  obtain ⟨tls, htls, h⟩ := Json.bind_eq_ok.mp h
  obtain ⟨lingerMillis, hlinger, h⟩ := Json.bind_eq_ok.mp h
  obtain ⟨queueMebibytes, -, h⟩ := Json.bind_eq_ok.mp h
  obtain ⟨queueMessages, hmessages, h⟩ := Json.bind_eq_ok.mp h
  obtain ⟨messageTimeoutMillis, htimeout, h⟩ := Json.bind_eq_ok.mp h
  obtain ⟨compression, hcompression, h⟩ := Json.bind_eq_ok.mp h
  obtain ⟨gracefulShutdownSeconds, hshutdown, h⟩ := Json.bind_eq_ok.mp h
  cases h
  simp (disch := decide) only [read_cons_of_ne, read_cons_self (readUInt32?_natText n), hhosts,
    htls, hlinger, hmessages, htimeout, hcompression, hshutdown]
  rfl

/-- The settings of the brokers are read from the same environment. -/
theorem Config.read_broker {env : Environment} {c : Config} (h : Config.read env = .ok c) :
    BrokerConfig.read env = .ok c.broker := by
  obtain ⟨b, hbroker, -⟩ := Json.bind_eq_ok.mp h
  have hmap : Config.broker <$> Config.read env = (fun _ => b) <$> Config.read env := by
    have hpure : BrokerConfig.read env = pure b := hbroker
    unfold Config.read
    simp only [hpure, pure_bind, map_bind, map_pure]
  rw [h] at hmap
  rw [hbroker]
  exact hmap.symm

/-- With another size of the producer's queue in the environment, the configuration is the same but
for it. -/
theorem Config.read_queueMebibytes {env : Environment} {c : Config} (h : Config.read env = .ok c)
    (n : UInt32) :
    Config.read (("KAFKA_PRODUCER_QUEUE_MIB", natText n.toNat) :: env) =
      .ok { c with broker := { c.broker with queueMebibytes := n } } := by
  have hmap : Config.read (("KAFKA_PRODUCER_QUEUE_MIB", natText n.toNat) :: env) =
      (fun c' : Config => { c' with broker := { c.broker with queueMebibytes := n } }) <$>
        Config.read env := by
    have hbroker : BrokerConfig.read env = pure c.broker := Config.read_broker h
    have hother : BrokerConfig.read (("KAFKA_PRODUCER_QUEUE_MIB", natText n.toNat) :: env) =
        pure { c.broker with queueMebibytes := n } := BrokerConfig.read_queueMebibytes hbroker n
    unfold Config.read
    simp (disch := decide) only [hbroker, hother, read_cons_of_ne, pure_bind, map_bind, map_pure]
  rw [hmap, h]
  rfl

/-- An environment gives a configuration exactly if its variables can be read and no rule is
broken. -/
theorem Config.load_eq_ok_iff {env : Environment} {c : Config} :
    Config.load env = .ok c ↔ Config.read env = .ok c ∧ c.breach? = none := by
  unfold Config.load
  cases Config.read env with
  | error e => simp
  | ok c' =>
    cases hbreach : c'.breach? with
    | some b =>
      simp only [hbreach, Except.ok.injEq, reduceCtorEq, false_iff, not_and]
      rintro rfl
      simp [hbreach]
    | none =>
      simp only [hbreach, Except.ok.injEq, iff_self_and]
      rintro rfl
      exact hbreach

/-- The size of the producer's queue is held to no rule. -/
theorem Config.load_queueMebibytes {env : Environment} {c : Config} (h : Config.load env = .ok c)
    (n : UInt32) :
    Config.load (("KAFKA_PRODUCER_QUEUE_MIB", natText n.toNat) :: env) =
      .ok { c with broker := { c.broker with queueMebibytes := n } } := by
  obtain ⟨hread, hkept⟩ := Config.load_eq_ok_iff.mp h
  exact Config.load_eq_ok_iff.mpr ⟨Config.read_queueMebibytes hread n, hkept⟩

end MarketFeed
