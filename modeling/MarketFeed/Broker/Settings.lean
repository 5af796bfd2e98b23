import MarketFeed.Config

/-!
# The settings of the broker's clients

The producer and the consumer are set up with texts under the names their client library
gives them. Both share how the brokers are reached. The consumer stores no offset by itself,
so that only offsets of finished messages are ever committed.
-/

namespace MarketFeed

/-- The settings of a client, by name. -/
abbrev ClientSettings := List (String × String)

/-- The settings of every client. -/
def BrokerConfig.clientSettings (c : BrokerConfig) : ClientSettings :=
  [("bootstrap.servers", c.hosts), ("statistics.interval.ms", "10000")] ++
    if c.tls then
      [("security.protocol", "ssl"), ("enable.ssl.certificate.verification", "false")]
    else []

/-- The size of the producer's queue in kibibytes, if that is a number of 32 bits. The product is
checked; a build that does not check its arithmetic would let it wrap. -/
def BrokerConfig.queueKibibytes? (c : BrokerConfig) : Option UInt32 :=
  let kibibytes := c.queueMebibytes.toNat * 1024
  if kibibytes < UInt32.size then some (.ofNat kibibytes) else none

/-- The settings of a producer with a queue of so many kibibytes. -/
def BrokerConfig.producerSettings (c : BrokerConfig) (kibibytes : UInt32) : ClientSettings :=
  c.clientSettings ++
    [("linger.ms", Number.natText c.lingerMillis.toNat),
     ("message.timeout.ms", Number.natText c.messageTimeoutMillis.toNat),
     ("compression.codec", c.compression),
     ("queue.buffering.max.kbytes", Number.natText kibibytes.toNat),
     ("queue.buffering.max.messages", Number.natText c.queueMessages.toNat)]

/-- The settings of the consumer. -/
def Config.consumerSettings (c : Config) : ClientSettings :=
  c.broker.clientSettings ++
    [("group.id", c.group), ("auto.offset.reset", c.offsetReset),
     ("enable.auto.commit", "true"),
     ("auto.commit.interval.ms", Number.natText c.autoCommitMillis.toNat),
     ("enable.auto.offset.store", "false")]

end MarketFeed
