import MarketFeed.Number.Digits

/-!
# Errors of the message broker

A broker error is a code with a description, met while doing one of a few things. Its text
names what was being done, and its cause, if it has one, is the code.
-/

namespace MarketFeed

/-- The codes. -/
inductive BrokerCode
  | fail
  | brokerTransportFailure
  | messageTimedOut
  | operationTimedOut
  | queueFull
  | state
  | authentication
  | fatal
  | allBrokersDown
  | noOffset
  | partitionEof
  | offsetOutOfRange
  | unknownTopicOrPartition
  /-- Any other code, with what it means. -/
  | other (name description : String)
  deriving DecidableEq, Repr

namespace BrokerCode

/-- The codes that are told apart by name. -/
def all : List BrokerCode :=
  [fail, brokerTransportFailure, messageTimedOut, operationTimedOut, queueFull, state,
   authentication, fatal, allBrokersDown, noOffset, partitionEof, offsetOutOfRange,
   unknownTopicOrPartition]

/-- The name of a code. -/
def name : BrokerCode → String
  | fail => "Fail"
  | brokerTransportFailure => "BrokerTransportFailure"
  | messageTimedOut => "MessageTimedOut"
  | operationTimedOut => "OperationTimedOut"
  | queueFull => "QueueFull"
  | state => "State"
  | authentication => "Authentication"
  | fatal => "Fatal"
  | allBrokersDown => "AllBrokersDown"
  | noOffset => "NoOffset"
  | partitionEof => "PartitionEOF"
  | offsetOutOfRange => "OffsetOutOfRange"
  | unknownTopicOrPartition => "UnknownTopicOrPartition"
  | other name _ => name

/-- What a code means. -/
def description : BrokerCode → String
  | fail => "Local: Communication failure with broker"
  | brokerTransportFailure => "Local: Broker transport failure"
  | messageTimedOut => "Local: Message timed out"
  | operationTimedOut => "Local: Timed out"
  | queueFull => "Local: Queue full"
  | state => "Local: Erroneous state"
  | authentication => "Local: Authentication failure"
  | fatal => "Local: Fatal error"
  | allBrokersDown => "Local: All broker connections are down"
  | noOffset => "Local: No offset stored"
  | partitionEof => "Broker: No more messages"
  | offsetOutOfRange => "Broker: Offset out of range"
  | unknownTopicOrPartition => "Broker: Unknown topic or partition"
  | other _ description => description

/-- The text of a code: its name and what it means. -/
def text (code : BrokerCode) : String := code.name ++ " (" ++ code.description ++ ")"

/-- The code a name names. -/
def ofName? (name : String) : Option BrokerCode := all.find? fun code => code.name = name

end BrokerCode

/-- The errors, by what was being done. -/
inductive BrokerError
  | messageConsumption (code : BrokerCode)
  | messageConsumptionFatal (code : BrokerCode)
  | messageProduction (code : BrokerCode)
  | metadataFetch (code : BrokerCode)
  | storeOffset (code : BrokerCode)
  | consumerCommit (code : BrokerCode)
  | flush (code : BrokerCode)
  | global (code : BrokerCode)
  | clientCreation (reason : String)
  | subscription (reason : String)
  | partitionEof (partition : Int32)
  | noMessageReceived
  | canceled
  /-- Any other error, with its text and the code behind it. -/
  | other (text : String) (code : Option BrokerCode)
  deriving DecidableEq, Repr

namespace BrokerError

/-- The text of an error. -/
def message : BrokerError → String
  | messageConsumption code => "Message consumption error: " ++ code.text
  | messageConsumptionFatal code => "(Fatal) Message consumption error: " ++ code.text
  | messageProduction code => "Message production error: " ++ code.text
  | metadataFetch code => "Meta data fetch error: " ++ code.text
  | storeOffset code => "Store offset error: " ++ code.text
  | consumerCommit code => "Consumer commit error: " ++ code.text
  | flush code => "Flush error: " ++ code.text
  | global code => "Global error: " ++ code.text
  | clientCreation reason => "Client creation error: " ++ reason
  | subscription reason => "Subscription error: " ++ reason
  | partitionEof partition => "Partition EOF: " ++ Number.intText partition.toInt
  | noMessageReceived => "No message received within the given poll interval"
  | canceled => "KafkaError (Client dropped)"
  | other text _ => text

/-- The code behind an error. -/
def code? : BrokerError → Option BrokerCode
  | messageConsumption code | messageConsumptionFatal code | messageProduction code
  | metadataFetch code | storeOffset code | consumerCommit code | flush code
  | global code => some code
  | clientCreation _ | subscription _ | partitionEof _ | noMessageReceived | canceled => none
  | other _ code => code

/-- The texts of an error and of the code behind it. -/
def chain (e : BrokerError) : List String := e.message :: e.code?.toList.map BrokerCode.text

end BrokerError

end MarketFeed
