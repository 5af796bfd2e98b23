import MarketFeed.Issue

/-!
# Breaches of the contract

An event that cannot become a tick breaks the contract of its source in one of two ways: its
blob cannot be decoded, or what was decoded does not meet the rules for a field. Each breach
belongs to an error code and to the one issue that says most about it.
-/

namespace MarketFeed

/-- The two ways in which an event can fail. -/
inductive ErrorCode
  /-- It could not be decoded. -/
  | validationError
  /-- It was decoded and breaks a rule. -/
  | contractViolation
  deriving DecidableEq, Repr

/-- The word for an error code. -/
def ErrorCode.word : ErrorCode → String
  | .validationError => "VALIDATION_ERROR"
  | .contractViolation => "CONTRACT_VIOLATION"

/-- The error code a word names. -/
def ErrorCode.ofWord? (word : String) : Option ErrorCode :=
  [ErrorCode.validationError, .contractViolation].find? fun code => code.word = word

/-- Why an event cannot become a tick. -/
inductive ContractError
  | schema (detail : String)
  | violation (issue : Issue) (detail : String)
  deriving DecidableEq, Repr

namespace ContractError

/-- The error code a breach belongs to. -/
def code : ContractError → ErrorCode
  | schema _ => .validationError
  | violation _ _ => .contractViolation

/-- The issue that says most about a breach. -/
def issue : ContractError → Issue
  | schema _ => .schemaValidationFailed
  | violation issue _ => issue

/-- What is wrong, in words. -/
def detail : ContractError → String
  | schema detail => detail
  | violation _ detail => detail

/-- The message about a breach. -/
def message : ContractError → String
  | schema detail => "schema validation failed: " ++ detail
  | violation issue detail => "contract violation (" ++ issue.code ++ "): " ++ detail

end ContractError

end MarketFeed
