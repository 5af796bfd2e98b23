import MarketFeed.Number.Word
import MarketFeed.Url.Host

/-!
# Addresses to listen at

An address is a host and a number of 16 bits with a colon between them; the host may hold
colons itself. A machine listens only at addresses of its own: those that lead back to it, or
all at once.
-/

namespace MarketFeed

/-- Why a text is no address to listen at. -/
inductive AddressError
  | noColon
  | badNumber
  | elsewhere
  deriving DecidableEq, Repr

/-- The message about a text that is no address to listen at. -/
def AddressError.message : AddressError → String
  | noColon => "invalid socket address"
  | badNumber => "invalid port value"
  | elsewhere => "Cannot assign requested address (os error 99)"

/-- Split a text at its last colon. -/
def splitAtLastColon? (s : List Char) : Option (List Char × List Char) :=
  match s.reverse.span (· ≠ ':') with
  | (_, []) => none
  | (after, _ :: before) => some (before.reverse, after.reverse)

/-- Read an address: its host and its number. -/
def readAddress (s : String) : Except AddressError (String × UInt16) :=
  match splitAtLastColon? s.toList with
  | none => .error .noColon
  | some (host, number) =>
    match Number.readUInt16? (String.ofList number) with
    | none => .error .badNumber
    | some n => .ok (String.ofList host, n)

/-- An address in brackets without them. -/
def withoutBrackets (s : List Char) : List Char :=
  if s.head? = some '[' && s.getLast? = some ']' then s.tail.dropLast else s

/-- The host is the address of another machine. Names are not looked up, so none is. -/
def isElsewhere (host : String) : Bool :=
  match Host.readByteQuad? host.toList with
  | some [high, low] => (high, low) ≠ (0, 0) && high / 256 ≠ 127
  | _ =>
    match Host.readLongAddress? (withoutBrackets host.toList) with
    | some [0, 0, 0, 0, 0, 0, 0, last] => 1 < last
    | some _ => true
    | none => false

/-- Read an address that a machine can listen at. -/
def readOwnAddress (s : String) : Except AddressError (String × UInt16) := do
  let (host, number) ← readAddress s
  if isElsewhere host then throw .elsewhere else pure (host, number)

end MarketFeed
