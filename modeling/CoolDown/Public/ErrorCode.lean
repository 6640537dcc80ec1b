import Mathlib.Data.List.Nodup
import Mathlib.Data.Nat.Notation

/-!
# Error codes

`retcode_t`, the value every fallible function of client and tracker returns, and
the exceptions those functions may throw instead. `ERROR_NET_CLIENT_BUSY` is the
same number as `ERROR_NET_CONNECTION_LIMIT` and has no constructor of its own.

## What is proved

* `Retcode.value_injective`: no two codes share a number, so that the number in a reply tells the code.
-/

namespace CoolDown

/-- The bytes of a file, a message or a stream. -/
abbrev Bytes := List UInt8

/-- `retcode_t`. -/
inductive Retcode where
  | errorOk
  | errorUnknown
  | errorClientAlreadyExists
  | errorClientNotFound
  | errorPackSendHeaderLength
  | errorPackProtoSerialize
  | errorPackSendPayload
  | errorPackRecvHeaderLength
  | errorPackProtoParse
  | errorPackRecvPayload
  | errorDbInit
  | errorDbSelect
  | errorDbInsert
  | errorDbUpdate
  | errorDbInitTableError
  | errorNetSendMessage
  | errorNetSendData
  | errorNetRecvMessage
  | errorNetBindPort
  | errorNetConnect
  | errorNetNotConnected
  | errorNetGracefulShutdown
  | errorNetConnectionLimit
  | errorProtoParseError
  | errorProtoTypeError
  | errorProtoSerializeError
  | errorVerifyInvalidRange
  | errorFileNotExists
  | errorFileExists
  | errorFileCannotCreate
  | errorFileParseError
  | errorFileNotFound
  | errorFileNoOwnerOnline
  | errorJobExists
  | errorJobNotExists
  | errorJobAlreadyStarted
  | errorPeerFileNotFound
  deriving DecidableEq, Repr

/-- The number of an error code, as it is sent in a reply. -/
def Retcode.value : Retcode → Int32
  | errorOk => 0
  | errorUnknown => 1
  | errorClientAlreadyExists => 2
  | errorClientNotFound => 3
  | errorPackSendHeaderLength => 10000
  | errorPackProtoSerialize => 10001
  | errorPackSendPayload => 10002
  | errorPackRecvHeaderLength => 10010
  | errorPackProtoParse => 10011
  | errorPackRecvPayload => 10012
  | errorDbInit => 20000
  | errorDbSelect => 20001
  | errorDbInsert => 20002
  | errorDbUpdate => 20003
  | errorDbInitTableError => 20010
  | errorNetSendMessage => 30000
  | errorNetSendData => 30001
  | errorNetRecvMessage => 30002
  | errorNetBindPort => 30003
  | errorNetConnect => 30004
  | errorNetNotConnected => 30005
  | errorNetGracefulShutdown => 30006
  | errorNetConnectionLimit => 30007
  | errorProtoParseError => 40001
  | errorProtoTypeError => 40002
  | errorProtoSerializeError => 40003
  | errorVerifyInvalidRange => 50001
  | errorFileNotExists => 60001
  | errorFileExists => 60002
  | errorFileCannotCreate => 60003
  | errorFileParseError => 60004
  | errorFileNotFound => 60005
  | errorFileNoOwnerOnline => 60006
  | errorJobExists => 70001
  | errorJobNotExists => 70002
  | errorJobAlreadyStarted => 70003
  | errorPeerFileNotFound => 80001

/-- Every code, in the order of the numbers. -/
def Retcode.all : List Retcode :=
  [errorOk, errorUnknown, errorClientAlreadyExists, errorClientNotFound, errorPackSendHeaderLength,
    errorPackProtoSerialize, errorPackSendPayload, errorPackRecvHeaderLength, errorPackProtoParse, errorPackRecvPayload,
    errorDbInit, errorDbSelect, errorDbInsert, errorDbUpdate, errorDbInitTableError, errorNetSendMessage,
    errorNetSendData, errorNetRecvMessage, errorNetBindPort, errorNetConnect, errorNetNotConnected,
    errorNetGracefulShutdown, errorNetConnectionLimit, errorProtoParseError, errorProtoTypeError,
    errorProtoSerializeError, errorVerifyInvalidRange, errorFileNotExists, errorFileExists, errorFileCannotCreate,
    errorFileParseError, errorFileNotFound, errorFileNoOwnerOnline, errorJobExists, errorJobNotExists,
    errorJobAlreadyStarted, errorPeerFileNotFound]

theorem Retcode.mem_all (a : Retcode) : a ∈ all := by
  cases a <;> decide

/-- No two codes share a number. -/
theorem Retcode.value_injective : Function.Injective Retcode.value := by
  have hnodup : (all.map Retcode.value).Nodup := by decide
  intro a b h
  exact List.inj_on_of_nodup_map hnodup a.mem_all b.mem_all h

/-- What a function may throw. -/
inductive Exception where
  /-- A `poco_assert` that does not hold. -/
  | assertion
  /-- A null `SharedPtr` is dereferenced. -/
  | nullPointer
  /-- A file cannot be opened, listed or mapped. -/
  | file
  /-- A buffer of that length cannot be allocated. -/
  | badAlloc
  /-- A timed wait has expired. -/
  | timeout
  /-- An integer is divided by zero, which ends the process. -/
  | divideByZero
  /-- The network, or a thrown `Poco::Exception` with a message. -/
  | runtime
  deriving DecidableEq, Repr

end CoolDown
