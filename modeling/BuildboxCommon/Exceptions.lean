import BuildboxCommon.Shared.Bytes

set_option autoImplicit false

namespace BuildboxCommon

open ByteString

-- The numbers of gRPC. The status of a single blob may carry any other number as well.
abbrev StatusCode := Int

def StatusCode.ok : StatusCode := 0
def StatusCode.internal : StatusCode := 13
def StatusCode.unavailable : StatusCode := 14

structure Status where
  code : StatusCode
  message : Bytes
deriving DecidableEq

def Status.ok (status : Status) : Bool := status.code = StatusCode.ok

-- `GrpcError` and `std::system_error` derive from `std::runtime_error`, the next four from other bases.
inductive Exn where
  | runtimeError (what : Bytes)
  | systemError (errno : Nat) (what : Bytes)
  | grpcError (status : Status)
  | invalidArgument (what : Bytes)
  | logicError (what : Bytes)
  | lengthError
  | outOfRange
  | stackOverflow
  -- The source goes on with undefined behaviour.
  | undefined
deriving DecidableEq

def Exn.isRuntimeError : Exn → Bool
  | .runtimeError _ | .systemError _ _ | .grpcError _ => true
  | .invalidArgument _ | .logicError _ | .lengthError | .outOfRange | .stackOverflow | .undefined => false

-- Texts that the standard library makes up are left out.
def Exn.what : Exn → Bytes
  | .runtimeError what | .systemError _ what | .invalidArgument what | .logicError what => what
  | .grpcError status => text (toString status.code) ++ text ": " ++ status.message
  | .lengthError | .outOfRange | .stackOverflow | .undefined => []

end BuildboxCommon
