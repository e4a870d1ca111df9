/-!
# Shared data structures

The records that cross the kernel/userspace boundary (`aya-test-common`).
-/

namespace RedisTracer

/-- One request-response latency sample, from the ring buffer to the collector. -/
structure LatencyEvent where
  pid : UInt32
  tid : UInt32
  latencyNs : UInt64
  bytes : UInt32
  clientIp : UInt32
  clientPort : UInt16
  command : UInt8
  isError : UInt8
  reqData : Vector UInt8 32
deriving DecidableEq, Repr

def maxStackFrames : Nat := 20

structure StackEvent where
  pid : UInt32
  cpu : UInt32
  kstackLen : Int32
  ustackLen : Int32
  timestampNs : UInt64
  kstackIps : Vector UInt64 maxStackFrames
  ustackIps : Vector UInt64 maxStackFrames
deriving DecidableEq, Repr

end RedisTracer
