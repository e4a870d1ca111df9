import RedisTracer.Common
import RedisTracer.Lib.BoundedMap

/-!
# The eBPF probes

`aya-test-ebpf/src/main.rs`: the fentry/fexit hooks on `tcp_recvmsg` and `tcp_sendmsg`, the filter on
`TARGET_PID`, and the CPU sampler. A probe is a function of what its run reads from the machine
(`ProbeCtx`) and of the BPF maps (`Maps`). The arguments of a `RingBuf::output` call are part of the
result of the probe that makes it; the rings themselves are modelled with their readers.
-/

namespace RedisTracer

/-! ### Memory and byte order -/

/-- An address space as a probe sees it; `none` faults. -/
abbrev Mem := UInt64 → Option UInt8

/-- The `n` bytes at `addr`, or `none` when one of them faults (the helper returns an error). -/
def Mem.read (mem : Mem) (addr : UInt64) (n : Nat) : Option (Vector UInt8 n) :=
  if ∀ i : Fin n, (mem (addr + UInt64.ofNat i)).isSome then
    some (Vector.ofFn fun i => (mem (addr + UInt64.ofNat i)).getD 0)
  else none

/-- The destination buffer after `bpf_probe_read_*`: the helpers clear it when they fail. -/
def bpfProbeRead (mem : Mem) (addr : UInt64) (n : Nat) : Vector UInt8 n :=
  (mem.read addr n).getD (Vector.replicate n 0)

/-- The number a little-endian machine reads from `bs`. -/
def leNat (bs : List UInt8) : Nat := bs.foldr (fun b acc => b.toNat + 256 * acc) 0

def leBytes (n x : Nat) : List UInt8 := (List.range n).map fun i => UInt8.ofNat (x / 256 ^ i)

def u32FromBe (x : UInt32) : UInt32 := UInt32.ofNat (leNat (leBytes 4 x.toNat).reverse)

def u16FromBe (x : UInt16) : UInt16 := UInt16.ofNat (leNat (leBytes 2 x.toNat).reverse)

/-! ### Maps -/

structure ReqCtx where
  startNs : UInt64
  iovBase : UInt64
  clientPacked : UInt64
  reqData : Vector UInt8 32
deriving DecidableEq, Repr

/-- The maps of the program that the latency probes and the sampler read, on `ncpu` CPUs. -/
structure Maps (ncpu : Nat) where
  reqCtx : BoundedMap UInt32 ReqCtx 10240
  targetPid : Vector UInt32 1
  flamegraphOn : BoundedMap UInt32 UInt32 1
  batchCnt : Fin ncpu → Vector UInt32 1

def Maps.init (ncpu : Nat) (target : UInt32) : Maps ncpu where
  reqCtx := .empty
  targetPid := #v[target]
  flamegraphOn := .empty
  batchCnt _ := #v[0]

def batchSize : UInt32 := 16
def bpfRbNoWakeup : UInt64 := 1
def bpfRbForceWakeup : UInt64 := 2

/-! ### Contexts -/

/-- What one run of a tracing probe can read of the machine. -/
structure ProbeCtx (ncpu : Nat) where
  /-- `bpf_get_current_pid_tgid`: the kernel task id in the low half, the process id in the high. -/
  pidTgid : UInt64
  ktimeNs : UInt64
  cpu : Fin ncpu
  arg : Nat → UInt64
  /-- the return slot of the traced function, on fexit -/
  ret : Option UInt64
  kernelMem : Mem
  userMem : Mem

variable {ncpu : Nat}

namespace ProbeCtx

def pid (ctx : ProbeCtx ncpu) : UInt32 := ctx.pidTgid.toUInt32

def tgid (ctx : ProbeCtx ncpu) : UInt32 := (ctx.pidTgid >>> 32).toUInt32

def sock (ctx : ProbeCtx ncpu) : UInt64 := ctx.arg 0

end ProbeCtx

abbrev ProbeResult := Except Int64 UInt32

def isTargetPid (m : Maps ncpu) (pid : UInt32) : Bool :=
  match m.targetPid[0]? with
  | some target => if target != 0 then pid == target else true
  | none => true

/-! ### fentry: `tcp_recvmsg` -/

/-- `client_packed`: address and port of the socket in argument 0. -/
def clientPacked (ctx : ProbeCtx ncpu) : UInt64 :=
  let skPtr := ctx.arg 0
  if skPtr != 0 then
    let ip := UInt32.ofNat (leNat (bpfProbeRead ctx.kernelMem (skPtr + 4) 4).toList)
    let port := UInt16.ofNat (leNat (bpfProbeRead ctx.kernelMem (skPtr + 12) 2).toList)
    (u32FromBe ip).toUInt64 <<< 16 ||| (u16FromBe port).toUInt64
  else 0

/-- `iov_base`: the user buffer of the message in argument 1, `0` when it cannot be read. -/
def iovBase (ctx : ProbeCtx ncpu) : UInt64 :=
  let msg := ctx.arg 1
  if msg != 0 then
    match ctx.kernelMem.read (msg + 32) 8 with
    | some bytes => UInt64.ofNat (leNat bytes.toList)
    | none => 0
  else 0

def newReqCtx (ctx : ProbeCtx ncpu) : ReqCtx where
  startNs := ctx.ktimeNs
  iovBase := iovBase ctx
  clientPacked := clientPacked ctx
  reqData := Vector.replicate 32 0

def tryOnRecvmsg (ctx : ProbeCtx ncpu) (m : Maps ncpu) : ProbeResult × Maps ncpu :=
  if !isTargetPid m ctx.pid then (.ok 0, m) else
    let tid := ctx.tgid
    (.ok 0, { m with reqCtx := m.reqCtx.insert tid (newReqCtx ctx) })

/-! ### fexit: `tcp_recvmsg` -/

def tryOnRecvmsgRet (ctx : ProbeCtx ncpu) (m : Maps ncpu) : ProbeResult × Maps ncpu :=
  if !isTargetPid m ctx.pid then (.ok 0, m) else
    let tid := ctx.tgid
    match m.reqCtx.get tid with
    | none => (.ok 0, m)
    | some c =>
      if c.iovBase == 0 then (.ok 0, m) else
        let data := bpfProbeRead ctx.userMem c.iovBase 32
        (.ok 0, { m with
          reqCtx := m.reqCtx.modify tid fun c => { c with reqData := data, iovBase := 0 } })

/-! ### fexit: `tcp_sendmsg` -/

structure Output where
  event : LatencyEvent
  flags : UInt64
deriving DecidableEq, Repr

/-- `ctx.ret::<i64>().unwrap_or(0)` -/
def retval (ctx : ProbeCtx ncpu) : Int64 := (ctx.ret.map UInt64.toInt64).getD 0

def latencyEvent (ctx : ProbeCtx ncpu) (v : ReqCtx) : LatencyEvent where
  pid := ctx.pid
  tid := ctx.tgid
  latencyNs := ctx.ktimeNs - v.startNs
  bytes := if retval ctx > 0 then (retval ctx).toUInt64.toUInt32 else 0
  clientIp := (v.clientPacked >>> 16).toUInt32
  clientPort := (v.clientPacked &&& 0xFFFF).toUInt16
  command := 0
  isError := if retval ctx < 0 then 1 else 0
  reqData := v.reqData

/-- The batched wake-up: the next value of `BATCH_CNT` and the flags of the output. -/
def nextBatch (cur : UInt32) : UInt32 × UInt64 :=
  if cur + 1 ≥ batchSize then (0, bpfRbForceWakeup) else (cur + 1, bpfRbNoWakeup)

/-- The result, the maps, and the `LATENCY_RINGBUF.output` call, when the run makes one. -/
def tryOnSendmsg (ctx : ProbeCtx ncpu) (m : Maps ncpu) :
    ProbeResult × Maps ncpu × Option Output :=
  if !isTargetPid m ctx.pid then (.ok 0, m, none) else
    let tid := ctx.tgid
    match m.reqCtx.get tid with
    | none => (.ok 0, m, none)
    | some v =>
      let m := { m with reqCtx := m.reqCtx.remove tid }
      let latency := ctx.ktimeNs - v.startNs
      if latency > 10_000_000_000 then (.ok 0, m, none) else
        match (m.batchCnt ctx.cpu)[0]? with
        | none => (.ok 0, m, none)
        | some cur =>
          let (cnt, flags) := nextBatch cur
          let m := { m with
            batchCnt := Function.update m.batchCnt ctx.cpu ((m.batchCnt ctx.cpu).set 0 cnt) }
          (.ok 0, m, some ⟨latencyEvent ctx v, flags⟩)

/-! ### perf_event: CPU stack sampling -/

/-- What one run of the sampler can read: the task, the clock, and `bpf_get_stack` (its return code
and the buffer it leaves) for the kernel stack and, with `BPF_F_USER_STACK`, the user stack. -/
structure SampleCtx (ncpu : Nat) where
  pidTgid : UInt64
  ktimeNs : UInt64
  cpu : Fin ncpu
  getStack : (user : Bool) → Int64 × Vector UInt64 maxStackFrames

def SampleCtx.pid (ctx : SampleCtx ncpu) : UInt32 := ctx.pidTgid.toUInt32

def SampleCtx.tgid (ctx : SampleCtx ncpu) : UInt32 := (ctx.pidTgid >>> 32).toUInt32

def flamegraphEnabled (m : Maps ncpu) : Bool := ((m.flamegraphOn.get 0).map (· != 0)).getD false

/-- `if ret >= 0 { (ret as i32) / 8 } else { -1 }` -/
def stackLen (ret : Int64) : Int32 := if ret ≥ 0 then ret.toInt32 / 8 else -1

/-- The result and the `STACK_RINGBUF.output` call, when the run makes one. -/
def tryCpuSample (ctx : SampleCtx ncpu) (m : Maps ncpu) : ProbeResult × Option StackEvent :=
  let tgid := ctx.tgid
  if !isTargetPid m tgid || !flamegraphEnabled m then (.ok 0, none) else
    let (kret, kips) := ctx.getStack false
    let (uret, uips) := ctx.getStack true
    let event : StackEvent :=
      { pid := ctx.pid, cpu := UInt32.ofNat ctx.cpu, kstackLen := stackLen kret,
        ustackLen := stackLen uret, timestampNs := ctx.ktimeNs, kstackIps := kips, ustackIps := uips }
    if event.kstackLen > 0 || event.ustackLen > 0 then (.ok 0, some event) else (.ok 0, none)

end RedisTracer
