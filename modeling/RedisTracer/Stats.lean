import RedisTracer.Resp
import RedisTracer.Common
import RedisTracer.Lib.GroupFold

/-!
# Statistics

`aya-test/src/stats.rs` and the batch step of `aya-test/src/reader.rs`. The latency histogram is the
`hdrhistogram` crate's (`HdrHistogram`). The two keyed stores are folds by key: `CommandStats` by
label, `ClientStats` by address.
-/

namespace RedisTracer

open GroupFold

/-- What the collector uses of `hdrhistogram::Histogram<u64>`; a failed `record` changes nothing. -/
class HdrHistogram (H : Type) where
  newWithBounds (low high : UInt64) (sigfig : UInt8) : 1 ≤ low ∧ 2 * low ≤ high ∧ sigfig ≤ 5 → H
  record : H → UInt64 → Option H
  len : H → UInt64
  high : H → UInt64

/-- `record` fails only above the upper bound, and adds one sample. -/
class LawfulHdrHistogram (H : Type) [HdrHistogram H] : Prop where
  len_new : ∀ low high sigfig h, HdrHistogram.len (HdrHistogram.newWithBounds (H := H) low high sigfig h) = 0
  high_new : ∀ low high sigfig h,
    HdrHistogram.high (HdrHistogram.newWithBounds (H := H) low high sigfig h) = high
  record_ok : ∀ (hist : H) v, v ≤ HdrHistogram.high hist → ∃ hist', HdrHistogram.record hist v = some hist' ∧
    HdrHistogram.high hist' = HdrHistogram.high hist ∧
    ((HdrHistogram.len hist).toNat + 1 < 2 ^ 64 →
      (HdrHistogram.len hist').toNat = (HdrHistogram.len hist).toNat + 1)

def saturatingSub (a b : UInt64) : UInt64 := if a < b then 0 else a - b

/-- What the latency panel is printed from. -/
structure LatencyPanel (H : Type) where
  req : UInt64
  delta : UInt64
  deltaBytes : UInt64
  intervalSecs : UInt64
  histogram : H

structure LatencyStats (H : Type) where
  histogram : H
  total : UInt64
  totalBytes : UInt64
  prevTotal : UInt64
  prevBytes : UInt64

namespace LatencyStats

variable {H : Type} [HdrHistogram H]

def new : LatencyStats H where
  histogram := HdrHistogram.newWithBounds 1 10_000_000_000 3 (by decide)
  total := 0
  totalBytes := 0
  prevTotal := 0
  prevBytes := 0

def record (s : LatencyStats H) (latencyNs bytes : UInt64) : LatencyStats H :=
  { s with
    histogram := (HdrHistogram.record s.histogram latencyNs).getD s.histogram
    total := s.total + 1
    totalBytes := s.totalBytes + bytes }

/-- The printed panel, when there is one, and the store with the totals remembered. -/
def report (s : LatencyStats H) (intervalSecs : UInt64) : Option (LatencyPanel H) × LatencyStats H :=
  if s.total == 0 then (none, s) else
    let delta := saturatingSub s.total s.prevTotal
    let deltaBytes := saturatingSub s.totalBytes s.prevBytes
    (some ⟨s.total, delta, deltaBytes, intervalSecs, s.histogram⟩,
      { s with prevTotal := s.total, prevBytes := s.totalBytes })

end LatencyStats

/-- `none` is a panic: the cut is inside a character. -/
def truncateCmd (name : String) (max : Nat) : Option String :=
  if name.utf8ByteSize ≤ max then some name
  else if String.Pos.Raw.isValid name ⟨max⟩ then some (String.Pos.Raw.extract name 0 ⟨max⟩) else none

structure CommandStats (H : Type) where
  commands : AList fun _ : String => LatencyStats H

namespace CommandStats

variable {H : Type} [HdrHistogram H]

def new : CommandStats H := ⟨∅⟩

def record (cs : CommandStats H) (cmdName : String) (latencyNs bytes : UInt64) : CommandStats H :=
  match cs.commands.lookup cmdName with
  | some stats => ⟨cs.commands.insert cmdName (stats.record latencyNs bytes)⟩
  | none =>
    let s := LatencyStats.new
    ⟨cs.commands.insert cmdName (s.record latencyNs bytes)⟩

/-- The names and totals of the printed rows, in order; `none` is a panic. -/
def report (cs : CommandStats H) : Option (List (String × UInt64)) :=
  let entries := cs.commands.entries.filter fun e => e.2.total > 0
  let entries := entries.mergeSort fun a b => b.2.total ≤ a.2.total
  entries.mapM fun e => (truncateCmd e.1 14).map fun name => (name, e.2.total)

end CommandStats

structure ClientInfo where
  count : UInt64
  totalBytes : UInt64
deriving DecidableEq, Repr

def ipv4Str (ip : UInt32) : String :=
  s!"{(ip >>> 24) &&& 0xFF}.{(ip >>> 16) &&& 0xFF}.{(ip >>> 8) &&& 0xFF}.{ip &&& 0xFF}"

structure ClientStats where
  clients : AList fun _ : UInt32 => ClientInfo

namespace ClientStats

def new : ClientStats := ⟨∅⟩

def record (cl : ClientStats) (ip : UInt32) (bytes : UInt64) : ClientStats :=
  let entry := (cl.clients.lookup ip).getD ⟨0, 0⟩
  ⟨cl.clients.insert ip ⟨entry.count + 1, entry.totalBytes + bytes⟩⟩

/-- The address, requests and bytes of the printed rows, in order, and the sum the shares are of;
`none` when nothing is printed. -/
def report (cl : ClientStats) : Option (List (String × UInt64 × UInt64) × UInt64) :=
  if cl.clients.entries.isEmpty then none else
    let entries := cl.clients.entries.mergeSort fun a b => b.2.count ≤ a.2.count
    let top := entries.take 10
    let total := (entries.map fun e => e.2.count).sum
    some (top.map fun e => (ipv4Str e.1, e.2.count, e.2.totalBytes), total)

end ClientStats

/-! ### The reader -/

structure Stores (H : Type) where
  stats : LatencyStats H
  cmdStats : CommandStats H
  clientStats : ClientStats

variable {H : Type} [HdrHistogram H]

def Stores.new : Stores H := ⟨.new, .new, .new⟩

def processEvent (dec : RespDecoder) (up : UpperTable) (st : Stores H) (ev : LatencyEvent) : Stores H :=
  let cmd := classifyCommand dec up ev.reqData
  { stats := st.stats.record ev.latencyNs ev.bytes.toUInt64
    cmdStats := st.cmdStats.record cmd.asRef ev.latencyNs ev.bytes.toUInt64
    clientStats :=
      if ev.clientIp != 0 then st.clientStats.record ev.clientIp ev.bytes.toUInt64 else st.clientStats }

def processBatch (dec : RespDecoder) (up : UpperTable) (st : Stores H) (batch : List LatencyEvent) :
    Stores H :=
  if batch.isEmpty then st else batch.foldl (processEvent dec up) st

def processBatches (dec : RespDecoder) (up : UpperTable) (batches : List (List LatencyEvent)) : Stores H :=
  batches.foldl (processBatch dec up) .new

end RedisTracer
