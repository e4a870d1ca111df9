import RedisTracer.Stats
import RedisTracer.Classify
import Mathlib

/-!
# The stores account for every event

After any batches the stores are folds over the events (`processBatches_eq`), so `Books` holds: the
totals count the events, each command entry those with its label, each client entry those with its
address.
-/

namespace RedisTracer

open GroupFold RespFormat

variable {H : Type} [HdrHistogram H] {dec : RespDecoder} {up : UpperTable}
  {evs evs' : List LatencyEvent} {st : Stores H}

def labelOf (dec : RespDecoder) (up : UpperTable) (ev : LatencyEvent) : String :=
  (classifyCommand dec up ev.reqData).asRef

def byteSum (evs : List LatencyEvent) : Nat := (evs.map fun ev => ev.bytes.toNat).sum

theorem byteSum_le {evs evs' : List LatencyEvent} (h : evs.Sublist evs') : byteSum evs ≤ byteSum evs' :=
  (h.map _).sum_le_sum fun _ _ => Nat.zero_le _

def LatencyStats.recordEvent (s : LatencyStats H) (ev : LatencyEvent) : LatencyStats H :=
  s.record ev.latencyNs ev.bytes.toUInt64

def CommandStats.recordEvent (dec : RespDecoder) (up : UpperTable) (cs : CommandStats H)
    (ev : LatencyEvent) : CommandStats H :=
  cs.record (labelOf dec up ev) ev.latencyNs ev.bytes.toUInt64

def ClientInfo.countEvent (i : ClientInfo) (ev : LatencyEvent) : ClientInfo :=
  ⟨i.count + 1, i.totalBytes + ev.bytes.toUInt64⟩

/-! ### The stores are folds -/

theorem CommandStats.record_eq (cs : CommandStats H) (c : String) (latencyNs bytes : UInt64) :
    (cs.record c latencyNs bytes).commands =
      cs.commands.insert c (((cs.commands.lookup c).getD .new).record latencyNs bytes) := by
  unfold CommandStats.record
  cases cs.commands.lookup c <;> rfl

theorem processBatch_eq (st : Stores H) (batch : List LatencyEvent) :
    processBatch dec up st batch = batch.foldl (processEvent dec up) st := by
  cases batch <;> rfl

theorem processBatches_eq (batches : List (List LatencyEvent)) :
    processBatches (H := H) dec up batches = batches.flatten.foldl (processEvent dec up) .new := by
  have hfold : ∀ st : Stores H, batches.foldl (processBatch dec up) st =
      batches.flatten.foldl (processEvent dec up) st := by
    induction batches with
    | nil => exact fun _ => rfl
    | cons b bs ih =>
      intro st
      rw [List.foldl_cons, ih, processBatch_eq, List.flatten_cons, List.foldl_append]
  exact hfold .new

theorem stats_foldl (st : Stores H) (evs : List LatencyEvent) :
    (evs.foldl (processEvent dec up) st).stats = evs.foldl LatencyStats.recordEvent st.stats := by
  induction evs generalizing st with
  | nil => rfl
  | cons ev evs ih => exact ih _

theorem cmdStats_foldl (st : Stores H) (evs : List LatencyEvent) :
    (evs.foldl (processEvent dec up) st).cmdStats =
      evs.foldl (CommandStats.recordEvent dec up) st.cmdStats := by
  induction evs generalizing st with
  | nil => rfl
  | cons ev evs ih => exact ih _

theorem CommandStats.commands_foldl (cs : CommandStats H) (evs : List LatencyEvent) :
    (evs.foldl (recordEvent dec up) cs).commands =
      evs.foldl (upsert .new LatencyStats.recordEvent (labelOf dec up)) cs.commands := by
  induction evs generalizing cs with
  | nil => rfl
  | cons ev evs ih =>
    rw [List.foldl_cons, List.foldl_cons, ih]
    exact congrArg (evs.foldl _) (record_eq ..)

theorem clients_foldl (st : Stores H) (evs : List LatencyEvent) :
    (evs.foldl (processEvent dec up) st).clientStats.clients =
      (evs.filter fun ev => ev.clientIp != 0).foldl (upsert ⟨0, 0⟩ .countEvent LatencyEvent.clientIp)
        st.clientStats.clients := by
  induction evs generalizing st with
  | nil => rfl
  | cons ev evs ih =>
    rw [List.foldl_cons, ih, List.filter_cons]
    cases h : ev.clientIp != 0 <;> simp only [processEvent, h] <;> rfl

/-! ### One entry -/

/-- Latencies within the cut-off of the probe, sums below `2 ^ 64`. -/
structure Fits (evs : List LatencyEvent) : Prop where
  latency : ∀ ev ∈ evs, ev.latencyNs ≤ 10_000_000_000
  count : evs.length < 2 ^ 64
  bytes : byteSum evs < 2 ^ 64

theorem Fits.sublist (h : Fits evs) (hs : evs'.Sublist evs) : Fits evs' where
  latency ev hev := h.latency ev (hs.subset hev)
  count := Nat.lt_of_le_of_lt hs.length_le h.count
  bytes := Nat.lt_of_le_of_lt (byteSum_le hs) h.bytes

theorem toNat_add_one {n : UInt64} {k : Nat} (hn : n.toNat = k) (h : k + 1 < 2 ^ 64) :
    (n + 1).toNat = k + 1 := by
  rw [UInt64.toNat_add, hn]
  exact Nat.mod_eq_of_lt h

theorem toNat_counter {k : Nat} (h : k < 2 ^ 64) : (0 + UInt64.ofNat k).toNat = k := by
  rw [UInt64.zero_add]
  exact UInt64.toNat_ofNat_of_lt' h

theorem LatencyStats.total_foldl (s : LatencyStats H) (evs : List LatencyEvent) :
    (evs.foldl recordEvent s).total = s.total + UInt64.ofNat evs.length := by
  rw [counter_foldl LatencyStats.total (fun _ => 1) fun _ _ => rfl, List.map_const', List.sum_replicate,
    smul_eq_mul, Nat.mul_one]

theorem LatencyStats.totalBytes_foldl (s : LatencyStats H) (evs : List LatencyEvent) :
    (evs.foldl recordEvent s).totalBytes = s.totalBytes + UInt64.ofNat (byteSum evs) :=
  counter_foldl LatencyStats.totalBytes (fun ev => ev.bytes.toNat)
    (fun s ev => congrArg (s.totalBytes + ·) (UInt64.ofNat_uInt32ToNat ev.bytes).symm) s evs

theorem ClientInfo.count_foldl (i : ClientInfo) (evs : List LatencyEvent) :
    (evs.foldl countEvent i).count = i.count + UInt64.ofNat evs.length := by
  rw [counter_foldl ClientInfo.count (fun _ => 1) fun _ _ => rfl, List.map_const', List.sum_replicate,
    smul_eq_mul, Nat.mul_one]

theorem ClientInfo.totalBytes_foldl (i : ClientInfo) (evs : List LatencyEvent) :
    (evs.foldl countEvent i).totalBytes = i.totalBytes + UInt64.ofNat (byteSum evs) :=
  counter_foldl ClientInfo.totalBytes (fun ev => ev.bytes.toNat)
    (fun i ev => congrArg (i.totalBytes + ·) (UInt64.ofNat_uInt32ToNat ev.bytes).symm) i evs

structure LatencyStats.Took (s : LatencyStats H) (evs : List LatencyEvent) : Prop where
  total : s.total.toNat = evs.length
  bytes : s.totalBytes.toNat = byteSum evs
  samples : (HdrHistogram.len s.histogram).toNat = evs.length
  high : HdrHistogram.high s.histogram = 10_000_000_000

/-- The cut-off of the probe is the bound of the histogram: no latency is refused. -/
theorem LatencyStats.histogram_foldl [LawfulHdrHistogram H] (h : Fits evs) :
    (HdrHistogram.len (evs.foldl recordEvent (.new : LatencyStats H)).histogram).toNat = evs.length ∧
      HdrHistogram.high (evs.foldl recordEvent (.new : LatencyStats H)).histogram = 10_000_000_000 := by
  induction evs using List.reverseRecOn with
  | nil => exact ⟨congrArg UInt64.toNat (LawfulHdrHistogram.len_new ..), LawfulHdrHistogram.high_new ..⟩
  | append_singleton evs ev ih =>
    obtain ⟨ihlen, ihhigh⟩ := ih (h.sublist (List.sublist_append_left ..))
    have hcount := h.count
    rw [List.length_append, List.length_singleton] at hcount
    rw [List.foldl_append, List.foldl_cons, List.foldl_nil, List.length_append]
    obtain ⟨hist, hrec, hhigh, hlen⟩ := LawfulHdrHistogram.record_ok
      (evs.foldl recordEvent (.new : LatencyStats H)).histogram ev.latencyNs
      (ihhigh ▸ h.latency ev (by simp))
    rw [ihlen] at hlen
    simp only [recordEvent, record, hrec, Option.getD_some]
    exact ⟨hlen hcount, hhigh.trans ihhigh⟩

theorem LatencyStats.took [LawfulHdrHistogram H] (h : Fits evs) :
    (evs.foldl recordEvent (.new : LatencyStats H)).Took evs where
  total := by rw [total_foldl]; exact toNat_counter h.count
  bytes := by rw [totalBytes_foldl]; exact toNat_counter h.bytes
  samples := (histogram_foldl h).1
  high := (histogram_foldl h).2

/-! ### The books -/

structure Books (dec : RespDecoder) (up : UpperTable) (evs : List LatencyEvent) (st : Stores H) :
    Prop where
  total : st.stats.total.toNat = evs.length
  samples : (HdrHistogram.len st.stats.histogram).toNat = evs.length
  bytes : st.stats.totalBytes.toNat = byteSum evs
  commands : ∀ c, (∃ s, st.cmdStats.commands.lookup c = some s) ↔ ∃ ev ∈ evs, labelOf dec up ev = c
  command : ∀ c s, st.cmdStats.commands.lookup c = some s →
    s.total.toNat = (evs.filter fun ev => labelOf dec up ev = c).length ∧
      s.totalBytes.toNat = byteSum (evs.filter fun ev => labelOf dec up ev = c)
  clients : ∀ a, (∃ i, st.clientStats.clients.lookup a = some i) ↔ a ≠ 0 ∧ ∃ ev ∈ evs, ev.clientIp = a
  client : ∀ a i, st.clientStats.clients.lookup a = some i →
    i.count.toNat = (evs.filter fun ev => ev.clientIp = a).length ∧
      i.totalBytes.toNat = byteSum (evs.filter fun ev => ev.clientIp = a)
  totals : (st.cmdStats.commands.entries.map fun e => e.2.total.toNat).sum = st.stats.total.toNat

theorem exists_nonzero_client {a : UInt32} :
    (∃ ev ∈ evs.filter fun ev => ev.clientIp != 0, ev.clientIp = a) ↔
      a ≠ 0 ∧ ∃ ev ∈ evs, ev.clientIp = a := by
  constructor
  · rintro ⟨ev, hev, rfl⟩
    obtain ⟨hev, hne⟩ := List.mem_filter.1 hev
    exact ⟨by simpa using hne, ev, hev, rfl⟩
  · rintro ⟨hne, ev, hev, rfl⟩
    exact ⟨ev, List.mem_filter.2 ⟨hev, by simpa using hne⟩, rfl⟩

theorem ofKey_nonzero_client {a : UInt32} (ha : a ≠ 0) :
    ofKey LatencyEvent.clientIp a (evs.filter fun ev => ev.clientIp != 0) =
      evs.filter fun ev => ev.clientIp = a := by
  rw [ofKey, List.filter_filter]
  refine List.filter_congr fun ev _ => ?_
  by_cases h : ev.clientIp = a <;> simp [h, ha]

theorem books [LawfulHdrHistogram H] (h : Fits evs) :
    Books dec up evs (evs.foldl (processEvent dec up) (.new : Stores H)) := by
  have htook : (evs.foldl (processEvent dec up) (.new : Stores H)).stats.Took evs := by
    rw [stats_foldl]; exact LatencyStats.took h
  have hcmd : (evs.foldl (processEvent dec up) (.new : Stores H)).cmdStats.commands =
      group .new LatencyStats.recordEvent (labelOf dec up) evs := by
    rw [cmdStats_foldl]; exact CommandStats.commands_foldl ..
  have hcl : (evs.foldl (processEvent dec up) (.new : Stores H)).clientStats.clients =
      group ⟨0, 0⟩ .countEvent LatencyEvent.clientIp (evs.filter fun ev => ev.clientIp != 0) :=
    clients_foldl ..
  have hentry : ∀ c s, (group .new LatencyStats.recordEvent (labelOf dec up) evs).lookup c = some s →
      LatencyStats.Took (H := H) s (ofKey (labelOf dec up) c evs) := fun c s hs =>
    eq_of_lookup_group hs ▸ LatencyStats.took (h.sublist List.filter_sublist)
  refine ⟨htook.total, htook.samples, htook.bytes, fun c => ?_, fun c s hs => ?_, fun a => ?_,
    fun a i hi => ?_, ?_⟩
  · rw [hcmd]; exact exists_lookup_group
  · rw [hcmd] at hs
    exact ⟨(hentry c s hs).total, (hentry c s hs).bytes⟩
  · rw [hcl, exists_lookup_group]
    exact exists_nonzero_client
  · rw [hcl] at hi
    obtain ⟨ha, -⟩ := exists_nonzero_client.1 (exists_lookup_group.1 ⟨i, hi⟩)
    have hfits := h.sublist (List.filter_sublist (p := fun ev => ev.clientIp = a))
    rw [eq_of_lookup_group hi, ofKey_nonzero_client ha, ClientInfo.count_foldl,
      ClientInfo.totalBytes_foldl]
    exact ⟨toNat_counter hfits.count, toNat_counter hfits.bytes⟩
  · rw [hcmd, htook.total]
    exact sum_entries_group _ fun c s hs => (hentry c s hs).total

/-- The books hold after any batches, and the batching does not matter. -/
theorem processBatches_books (H : Type) [HdrHistogram H] [LawfulHdrHistogram H] (dec : RespDecoder)
    (up : UpperTable) (batches : List (List LatencyEvent))
    (hlatency : ∀ ev ∈ batches.flatten, ev.latencyNs ≤ 10_000_000_000)
    (hcount : batches.flatten.length < 2 ^ 64) (hbytes : byteSum batches.flatten < 2 ^ 64) :
    Books dec up batches.flatten (processBatches (H := H) dec up batches) ∧
      ∀ batches', batches'.flatten = batches.flatten →
        processBatches (H := H) dec up batches' = processBatches dec up batches := by
  refine ⟨?_, fun batches' hflat => ?_⟩
  · rw [processBatches_eq]; exact books ⟨hlatency, hcount, hbytes⟩
  · rw [processBatches_eq, processBatches_eq, hflat]

/-! ### A histogram -/

structure CountingHistogram where
  bound : UInt64
  samples : UInt64

instance : HdrHistogram CountingHistogram where
  newWithBounds _ high _ _ := ⟨high, 0⟩
  record h v := if v ≤ h.bound then some ⟨h.bound, h.samples + 1⟩ else none
  len h := h.samples
  high h := h.bound

instance : LawfulHdrHistogram CountingHistogram where
  len_new _ _ _ _ := rfl
  high_new _ _ _ _ := rfl
  record_ok h _ hv := ⟨⟨h.bound, h.samples + 1⟩, if_pos hv, rfl, fun hlt => toNat_add_one rfl hlt⟩

def twoEvents : List LatencyEvent :=
  [⟨100, 100, 5000, 5, 16777343, 40000, 0, 0, capture (encode [[80, 73, 78, 71]])⟩,
    ⟨100, 100, 7000, 9, 0, 0, 0, 0, capture (encode [[71, 69, 84], [107]])⟩]

theorem processBatches_books_two :
    Books bulkDecoder asciiUpper [twoEvents].flatten
      (processBatches (H := CountingHistogram) bulkDecoder asciiUpper [twoEvents]) :=
  (processBatches_books CountingHistogram bulkDecoder asciiUpper [twoEvents] (by decide) (by decide)
    (by decide)).1

end RedisTracer
