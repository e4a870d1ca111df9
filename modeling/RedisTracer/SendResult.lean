import RedisTracer.EntryOrigin
import RedisTracer.Ledger
import Mathlib

/-!
# What a send returned

`tcp_sendmsg` returns a C int: the low half of the return slot. `try_on_sendmsg` reads the slot as an
`i64`, so an event tells what was returned exactly when the two have the same sign bit; then the byte
sums of all stores are those of the sends.
-/

namespace RedisTracer

open GroupFold

variable {ncpu : Nat} {target : UInt32} {tr : Trace ncpu} {ctx : ProbeCtx ncpu} {H : Type}
  [HdrHistogram H] {dec : RespDecoder} {up : UpperTable} {evs : List LatencyEvent}

def retSlot (ctx : ProbeCtx ncpu) : UInt64 := ctx.ret.getD 0

/-- The value returned, of type `int`. -/
def returned (ctx : ProbeCtx ncpu) : Int32 := (retSlot ctx).toUInt32.toInt32

def bytesSent (ctx : ProbeCtx ncpu) : Nat := (returned ctx).toInt.toNat

/-- Bits `63` and `31` of the slot are equal. -/
def SignBitsAgree (ctx : ProbeCtx ncpu) : Prop :=
  2 ^ 63 ≤ (retSlot ctx).toNat ↔ 2 ^ 31 ≤ (retSlot ctx).toNat % 2 ^ 32

instance (ctx : ProbeCtx ncpu) : Decidable (SignBitsAgree ctx) :=
  inferInstanceAs (Decidable (_ ↔ _))

/-- The event tells what was returned. -/
structure TellsReturned (ctx : ProbeCtx ncpu) (ev : LatencyEvent) : Prop where
  isError : ev.isError ≠ 0 ↔ returned ctx < 0
  bytes : ev.bytes.toNat = bytesSent ctx

/-! ### One event -/

theorem retval_eq (ctx : ProbeCtx ncpu) : retval ctx = (retSlot ctx).toInt64 := by
  rw [retval, retSlot]
  cases ctx.ret <;> rfl

theorem retval_toInt (ctx : ProbeCtx ncpu) : (retval ctx).toInt =
    if (retSlot ctx).toNat < 2 ^ 63 then ((retSlot ctx).toNat : Int)
    else (retSlot ctx).toNat - 2 ^ 64 := by
  rw [retval_eq]
  show (retSlot ctx).toBitVec.toInt = _
  rw [BitVec.toInt_eq_toNat_cond, UInt64.toNat_toBitVec]
  split <;> split <;> omega

theorem returned_toInt (ctx : ProbeCtx ncpu) : (returned ctx).toInt =
    if (retSlot ctx).toNat % 2 ^ 32 < 2 ^ 31 then ((retSlot ctx).toNat % 2 ^ 32 : Int)
    else (retSlot ctx).toNat % 2 ^ 32 - 2 ^ 32 := by
  show (retSlot ctx).toUInt32.toBitVec.toInt = _
  rw [BitVec.toInt_eq_toNat_cond, UInt32.toNat_toBitVec, UInt64.toNat_toUInt32]
  split <;> split <;> omega

theorem latencyEvent_isError (ctx : ProbeCtx ncpu) (v : ReqCtx) :
    (latencyEvent ctx v).isError ≠ 0 ↔ 2 ^ 63 ≤ (retSlot ctx).toNat := by
  have hlt := (retSlot ctx).toNat_lt
  have hneg : retval ctx < 0 ↔ 2 ^ 63 ≤ (retSlot ctx).toNat := by
    rw [Int64.lt_iff_toInt_lt, retval_toInt]
    show _ < (0 : Int) ↔ _
    split <;> omega
  rw [← hneg, latencyEvent]
  dsimp only
  split <;> simp_all

theorem latencyEvent_bytes (ctx : ProbeCtx ncpu) (v : ReqCtx) : (latencyEvent ctx v).bytes.toNat =
    if (retSlot ctx).toNat < 2 ^ 63 then (retSlot ctx).toNat % 2 ^ 32 else 0 := by
  have hpos : retval ctx > 0 ↔ 0 < (retSlot ctx).toNat ∧ (retSlot ctx).toNat < 2 ^ 63 := by
    rw [gt_iff_lt, Int64.lt_iff_toInt_lt, retval_toInt]
    show (0 : Int) < _ ↔ _
    have hlt := (retSlot ctx).toNat_lt
    split <;> omega
  have hlow : (retval ctx).toUInt64.toUInt32.toNat = (retSlot ctx).toNat % 2 ^ 32 := by
    rw [retval_eq, UInt64.toUInt64_toInt64, UInt64.toNat_toUInt32]
  rw [latencyEvent]
  dsimp only
  split
  · rename_i h
    rw [if_pos (hpos.1 h).2, hlow]
  · rename_i h
    rw [hpos] at h
    show 0 = _
    split <;> omega

theorem tellsReturned_iff (ctx : ProbeCtx ncpu) (v : ReqCtx) :
    TellsReturned ctx (latencyEvent ctx v) ↔ SignBitsAgree ctx := by
  have hneg : returned ctx < 0 ↔ 2 ^ 31 ≤ (retSlot ctx).toNat % 2 ^ 32 := by
    rw [Int32.lt_iff_toInt_lt, returned_toInt]
    show _ < (0 : Int) ↔ _
    split <;> omega
  constructor
  · intro h
    exact (latencyEvent_isError ctx v).symm.trans (h.isError.trans hneg)
  · intro h
    refine ⟨(latencyEvent_isError ctx v).trans (h.trans hneg.symm), ?_⟩
    rw [latencyEvent_bytes, bytesSent, returned_toInt]
    unfold SignBitsAgree at h
    split <;> split <;> omega

/-! ### Sums -/

/-- A recorded send: where it is in the trace, its context, what it put out. -/
structure Send (ncpu : Nat) where
  pos : Nat
  ctx : ProbeCtx ncpu
  out : Output

def sentBytes (sends : List (Send ncpu)) : Nat := (sends.map fun s => bytesSent s.ctx).sum

/-- The byte sums of the stores are those of the sends, in all and by label and address. -/
structure SumsReturned (dec : RespDecoder) (up : UpperTable) (sends : List (Send ncpu))
    (st : Stores H) : Prop where
  total : st.stats.totalBytes = UInt64.ofNat (sentBytes sends)
  command : ∀ c s, st.cmdStats.commands.lookup c = some s → s.totalBytes =
    UInt64.ofNat (sentBytes (sends.filter fun s => labelOf dec up s.out.event = c))
  client : ∀ a i, st.clientStats.clients.lookup a = some i → i.totalBytes =
    UInt64.ofNat (sentBytes (sends.filter fun s => s.out.event.clientIp = a))

theorem byteSum_events {sends : List (Send ncpu)}
    (h : ∀ s ∈ sends, TellsReturned s.ctx s.out.event) :
    byteSum (sends.map fun s => s.out.event) = sentBytes sends := by
  rw [byteSum, sentBytes, List.map_map]
  exact congrArg List.sum (List.map_congr_left fun s hs => (h s hs).bytes)

theorem sumsReturned {sends : List (Send ncpu)} (h : ∀ s ∈ sends, TellsReturned s.ctx s.out.event) :
    SumsReturned dec up sends
      ((sends.map fun s => s.out.event).foldl (processEvent dec up) (.new : Stores H)) := by
  have hfilter : ∀ q : LatencyEvent → Bool, byteSum ((sends.map fun s => s.out.event).filter q) =
      sentBytes (sends.filter fun s => q s.out.event) := by
    intro q
    rw [List.filter_map]
    exact byteSum_events fun s hs => h s (List.mem_of_mem_filter hs)
  refine ⟨?_, fun c s hs => ?_, fun a i hi => ?_⟩
  · rw [stats_foldl, LatencyStats.totalBytes_foldl, byteSum_events h]
    exact UInt64.zero_add _
  · rw [cmdStats_foldl, CommandStats.commands_foldl] at hs
    rw [eq_of_lookup_group hs, LatencyStats.totalBytes_foldl, ofKey, hfilter]
    exact UInt64.zero_add _
  · rw [clients_foldl] at hi
    obtain ⟨ha, -⟩ := exists_nonzero_client.1 (exists_lookup_group.1 ⟨i, hi⟩)
    rw [eq_of_lookup_group hi, ClientInfo.totalBytes_foldl, ofKey_nonzero_client ha, hfilter]
    exact UInt64.zero_add _

/-- The events tell what the sends returned, and the sums are right, exactly when in each send the
sign bits agree. -/
theorem send_result_iff (H : Type) [HdrHistogram H] (dec : RespDecoder) (up : UpperTable)
    (target : UInt32) (tr : Trace ncpu) (sends : List (Send ncpu))
    (hsends : ∀ s ∈ sends, OutputAt target tr s.pos s.ctx s.out) (batches : List (List LatencyEvent))
    (hbatches : batches.flatten = sends.map fun s => s.out.event) :
    ((∀ s ∈ sends, TellsReturned s.ctx s.out.event) ∧
        SumsReturned dec up sends (processBatches (H := H) dec up batches)) ↔
      ∀ s ∈ sends, SignBitsAgree s.ctx := by
  have htells : ∀ s ∈ sends, (TellsReturned s.ctx s.out.event ↔ SignBitsAgree s.ctx) := by
    intro s hs
    obtain ⟨v, -, -, -, he⟩ := (hsends s hs).inv
    rw [he]; exact tellsReturned_iff s.ctx v
  rw [processBatches_eq, hbatches]
  constructor
  · rintro ⟨h, -⟩ s hs
    exact (htells s hs).1 (h s hs)
  · intro h
    have hall : ∀ s ∈ sends, TellsReturned s.ctx s.out.event := fun s hs => (htells s hs).2 (h s hs)
    exact ⟨hall, sumsReturned hall⟩

/-! ### One reply with a return slot -/

def slotCtx (slot : UInt64) : ProbeCtx 1 := { bareCtx (Fin.last 0) 100 101 2 1 with ret := some slot }

def replyReturning (slot : UInt64) : Trace 1 :=
  [.recvmsg (bareCtx (Fin.last 0) 100 101 0 1), .recvmsgRet (bareCtx (Fin.last 0) 100 101 1 1),
    .sendmsg (slotCtx slot)]

theorem replyReturning_output (slot : UInt64) :
    ∃ o, OutputAt 0 (replyReturning slot) 2 (slotCtx slot) o := by
  have hclock : MonotonicClock (replyReturning slot) := by
    simp [MonotonicClock, replyReturning, ProbeRun.ctx, slotCtx]
  exact reply_output ⟨accepts_zero _, bareCtx_tgid (Fin.last 0) 100 101 0 1⟩
    ⟨accepts_zero _, bareCtx_tgid (Fin.last 0) 100 101 2 1⟩ hclock
    (by simp only [slotCtx, bareCtx_ktimeNs, UInt64.reduceToNat]; omega)

theorem send_result_iff_five : ∃ o, OutputAt 0 (replyReturning 5) 2 (slotCtx 5) o ∧
    (((∀ s ∈ [(⟨2, slotCtx 5, o⟩ : Send 1)], TellsReturned s.ctx s.out.event) ∧
        SumsReturned bulkDecoder asciiUpper [⟨2, slotCtx 5, o⟩]
          (processBatches (H := CountingHistogram) bulkDecoder asciiUpper [[o.event]])) ↔
      ∀ s ∈ [(⟨2, slotCtx 5, o⟩ : Send 1)], SignBitsAgree s.ctx) := by
  obtain ⟨o, ho⟩ := replyReturning_output 5
  exact ⟨o, ho, send_result_iff CountingHistogram bulkDecoder asciiUpper 0 (replyReturning 5)
    [⟨2, slotCtx 5, o⟩] (by simpa using ho) [[o.event]] rfl⟩

/-- With a zero upper half, a send that failed with `-32` is not an error. -/
theorem not_send_result : ¬ ∀ (tr : Trace 1) (sends : List (Send 1)),
    (∀ s ∈ sends, OutputAt 0 tr s.pos s.ctx s.out) →
    ∀ s ∈ sends, TellsReturned s.ctx s.out.event := by
  intro hall
  obtain ⟨o, ho⟩ := replyReturning_output 4294967264
  have htells := hall _ [⟨2, slotCtx 4294967264, o⟩] (by simpa using ho) _ List.mem_cons_self
  obtain ⟨v, -, -, -, he⟩ := ho.inv
  rw [he, tellsReturned_iff] at htells
  have hnot : ¬ SignBitsAgree (slotCtx 4294967264) := by decide
  exact hnot htells

end RedisTracer
