import RedisTracer.EntryOrigin
import RedisTracer.Classify

/-!
# What a capture holds

`try_on_recvmsg_ret` copies the first 32 bytes of the user buffer and does not look at the return
value: what the call delivered comes first, then whatever the buffer held. On one thread the calls
are a list of `Call`s, and an event is made exactly by a send right after a receive.
-/

namespace RedisTracer

open Ascii RespFormat

variable {ncpu : Nat} {target : UInt32} {j : Nat} {ctx : ProbeCtx ncpu} {o : Output}

/-- The first 32 bytes of a buffer that held `old`, after a receive into it. -/
def overlay (delivered : List UInt8) (old : Vector UInt8 32) : Vector UInt8 32 :=
  ⟨((delivered ++ old.toList.drop delivered.length).take 32).toArray, by simp; omega⟩

/-- A `tcp_recvmsg` call into a readable buffer that held `old`; it returns `n`. -/
structure Recv (ncpu : Nat) where
  entry : ProbeCtx ncpu
  exit : ProbeCtx ncpu
  n : Int64
  delivered : List UInt8
  old : Vector UInt8 32
  ret_exit : exit.ret = some n.toUInt64
  length_delivered : delivered.length = n.toInt.toNat
  iovBase_ne : iovBase entry ≠ 0
  read_exit : exit.userMem.read (iovBase entry) 32 = some (overlay delivered old)

inductive Call (ncpu : Nat)
  | recv (r : Recv ncpu)
  | send (ctx : ProbeCtx ncpu)

def Call.runs : Call ncpu → Trace ncpu
  | recv r => [.recvmsg r.entry, .recvmsgRet r.exit]
  | send ctx => [.sendmsg ctx]

def callTrace (calls : List (Call ncpu)) : Trace ncpu := calls.flatMap Call.runs

def OneThread (id : UInt64) (calls : List (Call ncpu)) : Prop :=
  ∀ p ∈ callTrace calls, p.ctx.pidTgid = id

variable {calls pre post : List (Call ncpu)} {id : UInt64} {r : Recv ncpu}

theorem callTrace_append (xs ys : List (Call ncpu)) :
    callTrace (xs ++ ys) = callTrace xs ++ callTrace ys := List.flatMap_append

theorem callTrace_cons (c : Call ncpu) (xs : List (Call ncpu)) :
    callTrace (c :: xs) = c.runs ++ callTrace xs := List.flatMap_cons

/-! ### Sends among the calls -/

theorem exists_send (h : (callTrace calls)[j]? = some (.sendmsg ctx)) :
    ∃ pre post, calls = pre ++ .send ctx :: post ∧ j = (callTrace pre).length := by
  induction calls generalizing j with
  | nil => cases h
  | cons c calls ih =>
    rw [callTrace_cons] at h
    cases c with
    | recv r =>
      match j with
      | 0 => cases h
      | 1 => cases h
      | j + 2 =>
        obtain ⟨pre, post, rfl, rfl⟩ := ih h
        exact ⟨.recv r :: pre, post, rfl, rfl⟩
    | send s =>
      match j with
      | 0 => cases h; exact ⟨[], calls, rfl, rfl⟩
      | j + 1 =>
        obtain ⟨pre, post, rfl, rfl⟩ := ih h
        exact ⟨.send s :: pre, post, rfl, rfl⟩

theorem getElem?_callTrace (pre : List (Call ncpu)) (c : Call ncpu) (post : List (Call ncpu)) (l : Nat) :
    (callTrace (pre ++ c :: post))[(callTrace pre).length + l]? = (c.runs ++ callTrace post)[l]? := by
  rw [callTrace_append, callTrace_cons, List.getElem?_append_right (by omega), Nat.add_sub_cancel_left]

theorem captured_recv (r : Recv ncpu) : captured r.entry r.exit = overlay r.delivered r.old := by
  rw [captured, if_neg r.iovBase_ne, bpfProbeRead, r.read_exit]; rfl

/-- An event is made by a send right after a receive, whatever the receive returned. -/
theorem OutputAt.right_after (hthread : OneThread id calls)
    (h : OutputAt target (callTrace calls) j ctx o) :
    ∃ pre r post, calls = pre ++ .recv r :: .send ctx :: post ∧ j = (callTrace pre).length + 2 ∧
      o.event = callEvent ctx r.entry r.exit := by
  obtain ⟨v, hacc, hget, -, he⟩ := h.inv
  have hid : ctx.pidTgid = id := hthread _ (List.mem_of_getElem? h.1)
  have htouch : ∀ {l : Nat} {p : ProbeRun ncpu}, (callTrace calls)[l]? = some p →
      Touches target ctx.tgid p.ctx := by
    intro l p hp
    have hp := hthread _ (List.mem_of_getElem? hp)
    rw [← hid] at hp
    rw [Touches, ProbeCtx.pid, ProbeCtx.tgid, hp]
    exact ⟨hacc, rfl⟩
  have hm := targetPid_mapsAt target (callTrace calls)
  obtain ⟨pre, post, hcalls, rfl⟩ := exists_send h.1
  rcases List.eq_nil_or_concat' pre with rfl | ⟨pre, c, rfl⟩
  · simp [callTrace, mapsAt, Maps.init] at hget
  rw [List.append_assoc, List.singleton_append] at hcalls
  cases c with
  | recv r =>
    refine ⟨pre, r, post, hcalls, ?_, ?_⟩
    · rw [callTrace_append, List.length_append]
      rfl
    have hentry : (callTrace calls)[(callTrace pre).length]? = some (.recvmsg r.entry) := by
      rw [hcalls]; exact getElem?_callTrace pre _ _ 0
    have hexit : (callTrace calls)[(callTrace pre).length + 1]? = some (.recvmsgRet r.exit) := by
      rw [hcalls]; exact getElem?_callTrace pre _ _ 1
    have hlen : (callTrace (pre ++ [.recv r])).length = (callTrace pre).length + 1 + 1 := by
      rw [callTrace_append, List.length_append]; rfl
    rw [hlen, mapsAt_succ hexit, get_step_recvmsgRet (hm _) r.exit (htouch hexit), mapsAt_succ hentry,
      get_step_recvmsg (hm _) r.entry (htouch hentry)] at hget
    split at hget
    · rw [Option.map_some, fill_newReqCtx, Option.some.injEq] at hget
      rw [he, ← hget]; rfl
    · cases hget
  | send s =>
    have hsend : (callTrace calls)[(callTrace pre).length]? = some (.sendmsg s) := by
      rw [hcalls]; exact getElem?_callTrace pre _ _ 0
    have hlen : (callTrace (pre ++ [.send s])).length = (callTrace pre).length + 1 := by
      rw [callTrace_append, List.length_append]; rfl
    rw [hlen, mapsAt_succ hsend, get_step_sendmsg (hm _) s (htouch hsend)] at hget
    cases hget

/-! ### Stale bytes -/

theorem toList_overlay (delivered : List UInt8) (old : Vector UInt8 32) :
    (overlay delivered old).toList = delivered.take 32 ++ old.toList.drop delivered.length := by
  show (delivered ++ old.toList.drop delivered.length).take 32 = _
  rw [List.take_append, List.take_of_length_le (l := old.toList.drop _) (by simp)]

theorem overlay_eq_capture_iff (delivered : List UInt8) (old : Vector UInt8 32) :
    overlay delivered old = capture delivered ↔ ∀ b ∈ old.toList.drop delivered.length, b = 0 := by
  have hcap : (capture delivered).toList = delivered.take 32 ++ List.replicate (32 - delivered.length) 0 := by
    show (delivered ++ List.replicate 32 0).take 32 = _
    rw [List.take_append, List.take_replicate, Nat.min_eq_left (by omega)]
  rw [← Vector.toList_inj, toList_overlay, hcap, List.append_right_inj, List.eq_replicate_iff]
  simp

/-- Enough was delivered to classify: 32 bytes, a zero byte, or a name of letters and its length. -/
def Settled (delivered : List UInt8) : Prop :=
  32 ≤ delivered.length ∨ (0 : UInt8) ∈ delivered.take 32 ∨
    ∃ ns ds name, IsNumeral ns ∧ IsNumeral ds ∧ value ds = name.length ∧ name ≠ [] ∧
      name.all isAlphabetic = true ∧ header star ns ++ (header dollar ds ++ name) <+: delivered.take 32

theorem Settled.classify (dec : RespDecoder) (up : UpperTable) {delivered : List UInt8}
    (h : Settled delivered) (old old' : Vector UInt8 32) :
    (classifyCommand dec up (overlay delivered old)).asRef =
      (classifyCommand dec up (overlay delivered old')).asRef := by
  rcases h with hlong | hzero | ⟨ns, ds, name, hns, hds, hval, hne, hall, hpre⟩
  · have heq : overlay delivered old = overlay delivered old' := by
      rw [← Vector.toList_inj, toList_overlay, toList_overlay, List.drop_eq_nil_of_le (by simpa),
        List.drop_eq_nil_of_le (by simpa)]
    rw [heq]
  · have hpay : ∀ v, payload (overlay delivered v) = (delivered.take 32).takeWhile (· != 0) := by
      intro v
      rw [payload_eq, toList_overlay, List.takeWhile_append, if_neg fun hlen => ?_]
      have hself := (List.takeWhile_prefix _).eq_of_length hlen
      have hnot := List.mem_takeWhile_imp (hself ▸ hzero)
      simp at hnot
    rw [classifyCommand, classifyCommand, hpay, hpay]
  · have hfront : ∀ v, header star ns ++ (header dollar ds ++ name) <+: (overlay delivered v).toList :=
      fun v => hpre.trans (toList_overlay delivered v ▸ List.prefix_append ..)
    rw [classifyCommand_front dec up hns hds hval hne hall (hfront old),
      classifyCommand_front dec up hns hds hval hne hall (hfront old')]

/-- An event stems from the receive right before its send, with any return value. Its data is what
that call delivered and then what the buffer held. -/
theorem event_holds_buffer (dec : RespDecoder) (up : UpperTable) (target : UInt32) (id : UInt64)
    (calls : List (Call ncpu)) (hthread : OneThread id calls) (j : Nat) (ctx : ProbeCtx ncpu)
    (o : Output) (h : OutputAt target (callTrace calls) j ctx o) :
    ∃ pre r post, calls = pre ++ .recv r :: .send ctx :: post ∧ j = (callTrace pre).length + 2 ∧
      o.event = callEvent ctx r.entry r.exit ∧
      o.event.reqData.toList = r.delivered.take 32 ++ r.old.toList.drop r.delivered.length ∧
      (o.event.reqData = capture r.delivered ↔ ∀ b ∈ r.old.toList.drop r.delivered.length, b = 0) ∧
      (Settled r.delivered → ∀ old, (classifyCommand dec up (overlay r.delivered old)).asRef =
        (classifyCommand dec up o.event.reqData).asRef) := by
  obtain ⟨pre, r, post, hcalls, hj, he⟩ := h.right_after hthread
  have hdata : o.event.reqData = overlay r.delivered r.old := by
    rw [he]; exact captured_recv r
  refine ⟨pre, r, post, hcalls, hj, he, ?_, ?_, fun hset old => ?_⟩
  · rw [hdata, toList_overlay]
  · rw [hdata]; exact overlay_eq_capture_iff _ _
  · rw [hdata]; exact hset.classify dec up _ _

/-! ### A receive at the end of the stream -/

def bufferCtx (now : UInt64) (ret : Option UInt64) (buf : Vector UInt8 32) : ProbeCtx 1 where
  pidTgid := 429496729700
  ktimeNs := now
  cpu := 0
  arg n := if n = 1 then 64 else 0
  ret := ret
  kernelMem a := some (if a = 96 then 1 else 0)
  userMem a := buf[(a - 1).toNat]?

def stalePing : Vector UInt8 32 := capture (encode [[80, 73, 78, 71]])

/-- It returns `0`; the buffer still holds an earlier `PING`. -/
def endOfStream : Recv 1 where
  entry := bufferCtx 0 none stalePing
  exit := bufferCtx 1 (some 0) stalePing
  n := 0
  delivered := []
  old := stalePing
  ret_exit := rfl
  length_delivered := rfl
  iovBase_ne := by decide
  read_exit := by decide

def endOfStreamCalls : List (Call 1) := [.recv endOfStream, .send (bufferCtx 2 (some 7) stalePing)]

theorem endOfStream_thread : OneThread 429496729700 endOfStreamCalls := by
  intro p hp
  simp only [endOfStreamCalls, callTrace, List.flatMap_cons, Call.runs, List.flatMap_nil,
    List.cons_append, List.nil_append, List.mem_cons, List.not_mem_nil, or_false] at hp
  rcases hp with rfl | rfl | rfl <;> rfl

theorem endOfStream_output :
    ∃ o, OutputAt 0 (callTrace endOfStreamCalls) 2 (bufferCtx 2 (some 7) stalePing) o := by
  have hsome : ((tryOnSendmsg (bufferCtx 2 (some 7) stalePing)
      (mapsAt 0 (callTrace endOfStreamCalls) 2)).2.2).isSome = true := by decide
  obtain ⟨o, ho⟩ := Option.isSome_iff_exists.1 hsome
  exact ⟨o, rfl, ho⟩

theorem event_holds_buffer_stale : ∃ o,
    OutputAt 0 (callTrace endOfStreamCalls) 2 (bufferCtx 2 (some 7) stalePing) o ∧
      ∃ pre r post, endOfStreamCalls = pre ++ .recv r :: .send (bufferCtx 2 (some 7) stalePing) :: post ∧
        2 = (callTrace pre).length + 2 ∧
          o.event = callEvent (bufferCtx 2 (some 7) stalePing) r.entry r.exit := by
  obtain ⟨o, ho⟩ := endOfStream_output
  obtain ⟨pre, r, post, hcalls, hj, he, -⟩ := event_holds_buffer bulkDecoder asciiUpper 0 429496729700
    endOfStreamCalls endOfStream_thread 2 _ o ho
  exact ⟨o, ho, pre, r, post, hcalls, hj, he⟩

/-- The event of a send after the end of the stream carries the stale `PING`. -/
theorem not_only_received : ¬ ∀ (id : UInt64) (calls : List (Call 1)), OneThread id calls → ∀ j ctx o,
    OutputAt 0 (callTrace calls) j ctx o → ∃ pre r post, calls = pre ++ .recv r :: .send ctx :: post ∧
      0 < r.n ∧ o.event.reqData = capture r.delivered := by
  intro hall
  obtain ⟨o, ho⟩ := endOfStream_output
  obtain ⟨pre, r, post, hcalls, hn, -⟩ := hall _ _ endOfStream_thread 2 _ o ho
  cases pre with
  | nil =>
    cases hcalls
    exact absurd hn (by decide)
  | cons c pre =>
    have hlen := congrArg List.length hcalls
    simp [endOfStreamCalls] at hlen
    omega

end RedisTracer
