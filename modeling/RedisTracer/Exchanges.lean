import RedisTracer.Progress

/-!
# Exchanges

An `Exchange` is a receive, its return and the send of the reply. Exchanges that run one after the other give
an event each, in their order (`outputs_exchanges`). The sixteenth of a CPU wakes the reader, so a collector
left alone then has them recorded (`exists_recorded`).
-/

namespace RedisTracer

open RingBuf RespFormat

variable {ncpu cap : Nat} {target : UInt32} {m : Maps ncpu}

/-- A request of one task and its reply, at most ten seconds later. -/
structure Exchange (ncpu : Nat) (target : UInt32) where
  entry : ProbeCtx ncpu
  exit : ProbeCtx ncpu
  reply : ProbeCtx ncpu
  exit_task : exit.pidTgid = entry.pidTgid
  reply_task : reply.pidTgid = entry.pidTgid
  accepted : accepts target entry.pid = true
  in_time : reply.ktimeNs - entry.ktimeNs ≤ 10_000_000_000

namespace Exchange

variable (x : Exchange ncpu target)

def runs : Trace ncpu := [.recvmsg x.entry, .recvmsgRet x.exit, .sendmsg x.reply]

def event : LatencyEvent := callEvent x.reply x.entry x.exit

@[simp] theorem event_reqData : x.event.reqData = captured x.entry x.exit := rfl

theorem touches {p : ProbeRun ncpu} (hp : p ∈ x.runs) : Touches target x.entry.tgid p.ctx := by
  have htask : p.ctx.pidTgid = x.entry.pidTgid := by
    simp only [runs, List.mem_cons, List.not_mem_nil, or_false] at hp
    rcases hp with rfl | rfl | rfl
    · rfl
    · exact x.exit_task
    · exact x.reply_task
  rw [Touches, ProbeCtx.pid, ProbeCtx.tgid, htask]
  exact ⟨x.accepted, rfl⟩

/-- An exchange that finds no entry of a process makes its event and leaves none. -/
theorem outputs_runs (hm : m.targetPid = #v[target]) (hidle : ∀ k, m.reqCtx.get k = none) :
    (outputs m x.runs).map (fun y => (y.1, y.2.event)) = [(x.reply.cpu, x.event)] ∧
      ∀ k, (x.runs.foldl ProbeRun.step m).reqCtx.get k = none := by
  have hentry : Touches target x.entry.tgid x.entry := x.touches (p := .recvmsg x.entry) (by simp [runs])
  have hexit : Touches target x.entry.tgid x.exit := x.touches (p := .recvmsgRet x.exit) (by simp [runs])
  have hreply : Touches target x.entry.tgid x.reply := x.touches (p := .sendmsg x.reply) (by simp [runs])
  obtain ⟨m₁, h₁⟩ : ∃ m₁, (ProbeRun.recvmsg x.entry).step m = m₁ := ⟨_, rfl⟩
  obtain ⟨m₂, h₂⟩ : ∃ m₂, (ProbeRun.recvmsgRet x.exit).step m₁ = m₂ := ⟨_, rfl⟩
  have hm₁ : m₁.targetPid = #v[target] := h₁ ▸ (targetPid_step m _).trans hm
  have hm₂ : m₂.targetPid = #v[target] := h₂ ▸ (targetPid_step m₁ _).trans hm₁
  have hget : m₂.reqCtx.get x.reply.tgid =
      some ⟨x.entry.ktimeNs, 0, clientPacked x.entry, captured x.entry x.exit⟩ := by
    rw [hreply.2, ← h₂, get_step_recvmsgRet hm₁ x.exit hexit, ← h₁, get_step_recvmsg hm x.entry hentry,
      if_pos (BoundedMap.hasRoom_of_forall_get (by omega) hidle _), Option.map_some, fill_newReqCtx]
  refine ⟨?_, fun k => ?_⟩
  · have hsend := (tryOnSendmsg_output hm₂ x.reply _).2 ⟨_, hreply.1, hget, x.in_time, rfl⟩
    rw [runs, outputs, outputs, outputs, outputs, h₁, h₂, outputs_of_some hsend]
    rfl
  · rw [runs, List.foldl_cons, List.foldl_cons, List.foldl_cons, List.foldl_nil, h₁, h₂]
    by_cases hk : x.entry.tgid = k
    · subst hk
      exact get_step_sendmsg hm₂ x.reply hreply
    · have hnot : ∀ {p : ProbeRun ncpu}, p ∈ x.runs → ¬ Touches target k p.ctx :=
        fun hp h => hk ((x.touches hp).2.symm.trans h.2)
      rw [get_step_of_not_touches hm₂ (hnot (by simp [runs])), ← h₂,
        get_step_of_not_touches hm₁ (hnot (by simp [runs])), ← h₁,
        get_step_of_not_touches hm (hnot (by simp [runs]))]
      exact hidle k

end Exchange

def exchangeTrace (xs : List (Exchange ncpu target)) : Trace ncpu := xs.flatMap Exchange.runs

theorem outputs_exchanges (hm : m.targetPid = #v[target]) (hidle : ∀ k, m.reqCtx.get k = none)
    (xs : List (Exchange ncpu target)) : (outputs m (exchangeTrace xs)).map (fun y => (y.1, y.2.event)) =
      xs.map fun x => (x.reply.cpu, x.event) := by
  induction xs generalizing m with
  | nil => rfl
  | cons x xs ih =>
    obtain ⟨hout, hidle'⟩ := x.outputs_runs hm hidle
    have hrest := ih ((targetPid_foldl x.runs m).trans hm) hidle'
    rw [exchangeTrace, List.flatMap_cons, outputs_append, List.map_append, hout]
    exact congrArg _ hrest

/-- How many of the exchanges are replied to on the CPU. -/
def repliesOn (c : Fin ncpu) (xs : List (Exchange ncpu target)) : Nat := (xs.map fun x => x.reply.cpu).count c

theorem onCpu_exchanges (hm : m.targetPid = #v[target]) (hidle : ∀ k, m.reqCtx.get k = none)
    (xs : List (Exchange ncpu target)) (c : Fin ncpu) :
    (onCpu c (outputs m (exchangeTrace xs))).length = repliesOn c xs := by
  have hcpus := congrArg (List.map Prod.fst) (outputs_exchanges hm hidle xs)
  rw [List.map_map, List.map_map] at hcpus
  have hcount := congrArg (List.count c) hcpus
  rw [onCpu, List.length_map, ← List.countP_eq_length_filter]
  rw [List.count, List.countP_map] at hcount
  exact hcount

/-! ### In the collector -/

namespace Collector

variable {H : Type} [HdrHistogram H] {dec : RespDecoder} {up : UpperTable} {intervalSecs : UInt64}
  {s : Collector H ncpu cap} {n : Nat} {outs : List (Fin ncpu × Output)}

theorem steps_run (s : Collector H ncpu cap) (tr : Trace ncpu) :
    Relation.ReflTransGen (Step dec up intervalSecs) s (tr.foldl run s) := by
  induction tr generalizing s with
  | nil => exact .refl
  | cons p tr ih => exact .head (run_eq s p ▸ .probe s p) (ih (s.run p))

omit [HdrHistogram H] in
theorem foldl_run (s : Collector H ncpu cap) (tr : Trace ncpu) :
    (tr.foldl run s).sys.maps = tr.foldl ProbeRun.step s.sys.maps ∧
      (tr.foldl run s).sent.map Prod.fst =
        s.sent.map Prod.fst ++ (outputs s.sys.maps tr).map fun x => x.2.event := by
  induction tr generalizing s with
  | nil => exact ⟨rfl, (List.append_nil _).symm⟩
  | cons p tr ih =>
    have hsent : (s.run p).sent.map Prod.fst = s.sent.map Prod.fst ++ (p.outputs s.sys.maps).map fun x => x.2.event :=
      foldl_emit_sent _ _
    obtain ⟨hmaps', hsent'⟩ := ih (s.run p)
    rw [List.foldl_cons, hmaps', hsent', run_maps, hsent, outputs, List.map_append, List.append_assoc]
    exact ⟨rfl, rfl⟩

/-- After more exchanges, and left alone then, the collector has recorded all but what the counters of the CPUs
account for. -/
theorem exists_recorded (hcap : 15 * ncpu < cap) (hqueued : Queued s)
    (hpanels : Panels.Reachable dec up intervalSecs s.panels) (hstrands : s.sys.Strands)
    (hm : s.sys.maps.targetPid = #v[target]) (hidle : ∀ k, s.sys.maps.reqCtx.get k = none)
    (hmeter : Metered s.sys.maps outs) (xs : List (Exchange ncpu target)) (hfit : s.sent.length + xs.length ≤ cap)
    (hsafe : ∀ ev ∈ s.sent.map Prod.fst ++ xs.map Exchange.event, ¬ CutInside dec up ev.reqData)
    (hn : ∀ c, ((onCpu c outs).length + repliesOn c xs) % 16 ≤ n) :
    ∃ s', Relation.ReflTransGen (Step dec up intervalSecs) s s' ∧ s'.Settled ∧
      taken s'.sent = s.sent.map Prod.fst ++ xs.map Exchange.event ∧
      ∃ unread, taken s'.sent = s'.panels.recorded ++ unread ∧ unread.length ≤ n * ncpu := by
  obtain ⟨t, ht⟩ : ∃ t, (exchangeTrace xs).foldl run s = t := ⟨_, rfl⟩
  have hsteps : Relation.ReflTransGen (Step dec up intervalSecs) s t := ht ▸ steps_run s (exchangeTrace xs)
  obtain ⟨hmaps, hsent⟩ := foldl_run s (exchangeTrace xs)
  have hevents := congrArg (List.map Prod.snd) (outputs_exchanges hm hidle xs)
  rw [List.map_map, List.map_map] at hevents
  rw [ht] at hmaps
  replace hsent : t.sent.map Prod.fst = s.sent.map Prod.fst ++ xs.map Exchange.event :=
    (ht ▸ hsent).trans (congrArg _ hevents)
  have hqueued' := queued_steps hqueued hsteps
  have htaken : taken t.sent = s.sent.map Prod.fst ++ xs.map Exchange.event := by
    have hlen := congrArg List.length hsent
    rw [List.length_append, List.length_map, List.length_map, List.length_map] at hlen
    rw [hqueued'.full.taken_eq (hlen.trans_le hfit), hsent]
  have hcnt : ∀ c, t.sys.batchCnt c ≤ n := by
    intro c
    have hcount := (hmeter.run (exchangeTrace xs)).count c
    rw [onCpu_append, List.length_append, onCpu_exchanges hm hidle, ← hmaps] at hcount
    exact hcount.trans_le (hn c)
  obtain ⟨s', hwork, hset, unread, hrec, hunread⟩ := exists_drained hcap hqueued' (panels_steps hpanels hsteps)
    (strands_steps hcap hstrands hsteps) (htaken ▸ hsafe) hcnt
  have hsent' := (work_rest hwork).2.2
  refine ⟨s', hsteps.trans (steps_of_work hwork), hset, by rw [hsent', htaken], unread, by rw [hsent', hrec], hunread⟩

/-- Exchanges that are a multiple of sixteen on every CPU are all recorded in the end, once and in order. -/
theorem exists_all_recorded (H : Type) [HdrHistogram H] (cap : Nat) (dec : RespDecoder) (up : UpperTable)
    (intervalSecs : UInt64) (hcap : 15 * ncpu < cap) (xs : List (Exchange ncpu target)) (hfit : xs.length ≤ cap)
    (hsafe : ∀ x ∈ xs, ¬ CutInside dec up x.event.reqData) (hfull : ∀ c, repliesOn c xs % 16 = 0) :
    ∃ s : Collector H ncpu cap, Reachable dec up intervalSecs (.init ncpu target) s ∧ s.Settled ∧
      taken s.sent = xs.map Exchange.event ∧ s.panels.recorded = xs.map Exchange.event := by
  have hmeter : Metered (.init ncpu target) [] := ⟨fun _ => rfl, fun _ => rfl⟩
  have hstart : Reachable dec up intervalSecs (.init ncpu target) (init (.init ncpu target) : Collector H ncpu cap) :=
    .refl
  obtain ⟨s, h, hset, htaken, unread, hrec, hunread⟩ := exists_recorded hcap (.init (.init ncpu target)) .refl
    (hstart.strands rfl hcap) rfl (fun _ => rfl) hmeter xs (by simpa [init] using hfit) (by simpa [init] using hsafe)
    (n := 0) (by simpa [onCpu] using fun c => (hfull c).le)
  refine ⟨s, h, hset, htaken, ?_⟩
  have hnil : unread = [] := List.eq_nil_of_length_eq_zero (by omega)
  rw [hnil, List.append_nil] at hrec
  exact hrec.symm.trans htaken

end Collector

/-! ### Requests of a client -/

theorem read_eq_some {mem : Mem} {a : UInt64} {n : Nat} {bs : Vector UInt8 n}
    (h : ∀ i : Fin n, mem (a + UInt64.ofNat i) = some (bs.get i)) : mem.read a n = some bs := by
  unfold Mem.read
  rw [if_pos fun i => by rw [h i]; rfl]
  congr 1
  apply Vector.ext
  intro i hi
  rw [Vector.getElem_ofFn, h ⟨i, hi⟩]
  rfl

theorem iovBase_of_read {ctx : ProbeCtx ncpu} {bs : Vector UInt8 8} (hmsg : ctx.arg 1 ≠ 0)
    (hread : ctx.kernelMem.read (ctx.arg 1 + 32) 8 = some bs) : iovBase ctx = UInt64.ofNat (leNat bs.toList) := by
  simp [iovBase, hmsg, hread]

/-- A run on a socket with `addr` at offset 4, for a message with `buf` at the user address 1. -/
def clientCtx (c : Fin ncpu) (now : UInt64) (ret : Option UInt64) (addr : UInt8) (buf : Vector UInt8 32) :
    ProbeCtx ncpu where
  pidTgid := 429496729700
  ktimeNs := now
  cpu := c
  arg n := if n = 0 then 128 else 64
  ret := ret
  kernelMem a := some (if a = 96 then 1 else if a = 132 then addr else 0)
  userMem a := buf[(a - 1).toNat]?

/-- The client sends the array `req` and gets five bytes. -/
def clientRequest (c : Fin ncpu) (addr : UInt8) (req : List (List UInt8)) : Exchange ncpu 0 where
  entry := clientCtx c 0 none addr (capture (encode req))
  exit := clientCtx c 1 (some (UInt64.ofNat (encode req).length)) addr (capture (encode req))
  reply := clientCtx c 2 (some 5) addr (capture (encode req))
  exit_task := rfl
  reply_task := rfl
  accepted := accepts_zero _
  in_time := (by decide : (2 : UInt64) - 0 ≤ 10_000_000_000)

section
variable (c : Fin ncpu) (addr : UInt8)

theorem iovBase_clientCtx (now : UInt64) (ret : Option UInt64) (buf : Vector UInt8 32) :
    iovBase (clientCtx c now ret addr buf) = 1 := by
  have hread : (clientCtx c now ret addr buf).kernelMem.read (64 + 32) 8 = some #v[1, 0, 0, 0, 0, 0, 0, 0] := by
    refine read_eq_some fun i => congrArg some ?_
    fin_cases i <;> rfl
  exact iovBase_of_read (by decide : (64 : UInt64) ≠ 0) hread

theorem clientRequest_reqData (req : List (List UInt8)) :
    (clientRequest c addr req).event.reqData = capture (encode req) := by
  have hat : ∀ i : Fin 32, ((1 : UInt64) + UInt64.ofNat i - 1).toNat = i := by decide
  have hread : (clientRequest c addr req).exit.userMem.read 1 32 = some (capture (encode req)) := by
    refine read_eq_some fun i => ?_
    show (capture (encode req))[(1 + UInt64.ofNat i - 1).toNat]? = _
    rw [hat i]
    exact Vector.getElem?_eq_getElem i.isLt
  have hbase : iovBase (clientRequest c addr req).entry = 1 := iovBase_clientCtx c addr _ _ _
  rw [Exchange.event_reqData, captured, hbase, if_neg (by decide), bpfProbeRead, hread, Option.getD_some]

/-- Ten `PING`s of one client and six `GET k` of another. -/
def clientRequests : List (Exchange ncpu 0) :=
  List.replicate 10 (clientRequest c 1 [[80, 73, 78, 71]]) ++ List.replicate 6 (clientRequest c 2 [[71, 69, 84], [107]])

theorem repliesOn_clientRequests (d : Fin ncpu) : repliesOn d (clientRequests c) = if c = d then 16 else 0 := by
  have hcpu : (clientRequests c).map (fun x => x.reply.cpu) = List.replicate 16 c := by
    simp only [clientRequests, List.map_append, List.map_replicate]
    rfl
  rw [repliesOn, hcpu, List.count_replicate]
  simp

theorem clientRequests_safe : ∀ x ∈ clientRequests c, ¬ CutInside bulkDecoder asciiUpper x.event.reqData := by
  have hscan : scanRespCommand (payload (capture (encode [[80, 73, 78, 71]]))) ≠ none ∧
      scanRespCommand (payload (capture (encode [[71, 69, 84], [107]]))) ≠ none := by decide
  intro x hx hcut
  rcases List.mem_append.1 hx with hx | hx <;> rw [List.eq_of_mem_replicate hx, clientRequest_reqData] at hcut
  · exact hscan.1 hcut.2.1
  · exact hscan.2 hcut.2.1

end

/-- A collector that has recorded them. -/
theorem Collector.exists_served : ∃ s : Collector CountingHistogram 1 16,
    Reachable bulkDecoder asciiUpper 10 (.init 1 0) s ∧ s.Settled ∧
      taken s.sent = (clientRequests (0 : Fin 1)).map Exchange.event ∧
      s.panels.recorded = (clientRequests (0 : Fin 1)).map Exchange.event := by
  refine exists_all_recorded CountingHistogram 16 bulkDecoder asciiUpper 10 (by omega) (clientRequests 0)
    (by simp [clientRequests]) (clientRequests_safe 0) fun c => ?_
  rw [repliesOn_clientRequests, if_pos (Subsingleton.elim _ _)]

end RedisTracer
