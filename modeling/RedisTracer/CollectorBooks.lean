import RedisTracer.Exchanges
import RedisTracer.PidPaths

/-!
# What the collector prints

`Stored` is the invariant of the stores in a run: they are the fold of the events recorded so far, up to
the totals that a report remembers. With `Delivered` the panels are of what the probes sent.
-/

namespace RedisTracer

open RingBuf

variable {ncpu cap : Nat} {target : UInt32} {H : Type} [HdrHistogram H] {dec : RespDecoder}
  {up : UpperTable} {intervalSecs : UInt64}

/-- Without the totals of the last report. -/
def Stores.forget (st : Stores H) : Stores H :=
  { st with stats := { st.stats with prevTotal := 0, prevBytes := 0 } }

theorem forget_processEvent (st : Stores H) (ev : LatencyEvent) :
    (processEvent dec up st ev).forget = processEvent dec up st.forget ev := rfl

omit [HdrHistogram H] in
theorem forget_report (st : Stores H) :
    ({ st with stats := (st.stats.report intervalSecs).2 } : Stores H).forget = st.forget := by
  unfold LatencyStats.report
  split <;> rfl

theorem Books.of_forget {evs : List LatencyEvent} {st : Stores H} (h : Books dec up evs st.forget) :
    Books dec up evs st :=
  ⟨h.total, h.samples, h.bytes, h.commands, h.command, h.clients, h.client, h.totals⟩

namespace Panels

variable {s s' : Panels H}

/-- A step records one event, or leaves what is recorded. -/
theorem Step.stores (h : Step dec up intervalSecs s s') :
    (s'.recorded = s.recorded ∧ s'.stores.forget = s.stores.forget) ∨
      ∃ ev, s'.recorded = s.recorded ++ [ev] ∧ s'.stores = processEvent dec up s.stores ev := by
  cases h with
  | collect batch hread =>
    refine .inl ⟨?_, rfl⟩
    rw [recorded, recorded, hread]; rfl
  | readerLock l batch hread =>
    refine .inl ⟨?_, rfl⟩
    rw [recorded, recorded, hread]
    cases l <;> rfl
  | record done rest ev hread =>
    refine .inr ⟨ev, ?_, rfl⟩
    rw [recorded, recorded, hread]
    exact (List.append_assoc ..).symm
  | finish done hread =>
    refine .inl ⟨?_, rfl⟩
    rw [recorded, recorded, hread]
    simp [ReaderPoint.recorded]
  | readerUnlock l hread =>
    refine .inl ⟨?_, rfl⟩
    rw [recorded, recorded, hread]
    cases l <;> rfl
  | reportStats => exact .inl ⟨rfl, forget_report _⟩
  | tick | reporterLock | reportCommand | reportClient => exact .inl ⟨rfl, rfl⟩

def Stored (dec : RespDecoder) (up : UpperTable) (s : Panels H) : Prop :=
  s.stores.forget = s.recorded.foldl (processEvent dec up) .new

theorem Stored.step (h : Stored dec up s) (hstep : Step dec up intervalSecs s s') : Stored dec up s' := by
  unfold Stored at h ⊢
  rcases hstep.stores with ⟨hrec, hstores⟩ | ⟨ev, hrec, hstores⟩
  · rw [hrec, hstores, h]
  · rw [hrec, hstores, forget_processEvent, h, List.foldl_append]; rfl

theorem Reachable.stored (h : Reachable dec up intervalSecs s) : Stored dec up s :=
  Transition.invariant (by rfl) (fun _ _ => Stored.step) h

end Panels

namespace Collector

variable {m : Maps ncpu} {s : Collector H ncpu cap}

omit [HdrHistogram H] in
/-- A record the ring took is the event of an output. -/
theorem Delivered.exists_output (h : Delivered m s) (hboot : Booted target m) {ev : LatencyEvent}
    (hev : ev ∈ RingBuf.taken s.sent) : ∃ j ctx o, OutputAt target s.trace j ctx o ∧ o.event = ev := by
  have hsent := (taken_sublist s.sent).subset hev
  rw [h.sent, hboot.outputs] at hsent
  obtain ⟨y, hy, hxy⟩ := List.mem_map.1 hsent
  obtain ⟨j, ctx, ho, -⟩ := mem_outputs_init.1 hy
  exact ⟨j, ctx, y.2, ho, hxy⟩

omit [HdrHistogram H] in
theorem Delivered.latency_le (h : Delivered m s) (hboot : Booted target m) {ev : LatencyEvent}
    (hev : ev ∈ RingBuf.taken s.sent) : ev.latencyNs ≤ 10_000_000_000 := by
  obtain ⟨j, ctx, o, ho, rfl⟩ := h.exists_output hboot hev
  obtain ⟨v, -, -, hlat, he⟩ := ho.inv
  rw [he]; exact hlat

/-- The books hold in every state the collector reaches: the probe's cut-off keeps every latency within
the bound of the histogram. -/
theorem collector_books (H : Type) [HdrHistogram H] [LawfulHdrHistogram H] (dec : RespDecoder)
    (up : UpperTable) (intervalSecs : UInt64) (ncpu cap : Nat) (target : UInt32) (m : Maps ncpu)
    (hboot : Booted target m) (s : Collector H ncpu cap) (h : Reachable dec up intervalSecs m s)
    (hcount : s.panels.recorded.length < 2 ^ 64) (hbytes : byteSum s.panels.recorded < 2 ^ 64) :
    Books dec up s.panels.recorded s.panels.stores := by
  have hd := delivered h
  have hfits : Fits s.panels.recorded := by
    refine ⟨fun ev hev => hd.latency_le hboot ?_, hcount, hbytes⟩
    rw [hd.recorded]
    exact List.mem_append_left _ hev
  apply Books.of_forget
  rw [h.panels.stored]
  exact books hfits

theorem collector_books_served : ∃ s : Collector CountingHistogram 1 16,
    s.panels.recorded = (clientRequests (0 : Fin 1)).map Exchange.event ∧
      Books bulkDecoder asciiUpper s.panels.recorded s.panels.stores := by
  obtain ⟨s, h, -, -, hrec⟩ := exists_served
  refine ⟨s, hrec, collector_books CountingHistogram bulkDecoder asciiUpper 10 1 16 0 (.init 1 0) rfl s h ?_ ?_⟩
  · rw [hrec]
    decide
  · rw [hrec]
    decide

/-! ### Requests -/

theorem maps_foldl (hboot : Booted target m) (tr : Trace ncpu) :
    { tr.foldl ProbeRun.step m with flamegraphOn := .empty } =
      tr.foldl ProbeRun.step (.init ncpu target) := by
  induction tr using List.reverseRecOn with
  | nil => exact hboot
  | append_singleton tr p ih =>
    rw [List.foldl_append, List.foldl_append, ← ih]
    exact (step_flamegraphOn p _ _).1.symm

/-- A process has no more requests recorded, on their way or waiting for the reply than it received. -/
theorem collector_requests (H : Type) [HdrHistogram H] (dec : RespDecoder) (up : UpperTable)
    (intervalSecs : UInt64) (ncpu cap : Nat) (target : UInt32) (m : Maps ncpu)
    (hboot : Booted target m) (s : Collector H ncpu cap) (h : Reachable dec up intervalSecs m s)
    (k : UInt32) :
    ((s.panels.recorded ++ s.inFlight).countP fun ev => ev.tid = k) + waiting s.sys.maps k ≤
      (receives target k s.trace).length := by
  have hd := delivered h
  have hmaps : waiting s.sys.maps k = waiting (s.trace.foldl ProbeRun.step (.init ncpu target)) k := by
    rw [hd.maps, ← maps_foldl hboot]; rfl
  have hsub : (taken s.sent).Sublist ((outputs (.init ncpu target) s.trace).map fun x => x.2.event) := by
    rw [← hboot.outputs, ← hd.sent]
    exact taken_sublist s.sent
  have howed := owed target k s.trace
  rw [Owed, ofProcess, ← List.countP_eq_length_filter] at howed
  have hcount := hsub.countP_le (p := fun ev => ev.tid = k)
  rw [List.countP_map] at hcount
  rw [← hd.recorded, hmaps]
  exact (Nat.add_le_add_right hcount _).trans howed

theorem collector_requests_one : ∃ s : Collector CountingHistogram 1 16,
    s.trace = oneReply (0 : Fin 1) 100 101 ∧
      ((s.panels.recorded ++ s.inFlight).countP fun ev => ev.tid = 100) + waiting s.sys.maps 100 ≤
        (receives 0 100 s.trace).length := by
  obtain ⟨s, h, htrace, -⟩ := reachable_probes CountingHistogram 16 bulkDecoder asciiUpper 10 (.init 1 0)
    (oneReply (0 : Fin 1) 100 101)
  exact ⟨s, htrace, collector_requests CountingHistogram bulkDecoder asciiUpper 10 1 16 0 (.init 1 0) rfl s
    h 100⟩

/-! ### Panels -/

/-- A panel as printed counts the first records the ring took, up to some point. -/
def CountsPrefix (s : Collector H ncpu cap) (p : Printed) : Prop :=
  p.seen.flatten <+: taken s.sent ∧ p.count = p.seen.flatten.length

/-- Every latency panel and every command panel counts a prefix of what the ring took. -/
theorem collector_panels (H : Type) [HdrHistogram H] (dec : RespDecoder) (up : UpperTable)
    (intervalSecs : UInt64) (ncpu cap : Nat) (m : Maps ncpu) (s : Collector H ncpu cap)
    (h : Reachable dec up intervalSecs m s) (hlt : (taken s.sent).length < 2 ^ 64) :
    (∀ p ∈ s.panels.latency, s.CountsPrefix p) ∧ ∀ p ∈ s.panels.command, s.CountsPrefix p := by
  obtain ⟨-, -, hlog⟩ := h.panels.inv
  have hpre : ∀ {seen}, seen <+: s.panels.processed → seen.flatten <+: taken s.sent := by
    intro seen hseen
    rw [(delivered h).recorded, Panels.recorded, List.append_assoc]
    exact hseen.flatten.trans (List.prefix_append ..)
  refine ⟨fun p hp => ?_, fun p hp => ?_⟩
  · obtain ⟨hcount, hseen⟩ := hlog.latency p hp
    refine ⟨hpre hseen, ?_⟩
    rw [hcount]
    exact UInt64.toNat_ofNat_of_lt' (Nat.lt_of_le_of_lt (hpre hseen).length_le hlt)
  · obtain ⟨⟨rows, hrows, hcount⟩, hseen⟩ := hlog.command p hp
    refine ⟨hpre hseen, ?_⟩
    rw [hcount]
    exact Panels.rowSum_recordAll hrows (Nat.lt_of_le_of_lt (hpre hseen).length_le hlt)

theorem collector_panels_served : ∃ (s : Collector CountingHistogram 1 16) (seen : List (List LatencyEvent)),
    ⟨16, seen⟩ ∈ s.panels.latency ∧ ⟨16, seen⟩ ∈ s.panels.command ∧
      (∀ p ∈ s.panels.latency, s.CountsPrefix p) ∧ ∀ p ∈ s.panels.command, s.CountsPrefix p := by
  obtain ⟨s, h, hset, htaken, hrec⟩ := exists_served
  have hlen : s.panels.recorded.length = 16 := by
    rw [hrec]
    rfl
  have hreport := report_isSome h.panels fun ev hev => ?_
  obtain ⟨s', h', hsent, -, hlatency, hcommand⟩ := exists_printed h hset (by omega) hreport
  rw [hlen] at hlatency hcommand
  refine ⟨s', s.panels.processed, by simp [hlatency], by simp [hcommand],
    collector_panels CountingHistogram bulkDecoder asciiUpper 10 1 16 (.init 1 0) s' h' ?_⟩
  · rw [hsent, htaken]
    decide
  · rw [hrec] at hev
    obtain ⟨x, hx, rfl⟩ := List.mem_map.1 hev
    exact clientRequests_safe 0 x hx

/-! ### From the start -/

/-- `main` leaves the number of the PID file in the filter, `0` without a file. -/
theorem booted_of_start {host : Host} {cli : Cli} {st : Started ncpu} (h : start host cli = .ok st) :
    ∃ cfg, Config.load host.readToString host.fromStr cli = .ok cfg ∧
      Booted ((pidInFile host cfg.pidFile).getD 0) st.maps := by
  obtain ⟨p, hp, hstart⟩ := bind_eq_ok.1 h
  obtain ⟨hload, hpin, -, -⟩ := prepare_ok hp
  refine ⟨p.cfg, hload, ?_⟩
  have hmaps : ∃ on, st.maps = { p.maps with flamegraphOn := on } := by
    split at hstart
    · obtain ⟨-, -, hret⟩ := bind_eq_ok.1 hstart
      cases hret
      exact ⟨_, rfl⟩
    · cases hstart
      exact ⟨_, rfl⟩
  obtain ⟨on, hon⟩ := hmaps
  rw [Booted, hon]
  rcases pinTargetPid_ok hpin with ⟨hmissing, hm⟩ | ⟨n, hn, hm⟩
  · rw [hm, pidInFile, hmissing]; rfl
  · rw [hm, hn]; rfl

/-- The event is of a receive and a send of the task `n`, at most ten seconds apart. -/
def FromTask (n : UInt32) (tr : Trace ncpu) (ev : LatencyEvent) : Prop :=
  ∃ (i j : Nat) (c ctx : ProbeCtx ncpu), i < j ∧ tr[i]? = some (.recvmsg c) ∧
    tr[j]? = some (.sendmsg ctx) ∧ c.pid = n ∧ ctx.pid = n ∧ c.tgid = ctx.tgid ∧ ev.pid = n ∧
    ev.tid = ctx.tgid ∧ ev.latencyNs = ctx.ktimeNs - c.ktimeNs ∧ ev.latencyNs ≤ 10_000_000_000

omit [HdrHistogram H] in
theorem Delivered.fromTask (h : Delivered m s) (hboot : Booted target m) (hne : target ≠ 0)
    {ev : LatencyEvent} (hev : ev ∈ RingBuf.taken s.sent) : FromTask target s.trace ev := by
  obtain ⟨j, ctx, o, ho, rfl⟩ := h.exists_output hboot hev
  obtain ⟨v, i, c, hfrom, hacc, hlat, he⟩ := ho.origin
  have hctx : ctx.pid = target := (accepts_of_ne_zero hne).1 hacc
  obtain ⟨hc, ⟨hcacc, hkey⟩, -⟩ := hfrom.inserted
  have hlatency : o.event.latencyNs = ctx.ktimeNs - c.ktimeNs := by
    rw [he, latencyEvent, hfrom.startNs]
  refine ⟨i, j, c, ctx, hfrom.lt, hc, ho.1, (accepts_of_ne_zero hne).1 hcacc, hctx, hkey, ?_, ?_, hlatency,
    hlatency ▸ hlat⟩
  · rw [he]; exact hctx
  · rw [he]; rfl

/-- From the start of the program, all that is recorded or on its way is of the task in the PID file. -/
theorem collector_started (H : Type) [HdrHistogram H] (dec : RespDecoder) (up : UpperTable)
    (ncpu cap : Nat) (host : Host) (cli : Cli) (cfg : Config) (st : Started ncpu) (n : UInt32)
    (hload : Config.load host.readToString host.fromStr cli = .ok cfg) (hst : start host cli = .ok st)
    (hn : pidInFile host cfg.pidFile = some n) (hne : n ≠ 0) (s : Collector H ncpu cap)
    (h : Reachable dec up st.reporter.intervalSecs st.maps s) :
    ∀ ev ∈ s.panels.recorded ++ s.inFlight, FromTask n s.trace ev := by
  obtain ⟨cfg', hload', hboot⟩ := booted_of_start hst
  cases hload.symm.trans hload'
  rw [hn] at hboot
  have hd := delivered h
  rw [← hd.recorded]
  exact fun ev hev => hd.fromTask hboot hne hev

theorem collector_started_stale : ∃ (st : Started 1) (s : Collector CountingHistogram 1 16),
    start staleHost bareCli = .ok st ∧ s.trace = oneReply (0 : Fin 1) 100 4242 ∧
      ∀ ev ∈ s.panels.recorded ++ s.inFlight, FromTask 4242 s.trace ev := by
  obtain ⟨s, h, htrace, -⟩ := reachable_probes CountingHistogram 16 bulkDecoder asciiUpper 10
    (enableFlamegraph (.init 1 4242)) (oneReply (0 : Fin 1) 100 4242)
  exact ⟨⟨enableFlamegraph (.init 1 4242), ⟨true, true, 10⟩, some (77, 99)⟩, s, rfl, htrace,
    collector_started CountingHistogram bulkDecoder asciiUpper 1 16 staleHost bareCli .default _ 4242 rfl rfl
      rfl (by decide) s h⟩

end Collector

end RedisTracer
