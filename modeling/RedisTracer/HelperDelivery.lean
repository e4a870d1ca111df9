import RedisTracer.HelperCollector
import RedisTracer.HelperOrigin

/-!
# What the collector gets of overlapping runs

The collector however the runs of its probes overlap. `Overlapped` joins the invariant of the records
(`Queued`), that of the entries and the runs in flight (`Sourced`) and the outputs that both are about;
`Strands` needs of a run only that each output comes with its step of `BATCH_CNT`.
-/

namespace RedisTracer

variable {ncpu cap : Nat} {target : UInt32} {H : Type} [HdrHistogram H] {dec : RespDecoder}
  {up : UpperTable} {intervalSecs : UInt64}

namespace Cpus

variable {s c : Cpus ncpu} {outs : List (Fin ncpu × Output)}

/-- Outputs made before. -/
def after (outs : List (Fin ncpu × Output)) (s : Cpus ncpu) : Cpus ncpu :=
  { s with outputs := outs ++ s.outputs }

theorem enter_after (outs : List (Fin ncpu × Output)) (s : Cpus ncpu) (p : ProbeRun ncpu) :
    (s.after outs).enter p = (s.enter p).after outs := by
  cases p with
  | recvmsg ctx => rfl
  | recvmsgRet ctx =>
    unfold enter after
    dsimp only
    cases isTargetPid s.maps ctx.pid with
    | false => rfl
    | true =>
      cases s.maps.reqCtx.get ctx.tgid with
      | none => rfl
      | some v =>
        dsimp only
        cases v.iovBase == 0 <;> rfl
  | sendmsg ctx =>
    unfold enter after
    dsimp only
    cases isTargetPid s.maps ctx.pid with
    | false => rfl
    | true => cases s.maps.reqCtx.get ctx.tgid <;> rfl

theorem resume_after (outs : List (Fin ncpu × Output)) (s : Cpus ncpu) (pt : ProbePoint ncpu) :
    (s.after outs).resume pt = (s.resume pt).after outs := by
  cases pt with
  | reading ctx iovBase => rfl
  | removing ctx v =>
    by_cases hlate : ctx.ktimeNs - v.startNs > 10_000_000_000
    · simp only [resume, after, if_pos hlate]
      rfl
    · simp only [resume, after, if_neg hlate]
      rfl
  | sending ctx v =>
    have hcur : (s.maps.batchCnt ctx.cpu)[0]? = some ((s.maps.batchCnt ctx.cpu).get 0) := batchCnt_getElem? ..
    simp only [resume, after, hcur, List.append_assoc]

/-- A step of one CPU makes no output, or one with its step of the counter. -/
inductive Emits (s : Cpus ncpu) (c : Cpus ncpu) : Prop
  | none : c.outputs = s.outputs → c.maps.batchCnt = s.maps.batchCnt → Emits s c
  | one (cpu : Fin ncpu) (o : Output) : c.outputs = s.outputs ++ [(cpu, o)] →
      o.flags = (nextBatch ((s.maps.batchCnt cpu).get 0)).2 →
      c.maps.batchCnt = Function.update s.maps.batchCnt cpu #v[(nextBatch ((s.maps.batchCnt cpu).get 0)).1] →
      Emits s c

theorem emits_enter (s : Cpus ncpu) (p : ProbeRun ncpu) : Emits s (s.enter p) := by
  cases p with
  | recvmsg ctx => exact .none rfl (batchCnt_step_of_not_send s.maps (p := .recvmsg ctx) (by simp))
  | recvmsgRet ctx =>
    unfold enter
    dsimp only
    split
    · exact .none rfl rfl
    · split
      · exact .none rfl rfl
      · split <;> exact .none rfl rfl
  | sendmsg ctx =>
    unfold enter
    dsimp only
    split
    · exact .none rfl rfl
    · split <;> exact .none rfl rfl

theorem emits_resume (s : Cpus ncpu) (pt : ProbePoint ncpu) : Emits s (s.resume pt) := by
  cases pt with
  | reading ctx iovBase => exact .none rfl rfl
  | removing ctx v =>
    unfold resume
    dsimp only
    split <;> exact .none rfl rfl
  | sending ctx v =>
    obtain ⟨hmaps, -, hout⟩ := resume_sending s ctx v
    exact .one _ _ hout rfl (by rw [hmaps]; rfl)

theorem Sourced.congr (h : Sourced target s) (hmaps : c.maps = s.maps) (hrun : c.running = s.running)
    (hout : c.outputs = s.outputs) (hentered : c.entered = s.entered) : Sourced target c := by
  refine ⟨?_, ?_, ?_, ?_, ?_⟩
  · rw [hmaps]
    exact h.filter
  · rw [hmaps, hentered]
    exact h.entries
  · rw [hrun, hentered]
    exact h.points
  · rw [hout, hentered]
    exact h.outputs
  · rw [hmaps, hout]
    exact h.metered

end Cpus

namespace HelperCollector

variable {ok : Cpus ncpu → ProbeRun ncpu → Prop} {s s' : HelperCollector H ncpu cap} {p : ProbeRun ncpu}
  {c : Cpus ncpu} {m : Maps ncpu}

/-- What the ring was sent is what the runs have output. -/
structure Overlapped (target : UInt32) (s : HelperCollector H ncpu cap) : Prop where
  queued : s.rest.Queued
  sourced : ∃ outs, Cpus.Sourced target (s.cpus.after outs) ∧
    s.rest.sent.map Prod.fst = outs.map fun x => x.2.event

/-! ### One step -/

omit [HdrHistogram H] in
theorem Overlapped.advance (h : Overlapped target s)
    (hc : ∀ outs, Cpus.Sourced target (s.cpus.after outs) → Cpus.Sourced target (c.after outs)) :
    Overlapped target (s.advance p c) := by
  obtain ⟨outs, hsourced, hsent⟩ := h.sourced
  have hemit := (h.queued.withMaps c.maps).foldl_emit c.outputs
  have hafter := Collector.foldl_emit_sent c.outputs (s.rest.withMaps c.maps)
  have hsent' : (s.advance p c).rest.sent.map Prod.fst = (outs ++ c.outputs).map fun x => x.2.event := by
    rw [List.map_append, ← hsent]
    unfold HelperCollector.advance
    dsimp only
    split <;> exact hafter
  refine ⟨?_, outs ++ c.outputs, ?_, hsent'⟩
  · unfold HelperCollector.advance
    dsimp only
    split
    · exact ⟨hemit.full, hemit.taken, hemit.passed, hemit.reader, hemit.batch⟩
    · exact hemit
  · exact (hc outs hsourced).congr (advance_maps s p c) rfl (List.append_nil _) rfl

theorem Overlapped.step (h : Overlapped target s) (hstep : Step ok dec up intervalSecs s s') :
    Overlapped target s' := by
  cases hstep with
  | enter p => exact h.advance fun outs hs => Cpus.enter_after outs s.cpus p ▸ hs.enter p
  | resume pt hrun =>
    exact h.advance fun outs hs => Cpus.resume_after outs s.cpus pt ▸ hs.resume hrun
  | rest t hstep htrace =>
    obtain ⟨hmaps, hsent, -⟩ := hstep.rest htrace
    obtain ⟨outs, hsourced, hsent'⟩ := h.sourced
    exact ⟨h.queued.step hstep, outs, hsourced.congr hmaps rfl rfl rfl, hsent.symm ▸ hsent'⟩

omit [HdrHistogram H] in
theorem strands_advance (hcap : 15 * ncpu < cap) (h : s.rest.sys.Strands) (hc : Cpus.Emits s.cpus c) :
    (s.advance p c).rest.sys.Strands := by
  have hsys : (s.advance p c).rest.sys = (c.outputs.foldl Collector.emit (s.rest.withMaps c.maps)).sys := by
    unfold HelperCollector.advance
    dsimp only
    split <;> rfl
  rw [hsys]
  cases hc with
  | none hout hcnt =>
    rw [hout]
    exact h.of_batchCnt hcnt
  | one cpu o hout hflags hcnt =>
    rw [hout]
    exact h.output hcap hflags hcnt

theorem strands_step (hcap : 15 * ncpu < cap) (h : s.rest.sys.Strands)
    (hstep : Step ok dec up intervalSecs s s') : s'.rest.sys.Strands := by
  cases hstep with
  | enter p => exact strands_advance hcap h (Cpus.emits_enter s.cpus p)
  | resume pt => exact strands_advance hcap h (Cpus.emits_resume s.cpus pt)
  | rest t hstep =>
    rcases hstep.sys with hsys | hsys
    · exact h.step hcap hsys
    · exact hsys ▸ h

/-! ### Whole runs -/

theorem sourced_init (hboot : Booted target m) :
    Cpus.Sourced target ((init m : HelperCollector H ncpu cap).cpus.after []) := by
  obtain ⟨hpid, hreq, hcnt⟩ := booted_maps hboot
  refine ⟨hpid, fun k v hget => ?_, fun _ _ hs => (nomatch hs), fun _ hx => (nomatch hx), fun c => ?_, fun _ => rfl⟩
  · have hget : m.reqCtx.get k = some v := hget
    rw [hreq, BoundedMap.get_empty] at hget
    cases hget
  · show ((m.batchCnt c).get 0).toNat = 0
    rw [hcnt]
    rfl

theorem Reachable.overlapped (hboot : Booted target m) (h : Reachable ok dec up intervalSecs m s) :
    Overlapped target s :=
  Transition.invariant ⟨.init m, [], sourced_init hboot, rfl⟩ (fun _ _ => Overlapped.step) h

theorem Reachable.strands (hboot : Booted target m) (hcap : 15 * ncpu < cap)
    (h : Reachable ok dec up intervalSecs m s) : s.rest.sys.Strands := by
  refine Transition.invariant (I := fun s => s.rest.sys.Strands) ?_ (fun _ _ => strands_step hcap) h
  obtain ⟨-, -, hcnt⟩ := booted_maps hboot
  refine ⟨fun c => ?_, fun _ _ _ => Nat.zero_le _⟩
  show ((m.batchCnt c).get 0).toNat < 16
  rw [hcnt]
  exact Nat.two_pow_pos 4

theorem simulates_panels : Transition.Simulates
    (Step ok dec up intervalSecs : HelperCollector H ncpu cap → HelperCollector H ncpu cap → Prop)
    (Panels.Step dec up intervalSecs) fun s t => s.rest.panels = t := by
  rintro s t s' rfl hstep
  cases hstep with
  | enter p => exact ⟨_, .refl, advance_panels s p _⟩
  | resume pt => exact ⟨_, .refl, advance_panels s pt.run _⟩
  | rest t hstep => exact Collector.simulates_panels _ _ _ rfl hstep

theorem Reachable.panels (h : Reachable ok dec up intervalSecs m s) :
    Panels.Reachable dec up intervalSecs s.rest.panels := by
  obtain ⟨t, hrun, rfl⟩ := simulates_panels.run rfl h
  exact hrun

omit [HdrHistogram H] in
theorem Overlapped.outputOf (h : Overlapped target s) {ev : LatencyEvent}
    (hev : ev ∈ s.rest.panels.recorded ++ s.rest.inFlight) : ∃ x, OutputOf target s.entered x ∧ x.2.event = ev := by
  obtain ⟨outs, hsourced, hsent⟩ := h.sourced
  rw [← h.queued.recorded] at hev
  have hmem := (RingBuf.taken_sublist s.rest.sent).subset hev
  rw [hsent] at hmem
  obtain ⟨x, hx, hxev⟩ := List.mem_map.1 hmem
  exact ⟨x, hsourced.outputs x (List.mem_append_left _ hx), hxev⟩

/-- Two sends that both find the entry of their process. -/
def bothFound {ncpu : Nat} (c d : Fin ncpu) : HelperCollector CountingHistogram ncpu 31 :=
  [.recvmsg (bareCtx c 100 1 1 0), .recvmsg (bareCtx d 100 2 1 0), .sendmsg (bareCtx c 100 1 2 0),
    .sendmsg (bareCtx d 100 2 2 0)].foldl (fun s p => s.advance p (s.cpus.enter p)) (.init (.init ncpu 0))

/-- The send on `c` is the first to remove it, that on `d` the first to reach the ring. -/
def bothSent {ncpu : Nat} (c d : Fin ncpu) : HelperCollector CountingHistogram ncpu 31 :=
  let v := Cpus.bareEntry
  [.removing (bareCtx c 100 1 2 0) v, .removing (bareCtx d 100 2 2 0) v, .sending (bareCtx d 100 2 2 0) v,
    .sending (bareCtx c 100 1 2 0) v].foldl (fun s pt => s.advance pt.run (s.cpus.resume pt)) (bothFound c d)

theorem reachable_bothSent : Reachable (fun _ _ => True) bulkDecoder asciiUpper 10 (.init 2 0)
    (bothSent (0 : Fin 2) 1) := by
  have hfound : Reachable (fun _ _ => True) bulkDecoder asciiUpper 10 (.init 2 0) (bothFound (0 : Fin 2) 1) :=
    (((Relation.ReflTransGen.single (.enter _ (.recvmsg (bareCtx 0 100 1 1 0)) rfl trivial)).tail
      (.enter _ (.recvmsg (bareCtx 1 100 2 1 0)) rfl trivial)).tail
      (.enter _ (.sendmsg (bareCtx 0 100 1 2 0)) rfl trivial)).tail
      (.enter _ (.sendmsg (bareCtx 1 100 2 2 0)) rfl trivial)
  exact (((hfound.tail (.resume _ (.removing (bareCtx 0 100 1 2 0) Cpus.bareEntry) rfl)).tail
    (.resume _ (.removing (bareCtx 1 100 2 2 0) Cpus.bareEntry) rfl)).tail
    (.resume _ (.sending (bareCtx 1 100 2 2 0) Cpus.bareEntry) rfl)).tail
    (.resume _ (.sending (bareCtx 0 100 1 2 0) Cpus.bareEntry) rfl)

/-- However runs overlap, the books are those of what is recorded. -/
theorem overlapping_books (H : Type) [HdrHistogram H] [LawfulHdrHistogram H] (dec : RespDecoder)
    (up : UpperTable) (intervalSecs : UInt64) (ncpu cap : Nat) (target : UInt32) (m : Maps ncpu)
    (hboot : Booted target m) (ok : Cpus ncpu → ProbeRun ncpu → Prop) (s : HelperCollector H ncpu cap)
    (h : Reachable ok dec up intervalSecs m s) (hcount : s.rest.panels.recorded.length < 2 ^ 64)
    (hbytes : byteSum s.rest.panels.recorded < 2 ^ 64) :
    Books dec up s.rest.panels.recorded s.rest.panels.stores := by
  have hfits : Fits s.rest.panels.recorded := by
    refine ⟨fun ev hev => ?_, hcount, hbytes⟩
    obtain ⟨x, ⟨ctx, v, -, -, -, hx, hlat, -⟩, rfl⟩ := (h.overlapped hboot).outputOf (List.mem_append_left _ hev)
    rw [hx]
    exact hlat
  apply Books.of_forget
  rw [h.panels.stored]
  exact books hfits

/-- What the two sends make, in the order in which they reach the ring. -/
def bothOutputs {ncpu : Nat} (c d : Fin ncpu) : List (Fin ncpu × Output) :=
  [(d, ⟨latencyEvent (bareCtx d 100 2 2 0) Cpus.bareEntry, bpfRbNoWakeup⟩),
    (c, ⟨latencyEvent (bareCtx c 100 1 2 0) Cpus.bareEntry, bpfRbNoWakeup⟩)]

def bothEvents {ncpu : Nat} (c d : Fin ncpu) : List LatencyEvent := (bothOutputs c d).map fun x => x.2.event

theorem metered_bothSent : Metered (bothSent (0 : Fin 2) 1).rest.sys.maps (bothOutputs 0 1) :=
  ⟨Fin.forall_fin_two.2 ⟨rfl, rfl⟩, Fin.forall_fin_two.2 ⟨rfl, rfl⟩⟩

/-- After more requests, enough to wake the reader, both events are recorded. -/
theorem exists_both_recorded : ∃ s : HelperCollector CountingHistogram 2 31,
    Relation.ReflTransGen (Step (fun _ _ => True) bulkDecoder asciiUpper 10) (bothSent (0 : Fin 2) 1) s ∧
      bothEvents (0 : Fin 2) 1 <+: s.rest.panels.recorded ∧
      s.rest.panels.recorded <+: bothEvents (0 : Fin 2) 1 ++ (clientRequests (0 : Fin 2)).map Exchange.event := by
  have hboot : Booted 0 (.init 2 0) := rfl
  have hsent : (bothSent (0 : Fin 2) 1).rest.sent.map Prod.fst = bothEvents (0 : Fin 2) 1 := rfl
  have hsafe : ∀ ev ∈ bothEvents (0 : Fin 2) 1 ++ (clientRequests (0 : Fin 2)).map Exchange.event,
      ¬ CutInside bulkDecoder asciiUpper ev.reqData := by
    intro ev hev hcut
    rcases List.mem_append.1 hev with hev | hev
    · have hnil : (payload ev.reqData).length = 0 := by
        rcases List.mem_pair.1 hev with rfl | rfl <;> rfl
      exact absurd hcut.1 (by omega)
    · obtain ⟨x, hx, rfl⟩ := List.mem_map.1 hev
      exact clientRequests_safe 0 x hx hcut
  have hcnt : ∀ d : Fin 2,
      ((onCpu d (bothOutputs (0 : Fin 2) 1)).length + repliesOn d (clientRequests 0)) % 16 ≤ 1 := by
    simp only [repliesOn_clientRequests]
    decide
  obtain ⟨t, hrun, -, htaken, unread, hrec, hunread⟩ := Collector.exists_recorded (by omega)
    (reachable_bothSent.overlapped hboot).queued reachable_bothSent.panels
    (reachable_bothSent.strands hboot (by omega)) rfl (fun _ => rfl) metered_bothSent (clientRequests 0) (by decide)
    (hsent ▸ hsafe) hcnt
  rw [hsent] at htaken
  have hidle : (bothSent (0 : Fin 2) 1).running = fun _ => none := funext (Fin.forall_fin_two.2 ⟨rfl, rfl⟩)
  obtain ⟨s, hlift, rfl, -, -⟩ := (simulates_collector (fun _ _ => True) bulkDecoder asciiUpper 10
    (fun _ _ _ => trivial)).run ⟨rfl, hidle, rfl⟩ hrun
  have hlen := congrArg List.length (htaken.symm.trans hrec)
  have hall : (bothEvents (0 : Fin 2) 1 ++ (clientRequests (0 : Fin 2)).map Exchange.event).length = 18 := rfl
  have htwo : (bothEvents (0 : Fin 2) 1).length = 2 := rfl
  rw [hall, List.length_append] at hlen
  have hpre : s.rest.panels.recorded <+: bothEvents (0 : Fin 2) 1 ++ (clientRequests (0 : Fin 2)).map Exchange.event :=
    htaken ▸ hrec ▸ List.prefix_append ..
  exact ⟨s, hlift, List.prefix_of_prefix_length_le (List.prefix_append ..) hpre (by omega), hpre⟩

theorem overlapping_books_bothSent : ∃ s : HelperCollector CountingHistogram 2 31,
    Relation.ReflTransGen (Step (fun _ _ => True) bulkDecoder asciiUpper 10) (bothSent (0 : Fin 2) 1) s ∧
      bothEvents (0 : Fin 2) 1 <+: s.rest.panels.recorded ∧
      Books bulkDecoder asciiUpper s.rest.panels.recorded s.rest.panels.stores := by
  obtain ⟨s, hrun, hpre, hall⟩ := exists_both_recorded
  refine ⟨s, hrun, hpre, overlapping_books CountingHistogram bulkDecoder asciiUpper 10 2 31 0 (.init 2 0) rfl
    (fun _ _ => True) s (reachable_bothSent.trans hrun) (hall.length_le.trans_lt ?_)
    ((byteSum_le hall.sublist).trans_lt ?_)⟩
  · decide
  · decide

/-- However runs overlap, the ring has room while the reader neither drains it nor is about to. -/
theorem overlapping_wakeup (H : Type) [HdrHistogram H] (dec : RespDecoder) (up : UpperTable)
    (intervalSecs : UInt64) (ncpu cap : Nat) (hcap : 15 * ncpu < cap) (target : UInt32) (m : Maps ncpu)
    (hboot : Booted target m) (ok : Cpus ncpu → ProbeRun ncpu → Prop) (s : HelperCollector H ncpu cap)
    (h : Reachable ok dec up intervalSecs m s) (hread : s.rest.sys.reader ≠ .collecting)
    (hpend : s.rest.sys.pending = false) :
    s.rest.sys.ring.items.length ≤ 15 * ncpu ∧ ∀ c ev, (s.rest.sys.ring.push c ev).isSome := by
  have hlen := (h.strands hboot hcap).length_le hread hpend
  refine ⟨hlen, fun c ev => ?_⟩
  obtain ⟨ring, hring⟩ := RingBuf.push_isSome (Nat.lt_of_le_of_lt hlen hcap) c ev
  rw [hring]
  rfl

theorem overlapping_wakeup_bothSent : (bothSent (0 : Fin 2) 1).rest.sys.ring.items.length ≤ 15 * 2 :=
  (overlapping_wakeup CountingHistogram bulkDecoder asciiUpper 10 2 31 (by omega) 0 (.init 2 0) rfl (fun _ _ => True)
    (bothSent 0 1) reachable_bothSent (by decide) rfl).1

end HelperCollector

end RedisTracer
