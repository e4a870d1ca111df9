import RedisTracer.HelperSteps
import RedisTracer.CollectorBooks

/-!
# The collector between helper calls

The collector with its probes stopping between their helper calls. The accepted runs are those of one task, so
none overlaps another: a run that ends is a step of `Collector`, and until then the maps are as if it had not
started (`Behind`).
-/

namespace RedisTracer

open Transition

variable {ncpu cap : Nat} {target : UInt32} {H : Type} [HdrHistogram H] {dec : RespDecoder}
  {up : UpperTable} {intervalSecs : UInt64}

/-- `entered` lists the runs as they start, `rest.trace` as they end. -/
structure HelperCollector (H : Type) (ncpu cap : Nat) where
  running : Fin ncpu → Option (ProbePoint ncpu)
  entered : Trace ncpu
  rest : Collector H ncpu cap

def ProbePoint.run : ProbePoint ncpu → ProbeRun ncpu
  | reading ctx _ => .recvmsgRet ctx
  | removing ctx _ => .sendmsg ctx
  | sending ctx _ => .sendmsg ctx

namespace HelperCollector

def init (m : Maps ncpu) : HelperCollector H ncpu cap where
  running _ := none
  entered := []
  rest := .init m

def cpus (s : HelperCollector H ncpu cap) : Cpus ncpu where
  maps := s.rest.sys.maps
  running := s.running
  outputs := []
  entered := s.entered
  trace := []

/-- The CPUs go on to `c` with a step of the run `p`; what is output goes to the ring. -/
def advance (s : HelperCollector H ncpu cap) (p : ProbeRun ncpu) (c : Cpus ncpu) :
    HelperCollector H ncpu cap :=
  let rest := c.outputs.foldl Collector.emit (s.rest.withMaps c.maps)
  { running := c.running
    entered := c.entered
    rest := if (c.running p.ctx.cpu).isNone then { rest with trace := s.rest.trace ++ [p] } else rest }

/-- `ok` says which runs may start. -/
inductive Step (ok : Cpus ncpu → ProbeRun ncpu → Prop) (dec : RespDecoder) (up : UpperTable)
    (intervalSecs : UInt64) : HelperCollector H ncpu cap → HelperCollector H ncpu cap → Prop
  | enter (s : HelperCollector H ncpu cap) (p : ProbeRun ncpu) : s.running p.ctx.cpu = none →
      ok s.cpus p → Step ok dec up intervalSecs s (s.advance p (s.cpus.enter p))
  | resume (s : HelperCollector H ncpu cap) (pt : ProbePoint ncpu) : s.running pt.ctx.cpu = some pt →
      Step ok dec up intervalSecs s (s.advance pt.run (s.cpus.resume pt))
  /-- The reader and the reporter. -/
  | rest (s : HelperCollector H ncpu cap) (t : Collector H ncpu cap) :
      Collector.Step dec up intervalSecs s.rest t → t.trace = s.rest.trace →
      Step ok dec up intervalSecs s { s with rest := t }

def Reachable (ok : Cpus ncpu → ProbeRun ncpu → Prop) (dec : RespDecoder) (up : UpperTable)
    (intervalSecs : UInt64) (m : Maps ncpu) : HelperCollector H ncpu cap → Prop :=
  Relation.ReflTransGen (Step ok dec up intervalSecs) (init m)

end HelperCollector

/-! ### The maps before the run in flight -/

/-- The maps `m` are those of a run at `pt` that found the maps `before`. -/
def ProbePoint.Behind (before m : Maps ncpu) : ProbePoint ncpu → Prop
  | reading ctx iovBase => m = before ∧ (reading ctx iovBase).Found before
  | removing ctx v => m = before ∧ (removing ctx v).Found before
  | sending ctx v => before.reqCtx.get ctx.tgid = some v ∧ ctx.ktimeNs - v.startNs ≤ 10_000_000_000 ∧
      m = { before with reqCtx := before.reqCtx.remove ctx.tgid }

theorem ProbePoint.Behind.targetPid {before m : Maps ncpu} {pt : ProbePoint ncpu} (h : pt.Behind before m) :
    m.targetPid = before.targetPid := by
  cases pt with
  | reading ctx iovBase => rw [h.1]
  | removing ctx v => rw [h.1]
  | sending ctx v => rw [h.2.2]

theorem ProbePoint.Found.behind {m : Maps ncpu} {pt : ProbePoint ncpu} (hpt : pt.Holds) (h : pt.Found m) :
    pt.Behind m m := by
  cases pt with
  | reading ctx iovBase => exact ⟨rfl, h⟩
  | removing ctx v => exact ⟨rfl, h⟩
  | sending ctx v => exact absurd hpt id

/-- One run is in flight at most, and before it the maps were `before`. -/
structure HelperCollector.Behind (target : UInt32) (s : HelperCollector H ncpu cap) (before : Maps ncpu) :
    Prop where
  filter : before.targetPid = #v[target]
  flight : (s.running = fun _ => none) ∧ s.rest.sys.maps = before ∨ ∃ pt, accepts target pt.ctx.pid = true ∧
    s.running = Function.update (fun _ => none) pt.ctx.cpu (some pt) ∧ pt.Behind before s.rest.sys.maps

/-! ### The simulation -/

namespace HelperCollector

variable {s s' : HelperCollector H ncpu cap} {t : Collector H ncpu cap} {p : ProbeRun ncpu} {c : Cpus ncpu}
  {m before : Maps ncpu}

omit [HdrHistogram H] in
theorem advance_maps (s : HelperCollector H ncpu cap) (p : ProbeRun ncpu) (c : Cpus ncpu) :
    (s.advance p c).rest.sys.maps = c.maps := by
  unfold advance
  dsimp only
  split <;> exact Collector.foldl_emit_maps c.outputs _

omit [HdrHistogram H] in
theorem advance_panels (s : HelperCollector H ncpu cap) (p : ProbeRun ncpu) (c : Cpus ncpu) :
    (s.advance p c).rest.panels = s.rest.panels := by
  unfold advance
  dsimp only
  split <;> exact Collector.foldl_emit_panels c.outputs _

omit [HdrHistogram H] in
/-- The end of a run is a run of the collector on the maps before it. -/
theorem advance_run (hend : c.running p.ctx.cpu = none) (hout : c.outputs = p.outputs before) :
    (s.advance p c).rest.withMaps (p.step before) = (s.rest.withMaps before).run p := by
  have hemit := Collector.foldl_emit_withMaps (p.outputs before) (s.rest.withMaps c.maps) (p.step before)
  unfold advance
  rw [hend, hout]
  show { ((p.outputs before).foldl Collector.emit (s.rest.withMaps c.maps)).withMaps (p.step before) with
    trace := s.rest.trace ++ [p] } = _
  rw [← hemit]
  rfl

theorem advance_end (hend : c.running p.ctx.cpu = none) (hout : c.outputs = p.outputs before) :
    Collector.Step dec up intervalSecs (s.rest.withMaps before)
      ((s.advance p c).rest.withMaps (p.step before)) := by
  rw [advance_run hend hout, Collector.run_eq]
  exact .probe _ p

omit [HdrHistogram H] in
/-- Where the maps are those of the run, it is one of the collector. -/
theorem rest_advance (hrest : s.rest.withMaps before = t) (hmaps : c.maps = p.step before)
    (hend : c.running p.ctx.cpu = none) (hout : c.outputs = p.outputs before) : (s.advance p c).rest = t.run p := by
  have hkeep : (s.advance p c).rest.withMaps (p.step before) = (s.advance p c).rest := by
    rw [← hmaps, ← advance_maps s p c]
    rfl
  rw [← hkeep, advance_run hend hout, hrest]

omit [HdrHistogram H] in
theorem advance_stop (hstop : c.running p.ctx.cpu ≠ none) (hout : c.outputs = []) :
    (s.advance p c).rest = s.rest.withMaps c.maps := by
  have hsome : ¬ (c.running p.ctx.cpu).isNone = true := by simpa using hstop
  simp only [advance, hout, if_neg hsome]
  rfl

theorem filtered_run (hm : m.targetPid = #v[target]) (hacc : accepts target p.ctx.pid = false) :
    p.step m = m ∧ p.outputs m = [] := by
  have hpid : isTargetPid m p.ctx.pid = false := (isTargetPid_eq hm _).trans hacc
  cases p with
  | recvmsg ctx =>
    have hpid : isTargetPid m ctx.pid = false := hpid
    exact ⟨by simp [ProbeRun.step, tryOnRecvmsg, hpid], rfl⟩
  | recvmsgRet ctx =>
    have hpid : isTargetPid m ctx.pid = false := hpid
    exact ⟨by simp [ProbeRun.step, tryOnRecvmsgRet, hpid], rfl⟩
  | sendmsg ctx =>
    have hpid : isTargetPid m ctx.pid = false := hpid
    exact ⟨by simp [ProbeRun.step, tryOnSendmsg, hpid], outputs_of_none (by simp [tryOnSendmsg, hpid])⟩

/-- A send that finds an entry in time. -/
theorem sent_run {ctx : ProbeCtx ncpu} {v : ReqCtx} (hm : m.targetPid = #v[target])
    (hacc : accepts target ctx.pid = true) (hget : m.reqCtx.get ctx.tgid = some v)
    (hlat : ctx.ktimeNs - v.startNs ≤ 10_000_000_000) :
    (ProbeRun.sendmsg ctx).step m = { m with
        reqCtx := m.reqCtx.remove ctx.tgid
        batchCnt := Function.update m.batchCnt ctx.cpu
          #v[(nextBatch ((m.batchCnt ctx.cpu)[0]?.getD 0)).1] } ∧
      (ProbeRun.sendmsg ctx).outputs m =
        [(ctx.cpu, ⟨latencyEvent ctx v, (nextBatch ((m.batchCnt ctx.cpu)[0]?.getD 0)).2⟩)] := by
  have hsend := (Cpus.tryOnSendmsg_found hm hacc hget m.batchCnt).trans (if_neg (UInt64.not_lt.2 hlat))
  exact ⟨congrArg (fun r => r.2.1) hsend, outputs_of_some (congrArg (fun r => r.2.2) hsend)⟩

theorem resume_removing (s : Cpus ncpu) {ctx : ProbeCtx ncpu} {v : ReqCtx}
    (hlate : ¬ ctx.ktimeNs - v.startNs > 10_000_000_000) :
    (s.resume (.removing ctx v)).maps = { s.maps with reqCtx := s.maps.reqCtx.remove ctx.tgid } ∧
      (s.resume (.removing ctx v)).running = Function.update s.running ctx.cpu (some (.sending ctx v)) ∧
      (s.resume (.removing ctx v)).outputs = s.outputs := by
  have heq : s.resume (.removing ctx v) = (s.done (.sendmsg ctx) { s.maps with
      reqCtx := s.maps.reqCtx.remove ctx.tgid }).stop (.sending ctx v) := if_neg hlate
  rw [heq]
  exact ⟨rfl, Function.update_idem .., rfl⟩

/-- A send that has removed the entry ends as it does in one step. -/
theorem resume_sending_run {s : Cpus ncpu} {ctx : ProbeCtx ncpu} {v : ReqCtx} (hm : before.targetPid = #v[target])
    (hacc : accepts target ctx.pid = true) (hpt : (ProbePoint.sending ctx v).Behind before s.maps) :
    (s.resume (.sending ctx v)).maps = (ProbeRun.sendmsg ctx).step before ∧
      (s.resume (.sending ctx v)).outputs = s.outputs ++ (ProbeRun.sendmsg ctx).outputs before ∧
      (s.resume (.sending ctx v)).running = Function.update s.running ctx.cpu none := by
  obtain ⟨hget, hlat, hmaps⟩ := hpt
  obtain ⟨hafter, hrun, hout⟩ := Cpus.resume_sending s ctx v
  obtain ⟨hstep, hone⟩ := sent_run hm hacc hget hlat
  have hcnt : s.cnt ctx.cpu = (before.batchCnt ctx.cpu)[0]?.getD 0 := by rw [Cpus.cnt, hmaps]
  rw [hcnt] at hafter hout
  rw [hafter, hstep, hmaps, hout, hone]
  exact ⟨rfl, rfl, hrun⟩

namespace Behind

theorem ended (hfilter : before.targetPid = #v[target]) (hmaps : c.maps = p.step before)
    (hrun : c.running = fun _ => none) (hout : c.outputs = p.outputs before) :
    Collector.Step dec up intervalSecs (s.rest.withMaps before) ((s.advance p c).rest.withMaps (p.step before)) ∧
      Behind target (s.advance p c) (p.step before) := by
  refine ⟨advance_end (by rw [hrun]) hout, (targetPid_step before p).trans hfilter, .inl ⟨hrun, ?_⟩⟩
  rw [advance_maps, hmaps]

/-- A run that is over with no output: the collector makes it in one step. -/
theorem of_over {s₁ : Cpus ncpu} (hover : Cpus.Over s₁ c p) (hfilter : s₁.maps.targetPid = #v[target])
    (hrun : Function.update s₁.running p.ctx.cpu none = fun _ => none) (hout : s₁.outputs = []) : ∃ before',
      Relation.ReflTransGen (Collector.Step dec up intervalSecs) (s.rest.withMaps s₁.maps)
        ((s.advance p c).rest.withMaps before') ∧ Behind target (s.advance p c) before' := by
  obtain ⟨hmaps, -, hrun₁, hout₁, -⟩ := hover.targets
  have hnil : p.outputs s₁.maps = [] := hover.outputs s₁.maps.batchCnt
  obtain ⟨hstep, hbehind⟩ := ended (s := s) hfilter hmaps (hrun₁.trans hrun) (hout₁.trans (hout.trans hnil.symm))
  exact ⟨_, .single hstep, hbehind⟩

omit [HdrHistogram H] in
theorem stopped (hfilter : before.targetPid = #v[target]) {pt : ProbePoint ncpu} (hctx : p.ctx = pt.ctx)
    (hacc : accepts target pt.ctx.pid = true)
    (hrun : c.running = Function.update (fun _ => none) pt.ctx.cpu (some pt)) (hout : c.outputs = [])
    (hpt : pt.Behind before c.maps) :
    (s.advance p c).rest.withMaps before = s.rest.withMaps before ∧ Behind target (s.advance p c) before := by
  have hstop : c.running p.ctx.cpu ≠ none := by
    rw [hrun, hctx, Function.update_self]
    exact Option.some_ne_none pt
  refine ⟨by rw [advance_stop hstop hout]; rfl, hfilter, .inr ⟨pt, hacc, hrun, ?_⟩⟩
  rwa [advance_maps]

omit [HdrHistogram H] in
theorem targetPid (h : Behind target s before) : s.rest.sys.maps.targetPid = #v[target] := by
  rcases h.flight with ⟨-, hmaps⟩ | ⟨pt, -, -, hpt⟩
  · rw [hmaps]
    exact h.filter
  · rw [hpt.targetPid]
    exact h.filter

omit [HdrHistogram H] in
/-- A run of the task starts when no other is in flight. -/
theorem idle (h : Behind target s before) (hne : target ≠ 0) (hone : Cpus.OneRun s.cpus p)
    (hacc : accepts target p.ctx.pid = true) : (s.running = fun _ => none) ∧ s.rest.sys.maps = before := by
  rcases h.flight with hidle | ⟨pt, hacc', hrun, -⟩
  · exact hidle
  · have hs : s.running pt.ctx.cpu = some pt := by rw [hrun, Function.update_self]
    have hpid : pt.ctx.pid = p.ctx.pid :=
      ((accepts_of_ne_zero hne).1 hacc').trans ((accepts_of_ne_zero hne).1 hacc).symm
    exact absurd hpid (hone _ pt hs)

omit [HdrHistogram H] in
theorem inFlight (h : Behind target s before) {d : Fin ncpu} {pt : ProbePoint ncpu} (hs : s.running d = some pt) :
    accepts target pt.ctx.pid = true ∧ s.running = Function.update (fun _ => none) pt.ctx.cpu (some pt) ∧
      pt.Behind before s.rest.sys.maps := by
  rcases h.flight with ⟨hidle, -⟩ | ⟨pt', hacc, hrun, hpt⟩
  · rw [hidle] at hs
    cases hs
  · rw [hrun, Function.update_apply] at hs
    split at hs
    · cases hs
      exact ⟨hacc, hrun, hpt⟩
    · cases hs

theorem enter (dec : RespDecoder) (up : UpperTable) (intervalSecs : UInt64) (h : Behind target s before)
    (hne : target ≠ 0) (hidle : s.running p.ctx.cpu = none) (hone : Cpus.OneRun s.cpus p) : ∃ before',
      Relation.ReflTransGen (Collector.Step dec up intervalSecs) (s.rest.withMaps before)
        ((s.advance p (s.cpus.enter p)).rest.withMaps before') ∧
      Behind target (s.advance p (s.cpus.enter p)) before' := by
  rcases Cpus.enter_cases (s := s.cpus) h.targetPid p with hover | ⟨pt, heq, hctx, hpt, -, hacc, hfound⟩
  · obtain ⟨hmaps, -, hrun, hout, -⟩ := hover.targets
    have hrun : (s.cpus.enter p).running = s.running :=
      hrun.trans (Function.update_eq_self_iff.2 hidle.symm)
    cases hacc : accepts target p.ctx.pid with
    | false =>
      obtain ⟨hkeep, -⟩ := filtered_run h.targetPid hacc
      obtain ⟨hbefore, hnil⟩ := filtered_run h.filter hacc
      have hsame : (s.advance p (s.cpus.enter p)).rest.sys.maps = s.rest.sys.maps :=
        (advance_maps ..).trans (hmaps.trans hkeep)
      have hrun' : (s.advance p (s.cpus.enter p)).running = s.running := hrun
      refine ⟨p.step before, .single (advance_end (by rw [hrun, hidle]) (hout.trans hnil.symm)), ?_⟩
      refine ⟨by rw [hbefore, h.filter], ?_⟩
      rw [hbefore, hrun', hsame]
      exact h.flight
    | true =>
      obtain ⟨hnone, hsame⟩ := h.idle hne hone hacc
      subst hsame
      exact of_over hover h.filter ((Function.update_eq_self_iff.2 hidle.symm).trans hnone) rfl
  · obtain ⟨hnone, hsame⟩ := h.idle hne hone hacc
    subst hsame
    obtain ⟨hsame, hbehind⟩ := stopped (s := s) (p := p) (c := s.cpus.enter p) h.filter hctx.symm
      (by rwa [hctx]) (by rw [heq, ← hnone]; rfl) (by rw [heq]; rfl) (by rw [heq]; exact hfound.behind hpt)
    exact ⟨_, by rw [hsame], hbehind⟩

theorem resume (dec : RespDecoder) (up : UpperTable) (intervalSecs : UInt64) (h : Behind target s before)
    {pt : ProbePoint ncpu} (hs : s.running pt.ctx.cpu = some pt) : ∃ before',
      Relation.ReflTransGen (Collector.Step dec up intervalSecs) (s.rest.withMaps before)
        ((s.advance pt.run (s.cpus.resume pt)).rest.withMaps before') ∧
      Behind target (s.advance pt.run (s.cpus.resume pt)) before' := by
  obtain ⟨hacc, hrun, hpt⟩ := h.inFlight hs
  have hended : Function.update s.running pt.ctx.cpu none = fun _ => none := by
    rw [hrun, Function.update_idem]
    exact Function.update_eq_self pt.ctx.cpu fun _ => none
  cases pt with
  | reading ctx iovBase =>
    obtain ⟨hmaps, hfound⟩ := hpt
    subst hmaps
    exact of_over (Cpus.over_reading (s := s.cpus) h.filter hacc hfound) h.filter hended rfl
  | removing ctx v =>
    obtain ⟨hmaps, hget⟩ := hpt
    subst hmaps
    by_cases hlate : ctx.ktimeNs - v.startNs > 10_000_000_000
    · exact of_over (Cpus.over_removing (s := s.cpus) h.filter hacc hget hlate) h.filter hended rfl
    · obtain ⟨hafter, hrun', hout⟩ := resume_removing s.cpus hlate
      have hctx : (ProbeRun.sendmsg ctx).ctx = (ProbePoint.sending ctx v).ctx := rfl
      have hstop : (s.cpus.resume (.removing ctx v)).running = Function.update (fun _ => none) ctx.cpu
          (some (.sending ctx v)) := by
        rw [hrun', ← hended]
        exact (Function.update_idem ..).symm
      obtain ⟨hsame, hbehind⟩ := stopped (s := s) h.filter hctx hacc hstop hout
        ⟨hget, UInt64.not_lt.1 hlate, hafter⟩
      exact ⟨_, by rw [← hsame]; exact .refl, hbehind⟩
  | sending ctx v =>
    obtain ⟨hmaps, hout, hrun'⟩ := resume_sending_run (s := s.cpus) h.filter hacc hpt
    obtain ⟨hstep, hbehind⟩ := ended (s := s) h.filter hmaps (hrun'.trans hended) hout
    exact ⟨_, .single hstep, hbehind⟩

end Behind

omit [HdrHistogram H] in
theorem booted_maps (hboot : Booted target m) : m.targetPid = #v[target] ∧ m.reqCtx = .empty ∧
    m.batchCnt = (Maps.init ncpu target).batchCnt := by
  have h : { m with flamegraphOn := .empty } = Maps.init ncpu target := hboot
  have hpid := congrArg Maps.targetPid h
  have hreq := congrArg Maps.reqCtx h
  have hcnt := congrArg Maps.batchCnt h
  exact ⟨hpid, hreq, hcnt⟩

/-- A stop between helper calls shows in the maps only, and no longer than the run lasts: all else is that of a
state of `Collector`, where a run is one step. -/
theorem collector_between_helpers (H : Type) [HdrHistogram H] (dec : RespDecoder) (up : UpperTable)
    (intervalSecs : UInt64) (ncpu cap : Nat) (target : UInt32) (hne : target ≠ 0) (m : Maps ncpu)
    (hboot : Booted target m) (s : HelperCollector H ncpu cap) (h : Reachable Cpus.OneRun dec up intervalSecs m s) :
    ∃ maps, Collector.Reachable dec up intervalSecs m (s.rest.withMaps maps) ∧
      ((∀ c, s.running c = none) → maps = s.rest.sys.maps) := by
  have hsim : Simulates (Step Cpus.OneRun dec up intervalSecs) (Collector.Step dec up intervalSecs)
      fun (s : HelperCollector H ncpu cap) t => ∃ before, t = s.rest.withMaps before ∧ Behind target s before := by
    rintro s t s' ⟨before, rfl, hb⟩ hstep
    cases hstep with
    | enter p hidle hone =>
      obtain ⟨before', hrun, hb'⟩ := hb.enter dec up intervalSecs hne hidle hone
      exact ⟨_, hrun, before', rfl, hb'⟩
    | resume pt hs =>
      obtain ⟨before', hrun, hb'⟩ := hb.resume dec up intervalSecs hs
      exact ⟨_, hrun, before', rfl, hb'⟩
    | rest t hstep htrace =>
      obtain ⟨hmaps, -, hmirror⟩ := hstep.rest htrace
      exact ⟨_, .single (hmirror before), before, rfl, hb.filter, hmaps ▸ hb.flight⟩
  have hinit : Behind target (HelperCollector.init m : HelperCollector H ncpu cap) m :=
    ⟨(booted_maps hboot).1, .inl ⟨rfl, rfl⟩⟩
  obtain ⟨t, hrun, before, rfl, hb⟩ := hsim.run ⟨m, rfl, hinit⟩ h
  refine ⟨before, hrun, fun hidle => ?_⟩
  rcases hb.flight with ⟨-, hmaps⟩ | ⟨pt, -, hpt, -⟩
  · exact hmaps.symm
  · have hnone := hidle pt.ctx.cpu
    rw [hpt, Function.update_self] at hnone
    cases hnone

/-! ### Runs on their own -/

omit [HdrHistogram H] in
theorem rest_over {s₁ : Cpus ncpu} (hover : Cpus.Over s₁ c p) (hmaps : s₁.maps = s.rest.sys.maps)
    (hrun : Function.update s₁.running p.ctx.cpu none = fun _ => none) (hout : s₁.outputs = []) :
    (s.advance p c).rest = s.rest.run p ∧ (s.advance p c).running = fun _ => none := by
  obtain ⟨hmaps', -, hrun', hout', -⟩ := hover.targets
  have hrest : s.rest.withMaps s₁.maps = s.rest := by rw [hmaps]; rfl
  have hnil : p.outputs s₁.maps = [] := hover.outputs s₁.maps.batchCnt
  have hended : c.running = fun _ => none := hrun'.trans hrun
  exact ⟨rest_advance hrest hmaps' (by rw [hended]) (hout'.trans (hout.trans hnil.symm)), hended⟩

/-- A send that has removed its entry, while no other run is in flight, ends in one step. -/
theorem exists_sent (ok : Cpus ncpu → ProbeRun ncpu → Prop) (dec : RespDecoder) (up : UpperTable)
    (intervalSecs : UInt64) {ctx : ProbeCtx ncpu} {v : ReqCtx} (hm : before.targetPid = #v[target])
    (hrun : s.running = Function.update (fun _ => none) ctx.cpu (some (.sending ctx v)))
    (hacc : accepts target ctx.pid = true) (hrest : s.rest.withMaps before = t)
    (hbehind : (ProbePoint.sending ctx v).Behind before s.cpus.maps) :
    ∃ s', Step ok dec up intervalSecs s s' ∧ s'.rest = t.run (.sendmsg ctx) ∧ s'.running = fun _ => none := by
  have hat : s.running ctx.cpu = some (.sending ctx v) := by rw [hrun, Function.update_self]
  obtain ⟨hmaps, hout, hrun'⟩ := resume_sending_run hm hacc hbehind
  have hidle : (s.cpus.resume (.sending ctx v)).running = fun _ => none := by
    refine hrun'.trans ?_
    show Function.update s.running ctx.cpu none = _
    rw [hrun, Function.update_idem]
    exact Function.update_eq_self ctx.cpu fun _ => none
  exact ⟨_, .resume s (.sending ctx v) hat, rest_advance (p := .sendmsg ctx) hrest hmaps (by rw [hidle]) hout, hidle⟩

/-- A run that is at `pt`, and no other is, goes on to its end. -/
theorem exists_resumed (ok : Cpus ncpu → ProbeRun ncpu → Prop) (dec : RespDecoder) (up : UpperTable)
    (intervalSecs : UInt64) {pt : ProbePoint ncpu} (hm : s.rest.sys.maps.targetPid = #v[target])
    (hrun : s.running = Function.update (fun _ => none) pt.ctx.cpu (some pt))
    (hacc : accepts target pt.ctx.pid = true) (hholds : pt.Holds) (hfound : pt.Found s.rest.sys.maps) :
    ∃ s', Relation.ReflTransGen (Step ok dec up intervalSecs) s s' ∧ s'.rest = s.rest.run pt.run ∧
      s'.running = fun _ => none := by
  have hat : s.running pt.ctx.cpu = some pt := by rw [hrun, Function.update_self]
  have hended : Function.update s.running pt.ctx.cpu none = fun _ => none := by
    rw [hrun, Function.update_idem]
    exact Function.update_eq_self pt.ctx.cpu fun _ => none
  have hfirst : Step ok dec up intervalSecs s (s.advance pt.run (s.cpus.resume pt)) := .resume s pt hat
  cases pt with
  | reading ctx iovBase =>
    obtain ⟨hrest, hidle⟩ := rest_over (s := s) (Cpus.over_reading (s := s.cpus) hm hacc hfound) rfl hended rfl
    exact ⟨_, .single hfirst, hrest, hidle⟩
  | removing ctx v =>
    by_cases hlate : ctx.ktimeNs - v.startNs > 10_000_000_000
    · have hover := Cpus.over_removing (s := s.cpus) hm hacc hfound hlate
      obtain ⟨hrest, hidle⟩ := rest_over (s := s) hover rfl hended rfl
      exact ⟨_, .single hfirst, hrest, hidle⟩
    · obtain ⟨hafter, hrun₁, hout₁⟩ := resume_removing s.cpus hlate
      obtain ⟨u, hu⟩ : ∃ u, s.advance (.sendmsg ctx) (s.cpus.resume (.removing ctx v)) = u := ⟨_, rfl⟩
      have hrun_u : u.running = Function.update (fun _ => none) ctx.cpu (some (.sending ctx v)) := by
        rw [← hu]
        refine hrun₁.trans ?_
        show Function.update s.running ctx.cpu _ = _
        rw [hrun]
        exact Function.update_idem ..
      have hmaps_u : u.rest.sys.maps = { s.rest.sys.maps with reqCtx := s.rest.sys.maps.reqCtx.remove ctx.tgid } := by
        rw [← hu, advance_maps, hafter]
        rfl
      have hrest_u : u.rest.withMaps s.rest.sys.maps = s.rest := by
        have hstop : (s.cpus.resume (.removing ctx v)).running ctx.cpu ≠ none := by
          rw [hrun₁, Function.update_self]
          exact Option.some_ne_none _
        rw [← hu, advance_stop (p := .sendmsg ctx) hstop hout₁]
        rfl
      obtain ⟨s', hstep, hrest, hidle⟩ := exists_sent ok dec up intervalSecs hm hrun_u hacc hrest_u
        ⟨hfound, UInt64.not_lt.1 hlate, hmaps_u⟩
      exact ⟨s', .tail (.single (hu ▸ hfirst)) hstep, hrest, hidle⟩
  | sending ctx v => exact absurd hholds id

/-- A run of the collector is one with the stops, while no other is in flight. -/
theorem exists_run (ok : Cpus ncpu → ProbeRun ncpu → Prop) (dec : RespDecoder) (up : UpperTable)
    (intervalSecs : UInt64) (hok : ok s.cpus p) (hm : s.rest.sys.maps.targetPid = #v[target])
    (hidle : s.running = fun _ => none) : ∃ s', Relation.ReflTransGen (Step ok dec up intervalSecs) s s' ∧
      s'.rest = s.rest.run p ∧ s'.running = fun _ => none := by
  have hfirst : Step ok dec up intervalSecs s (s.advance p (s.cpus.enter p)) := .enter s p (by rw [hidle]) hok
  rcases Cpus.enter_cases (s := s.cpus) hm p with hover | ⟨pt, heq, hctx, hpt, hahead, hacc, hfound⟩
  · have hrun : Function.update s.running p.ctx.cpu none = fun _ => none := by
      rw [hidle]
      exact Function.update_eq_self p.ctx.cpu fun _ => none
    obtain ⟨hrest, hidle'⟩ := rest_over (s := s) hover rfl hrun rfl
    exact ⟨_, .single hfirst, hrest, hidle'⟩
  · have hrun : (s.cpus.enter p).running = Function.update (fun _ => none) pt.ctx.cpu (some pt) := by
      rw [heq, ← hidle]
      rfl
    have hstop : (s.advance p (s.cpus.enter p)).rest = s.rest := by
      rw [advance_stop (by rw [hrun, ← hctx, Function.update_self]; simp) (by rw [heq]; rfl), heq]
      rfl
    obtain ⟨s', hsteps, hrest, hidle'⟩ := exists_resumed ok dec up intervalSecs (s := s.advance p (s.cpus.enter p))
      (by rw [hstop]; exact hm) hrun (by rwa [hctx]) hpt (by rw [hstop]; exact hfound)
    have hp : pt.run = p := by
      cases pt with
      | reading ctx iovBase => exact List.cons.inj hahead |>.1
      | removing ctx v => exact List.cons.inj hahead |>.1
      | sending ctx v => exact absurd hpt id
    rw [hstop, hp] at hrest
    exact ⟨s', .head hfirst hsteps, hrest, hidle'⟩

/-- So the collector with the stops has all the runs of `Collector`. -/
theorem simulates_collector (ok : Cpus ncpu → ProbeRun ncpu → Prop) (dec : RespDecoder) (up : UpperTable)
    (intervalSecs : UInt64) (hok : ∀ (c : Cpus ncpu) p, (c.running = fun _ => none) → ok c p) :
    Simulates (Collector.Step dec up intervalSecs) (Step ok dec up intervalSecs)
      fun t (s : HelperCollector H ncpu cap) =>
        s.rest = t ∧ (s.running = fun _ => none) ∧ t.sys.maps.targetPid = #v[target] := by
  rintro t s t' ⟨rfl, hidle, hm⟩ hstep
  by_cases htrace : t'.trace = s.rest.trace
  · obtain ⟨hmaps, -, -⟩ := hstep.rest htrace
    exact ⟨{ s with rest := t' }, .single (.rest s t' hstep htrace), rfl, hidle, hmaps ▸ hm⟩
  · cases hstep with
    | probe p =>
      obtain ⟨s', hrun, hrest, hidle'⟩ := exists_run ok dec up intervalSecs (hok s.cpus p hidle) hm hidle
      refine ⟨s', hrun, hrest.trans (Collector.run_eq s.rest p), hidle', ?_⟩
      rw [← Collector.run_eq, Collector.run_maps, targetPid_step]
      exact hm
    | wake | collect | drained | idle | handOver | panels => exact absurd rfl htrace

/-- A send of the task 101 that has removed the entry, while another task makes a receive. -/
def removed {ncpu : Nat} (c d : Fin ncpu) : HelperCollector CountingHistogram ncpu 16 :=
  let s : HelperCollector CountingHistogram ncpu 16 := .init (.init ncpu 101)
  let s := s.advance (.recvmsg (bareCtx c 100 101 1 0)) (s.cpus.enter (.recvmsg (bareCtx c 100 101 1 0)))
  let s := s.advance (.sendmsg (bareCtx c 100 101 2 0)) (s.cpus.enter (.sendmsg (bareCtx c 100 101 2 0)))
  let s := s.advance (.recvmsg (bareCtx d 200 201 2 0)) (s.cpus.enter (.recvmsg (bareCtx d 200 201 2 0)))
  s.advance (.sendmsg (bareCtx c 100 101 2 0)) (s.cpus.resume (.removing (bareCtx c 100 101 2 0) Cpus.bareEntry))

theorem collector_between_helpers_removed : (removed (0 : Fin 2) 1).rest.trace.length = 2 ∧ ∃ maps,
    Collector.Reachable bulkDecoder asciiUpper 10 (.init 2 101) ((removed (0 : Fin 2) 1).rest.withMaps maps) := by
  have hreach : Reachable Cpus.OneRun bulkDecoder asciiUpper 10 (.init 2 101) (removed (0 : Fin 2) 1) := by
    refine (((Relation.ReflTransGen.single (.enter _ _ rfl ?_)).tail (.enter _ _ rfl ?_)).tail
      (.enter _ _ rfl ?_)).tail (.resume _ (.removing (bareCtx 0 100 101 2 0) Cpus.bareEntry) rfl)
    · rintro c pt ⟨⟩
    · refine Fin.forall_fin_two.2 ⟨?_, ?_⟩
      · rintro pt ⟨⟩
      · rintro pt ⟨⟩
    · refine Fin.forall_fin_two.2 ⟨?_, ?_⟩
      · rintro pt ⟨⟩
        decide
      · rintro pt ⟨⟩
  obtain ⟨maps, h, -⟩ := collector_between_helpers CountingHistogram bulkDecoder asciiUpper 10 2 16 101 (by decide)
    (.init 2 101) rfl (removed 0 1) hreach
  exact ⟨rfl, maps, h⟩

end HelperCollector

end RedisTracer
