import RedisTracer.Outputs
import RedisTracer.PanelOrder
import RedisTracer.Lib.Transition

/-!
# The collector

The probes, the ring, the reader and the reporter as one system. The reader passes its batch on by a
step of `Sys` and of `Panels` at once; all other steps are of one of the two, so a run is a run of each
(`Reachable.sys`, `Reachable.panels`). `Queued` is the invariant of the records: those the ring took are
those recorded, those in the batches and those unread, in this order. `Delivered` adds that `trace` sent them.
-/

namespace RedisTracer

open RingBuf

variable {ncpu cap : Nat} {target : UInt32} {H : Type} [HdrHistogram H] {dec : RespDecoder}
  {up : UpperTable} {intervalSecs : UInt64}

/-- `sent` lists the `LATENCY_RINGBUF.output` calls of `trace`; the flag says that the ring took the
record. -/
structure Collector (H : Type) (ncpu cap : Nat) where
  sys : Sys ncpu cap
  panels : Panels H
  trace : Trace ncpu
  sent : List (LatencyEvent × Bool)

/-- The program as `main` leaves it: nothing has run, and the filter is set to `target`. -/
def Booted (target : UInt32) (m : Maps ncpu) : Prop :=
  { m with flamegraphOn := .empty } = Maps.init ncpu target

/-- What the ring does with the outputs of a run. -/
def Sys.outcome (s : Sys ncpu cap) (p : ProbeRun ncpu) : List (LatencyEvent × Bool) :=
  (p.outputs s.maps).map fun x => (x.2.event, (s.ring.push x.1 x.2.event).isSome)

/-- The reader is done with its batch. -/
def Sys.passed (s : Sys ncpu cap) : Sys ncpu cap :=
  { s with reader := .asleep, batch := [], processed := s.processed ++ [s.batch] }

/-- The events of the batch that are not recorded yet. -/
def ReaderPoint.unrecorded : ReaderPoint → List LatencyEvent
  | acquiring _ batch => batch
  | recording _ rest => rest
  | _ => []

namespace Collector

def init (m : Maps ncpu) : Collector H ncpu cap where
  sys := { Sys.init ncpu cap 0 with maps := m }
  panels := .init
  trace := []
  sent := []

inductive Step (dec : RespDecoder) (up : UpperTable) (intervalSecs : UInt64) :
    Collector H ncpu cap → Collector H ncpu cap → Prop
  | probe (s : Collector H ncpu cap) (p : ProbeRun ncpu) : Step dec up intervalSecs s
      { s with sys := s.sys.probe p, trace := s.trace ++ [p], sent := s.sent ++ s.sys.outcome p }
  | wake (s : Collector H ncpu cap) : s.sys.reader = .asleep → s.sys.pending = true →
      s.panels.reader = .collecting → Step dec up intervalSecs s
      { s with sys := { s.sys with reader := .collecting, pending := false } }
  | collect (s : Collector H ncpu cap) (ev : LatencyEvent) (ring : RingBuf (Fin ncpu) LatencyEvent cap) :
      s.sys.reader = .collecting → s.sys.ring.pop = some (ev, ring) → Step dec up intervalSecs s
      { s with sys := { s.sys with ring := ring, batch := s.sys.batch ++ [ev] } }
  | drained (s : Collector H ncpu cap) : s.sys.reader = .collecting → s.sys.ring.pop = none →
      Step dec up intervalSecs s { s with sys := { s.sys with reader := .processing } }
  | idle (s : Collector H ncpu cap) : s.sys.reader = .processing → s.sys.batch = [] →
      Step dec up intervalSecs s { s with sys := s.sys.passed }
  | handOver (s : Collector H ncpu cap) : s.sys.reader = .processing → s.sys.batch ≠ [] →
      s.panels.reader = .collecting → Step dec up intervalSecs s
      { s with sys := s.sys.passed, panels := { s.panels with reader := .acquiring .stats s.sys.batch } }
  /-- Work on a batch handed over, and the reporter. -/
  | panels (s : Collector H ncpu cap) (panels : Panels H) :
      Panels.Step dec up intervalSecs s.panels panels →
      (s.panels.reader = .collecting → panels.reader = .collecting) →
      Step dec up intervalSecs s { s with panels := panels }

def Reachable (dec : RespDecoder) (up : UpperTable) (intervalSecs : UInt64) (m : Maps ncpu) :
    Collector H ncpu cap → Prop := Relation.ReflTransGen (Step dec up intervalSecs) (init m)

end Collector

/-! ### The switch of the flame graph -/

/-- The latency probes neither read nor write `FLAMEGRAPH_ON`. -/
theorem step_flamegraphOn (p : ProbeRun ncpu) (m : Maps ncpu) (on : BoundedMap UInt32 UInt32 1) :
    p.step { m with flamegraphOn := on } = { p.step m with flamegraphOn := on } ∧
      p.outputs { m with flamegraphOn := on } = p.outputs m := by
  have hpid : ∀ pid, isTargetPid { m with flamegraphOn := on } pid = isTargetPid m pid := fun _ => rfl
  cases p with
  | recvmsg ctx =>
    refine ⟨?_, rfl⟩
    simp only [ProbeRun.step, tryOnRecvmsg, hpid]
    split <;> rfl
  | recvmsgRet ctx =>
    refine ⟨?_, rfl⟩
    simp only [ProbeRun.step, tryOnRecvmsgRet, hpid]
    split
    · rfl
    · split
      · rfl
      · split <;> rfl
  | sendmsg ctx =>
    simp only [ProbeRun.step, ProbeRun.outputs, tryOnSendmsg, hpid]
    split
    · exact ⟨rfl, rfl⟩
    · split
      · exact ⟨rfl, rfl⟩
      · split
        · exact ⟨rfl, rfl⟩
        · split <;> exact ⟨rfl, rfl⟩

theorem outputs_flamegraphOn (m : Maps ncpu) (on : BoundedMap UInt32 UInt32 1) (tr : Trace ncpu) :
    outputs { m with flamegraphOn := on } tr = outputs m tr := by
  induction tr generalizing m with
  | nil => rfl
  | cons p tr ih =>
    obtain ⟨hstep, hout⟩ := step_flamegraphOn p m on
    rw [outputs, hstep, hout, ih, outputs]

theorem Booted.outputs {m : Maps ncpu} (h : Booted target m) (tr : Trace ncpu) :
    outputs m tr = outputs (.init ncpu target) tr := by
  rw [← outputs_flamegraphOn m .empty, h]

/-! ### The ring and the probes -/

namespace Sys

variable (s : Sys ncpu cap) (p : ProbeRun ncpu)

/-- A run changes the maps, and makes an output or none. -/
theorem probe_cases : (p.outputs s.maps = [] ∧ s.probe p = { s with maps := p.step s.maps }) ∨
    ∃ c o, p.outputs s.maps = [(c, o)] ∧ s.probe p = ({ s with maps := p.step s.maps } : Sys _ _).output c o := by
  cases p with
  | recvmsg ctx => exact .inl ⟨rfl, rfl⟩
  | recvmsgRet ctx => exact .inl ⟨rfl, rfl⟩
  | sendmsg ctx =>
    cases ho : (tryOnSendmsg ctx s.maps).2.2 with
    | none =>
      refine .inl ⟨outputs_of_none ho, ?_⟩
      simp only [probe, ho]
    | some o =>
      refine .inr ⟨ctx.cpu, o, outputs_of_some ho, ?_⟩
      simp only [probe, ho]

/-- A record is refused only by a full ring. -/
theorem le_length_of_outcome {ev : LatencyEvent} (h : (ev, false) ∈ s.outcome p) :
    cap ≤ s.ring.items.length := by
  obtain ⟨x, -, hx⟩ := List.mem_map.1 h
  obtain ⟨rfl, hpush⟩ := Prod.mk.inj hx
  exact RingBuf.le_length_of_push (Option.isNone_iff_eq_none.1 (Option.isSome_eq_false_iff.1 hpush))

def withFlamegraph (on : BoundedMap UInt32 UInt32 1) : Sys ncpu cap :=
  { s with maps := { s.maps with flamegraphOn := on } }

theorem probe_withFlamegraph (on : BoundedMap UInt32 UInt32 1) :
    (s.withFlamegraph on).probe p = (s.probe p).withFlamegraph on := by
  obtain ⟨hstep, hout⟩ := step_flamegraphOn p s.maps on
  have hmaps : (s.withFlamegraph on).maps = { s.maps with flamegraphOn := on } := rfl
  rcases s.probe_cases p with ⟨h, hp⟩ | ⟨c, o, h, hp⟩ <;>
    rcases (s.withFlamegraph on).probe_cases p with ⟨h', hp'⟩ | ⟨c', o', h', hp'⟩
  all_goals rw [hmaps, hout, h] at h'
  · rw [hp, hp', hmaps, hstep]; rfl
  · cases h'
  · cases h'
  · cases h'
    rw [hp, hp', hmaps, hstep]
    unfold output withFlamegraph
    cases s.ring.push c o.event <;> rfl

end Sys

/-! ### Delivery -/

namespace Collector

variable {m : Maps ncpu} {s s' : Collector H ncpu cap}

/-- The records taken and not yet recorded, oldest first. -/
def inFlight (s : Collector H ncpu cap) : List LatencyEvent :=
  s.panels.reader.unrecorded ++ s.sys.batch ++ s.sys.ring.items.map Prod.snd

/-- Every record the ring took is recorded, in a batch or unread. -/
structure Queued (s : Collector H ncpu cap) : Prop where
  full : RefusedWhenFull cap s.sent
  taken : taken s.sent = s.sys.processed.flatten ++ s.sys.batch ++ s.sys.ring.items.map Prod.snd
  passed : s.sys.processed.flatten = s.panels.recorded ++ s.panels.reader.unrecorded
  reader : s.sys.reader ≠ .asleep → s.panels.reader = .collecting
  batch : s.sys.reader = .asleep → s.sys.batch = []

structure Delivered (m : Maps ncpu) (s : Collector H ncpu cap) : Prop extends Queued s where
  maps : s.sys.maps = s.trace.foldl ProbeRun.step m
  sent : s.sent.map Prod.fst = (outputs m s.trace).map fun x => x.2.event

/-- `LATENCY_RINGBUF.output` -/
def emit (s : Collector H ncpu cap) (x : Fin ncpu × Output) : Collector H ncpu cap :=
  { s with
    sys := s.sys.output x.1 x.2
    sent := s.sent ++ [(x.2.event, (s.sys.ring.push x.1 x.2.event).isSome)] }

def withMaps (s : Collector H ncpu cap) (m : Maps ncpu) : Collector H ncpu cap :=
  { s with sys := { s.sys with maps := m } }

/-- A run of a probe: new maps, then its output if it makes one. -/
def run (s : Collector H ncpu cap) (p : ProbeRun ncpu) : Collector H ncpu cap :=
  { (p.outputs s.sys.maps).foldl emit (s.withMaps (p.step s.sys.maps)) with trace := s.trace ++ [p] }

end Collector

/-- A step on a batch handed over, and a step of the reporter, keep the events of the batches. -/
theorem Panels.Step.conserves {s s' : Panels H} (h : Panels.Step dec up intervalSecs s s')
    (hreader : s.reader = .collecting → s'.reader = .collecting) :
    s'.recorded ++ s'.reader.unrecorded = s.recorded ++ s.reader.unrecorded := by
  cases h with
  | collect batch hread => exact nomatch hreader hread
  | readerLock l batch hread =>
    rw [recorded, recorded, hread]
    cases l <;> simp [ReaderPoint.locked, ReaderPoint.recorded, ReaderPoint.unrecorded]
  | record done rest ev hread =>
    rw [recorded, recorded, hread]
    simp [ReaderPoint.recorded, ReaderPoint.unrecorded]
  | finish done hread =>
    rw [recorded, recorded, hread]
    simp [ReaderPoint.recorded, ReaderPoint.unrecorded]
  | readerUnlock l hread =>
    rw [recorded, recorded, hread]
    cases l <;> rfl
  | tick => rfl
  | reporterLock => rfl
  | reportStats => rfl
  | reportCommand => rfl
  | reportClient => rfl

namespace Collector

variable {m : Maps ncpu} {s s' : Collector H ncpu cap}

omit [HdrHistogram H] in
theorem run_eq (s : Collector H ncpu cap) (p : ProbeRun ncpu) : s.run p =
    { s with sys := s.sys.probe p, trace := s.trace ++ [p], sent := s.sent ++ s.sys.outcome p } := by
  unfold run Sys.outcome
  rcases s.sys.probe_cases p with ⟨hnil, hp⟩ | ⟨c, o, hone, hp⟩
  · rw [hnil, hp]
    simp [withMaps]
  · rw [hone, hp]
    rfl

omit [HdrHistogram H] in
theorem foldl_emit_maps (outs : List (Fin ncpu × Output)) (s : Collector H ncpu cap) :
    (outs.foldl emit s).sys.maps = s.sys.maps := by
  induction outs generalizing s with
  | nil => rfl
  | cons x outs ih =>
    rw [List.foldl_cons, ih, emit, Sys.output]
    split <;> rfl

omit [HdrHistogram H] in
theorem run_maps (s : Collector H ncpu cap) (p : ProbeRun ncpu) : (s.run p).sys.maps = p.step s.sys.maps :=
  foldl_emit_maps _ _

omit [HdrHistogram H] in
theorem foldl_emit_panels (outs : List (Fin ncpu × Output)) (s : Collector H ncpu cap) :
    (outs.foldl emit s).panels = s.panels := by
  induction outs generalizing s with
  | nil => rfl
  | cons x outs ih => exact ih (s.emit x)

omit [HdrHistogram H] in
theorem foldl_emit_sent (outs : List (Fin ncpu × Output)) (s : Collector H ncpu cap) :
    (outs.foldl emit s).sent.map Prod.fst = s.sent.map Prod.fst ++ outs.map fun x => x.2.event := by
  induction outs generalizing s with
  | nil => simp
  | cons x outs ih =>
    rw [List.foldl_cons, ih]
    simp [emit]

omit [HdrHistogram H] in
theorem foldl_emit_withMaps (outs : List (Fin ncpu × Output)) (s : Collector H ncpu cap) (m : Maps ncpu) :
    outs.foldl emit (s.withMaps m) = (outs.foldl emit s).withMaps m := by
  induction outs generalizing s with
  | nil => rfl
  | cons x outs ih =>
    have hemit : (s.withMaps m).emit x = (s.emit x).withMaps m := by
      simp only [emit, withMaps, Sys.output]
      cases s.sys.ring.push x.1 x.2.event <;> rfl
    rw [List.foldl_cons, List.foldl_cons, hemit, ih]

omit [HdrHistogram H] in
theorem Queued.withMaps (h : Queued s) (m : Maps ncpu) : Queued (s.withMaps m) :=
  ⟨h.full, h.taken, h.passed, h.reader, h.batch⟩

omit [HdrHistogram H] in
theorem Queued.emit (h : Queued s) (x : Fin ncpu × Output) : Queued (s.emit x) := by
  have hlen : s.sys.ring.items.length ≤ (RingBuf.taken s.sent).length := by
    rw [h.taken, List.length_append, List.length_map]
    omega
  unfold Collector.emit Sys.output
  cases hpush : s.sys.ring.push x.1 x.2.event with
  | none =>
    refine ⟨h.full.append fun _ _ => (RingBuf.le_length_of_push hpush).trans hlen, ?_, h.passed, h.reader, h.batch⟩
    rw [taken_append, h.taken]
    simp [RingBuf.taken]
  | some ring =>
    refine ⟨h.full.append fun _ hev => ?_, ?_, h.passed, h.reader, h.batch⟩
    · simp at hev
    · rw [taken_append, h.taken, RingBuf.items_push hpush]
      simp [RingBuf.taken]

omit [HdrHistogram H] in
theorem Queued.foldl_emit (h : Queued s) (outs : List (Fin ncpu × Output)) :
    Queued (outs.foldl Collector.emit s) := by
  induction outs generalizing s with
  | nil => exact h
  | cons x outs ih => exact ih (h.emit x)

omit [HdrHistogram H] in
theorem Queued.run (h : Queued s) (p : ProbeRun ncpu) : Queued (s.run p) := by
  have hemit := (h.withMaps (p.step s.sys.maps)).foldl_emit (p.outputs s.sys.maps)
  exact ⟨hemit.full, hemit.taken, hemit.passed, hemit.reader, hemit.batch⟩

omit [HdrHistogram H] in
theorem Queued.passed_on (h : Queued s) (hread : s.sys.reader = .processing) {panels : Panels H}
    (hpanels : panels.recorded ++ panels.reader.unrecorded = s.panels.recorded ++ s.sys.batch) :
    Queued { s with sys := s.sys.passed, panels := panels } where
  full := h.full
  taken := by
    rw [h.taken]
    simp [Sys.passed]
  passed := by
    have hnone : s.panels.reader.unrecorded = [] := by
      rw [h.reader (by rw [hread]; simp)]; rfl
    rw [hpanels]
    simp [Sys.passed, h.passed, hnone]
  reader hne := absurd rfl hne
  batch _ := rfl

theorem Queued.step (h : Queued s) (hstep : Step dec up intervalSecs s s') : Queued s' := by
  cases hstep with
  | probe p => exact run_eq s p ▸ h.run p
  | wake hread _ hcollect => exact ⟨h.full, h.taken, h.passed, fun _ => hcollect, fun hne => nomatch hne⟩
  | collect ev ring hread hpop =>
    obtain ⟨c, hitems⟩ := RingBuf.items_pop hpop
    refine ⟨h.full, ?_, h.passed, h.reader, fun hne => ?_⟩
    · rw [h.taken, hitems]; simp
    · exact nomatch hread.symm.trans hne
  | drained hread =>
    exact ⟨h.full, h.taken, h.passed, fun _ => h.reader (by rw [hread]; simp), fun hne => nomatch hne⟩
  | idle hread hnil =>
    refine h.passed_on hread ?_
    rw [h.reader (by rw [hread]; simp), hnil]; rfl
  | handOver hread _ hcollect =>
    refine h.passed_on hread ?_
    rw [Panels.recorded_eq rfl (by simp), Panels.recorded_eq hcollect (by simp)]; rfl
  | panels panels hstep hkeep =>
    refine ⟨h.full, h.taken, ?_, fun hne => hkeep (h.reader hne), h.batch⟩
    rw [h.passed]
    exact (hstep.conserves hkeep).symm

omit [HdrHistogram H] in
theorem Queued.recorded (h : Queued s) : RingBuf.taken s.sent = s.panels.recorded ++ s.inFlight := by
  rw [h.taken, h.passed, inFlight]
  simp only [List.append_assoc]

theorem Queued.init (m : Maps ncpu) : Queued (Collector.init m : Collector H ncpu cap) :=
  ⟨by simp [Collector.init, RefusedWhenFull], rfl, rfl, fun hne => absurd rfl hne, fun _ => rfl⟩

theorem Delivered.step (h : Delivered m s) (hstep : Step dec up intervalSecs s s') : Delivered m s' := by
  refine ⟨h.toQueued.step hstep, ?_, ?_⟩
  · cases hstep with
    | probe p =>
      rw [← run_eq, run_maps, run, List.foldl_append, ← h.maps]
      rfl
    | wake | collect | drained | idle | handOver | panels => exact h.maps
  · cases hstep with
    | probe p =>
      rw [← run_eq, run, foldl_emit_sent, outputs_concat, List.map_append, ← h.maps, ← h.sent]
      rfl
    | wake | collect | drained | idle | handOver | panels => exact h.sent

/-! ### The two parts -/

theorem Step.sys (h : Step dec up intervalSecs s s') : Sys.Step s.sys s'.sys ∨ s'.sys = s.sys := by
  cases h with
  | probe p => exact .inl (.probe s.sys p)
  | wake hread hpend => exact .inl (.wake s.sys hread hpend)
  | collect ev ring hread hpop => exact .inl (.collect s.sys ev ring hread hpop)
  | drained hread hpop => exact .inl (.drained s.sys hread hpop)
  | idle hread => exact .inl (.process s.sys hread)
  | handOver hread => exact .inl (.process s.sys hread)
  | panels => exact .inr rfl

/-- Neither the reader nor the reporter looks at the maps of the probes. -/
theorem Step.rest (h : Step dec up intervalSecs s s') (htrace : s'.trace = s.trace) :
    s'.sys.maps = s.sys.maps ∧ s'.sent = s.sent ∧ ∀ m, Step dec up intervalSecs (s.withMaps m) (s'.withMaps m) := by
  cases h with
  | probe p =>
    have hlen := congrArg List.length htrace
    simp at hlen
  | wake hread hpend hcollect => exact ⟨rfl, rfl, fun m => .wake (s.withMaps m) hread hpend hcollect⟩
  | collect ev ring hread hpop => exact ⟨rfl, rfl, fun m => .collect (s.withMaps m) ev ring hread hpop⟩
  | drained hread hpop => exact ⟨rfl, rfl, fun m => .drained (s.withMaps m) hread hpop⟩
  | idle hread hnil => exact ⟨rfl, rfl, fun m => .idle (s.withMaps m) hread hnil⟩
  | handOver hread hne hcollect => exact ⟨rfl, rfl, fun m => .handOver (s.withMaps m) hread hne hcollect⟩
  | panels panels hstep hkeep => exact ⟨rfl, rfl, fun m => .panels (s.withMaps m) panels hstep hkeep⟩

theorem simulates_sys : Transition.Simulates
    (Step dec up intervalSecs : Collector H ncpu cap → Collector H ncpu cap → Prop) Sys.Step
    fun s t => s.sys.withFlamegraph .empty = t := by
  refine Transition.simulates_map fun s s' hstep => ?_
  cases hstep with
  | probe p =>
    refine .inl ?_
    show Sys.Step _ ((s.sys.probe p).withFlamegraph .empty)
    rw [← Sys.probe_withFlamegraph]
    exact .probe _ p
  | wake hread hpend => exact .inl (.wake (s.sys.withFlamegraph .empty) hread hpend)
  | collect ev ring hread hpop => exact .inl (.collect (s.sys.withFlamegraph .empty) ev ring hread hpop)
  | drained hread hpop => exact .inl (.drained (s.sys.withFlamegraph .empty) hread hpop)
  | idle hread => exact .inl (.process (s.sys.withFlamegraph .empty) hread)
  | handOver hread => exact .inl (.process (s.sys.withFlamegraph .empty) hread)
  | panels => exact .inr rfl

theorem simulates_panels : Transition.Simulates
    (Step dec up intervalSecs : Collector H ncpu cap → Collector H ncpu cap → Prop)
    (Panels.Step dec up intervalSecs) fun s t => s.panels = t := by
  refine Transition.simulates_map fun s s' hstep => ?_
  cases hstep with
  | handOver _ hne hread => exact .inl (.collect s.panels s.sys.batch hread hne)
  | panels panels hstep => exact .inl hstep
  | probe | wake | collect | drained | idle => exact .inr rfl

theorem Reachable.sys (h : Reachable dec up intervalSecs m s) (hboot : Booted target m) :
    Sys.Reachable target (s.sys.withFlamegraph .empty) := by
  have hinit : (init m : Collector H ncpu cap).sys.withFlamegraph .empty = Sys.init ncpu cap target := by
    rw [Sys.init, ← hboot]; rfl
  obtain ⟨t, hrun, rfl⟩ := simulates_sys.run hinit h
  exact hrun

theorem Reachable.strands (h : Reachable dec up intervalSecs m s) (hboot : Booted target m) (hcap : 15 * ncpu < cap) :
    s.sys.Strands := by
  obtain ⟨hcnt, hunread⟩ := (h.sys hboot).strands hcap
  exact ⟨hcnt, hunread⟩

theorem Reachable.panels (h : Reachable dec up intervalSecs m s) :
    Panels.Reachable dec up intervalSecs s.panels := by
  obtain ⟨t, hrun, rfl⟩ := simulates_panels.run rfl h
  exact hrun

theorem delivered (h : Reachable dec up intervalSecs m s) : Delivered m s :=
  Transition.invariant ⟨.init m, rfl, rfl⟩ (fun _ _ => Delivered.step) h

/-- A run of probes. -/
theorem reachable_probes (H : Type) [HdrHistogram H] (cap : Nat) (dec : RespDecoder) (up : UpperTable)
    (intervalSecs : UInt64) (m : Maps ncpu) (tr : Trace ncpu) : ∃ s : Collector H ncpu cap,
    Reachable dec up intervalSecs m s ∧ s.trace = tr ∧ s.sys = tr.foldl Sys.probe (init m : Collector H _ _).sys := by
  induction tr using List.reverseRecOn with
  | nil => exact ⟨init m, .refl, rfl, rfl⟩
  | append_singleton tr p ih =>
    obtain ⟨s, h, rfl, hsys⟩ := ih
    refine ⟨_, h.tail (.probe s p), rfl, ?_⟩
    rw [List.foldl_append, ← hsys]; rfl

/-- What the ring takes of the outputs is recorded once and in order; a record is refused only behind
as many others as the ring holds. -/
theorem collector_delivers (H : Type) [HdrHistogram H] (dec : RespDecoder) (up : UpperTable)
    (intervalSecs : UInt64) (ncpu cap : Nat) (m : Maps ncpu) (s : Collector H ncpu cap)
    (h : Reachable dec up intervalSecs m s) :
    s.sent.map Prod.fst = (outputs m s.trace).map (fun x => x.2.event) ∧
      taken s.sent = s.panels.recorded ++ s.inFlight ∧ RefusedWhenFull cap s.sent := by
  have hd := delivered h
  exact ⟨hd.sent, hd.recorded, hd.full⟩

theorem collector_delivers_one : ∃ s : Collector CountingHistogram 1 16,
    s.trace = oneReply (0 : Fin 1) 100 101 ∧ taken s.sent = s.panels.recorded ++ s.inFlight := by
  obtain ⟨s, h, htrace, -⟩ := reachable_probes CountingHistogram 16 bulkDecoder asciiUpper 10 (.init 1 0)
    (oneReply (0 : Fin 1) 100 101)
  exact ⟨s, htrace, (collector_delivers CountingHistogram bulkDecoder asciiUpper 10 1 16 _ s h).2.1⟩

/-- No record is refused while the reader neither drains the ring nor has a wake-up to come. -/
theorem collector_wakeup (H : Type) [HdrHistogram H] (dec : RespDecoder) (up : UpperTable)
    (intervalSecs : UInt64) (ncpu cap : Nat) (hcap : 15 * ncpu < cap) (target : UInt32) (m : Maps ncpu)
    (hboot : Booted target m) (s : Collector H ncpu cap) (h : Reachable dec up intervalSecs m s)
    (hread : s.sys.reader ≠ .collecting) (hpend : s.sys.pending = false) :
    s.sys.ring.items.length ≤ 15 * ncpu ∧ ∀ p ev, (ev, false) ∉ s.sys.outcome p := by
  have hlen : s.sys.ring.items.length ≤ 15 * ncpu := (h.strands hboot hcap).length_le hread hpend
  refine ⟨hlen, fun p ev hev => ?_⟩
  have hfull := s.sys.le_length_of_outcome p hev
  omega

theorem collector_wakeup_one : ∃ s : Collector CountingHistogram 1 16,
    s.trace = oneReply (0 : Fin 1) 100 101 ∧ s.sys.ring.items.length ≤ 15 * 1 := by
  obtain ⟨s, h, htrace, hsys⟩ := reachable_probes CountingHistogram 16 bulkDecoder asciiUpper 10 (.init 1 0)
    (oneReply (0 : Fin 1) 100 101)
  refine ⟨s, htrace, (collector_wakeup CountingHistogram bulkDecoder asciiUpper 10 1 16 (by omega) 0
    (.init 1 0) rfl s h ?_ ?_).1⟩
  · rw [hsys]; decide
  · rw [hsys]; decide

end Collector

end RedisTracer
