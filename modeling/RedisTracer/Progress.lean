import RedisTracer.Collector

/-!
# Progress

`Work` is a step of the reader or of the reporter in its cycle: no probe runs, no tick comes. Each lowers
`debt`, so such runs stop (`Work.debt_lt`), and a state with no step left is `Settled`: the reader sleeps, the
locks are free, and all the ring took is recorded but at most fifteen events of each CPU. At the next tick the
reporter prints what is recorded (`exists_printed`).
-/

namespace RedisTracer

open Transition RingBuf Locks

variable {ncpu cap : Nat} {target : UInt32} {H : Type} [HdrHistogram H] {dec : RespDecoder}
  {up : UpperTable} {intervalSecs : UInt64}

/-! ### Steps to come -/

/-- The steps of the loop the reader still has to make. -/
def ReaderPhase.debt : ReaderPhase → Nat
  | asleep => 0
  | collecting => 9
  | processing => 8

/-- The steps on the batch, besides recording. -/
def ReaderPoint.debt : ReaderPoint → Nat
  | collecting => 0
  | acquiring .stats _ => 7
  | acquiring .cmdStats _ => 6
  | acquiring .clientStats _ => 5
  | recording _ _ => 4
  | releasing .clientStats => 3
  | releasing .cmdStats => 2
  | releasing .stats => 1

/-- The steps up to the end of the cycle. -/
def ReporterPoint.debt : ReporterPoint → Nat
  | sleeping => 0
  | acquiring .stats => 6
  | reporting .stats _ => 5
  | acquiring .cmdStats => 4
  | reporting .cmdStats _ => 3
  | acquiring .clientStats => 2
  | reporting .clientStats _ => 1

def Panels.debt (s : Panels H) : Nat := s.reader.unrecorded.length + s.reader.debt + s.reporter.debt

omit [HdrHistogram H] in
theorem Panels.Step.debt_lt [HdrHistogram H] {s s' : Panels H} (h : Panels.Step dec up intervalSecs s s')
    (hreader : s.reader = .collecting → s'.reader = .collecting)
    (hreporter : s.reporter = .sleeping → s'.reporter = .sleeping) : s'.debt < s.debt := by
  unfold Panels.debt
  cases h with
  | collect batch hread => cases hreader hread
  | readerLock l batch hread =>
    rw [hread]
    cases l <;> simp [ReaderPoint.locked, ReaderPoint.unrecorded, ReaderPoint.debt]
  | record done rest ev hread =>
    rw [hread]
    simp [ReaderPoint.unrecorded, ReaderPoint.debt]
  | finish done hread =>
    rw [hread]
    simp [ReaderPoint.unrecorded, ReaderPoint.debt]
  | readerUnlock l hread =>
    rw [hread]
    cases l <;> simp [ReaderPoint.unlocked, ReaderPoint.unrecorded, ReaderPoint.debt]
  | tick hrep => cases hreporter hrep
  | reporterLock l hrep =>
    rw [hrep]
    cases l <;> simp [ReporterPoint.debt]
  | reportStats seen hrep | reportCommand seen rows hrep | reportClient seen hrep =>
    rw [hrep]
    simp [ReporterPoint.debt]

namespace Collector

variable {m : Maps ncpu} {s s' : Collector H ncpu cap} {n : Nat}

/-- A step that is no probe run and no tick. -/
def Work (dec : RespDecoder) (up : UpperTable) (intervalSecs : UInt64) (s s' : Collector H ncpu cap) : Prop :=
  Step dec up intervalSecs s s' ∧ s'.trace = s.trace ∧
    (s.panels.reporter = .sleeping → s'.panels.reporter = .sleeping)

def debt (s : Collector H ncpu cap) : Nat :=
  2 * s.sys.ring.items.length + s.sys.batch.length + 10 * s.sys.pending.toNat + s.sys.reader.debt +
    s.panels.debt

theorem Work.debt_lt (h : Work dec up intervalSecs s s') : s'.debt < s.debt := by
  obtain ⟨hstep, htrace, hreporter⟩ := h
  unfold debt
  cases hstep with
  | probe p =>
    have hlen := congrArg List.length htrace
    simp at hlen
  | wake hread hpend =>
    rw [hread, hpend]
    simp [ReaderPhase.debt]
  | collect ev ring hread hpop =>
    obtain ⟨c, hitems⟩ := RingBuf.items_pop hpop
    rw [hitems]
    simp
    omega
  | drained hread =>
    rw [hread]
    simp [ReaderPhase.debt]
  | idle hread hnil =>
    rw [hread, hnil]
    simp [Sys.passed, ReaderPhase.debt]
  | handOver hread _ hcollect =>
    rw [hread, Panels.debt, Panels.debt, hcollect]
    simp [Sys.passed, ReaderPhase.debt, ReaderPoint.unrecorded, ReaderPoint.debt]
    omega
  | panels panels hstep hreader =>
    have hlt := hstep.debt_lt hreader hreporter
    dsimp only
    omega

theorem Work.rest (h : Work dec up intervalSecs s s') :
    s'.sys.maps = s.sys.maps ∧ s'.trace = s.trace ∧ s'.sent = s.sent := by
  obtain ⟨hstep, htrace, -⟩ := h
  obtain ⟨hmaps, hsent, -⟩ := hstep.rest htrace
  exact ⟨hmaps, htrace, hsent⟩

/-! ### Runs -/

theorem strands_steps (hcap : 15 * ncpu < cap) (h : s.sys.Strands)
    (hrun : Relation.ReflTransGen (Step dec up intervalSecs) s s') : s'.sys.Strands := by
  refine Transition.invariant (I := fun t => t.sys.Strands) h (fun t t' ht hstep => ?_) hrun
  rcases hstep.sys with hsys | hsys
  · exact ht.step hcap hsys
  · exact hsys ▸ ht

theorem panels_steps (h : Panels.Reachable dec up intervalSecs s.panels)
    (hrun : Relation.ReflTransGen (Step dec up intervalSecs) s s') :
    Panels.Reachable dec up intervalSecs s'.panels := by
  obtain ⟨-, hrun', rfl⟩ := simulates_panels.run rfl hrun
  exact h.trans hrun'

theorem queued_steps (h : Queued s) (hrun : Relation.ReflTransGen (Step dec up intervalSecs) s s') : Queued s' :=
  Transition.invariant h (fun _ _ => Queued.step) hrun

section
variable (hrun : Relation.ReflTransGen (Work dec up intervalSecs) s s')
include hrun

theorem steps_of_work : Relation.ReflTransGen (Step dec up intervalSecs) s s' :=
  Relation.ReflTransGen.mono (fun _ _ hw => hw.1) _ _ hrun

theorem work_rest : s'.sys.maps = s.sys.maps ∧ s'.trace = s.trace ∧ s'.sent = s.sent :=
  Transition.invariant (I := fun t => t.sys.maps = s.sys.maps ∧ t.trace = s.trace ∧ t.sent = s.sent)
    ⟨rfl, rfl, rfl⟩ (fun _ _ ⟨hmaps, htrace, hsent⟩ hw =>
      ⟨hw.rest.1.trans hmaps, hw.rest.2.1.trans htrace, hw.rest.2.2.trans hsent⟩) hrun

end

/-! ### Where work ends -/

structure Settled (s : Collector H ncpu cap) : Prop where
  asleep : s.sys.reader = .asleep
  quiet : s.sys.pending = false
  collecting : s.panels.reader = .collecting
  sleeping : s.panels.reporter = .sleeping
  free : ∀ l, s.panels.owner l = none

section
variable (hfinal : Final (Work dec up intervalSecs) s)
include hfinal

/-- A reporter with a lock can go on, unless the command panel panics. -/
theorem not_reporting (hreport : ∀ seen, s.panels.reporter = .reporting .cmdStats seen →
    s.panels.stores.cmdStats.report.isSome) (l : Lock) (seen : List (List LatencyEvent)) :
    s.panels.reporter ≠ .reporting l seen := by
  intro hrep
  have hsleep : ∀ r : ReporterPoint, s.panels.reporter = .sleeping → r = .sleeping := fun r hs =>
    nomatch hs.symm.trans hrep
  cases l with
  | stats => exact hfinal _ ⟨.panels s _ (.reportStats s.panels seen hrep) id, rfl, hsleep _⟩
  | cmdStats =>
    obtain ⟨rows, hrows⟩ := Option.isSome_iff_exists.1 (hreport seen hrep)
    exact hfinal _ ⟨.panels s _ (.reportCommand s.panels seen rows hrep hrows) id, rfl, hsleep _⟩
  | clientStats => exact hfinal _ ⟨.panels s _ (.reportClient s.panels seen hrep) id, rfl, hsleep _⟩

/-- The reader on a batch can go on: the lock it waits for is not the reporter's, nor its own. -/
theorem reader_collecting (hlock : Panels.Locked s.panels)
    (hnot : ∀ l seen, s.panels.reporter ≠ .reporting l seen) : s.panels.reader = .collecting := by
  have hreporter : ∀ l, s.panels.owner l ≠ some .reporter := by
    intro l howner
    have hholds := (hlock.reporter l).1 howner
    cases hrep : s.panels.reporter with
    | sleeping => rw [hrep] at hholds; exact hholds
    | acquiring l' => rw [hrep] at hholds; exact hholds
    | reporting l' seen => exact hnot l' seen hrep
  have hwork : ∀ panels : Panels H, Panels.Step dec up intervalSecs s.panels panels →
      panels.reporter = s.panels.reporter → s.panels.reader = .collecting := by
    intro panels hstep hrep
    by_contra hne
    exact hfinal _ ⟨.panels s panels hstep fun hread => absurd hread hne, rfl, fun hs => hrep.trans hs⟩
  cases hread : s.panels.reader with
  | collecting => rfl
  | acquiring l batch =>
    cases howner : s.panels.owner l with
    | none => exact hread ▸ hwork _ (.readerLock s.panels l batch hread howner) rfl
    | some p =>
      cases p with
      | reader =>
        have hholds := (hlock.reader l).1 howner
        rw [hread] at hholds
        exact absurd hholds (Nat.lt_irrefl _)
      | reporter => exact absurd howner (hreporter l)
  | recording done rest =>
    cases rest with
    | nil => exact hread ▸ hwork _ (.finish s.panels done hread) rfl
    | cons ev rest => exact hread ▸ hwork _ (.record s.panels done rest ev hread) rfl
  | releasing l => exact hread ▸ hwork _ (.readerUnlock s.panels l hread) rfl

theorem reader_asleep (hcollect : s.panels.reader = .collecting) :
    s.sys.reader = .asleep ∧ s.sys.pending = false := by
  have hasleep : s.sys.reader = .asleep := by
    cases hread : s.sys.reader with
    | asleep => rfl
    | collecting =>
      cases hpop : s.sys.ring.pop with
      | none => exact absurd ⟨.drained s hread hpop, rfl, id⟩ (hfinal _)
      | some next => exact absurd ⟨.collect s next.1 next.2 hread hpop, rfl, id⟩ (hfinal _)
    | processing =>
      by_cases hnil : s.sys.batch = []
      · exact absurd ⟨.idle s hread hnil, rfl, id⟩ (hfinal _)
      · exact absurd ⟨.handOver s hread hnil hcollect, rfl, id⟩ (hfinal _)
  refine ⟨hasleep, ?_⟩
  by_contra hpend
  exact hfinal _ ⟨.wake s hasleep (by simpa using hpend) hcollect, rfl, id⟩

theorem settled (hlock : Panels.Locked s.panels)
    (hreport : ∀ seen, s.panels.reporter = .reporting .cmdStats seen →
      s.panels.stores.cmdStats.report.isSome) : s.Settled := by
  have hnot := not_reporting hfinal hreport
  have hcollect := reader_collecting hfinal hlock hnot
  obtain ⟨hasleep, hquiet⟩ := reader_asleep hfinal hcollect
  have hfree : ∀ l, s.panels.owner l = none := by
    intro l
    cases howner : s.panels.owner l with
    | none => rfl
    | some p =>
      cases p with
      | reader =>
        have hholds := (hlock.reader l).1 howner
        rw [hcollect] at hholds; exact hholds.elim
      | reporter =>
        have hholds := (hlock.reporter l).1 howner
        cases hrep : s.panels.reporter with
        | sleeping => rw [hrep] at hholds; exact hholds.elim
        | acquiring l' => rw [hrep] at hholds; exact hholds.elim
        | reporting l' seen => exact absurd hrep (hnot l' seen)
  refine ⟨hasleep, hquiet, hcollect, ?_, hfree⟩
  cases hrep : s.panels.reporter with
  | sleeping => rfl
  | acquiring l =>
    exact absurd ⟨.panels s _ (.reporterLock s.panels l hrep (hfree l)) id, rfl,
      fun hs => nomatch hs.symm.trans hrep⟩ (hfinal _)
  | reporting l seen => exact absurd hrep (hnot l seen)

end

/-- While no capture cuts a name, the command panel of a reachable state does not panic. -/
theorem report_isSome (h : Panels.Reachable dec up intervalSecs s.panels)
    (hsafe : ∀ ev ∈ s.panels.recorded, ¬ CutInside dec up ev.reqData) :
    s.panels.stores.cmdStats.report.isSome := by
  obtain ⟨-, hcount, -⟩ := h.inv
  rw [hcount.commands, CommandStats.report_isSome]
  intro c stats hlookup _ hnone
  rw [recordAll_eq] at hlookup
  obtain ⟨ev, hev, rfl⟩ := GroupFold.exists_lookup_group.1 ⟨stats, hlookup⟩
  exact hsafe ev hev ((truncateCmd_label _).1 hnone)

/-- Where work ends, what is not recorded is unread. -/
theorem drained (hqueued : Queued s) (hpanels : Panels.Reachable dec up intervalSecs s.panels)
    (hsafe : ∀ ev ∈ taken s.sent, ¬ CutInside dec up ev.reqData)
    (hrun : Relation.ReflTransGen (Work dec up intervalSecs) s s') (hfinal : Final (Work dec up intervalSecs) s') :
    s'.Settled ∧ taken s.sent = s'.panels.recorded ++ s'.sys.ring.items.map Prod.snd := by
  have hsteps := steps_of_work hrun
  have hqueued' := queued_steps hqueued hsteps
  have hpanels' := panels_steps hpanels hsteps
  have htaken := hqueued'.recorded
  rw [(work_rest hrun).2.2] at htaken
  have hset : s'.Settled := settled hfinal hpanels'.inv.1 fun _ _ =>
    report_isSome hpanels' fun ev hev => hsafe ev (htaken ▸ List.mem_append_left _ hev)
  refine ⟨hset, ?_⟩
  rw [htaken, inFlight, hset.collecting, hqueued'.batch hset.asleep]
  rfl

/-- Left alone the collector comes to rest, whatever the order of its steps, within `debt` steps. Then all
that the ring took is recorded, but for at most fifteen events of each CPU. -/
theorem collector_drains (H : Type) [HdrHistogram H] (dec : RespDecoder) (up : UpperTable)
    (intervalSecs : UInt64) (ncpu cap : Nat) (target : UInt32) (m : Maps ncpu) (hboot : Booted target m)
    (s : Collector H ncpu cap) (h : Reachable dec up intervalSecs m s)
    (hsafe : ∀ ev ∈ taken s.sent, ¬ CutInside dec up ev.reqData) :
    (∀ n s', Steps (Work dec up intervalSecs) n s s' → n ≤ s.debt) ∧
      (∃ s', Relation.ReflTransGen (Work dec up intervalSecs) s s' ∧ Final (Work dec up intervalSecs) s') ∧
      ∀ s', Relation.ReflTransGen (Work dec up intervalSecs) s s' → Final (Work dec up intervalSecs) s' →
        s'.Settled ∧ taken s.sent = s'.panels.recorded ++ s'.sys.ring.items.map Prod.snd ∧
          s'.sys.ring.items.length ≤ 15 * ncpu := by
  refine ⟨fun n s' hsteps => ?_, exists_final (f := debt) (fun _ _ => Work.debt_lt) s, fun s' hrun hfinal => ?_⟩
  · have := Steps.add_le (f := debt) (fun _ _ => Work.debt_lt) hsteps
    omega
  · obtain ⟨hset, htaken⟩ := drained (delivered h).toQueued h.panels hsafe hrun hfinal
    refine ⟨hset, htaken, ?_⟩
    rcases Nat.lt_or_ge (15 * ncpu) cap with hcap | hcap
    · have h' : Reachable dec up intervalSecs m s' := h.trans (steps_of_work hrun)
      exact (h'.strands hboot hcap).length_le (by rw [hset.asleep]; simp) hset.quiet
    · exact s'.sys.ring.length_le.trans hcap

theorem collector_drains_one : ∃ s : Collector CountingHistogram 1 16,
    s.trace = oneReply (0 : Fin 1) 100 101 ∧
      ∃ s', Relation.ReflTransGen (Work (fun _ => none) asciiUpper 10) s s' ∧
        Final (Work (fun _ => none) asciiUpper 10) s' := by
  obtain ⟨s, h, htrace, -⟩ := reachable_probes CountingHistogram 16 (fun _ => none) asciiUpper 10 (.init 1 0)
    (oneReply (0 : Fin 1) 100 101)
  refine ⟨s, htrace, (collector_drains CountingHistogram (fun _ => none) asciiUpper 10 1 16 0
    (.init 1 0) rfl s h ?_).2.1⟩
  rintro ev - ⟨-, -, text, rest, hdec, -⟩
  cases hdec

/-- Work goes on until all is recorded but what the counters of the CPUs account for. -/
theorem exists_drained (hcap : 15 * ncpu < cap) (hqueued : Queued s)
    (hpanels : Panels.Reachable dec up intervalSecs s.panels) (hstrands : s.sys.Strands)
    (hsafe : ∀ ev ∈ taken s.sent, ¬ CutInside dec up ev.reqData) (hn : ∀ c, s.sys.batchCnt c ≤ n) :
    ∃ s', Relation.ReflTransGen (Work dec up intervalSecs) s s' ∧ s'.Settled ∧ ∃ unread,
      taken s.sent = s'.panels.recorded ++ unread ∧ unread.length ≤ n * ncpu := by
  have hlt : ∀ t t' : Collector H ncpu cap, Work dec up intervalSecs t t' → t'.debt < t.debt := fun _ _ => Work.debt_lt
  obtain ⟨s', hrun, hfinal⟩ := exists_final hlt s
  obtain ⟨hset, htaken⟩ := drained hqueued hpanels hsafe hrun hfinal
  refine ⟨s', hrun, hset, _, htaken, ?_⟩
  rw [List.length_map]
  refine (RingBuf.length_le_mul fun c => ?_).trans (by rw [Fintype.card_fin])
  have hunread := (strands_steps hcap hstrands (steps_of_work hrun)).unread_le (by rw [hset.asleep]; simp) hset.quiet c
  rw [Sys.batchCnt, (work_rest hrun).1] at hunread
  exact hunread.trans (hn c)

/-! ### The next cycle -/

/-- The reporter goes through a cycle of its own, and prints what is recorded in both panels. -/
theorem exists_printed (h : Reachable dec up intervalSecs m s) (hset : s.Settled)
    (hlt : s.panels.recorded.length < 2 ^ 64) (hreport : s.panels.stores.cmdStats.report.isSome) :
    ∃ s' : Collector H ncpu cap, Reachable dec up intervalSecs m s' ∧ s'.sent = s.sent ∧
      s'.panels.recorded = s.panels.recorded ∧
      s'.panels.latency = s.panels.latency ++ [⟨s.panels.recorded.length, s.panels.processed⟩] ∧
      s'.panels.command = s.panels.command ++ [⟨s.panels.recorded.length, s.panels.processed⟩] := by
  obtain ⟨rows, hrows⟩ := Option.isSome_iff_exists.1 hreport
  obtain ⟨-, hcount, -⟩ := h.panels.inv
  have hlatency : latencyCount (s.panels.stores.stats.report intervalSecs).1 = s.panels.recorded.length := by
    rw [Panels.latencyCount_report, hcount.total]
    exact UInt64.toNat_ofNat_of_lt' hlt
  have hsum : rowSum rows = s.panels.recorded.length := by
    rw [hcount.commands] at hrows
    exact Panels.rowSum_recordAll hrows hlt
  have hlocked := (h.tail (.panels s _ (.tick s.panels hset.sleeping) id)).tail
    (.panels _ _ (.reporterLock _ .stats rfl (hset.free _)) id)
  have hstats := hlocked.tail (.panels _ _ (.reportStats _ s.panels.processed rfl) id)
  have hfree : release (acquire s.panels.owner .stats .reporter) .stats .cmdStats = none := by
    simp [acquire, release, hset.free]
  have hcmd := (hstats.tail (.panels _ _ (.reporterLock _ .cmdStats rfl hfree) id)).tail
    (.panels _ _ (.reportCommand _ s.panels.processed rows rfl hrows) id)
  refine ⟨_, hcmd, rfl, rfl, ?_, ?_⟩
  · rw [← hlatency]
  · rw [← hsum]

end Collector

end RedisTracer
