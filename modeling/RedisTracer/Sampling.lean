import RedisTracer.Wakeup
import RedisTracer.PidPaths
import RedisTracer.Folding
import RedisTracer.Lib.Transition

/-!
# The CPU samples

The sampler on `ncpu` CPUs, the ring of its stacks and the reader of `aya-test/src/reader.rs` that collects
them, from the moment `main` has attached the sampler: it switches the flame graph on, starts the reader
and folds the samples at its end. `Piped` is the invariant. The outputs have no flags, so the ring wakes the
reader for a record it finds alone: asleep without a wake-up to come, the reader has left nothing behind.
-/

namespace RedisTracer

open RingBuf Transition

variable {ncpu cap : Nat} {target : UInt32} {m : Maps ncpu}

/-- Where `main` is: behind `attach_perf_event`, behind `enable_flamegraph`, or at `ctrl_c` with the reader
spawned. -/
inductive MainPoint
  | attached
  | enabled
  | waiting

/-- `runs` lists the runs of the sampler, with the switch as it found it; `sent` their outputs, with whether
the ring took them. -/
structure Sampler (ncpu cap : Nat) where
  maps : Maps ncpu
  main : MainPoint
  ring : RingBuf (Fin ncpu) StackEvent cap
  pending : Bool
  reader : ReaderPhase
  batch : List StackEvent
  samples : List StackEvent
  runs : List (SampleCtx ncpu × Bool)
  sent : List (StackEvent × Bool)

/-- The event of a run that makes an output. -/
def stackEvent (ctx : SampleCtx ncpu) : StackEvent where
  pid := ctx.pid
  cpu := UInt32.ofNat ctx.cpu
  kstackLen := stackLen (ctx.getStack false).1
  ustackLen := stackLen (ctx.getStack true).1
  timestampNs := ctx.ktimeNs
  kstackIps := (ctx.getStack false).2
  ustackIps := (ctx.getStack true).2

instance (s : SampleCtx ncpu) : Decidable s.HasStack := inferInstanceAs (Decidable (_ ∨ _))

theorem stackEvent_of_some {ctx : SampleCtx ncpu} {ev : StackEvent} (h : (tryCpuSample ctx m).2 = some ev) :
    ev = stackEvent ctx := by
  unfold tryCpuSample at h
  dsimp only at h
  split at h
  · cases h
  · split at h
    · exact (Option.some.inj h).symm
    · cases h

theorem tryCpuSample_eq (hm : m.targetPid = #v[target]) (ctx : SampleCtx ncpu) :
    (tryCpuSample ctx m).2 =
      if accepts target ctx.tgid = true ∧ flamegraphEnabled m = true ∧ ctx.HasStack then some (stackEvent ctx)
      else none := by
  simp only [← tryCpuSample_isSome hm]
  cases h : (tryCpuSample ctx m).2 with
  | none => rfl
  | some ev => rw [stackEvent_of_some h]; rfl

namespace Sampler

def init (m : Maps ncpu) : Sampler ncpu cap where
  maps := m
  main := .attached
  ring := .empty
  pending := false
  reader := .asleep
  batch := []
  samples := []
  runs := []
  sent := []

/-- `STACK_RINGBUF.output::<StackEvent>(&event, 0)` -/
def output (s : Sampler ncpu cap) (cpu : Fin ncpu) (ev : StackEvent) : Sampler ncpu cap :=
  match s.ring.push cpu ev with
  | some ring =>
    { s with ring := ring, pending := s.pending || Sys.wakes 0 s.ring.items.isEmpty
             sent := s.sent ++ [(ev, true)] }
  | none => { s with sent := s.sent ++ [(ev, false)] }

def sample (s : Sampler ncpu cap) (ctx : SampleCtx ncpu) : Sampler ncpu cap :=
  let s' := { s with runs := s.runs ++ [(ctx, flamegraphEnabled s.maps)] }
  match (tryCpuSample ctx s.maps).2 with
  | some ev => s'.output ctx.cpu ev
  | none => s'

inductive Step : Sampler ncpu cap → Sampler ncpu cap → Prop
  | sample (s : Sampler ncpu cap) (ctx : SampleCtx ncpu) : Step s (s.sample ctx)
  | enable (s : Sampler ncpu cap) : s.main = .attached →
      Step s { s with main := .enabled, maps := enableFlamegraph s.maps }
  /-- The readiness of a new descriptor says whether there are records. -/
  | spawn (s : Sampler ncpu cap) : s.main = .enabled →
      Step s { s with main := .waiting, pending := !s.ring.items.isEmpty }
  | wake (s : Sampler ncpu cap) : s.main = .waiting → s.reader = .asleep → s.pending = true →
      Step s { s with reader := .collecting, pending := false }
  | collect (s : Sampler ncpu cap) (ev : StackEvent) (ring : RingBuf (Fin ncpu) StackEvent cap) :
      s.reader = .collecting → s.ring.pop = some (ev, ring) →
      Step s { s with ring := ring, batch := s.batch ++ [ev] }
  | drained (s : Sampler ncpu cap) : s.reader = .collecting → s.ring.pop = none →
      Step s { s with reader := .processing }
  | extend (s : Sampler ncpu cap) : s.reader = .processing →
      Step s { s with reader := .asleep, batch := [], samples := s.samples ++ s.batch }

def Reachable (m : Maps ncpu) : Sampler ncpu cap → Prop := Relation.ReflTransGen Step (init m)

/-- The runs that make an output: the flame graph is on, the filter accepts the process, and there is a
stack. -/
def Accepted (target : UInt32) (r : SampleCtx ncpu × Bool) : Prop :=
  accepts target r.1.tgid = true ∧ r.2 = true ∧ r.1.HasStack

instance (target : UInt32) (r : SampleCtx ncpu × Bool) : Decidable (Accepted target r) :=
  inferInstanceAs (Decidable (_ ∧ _))

def acceptedEvents (target : UInt32) (runs : List (SampleCtx ncpu × Bool)) : List StackEvent :=
  (runs.filter fun r => Accepted target r).map fun r => stackEvent r.1

variable {s s' : Sampler ncpu cap}

structure Piped (target : UInt32) (s : Sampler ncpu cap) : Prop where
  filter : s.maps.targetPid = #v[target]
  sent : s.sent.map Prod.fst = acceptedEvents target s.runs
  full : RefusedWhenFull cap s.sent
  taken : taken s.sent = s.samples ++ s.batch ++ s.ring.items.map Prod.snd
  batch : s.reader = .asleep → s.batch = []
  /-- A reader that neither collects nor has a wake-up to come leaves no record in the ring. -/
  empty : s.main = .waiting → s.reader ≠ .collecting → s.pending = false → s.ring.items = []

theorem acceptedEvents_concat (target : UInt32) (runs : List (SampleCtx ncpu × Bool))
    (r : SampleCtx ncpu × Bool) : acceptedEvents target (runs ++ [r]) =
      acceptedEvents target runs ++ if Accepted target r then [stackEvent r.1] else [] := by
  rw [acceptedEvents, List.filter_append, List.map_append]
  by_cases hr : Accepted target r <;> simp [acceptedEvents, hr]

/-- An output: the ring takes it and wakes a reader that had caught up, or is full and not empty. -/
theorem Piped.output (h : Piped target s) {runs : List (SampleCtx ncpu × Bool)} {ev : StackEvent}
    (hruns : acceptedEvents target runs = acceptedEvents target s.runs ++ [ev]) (cpu : Fin ncpu) :
    Piped target (({ s with runs := runs } : Sampler ncpu cap).output cpu ev) := by
  have hsent : ∀ took, (s.sent ++ [(ev, took)]).map Prod.fst = acceptedEvents target runs := by
    intro took
    rw [List.map_append, h.sent, hruns]; rfl
  unfold Sampler.output
  cases hpush : s.ring.push cpu ev with
  | none =>
    refine ⟨h.filter, hsent false, h.full.append fun _ _ => ?_, ?_, h.batch, h.empty⟩
    · have hle := le_length_of_push hpush
      rw [h.taken, List.length_append, List.length_map]
      omega
    · rw [taken_append, h.taken]
      exact List.append_nil _
  | some ring =>
    refine ⟨h.filter, hsent true, h.full.append fun a ha => ?_, ?_, h.batch, fun hmain hread hpend => ?_⟩
    · simp at ha
    · rw [taken_append, h.taken, items_push hpush, List.map_append, ← List.append_assoc]; rfl
    · obtain ⟨hquiet, hwake⟩ := Bool.or_eq_false_iff.1 hpend
      rw [h.empty hmain hread hquiet] at hwake
      cases hwake

theorem Piped.sample (h : Piped target s) (ctx : SampleCtx ncpu) : Piped target (s.sample ctx) := by
  have hevents := acceptedEvents_concat target s.runs (ctx, flamegraphEnabled s.maps)
  unfold Sampler.sample
  rw [tryCpuSample_eq h.filter]
  by_cases hacc : accepts target ctx.tgid = true ∧ flamegraphEnabled s.maps = true ∧ ctx.HasStack
  · rw [if_pos (show Accepted target (ctx, flamegraphEnabled s.maps) from hacc)] at hevents
    rw [if_pos hacc]
    exact h.output hevents ctx.cpu
  · rw [if_neg (show ¬ Accepted target (ctx, flamegraphEnabled s.maps) from hacc), List.append_nil] at hevents
    rw [if_neg hacc]
    exact ⟨h.filter, h.sent.trans hevents.symm, h.full, h.taken, h.batch, h.empty⟩

theorem Piped.step (h : Piped target s) (hstep : Step s s') : Piped target s' := by
  cases hstep with
  | sample ctx => exact h.sample ctx
  | enable =>
    refine ⟨h.filter, h.sent, h.full, h.taken, h.batch, fun hmain => ?_⟩
    cases hmain
  | spawn =>
    refine ⟨h.filter, h.sent, h.full, h.taken, h.batch, fun _ _ hpend => ?_⟩
    exact List.isEmpty_iff.1 (by simpa using hpend)
  | wake _ hread => exact ⟨h.filter, h.sent, h.full, h.taken, fun _ => h.batch hread, fun _ hne => absurd rfl hne⟩
  | collect ev ring hread hpop =>
    obtain ⟨c, hitems⟩ := items_pop hpop
    refine ⟨h.filter, h.sent, h.full, ?_, fun hasleep => ?_, fun _ hne => absurd hread hne⟩
    · rw [h.taken, hitems]; simp
    · cases hread.symm.trans hasleep
  | drained hread hpop =>
    refine ⟨h.filter, h.sent, h.full, h.taken, fun hasleep => ?_, fun _ _ _ => pop_eq_none.1 hpop⟩
    cases hasleep
  | extend hread =>
    refine ⟨h.filter, h.sent, h.full, ?_, fun _ => rfl, fun hmain _ hpend => ?_⟩
    · rw [h.taken]; simp
    · exact h.empty hmain (by rw [hread]; simp) hpend

theorem Reachable.piped (hm : m.targetPid = #v[target]) (h : Reachable m s) : Piped target s := by
  refine Transition.invariant ?_ (fun _ _ => Piped.step) h
  refine ⟨hm, rfl, by simp [init, RefusedWhenFull], rfl, fun _ => rfl, fun hmain => ?_⟩
  cases hmain

theorem Piped.samples (h : Piped target s) (hmain : s.main = .waiting) (hread : s.reader = .asleep)
    (hpend : s.pending = false) : s.samples = RingBuf.taken s.sent := by
  rw [h.taken, h.batch hread, h.empty hmain (by rw [hread]; simp) hpend]
  simp

/-- The samples are the outputs of the accepted runs, in order: none twice, none left behind by a reader
at rest, and none refused but behind as many as the ring holds. -/
theorem sampler_delivers (ncpu cap : Nat) (target : UInt32) (m : Maps ncpu) (hm : m.targetPid = #v[target])
    (s : Sampler ncpu cap) (h : Reachable m s) :
    s.sent.map Prod.fst = acceptedEvents target s.runs ∧
      taken s.sent = s.samples ++ s.batch ++ s.ring.items.map Prod.snd ∧ RefusedWhenFull cap s.sent ∧
      (s.main = .waiting → s.reader = .asleep → s.pending = false → s.samples = taken s.sent) := by
  have hp := h.piped hm
  exact ⟨hp.sent, hp.taken, hp.full, hp.samples⟩

/-- A run on a process with one user frame. -/
def stackCtx (cpu : Fin ncpu) (tgid : UInt32) : SampleCtx ncpu where
  pidTgid := tgid.toUInt64 <<< 32 ||| tgid.toUInt64
  ktimeNs := 0
  cpu := cpu
  getStack user := (if user then 8 else 0, Vector.replicate maxStackFrames 1)

theorem reachable_sample (ctx : SampleCtx 1) : Reachable (.init 1 4242)
    (({ init (.init 1 4242) with main := .enabled, maps := enableFlamegraph (.init 1 4242) } :
      Sampler 1 16).sample ctx) :=
  (Relation.ReflTransGen.single (.enable _ rfl)).tail (.sample _ ctx)

theorem sampler_delivers_one : ∃ s : Sampler 1 16, s.runs = [(stackCtx 0 4242, true)] ∧
    s.sent.map Prod.fst = acceptedEvents 4242 s.runs :=
  ⟨_, rfl, (sampler_delivers 1 16 4242 (.init 1 4242) rfl _ (reachable_sample (stackCtx 0 4242))).1⟩

/-! ### Progress -/

/-- A step that is no run of the sampler. -/
def Work (s s' : Sampler ncpu cap) : Prop := Step s s' ∧ s'.runs = s.runs

def startDebt : MainPoint → Nat
  | .attached => 5
  | .enabled => 4
  | .waiting => 0

def readerDebt : ReaderPhase → Nat
  | .asleep => 0
  | .processing => 1
  | .collecting => 2

def debt (s : Sampler ncpu cap) : Nat :=
  s.ring.items.length + 3 * s.pending.toNat + readerDebt s.reader + startDebt s.main

theorem runs_sample (s : Sampler ncpu cap) (ctx : SampleCtx ncpu) :
    (s.sample ctx).runs = s.runs ++ [(ctx, flamegraphEnabled s.maps)] := by
  unfold Sampler.sample
  dsimp only
  split
  · unfold Sampler.output
    split <;> rfl
  · rfl

theorem Work.debt_lt (h : Work s s') : s'.debt < s.debt := by
  obtain ⟨hstep, hruns⟩ := h
  unfold debt
  cases hstep with
  | sample ctx =>
    rw [runs_sample] at hruns
    have hlen := congrArg List.length hruns
    simp at hlen
  | enable hmain =>
    rw [hmain]
    simp [startDebt]
  | spawn hmain =>
    have hle := Bool.toNat_le (!s.ring.items.isEmpty)
    rw [hmain]
    simp only [startDebt]
    omega
  | wake _ hread hpend =>
    rw [hread, hpend]
    simp [readerDebt]
  | collect ev ring hread hpop =>
    obtain ⟨c, hitems⟩ := items_pop hpop
    rw [hitems]
    simp
  | drained hread =>
    rw [hread]
    simp [readerDebt]
  | extend hread =>
    rw [hread]
    simp [readerDebt]

theorem Work.sent (h : Work s s') : s'.sent = s.sent := by
  obtain ⟨hstep, hruns⟩ := h
  cases hstep with
  | sample ctx =>
    rw [runs_sample] at hruns
    have hlen := congrArg List.length hruns
    simp at hlen
  | enable | spawn | wake | collect | drained | extend => rfl

/-- The reader is at rest. -/
structure Settled (s : Sampler ncpu cap) : Prop where
  waiting : s.main = .waiting
  asleep : s.reader = .asleep
  quiet : s.pending = false

theorem settled (hfinal : Final Work s) : s.Settled := by
  have hmain : s.main = .waiting := by
    cases hmain : s.main with
    | attached => exact absurd ⟨.enable s hmain, rfl⟩ (hfinal _)
    | enabled => exact absurd ⟨.spawn s hmain, rfl⟩ (hfinal _)
    | waiting => rfl
  have hasleep : s.reader = .asleep := by
    cases hread : s.reader with
    | asleep => rfl
    | collecting =>
      cases hpop : s.ring.pop with
      | none => exact absurd ⟨.drained s hread hpop, rfl⟩ (hfinal _)
      | some next => exact absurd ⟨.collect s next.1 next.2 hread hpop, rfl⟩ (hfinal _)
    | processing => exact absurd ⟨.extend s hread, rfl⟩ (hfinal _)
  refine ⟨hmain, hasleep, ?_⟩
  by_contra hpend
  exact hfinal _ ⟨.wake s hmain hasleep (by simpa using hpend), rfl⟩

/-- Left alone the reader comes to rest, whatever the order of its steps and those of `main`. A flame graph
written then counts each stack the ring took, if it has a frame, once and in its line. -/
theorem sampler_flamegraph (ncpu cap : Nat) (target : UInt32) (m : Maps ncpu)
    (hm : m.targetPid = #v[target]) (env : Machine) (s : Sampler ncpu cap) (h : Reachable m s)
    (hlt : (taken s.sent).length < 2 ^ 63) :
    (∀ n s', Steps Work n s s' → n ≤ s.debt) ∧
      (∃ s', Relation.ReflTransGen Work s s' ∧ Final Work s') ∧
      ∀ s', Relation.ReflTransGen Work s s' → Final Work s' →
        s'.samples = taken s.sent ∧ Conserves env (taken s.sent) (generateFolded env s'.samples) := by
  refine ⟨fun n s' hsteps => ?_, exists_final (f := debt) (fun _ _ => Work.debt_lt) s, fun s' hrun hfinal => ?_⟩
  · have := Steps.add_le (f := debt) (fun _ _ => Work.debt_lt) hsteps
    omega
  · have h' : Reachable m s' := h.trans (Relation.ReflTransGen.mono (fun _ _ hw => hw.1) _ _ hrun)
    have hsent : s'.sent = s.sent :=
      Transition.invariant (I := fun t => t.sent = s.sent) rfl (fun _ _ ih hw => hw.sent.trans ih) hrun
    obtain ⟨hmain, hasleep, hquiet⟩ := settled hfinal
    have hsamples : s'.samples = taken s.sent := by
      rw [← hsent, (h'.piped hm).samples hmain hasleep hquiet]
    rw [hsamples]
    exact ⟨rfl, generateFolded_conserves env ⟨taken s.sent, hlt⟩⟩

theorem sampler_flamegraph_one : ∃ s s' : Sampler 1 16, s.runs = [(stackCtx 0 4242, true)] ∧
    Relation.ReflTransGen Work s s' ∧ Final Work s' := by
  obtain ⟨s', hrun, hfinal⟩ := (sampler_flamegraph 1 16 4242 (.init 1 4242) rfl bareMachine _
    (reachable_sample (stackCtx 0 4242)) (by decide)).2.1
  exact ⟨_, s', rfl, hrun, hfinal⟩

end Sampler

end RedisTracer
