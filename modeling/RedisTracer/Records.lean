import RedisTracer.Sampling
import RedisTracer.Lib.ReprC

/-!
# Records as bytes

What the rings carry: the memory of a `#[repr(C)]` structure, with whatever its padding held. A reader
takes a record of that size or more for the structure at its front and skips a shorter one. `events` forgets
the bytes, and every step on bytes is a step on events.
-/

namespace RedisTracer

open Layout Transition

variable {ncpu cap : Nat} {target : UInt32} {m : Maps ncpu}

def latencyEventLayout : Layout LatencyEvent :=
  (((((((((noFields.field u32).field u32).field u64).field u32).field u32).field u16).field u8).field u8).field
    (array 32 u8)).pad.as
    (fun (((((((((_, pid), tid), latencyNs), bytes), clientIp), clientPort), command), isError), reqData) =>
      { pid, tid, latencyNs, bytes, clientIp, clientPort, command, isError, reqData })
    (fun ev => ((((((((((), ev.pid), ev.tid), ev.latencyNs), ev.bytes), ev.clientIp), ev.clientPort), ev.command),
      ev.isError), ev.reqData))
    fun _ => rfl

/-- `aya-test-ebpf` and `aya-test-common` declare the structure alike. -/
def stackEventLayout : Layout StackEvent :=
  (((((((noFields.field u32).field u32).field i32).field i32).field u64).field (array maxStackFrames u64)).field
    (array maxStackFrames u64)).pad.as
    (fun (((((((_, pid), cpu), kstackLen), ustackLen), timestampNs), kstackIps), ustackIps) =>
      { pid, cpu, kstackLen, ustackLen, timestampNs, kstackIps, ustackIps })
    (fun ev => ((((((((), ev.pid), ev.cpu), ev.kstackLen), ev.ustackLen), ev.timestampNs), ev.kstackIps),
      ev.ustackIps))
    fun _ => rfl

example : latencyEventLayout.size = 64 ∧ stackEventLayout.size = 344 := ⟨rfl, rfl⟩

/-! ### A ring of records -/

/-- Every record is as long as the structure. -/
def Whole {α : Type} (l : Layout α) (ring : RingBuf (Fin ncpu) (List UInt8) cap) : Prop :=
  ∀ x ∈ ring.items, x.2.length = l.size

section
variable {α : Type} {l : Layout α} {ring ring' : RingBuf (Fin ncpu) (List UInt8) cap} {mem bytes : List UInt8}
  {cpu : Fin ncpu} {a : α}

theorem push_store (ring : RingBuf (Fin ncpu) (List UInt8) cap) (cpu : Fin ncpu) (a : α)
    (hmem : mem.length = l.size) :
    (ring.map l.load).push cpu a = (ring.push cpu (l.store mem a)).map (RingBuf.map l.load) := by
  rw [← RingBuf.push_map, l.load_store mem a (Nat.le_of_eq hmem.symm)]

theorem Whole.push (h : Whole l ring) (hmem : mem.length = l.size)
    (hpush : ring.push cpu (l.store mem a) = some ring') : Whole l ring' := by
  intro x hx
  rw [RingBuf.items_push hpush] at hx
  rcases List.mem_append.1 hx with hx | hx
  · exact h x hx
  · rw [List.mem_singleton.1 hx]
    exact (l.length_store mem a (Nat.le_of_eq hmem.symm)).trans hmem

theorem Whole.pop (h : Whole l ring) (hpop : ring.pop = some (bytes, ring')) :
    Whole l ring' ∧ l.read? bytes = some (l.load bytes) := by
  obtain ⟨c, hitems⟩ := RingBuf.items_pop hpop
  refine ⟨fun x hx => h x (hitems ▸ List.mem_cons_of_mem _ hx), ?_⟩
  exact l.read?_of_length (h (c, bytes) (hitems ▸ List.mem_cons_self))

end

/-! ### The latency ring -/

/-- `Sys` with a ring of bytes. -/
structure ByteSys (ncpu cap : Nat) where
  maps : Maps ncpu
  ring : RingBuf (Fin ncpu) (List UInt8) cap
  pending : Bool
  reader : ReaderPhase
  batch : List LatencyEvent
  processed : List (List LatencyEvent)

namespace ByteSys

def init (ncpu cap : Nat) (target : UInt32) : ByteSys ncpu cap where
  maps := .init ncpu target
  ring := .empty
  pending := false
  reader := .asleep
  batch := []
  processed := []

/-- The probe builds its event in `mem`. -/
def output (s : ByteSys ncpu cap) (cpu : Fin ncpu) (o : Output) (mem : List UInt8) : ByteSys ncpu cap :=
  match s.ring.push cpu (latencyEventLayout.store mem o.event) with
  | some ring => { s with ring := ring, pending := s.pending || Sys.wakes o.flags s.ring.items.isEmpty }
  | none => s

def probe (s : ByteSys ncpu cap) (p : ProbeRun ncpu) (mem : List UInt8) : ByteSys ncpu cap :=
  let s' := { s with maps := p.step s.maps }
  match p with
  | .recvmsg _ => s'
  | .recvmsgRet _ => s'
  | .sendmsg ctx =>
    match (tryOnSendmsg ctx s.maps).2.2 with
    | some o => s'.output ctx.cpu o mem
    | none => s'

inductive Step : ByteSys ncpu cap → ByteSys ncpu cap → Prop
  | probe (s : ByteSys ncpu cap) (p : ProbeRun ncpu) (mem : List UInt8) : mem.length = latencyEventLayout.size →
      Step s (s.probe p mem)
  | wake (s : ByteSys ncpu cap) : s.reader = .asleep → s.pending = true →
      Step s { s with reader := .collecting, pending := false }
  | collect (s : ByteSys ncpu cap) (bytes : List UInt8) (ring : RingBuf (Fin ncpu) (List UInt8) cap) :
      s.reader = .collecting → s.ring.pop = some (bytes, ring) →
      Step s { s with ring := ring, batch := s.batch ++ (latencyEventLayout.read? bytes).toList }
  | drained (s : ByteSys ncpu cap) : s.reader = .collecting → s.ring.pop = none →
      Step s { s with reader := .processing }
  | process (s : ByteSys ncpu cap) : s.reader = .processing →
      Step s { s with reader := .asleep, batch := [], processed := s.processed ++ [s.batch] }

def Reachable (target : UInt32) : ByteSys ncpu cap → Prop := Relation.ReflTransGen Step (init ncpu cap target)

def events (s : ByteSys ncpu cap) : Sys ncpu cap :=
  { maps := s.maps, ring := s.ring.map latencyEventLayout.load, pending := s.pending, reader := s.reader
    batch := s.batch, processed := s.processed }

variable {s s' : ByteSys ncpu cap}

theorem events_output {mem : List UInt8} (hmem : mem.length = latencyEventLayout.size)
    (hwhole : Whole latencyEventLayout s.ring) (cpu : Fin ncpu) (o : Output) :
    (s.output cpu o mem).events = s.events.output cpu o ∧
      Whole latencyEventLayout (s.output cpu o mem).ring := by
  have hpush := push_store s.ring cpu o.event hmem
  unfold output Sys.output
  cases h : s.ring.push cpu (latencyEventLayout.store mem o.event) with
  | none =>
    rw [h, Option.map_none] at hpush
    refine ⟨?_, hwhole⟩
    rw [events, hpush]
  | some ring =>
    rw [h, Option.map_some] at hpush
    refine ⟨?_, hwhole.push hmem h⟩
    rw [events, events, hpush]
    simp [RingBuf.map]

theorem events_probe {mem : List UInt8} (hmem : mem.length = latencyEventLayout.size)
    (hwhole : Whole latencyEventLayout s.ring) (p : ProbeRun ncpu) :
    (s.probe p mem).events = s.events.probe p ∧ Whole latencyEventLayout (s.probe p mem).ring := by
  cases p with
  | recvmsg ctx => exact ⟨rfl, hwhole⟩
  | recvmsgRet ctx => exact ⟨rfl, hwhole⟩
  | sendmsg ctx =>
    have hmaps : s.events.maps = s.maps := rfl
    unfold probe Sys.probe
    dsimp only
    rw [hmaps]
    cases (tryOnSendmsg ctx s.maps).2.2 with
    | none => exact ⟨rfl, hwhole⟩
    | some o => exact events_output (s := { s with maps := (ProbeRun.sendmsg ctx).step s.maps }) hmem hwhole ctx.cpu o

/-- A step on bytes is one on events. -/
theorem Step.events (h : Step s s') (hwhole : Whole latencyEventLayout s.ring) :
    Sys.Step s.events s'.events ∧ Whole latencyEventLayout s'.ring := by
  cases h with
  | probe p mem hmem =>
    obtain ⟨hevents, hwhole'⟩ := events_probe hmem hwhole p
    exact ⟨hevents ▸ .probe s.events p, hwhole'⟩
  | wake hread hpend => exact ⟨.wake s.events hread hpend, hwhole⟩
  | collect bytes ring hread hpop =>
    obtain ⟨hwhole', hload⟩ := hwhole.pop hpop
    have hpop' : s.events.ring.pop = some (latencyEventLayout.load bytes, ring.map latencyEventLayout.load) := by
      rw [ByteSys.events, RingBuf.pop_map, hpop]
      rfl
    refine ⟨?_, hwhole'⟩
    rw [hload]
    exact .collect s.events _ _ hread hpop'
  | drained hread hpop =>
    refine ⟨.drained s.events hread ?_, hwhole⟩
    rw [ByteSys.events, RingBuf.pop_map, hpop]
    rfl
  | process hread => exact ⟨.process s.events hread, hwhole⟩

theorem Reachable.events (h : Reachable target s) :
    Sys.Reachable target s.events ∧ Whole latencyEventLayout s.ring := by
  have hsim : Simulates Step Sys.Step fun (s : ByteSys ncpu cap) t =>
      s.events = t ∧ Whole latencyEventLayout s.ring := by
    rintro s t s' ⟨rfl, hwhole⟩ hstep
    obtain ⟨hstep', hwhole'⟩ := hstep.events hwhole
    exact ⟨s'.events, .single hstep', rfl, hwhole'⟩
  have hwhole : Whole latencyEventLayout (init ncpu cap target).ring := by
    intro x hx
    cases hx
  obtain ⟨t, hrun, rfl, hwhole'⟩ := hsim.run ⟨rfl, hwhole⟩ h
  exact ⟨hrun, hwhole'⟩

end ByteSys

/-! ### The ring of stacks -/

/-- `Sampler` with a ring of bytes. -/
structure ByteSampler (ncpu cap : Nat) where
  maps : Maps ncpu
  main : MainPoint
  ring : RingBuf (Fin ncpu) (List UInt8) cap
  pending : Bool
  reader : ReaderPhase
  batch : List StackEvent
  samples : List StackEvent
  runs : List (SampleCtx ncpu × Bool)
  sent : List (StackEvent × Bool)

namespace ByteSampler

def init (m : Maps ncpu) : ByteSampler ncpu cap where
  maps := m
  main := .attached
  ring := .empty
  pending := false
  reader := .asleep
  batch := []
  samples := []
  runs := []
  sent := []

def output (s : ByteSampler ncpu cap) (cpu : Fin ncpu) (ev : StackEvent) (mem : List UInt8) :
    ByteSampler ncpu cap :=
  match s.ring.push cpu (stackEventLayout.store mem ev) with
  | some ring =>
    { s with ring := ring, pending := s.pending || Sys.wakes 0 s.ring.items.isEmpty
             sent := s.sent ++ [(ev, true)] }
  | none => { s with sent := s.sent ++ [(ev, false)] }

def sample (s : ByteSampler ncpu cap) (ctx : SampleCtx ncpu) (mem : List UInt8) : ByteSampler ncpu cap :=
  let s' := { s with runs := s.runs ++ [(ctx, flamegraphEnabled s.maps)] }
  match (tryCpuSample ctx s.maps).2 with
  | some ev => s'.output ctx.cpu ev mem
  | none => s'

inductive Step : ByteSampler ncpu cap → ByteSampler ncpu cap → Prop
  | sample (s : ByteSampler ncpu cap) (ctx : SampleCtx ncpu) (mem : List UInt8) :
      mem.length = stackEventLayout.size → Step s (s.sample ctx mem)
  | enable (s : ByteSampler ncpu cap) : s.main = .attached →
      Step s { s with main := .enabled, maps := enableFlamegraph s.maps }
  | spawn (s : ByteSampler ncpu cap) : s.main = .enabled →
      Step s { s with main := .waiting, pending := !s.ring.items.isEmpty }
  | wake (s : ByteSampler ncpu cap) : s.main = .waiting → s.reader = .asleep → s.pending = true →
      Step s { s with reader := .collecting, pending := false }
  | collect (s : ByteSampler ncpu cap) (bytes : List UInt8) (ring : RingBuf (Fin ncpu) (List UInt8) cap) :
      s.reader = .collecting → s.ring.pop = some (bytes, ring) →
      Step s { s with ring := ring, batch := s.batch ++ (stackEventLayout.read? bytes).toList }
  | drained (s : ByteSampler ncpu cap) : s.reader = .collecting → s.ring.pop = none →
      Step s { s with reader := .processing }
  | extend (s : ByteSampler ncpu cap) : s.reader = .processing →
      Step s { s with reader := .asleep, batch := [], samples := s.samples ++ s.batch }

def Reachable (m : Maps ncpu) : ByteSampler ncpu cap → Prop := Relation.ReflTransGen Step (init m)

def events (s : ByteSampler ncpu cap) : Sampler ncpu cap :=
  { maps := s.maps, main := s.main, ring := s.ring.map stackEventLayout.load, pending := s.pending
    reader := s.reader, batch := s.batch, samples := s.samples, runs := s.runs, sent := s.sent }

variable {s s' : ByteSampler ncpu cap} {mem : List UInt8}

theorem isEmpty_events (s : ByteSampler ncpu cap) : s.events.ring.items.isEmpty = s.ring.items.isEmpty := by
  simp [events, RingBuf.map]

theorem events_output (hmem : mem.length = stackEventLayout.size) (hwhole : Whole stackEventLayout s.ring)
    (cpu : Fin ncpu) (ev : StackEvent) :
    (s.output cpu ev mem).events = s.events.output cpu ev ∧ Whole stackEventLayout (s.output cpu ev mem).ring := by
  have hpush := push_store s.ring cpu ev hmem
  unfold output Sampler.output
  rw [isEmpty_events]
  cases h : s.ring.push cpu (stackEventLayout.store mem ev) with
  | none =>
    rw [h, Option.map_none] at hpush
    refine ⟨?_, hwhole⟩
    rw [events, events, hpush]
  | some ring =>
    rw [h, Option.map_some] at hpush
    refine ⟨?_, hwhole.push hmem h⟩
    rw [events, events, hpush]

theorem events_sample (hmem : mem.length = stackEventLayout.size) (hwhole : Whole stackEventLayout s.ring)
    (ctx : SampleCtx ncpu) :
    (s.sample ctx mem).events = s.events.sample ctx ∧ Whole stackEventLayout (s.sample ctx mem).ring := by
  have hmaps : s.events.maps = s.maps := rfl
  unfold sample Sampler.sample
  dsimp only
  rw [hmaps]
  cases (tryCpuSample ctx s.maps).2 with
  | none => exact ⟨rfl, hwhole⟩
  | some ev =>
    exact events_output (s := { s with runs := s.runs ++ [(ctx, flamegraphEnabled s.maps)] }) hmem hwhole ctx.cpu ev

theorem Step.events (h : Step s s') (hwhole : Whole stackEventLayout s.ring) :
    Sampler.Step s.events s'.events ∧ Whole stackEventLayout s'.ring := by
  cases h with
  | sample ctx mem hmem =>
    obtain ⟨hevents, hwhole'⟩ := events_sample hmem hwhole ctx
    exact ⟨hevents ▸ .sample s.events ctx, hwhole'⟩
  | enable hmain => exact ⟨.enable s.events hmain, hwhole⟩
  | spawn hmain =>
    refine ⟨?_, hwhole⟩
    rw [← isEmpty_events]
    exact .spawn s.events hmain
  | wake hmain hread hpend => exact ⟨.wake s.events hmain hread hpend, hwhole⟩
  | collect bytes ring hread hpop =>
    obtain ⟨hwhole', hload⟩ := hwhole.pop hpop
    have hpop' : s.events.ring.pop = some (stackEventLayout.load bytes, ring.map stackEventLayout.load) := by
      rw [ByteSampler.events, RingBuf.pop_map, hpop]
      rfl
    refine ⟨?_, hwhole'⟩
    rw [hload]
    exact .collect s.events _ _ hread hpop'
  | drained hread hpop =>
    refine ⟨.drained s.events hread ?_, hwhole⟩
    rw [ByteSampler.events, RingBuf.pop_map, hpop]
    rfl
  | extend hread => exact ⟨.extend s.events hread, hwhole⟩

theorem Reachable.events (h : Reachable m s) : Sampler.Reachable m s.events ∧ Whole stackEventLayout s.ring := by
  have hsim : Simulates Step Sampler.Step fun (s : ByteSampler ncpu cap) t =>
      s.events = t ∧ Whole stackEventLayout s.ring := by
    rintro s t s' ⟨rfl, hwhole⟩ hstep
    obtain ⟨hstep', hwhole'⟩ := hstep.events hwhole
    exact ⟨s'.events, .single hstep', rfl, hwhole'⟩
  have hwhole : Whole stackEventLayout (init m : ByteSampler ncpu cap).ring := by
    intro x hx
    cases hx
  obtain ⟨t, hrun, rfl, hwhole'⟩ := hsim.run ⟨rfl, hwhole⟩ h
  exact ⟨hrun, hwhole'⟩

end ByteSampler

/-- Whatever was in the memory of the probes, the readers get the events: the rings of bytes run as those
of events do. -/
theorem records_read_back (ncpu cap : Nat) (target : UInt32) (m : Maps ncpu) :
    (∀ s : ByteSys ncpu cap, ByteSys.Reachable target s →
      Sys.Reachable target s.events ∧ Whole latencyEventLayout s.ring) ∧
    ∀ s : ByteSampler ncpu cap, ByteSampler.Reachable m s →
      Sampler.Reachable m s.events ∧ Whole stackEventLayout s.ring :=
  ⟨fun _ h => h.events, fun _ h => h.events⟩

/-- A sample built in memory of ones. -/
def onesSample (cpu : Fin ncpu) : ByteSampler ncpu 16 :=
  ({ ByteSampler.init (.init ncpu 4242) with main := .enabled, maps := enableFlamegraph (.init ncpu 4242) }).sample
    (Sampler.stackCtx cpu 4242) (List.replicate stackEventLayout.size 1)

theorem records_read_back_ones : Sampler.Reachable (.init 1 4242) (onesSample (0 : Fin 1)).events := by
  have hreach : ByteSampler.Reachable (.init 1 4242) (onesSample (0 : Fin 1)) :=
    (Relation.ReflTransGen.single (.enable _ rfl)).tail (.sample _ _ _ List.length_replicate)
  exact ((records_read_back 1 16 4242 (.init 1 4242)).2 (onesSample 0) hreach).1

end RedisTracer
