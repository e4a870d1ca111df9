import RedisTracer.Outputs
import RedisTracer.Lib.Transition

/-!
# Probes between their helper calls

A `Trace` takes a run as one step. Here a run stops between its helper calls, and the CPUs run beside each
other. `trace` lists the runs at the step that counts: the write of a receive, the removal of a send. While
no run touches the entry of another in flight, the maps and outputs are those of `trace` (`Linearised`),
but for the CPUs whose send is yet to reach the ring.
-/

namespace RedisTracer

variable {ncpu : Nat} {target : UInt32}

/-- A run between two helper calls, with what it has read. -/
inductive ProbePoint (ncpu : Nat)
  /-- `try_on_recvmsg_ret` behind step A -/
  | reading (ctx : ProbeCtx ncpu) (iovBase : UInt64)
  /-- `try_on_sendmsg` with its copy of the entry -/
  | removing (ctx : ProbeCtx ncpu) (v : ReqCtx)
  /-- `try_on_sendmsg` behind the removal -/
  | sending (ctx : ProbeCtx ncpu) (v : ReqCtx)

namespace ProbePoint

def ctx : ProbePoint ncpu → ProbeCtx ncpu
  | reading ctx _ => ctx
  | removing ctx _ => ctx
  | sending ctx _ => ctx

/-- The run is not done with the entry it has found. -/
def Holds : ProbePoint ncpu → Prop
  | reading _ _ => True
  | removing _ _ => True
  | sending _ _ => False

/-- The run, while its step that counts is to come. -/
def ahead : Option (ProbePoint ncpu) → Trace ncpu
  | some (reading ctx _) => [.recvmsgRet ctx]
  | some (removing ctx _) => [.sendmsg ctx]
  | _ => []

end ProbePoint

/-- `running c` is the run in flight on the CPU `c`; `entered` lists the runs as they start. -/
structure Cpus (ncpu : Nat) where
  maps : Maps ncpu
  running : Fin ncpu → Option (ProbePoint ncpu)
  outputs : List (Fin ncpu × Output)
  entered : Trace ncpu
  trace : Trace ncpu

namespace Cpus

def init (ncpu : Nat) (target : UInt32) : Cpus ncpu where
  maps := .init ncpu target
  running _ := none
  outputs := []
  entered := []
  trace := []

/-- The run ends with `maps`. -/
def done (s : Cpus ncpu) (p : ProbeRun ncpu) (maps : Maps ncpu) : Cpus ncpu :=
  { s with maps := maps, running := Function.update s.running p.ctx.cpu none, trace := s.trace ++ [p] }

/-- The run stops at `pt`. -/
def stop (s : Cpus ncpu) (pt : ProbePoint ncpu) : Cpus ncpu :=
  { s with running := Function.update s.running pt.ctx.cpu (some pt) }

/-- A run up to its first stop. -/
def enter (s : Cpus ncpu) (p : ProbeRun ncpu) : Cpus ncpu :=
  let s := { s with entered := s.entered ++ [p] }
  match p with
  | .recvmsg ctx => s.done p (tryOnRecvmsg ctx s.maps).2
  | .recvmsgRet ctx =>
    if !isTargetPid s.maps ctx.pid then s.done p s.maps else
      match s.maps.reqCtx.get ctx.tgid with
      | none => s.done p s.maps
      | some c => if c.iovBase == 0 then s.done p s.maps else s.stop (.reading ctx c.iovBase)
  | .sendmsg ctx =>
    if !isTargetPid s.maps ctx.pid then s.done p s.maps else
      match s.maps.reqCtx.get ctx.tgid with
      | none => s.done p s.maps
      | some v => s.stop (.removing ctx v)

/-- The run at `pt` up to its next stop or its end. -/
def resume (s : Cpus ncpu) : ProbePoint ncpu → Cpus ncpu
  | .reading ctx iovBase =>
    let data := bpfProbeRead ctx.userMem iovBase 32
    s.done (.recvmsgRet ctx) { s.maps with
      reqCtx := s.maps.reqCtx.modify ctx.tgid fun c => { c with reqData := data, iovBase := 0 } }
  | .removing ctx v =>
    let s := s.done (.sendmsg ctx) { s.maps with reqCtx := s.maps.reqCtx.remove ctx.tgid }
    if ctx.ktimeNs - v.startNs > 10_000_000_000 then s else s.stop (.sending ctx v)
  | .sending ctx v =>
    let s := { s with running := Function.update s.running ctx.cpu none }
    match (s.maps.batchCnt ctx.cpu)[0]? with
    | none => s
    | some cur =>
      let (cnt, flags) := nextBatch cur
      { s with
        maps := { s.maps with
          batchCnt := Function.update s.maps.batchCnt ctx.cpu ((s.maps.batchCnt ctx.cpu).set 0 cnt Nat.one_pos) }
        outputs := s.outputs ++ [(ctx.cpu, ⟨latencyEvent ctx v, flags⟩)] }

/-- A step of one CPU; `ok` says which runs may start. -/
inductive Step (ok : Cpus ncpu → ProbeRun ncpu → Prop) : Cpus ncpu → Cpus ncpu → Prop
  | enter (s : Cpus ncpu) (p : ProbeRun ncpu) : s.running p.ctx.cpu = none → ok s p → Step ok s (s.enter p)
  | resume (s : Cpus ncpu) (pt : ProbePoint ncpu) : s.running pt.ctx.cpu = some pt → Step ok s (s.resume pt)

def Reachable (ok : Cpus ncpu → ProbeRun ncpu → Prop) (target : UInt32) : Cpus ncpu → Prop :=
  Relation.ReflTransGen (Step ok) (init ncpu target)

/-- The run does not touch an entry that a run in flight is not done with. -/
def Apart (target : UInt32) (s : Cpus ncpu) (p : ProbeRun ncpu) : Prop :=
  ∀ c pt, s.running c = some pt → pt.Holds → ¬ Touches target pt.ctx.tgid p.ctx

/-- A task makes one run at a time. -/
def OneRun (s : Cpus ncpu) (p : ProbeRun ncpu) : Prop :=
  ∀ c pt, s.running c = some pt → pt.ctx.pid ≠ p.ctx.pid

/-! ### The invariant -/

/-- The value of `BATCH_CNT` on a CPU. -/
def cnt (s : Cpus ncpu) (c : Fin ncpu) : UInt32 := (s.maps.batchCnt c)[0]?.getD 0

/-- `BATCH_CNT` of a CPU when its output is made. -/
def nextCnt (s : Cpus ncpu) (c : Fin ncpu) : Vector UInt32 1 :=
  match s.running c with
  | some (.sending _ _) => #v[(nextBatch (s.cnt c)).1]
  | _ => s.maps.batchCnt c

/-- The output a CPU is about to make. -/
def due (s : Cpus ncpu) (c : Fin ncpu) : List Output :=
  match s.running c with
  | some (.sending ctx v) => [⟨latencyEvent ctx v, (nextBatch (s.cnt c)).2⟩]
  | _ => []

end Cpus

/-- What a run in flight has read is still so. -/
def ProbePoint.Found (m : Maps ncpu) : ProbePoint ncpu → Prop
  | reading ctx iovBase => ∃ v, m.reqCtx.get ctx.tgid = some v ∧ v.iovBase = iovBase ∧ iovBase ≠ 0
  | removing ctx v => m.reqCtx.get ctx.tgid = some v
  | sending ctx v => ctx.ktimeNs - v.startNs ≤ 10_000_000_000

def runsOn (c : Fin ncpu) (tr : Trace ncpu) : Trace ncpu := tr.filter fun p => p.ctx.cpu = c

/-- The runs in flight: each on its CPU, with what it has read, and no two at work on one entry. -/
structure Cpus.Flight (target : UInt32) (s : Cpus ncpu) : Prop where
  place : ∀ c pt, s.running c = some pt → pt.ctx.cpu = c
  found : ∀ c pt, s.running c = some pt → accepts target pt.ctx.pid = true ∧ pt.Found s.maps
  apart : ∀ c c' pt pt', c ≠ c' → s.running c = some pt → s.running c' = some pt' → pt.Holds → pt'.Holds →
    pt.ctx.tgid ≠ pt'.ctx.tgid

structure Cpus.Linearised (target : UInt32) (s : Cpus ncpu) : Prop extends Cpus.Flight target s where
  maps : s.trace.foldl ProbeRun.step (.init ncpu target) = { s.maps with batchCnt := s.nextCnt }
  outputs : ∀ c, onCpu c (RedisTracer.outputs (.init ncpu target) s.trace) = onCpu c s.outputs ++ s.due c

/-- Each CPU starts its runs in the order in which they count. -/
def Cpus.InOrder (s : Cpus ncpu) : Prop :=
  ∀ c, runsOn c s.entered = runsOn c s.trace ++ ProbePoint.ahead (s.running c)

theorem ProbePoint.found_congr {m m' : Maps ncpu} {pt : ProbePoint ncpu}
    (hget : pt.Holds → m'.reqCtx.get pt.ctx.tgid = m.reqCtx.get pt.ctx.tgid) (h : pt.Found m) : pt.Found m' := by
  cases pt with
  | reading ctx iovBase =>
    obtain ⟨v, hv, hiov⟩ := h
    exact ⟨v, (hget trivial).trans hv, hiov⟩
  | removing ctx v => exact (hget trivial).trans h
  | sending ctx v => exact h

namespace Cpus

variable {s s₁ : Cpus ncpu} {p : ProbeRun ncpu} {c : Fin ncpu} {x : Option (ProbePoint ncpu)}

theorem Linearised.targetPid (h : Linearised target s) : s.maps.targetPid = #v[target] := by
  have hpid := targetPid_foldl s.trace (.init ncpu target)
  rw [h.maps] at hpid
  exact hpid

/-! ### The runs in flight -/

theorem running_update (hrun : s₁.running = Function.update s.running c x) {d : Fin ncpu} {pt : ProbePoint ncpu}
    (hd : s₁.running d = some pt) : d = c ∧ x = some pt ∨ d ≠ c ∧ s.running d = some pt := by
  rw [hrun] at hd
  by_cases hdc : d = c
  · subst hdc
    rw [Function.update_self] at hd
    exact .inl ⟨rfl, hd⟩
  · rw [Function.update_of_ne hdc] at hd
    exact .inr ⟨hdc, hd⟩

/-- A step of the CPU `c` that leaves the entries of the others alone. -/
theorem Flight.update (h : Flight target s) (hrun : s₁.running = Function.update s.running c x)
    (hkeep : ∀ c' pt, c' ≠ c → s.running c' = some pt → pt.Holds →
      s₁.maps.reqCtx.get pt.ctx.tgid = s.maps.reqCtx.get pt.ctx.tgid)
    (hnew : ∀ pt, x = some pt → pt.ctx.cpu = c ∧ accepts target pt.ctx.pid = true ∧ pt.Found s₁.maps)
    (hapart : ∀ pt, x = some pt → pt.Holds → ∀ c' pt', c' ≠ c → s.running c' = some pt' → pt'.Holds →
      pt'.ctx.tgid ≠ pt.ctx.tgid) : Flight target s₁ := by
  refine ⟨fun d pt hd => ?_, fun d pt hd => ?_, fun d d' pt pt' hne hd hd' hpt hpt' => ?_⟩
  · rcases running_update hrun hd with ⟨rfl, hx⟩ | ⟨-, hs⟩
    · exact (hnew pt hx).1
    · exact h.place d pt hs
  · rcases running_update hrun hd with ⟨-, hx⟩ | ⟨hdc, hs⟩
    · exact (hnew pt hx).2
    · obtain ⟨hacc, hfound⟩ := h.found d pt hs
      exact ⟨hacc, ProbePoint.found_congr (hkeep d pt hdc hs) hfound⟩
  · rcases running_update hrun hd with ⟨rfl, hx⟩ | ⟨hdc, hs⟩
    · rcases running_update hrun hd' with ⟨rfl, -⟩ | ⟨hdc', hs'⟩
      · exact absurd rfl hne
      · exact (hapart pt hx hpt d' pt' hdc' hs' hpt').symm
    · rcases running_update hrun hd' with ⟨rfl, hx'⟩ | ⟨-, hs'⟩
      · exact hapart pt' hx' hpt' d pt hdc hs hpt
      · exact h.apart d d' pt pt' hne hs hs' hpt hpt'

theorem Flight.init (target : UInt32) : Flight target (init ncpu target) :=
  ⟨fun _ _ h => (nomatch h), fun _ _ h => (nomatch h), fun _ _ _ _ _ h => (nomatch h)⟩

/-! ### Counters and outputs to come -/

def Quiet (x : Option (ProbePoint ncpu)) : Prop := ∀ ctx v, x ≠ some (.sending ctx v)

theorem nextCnt_of_quiet (h : Quiet (s.running c)) : s.nextCnt c = s.maps.batchCnt c ∧ s.due c = [] := by
  unfold nextCnt due
  split
  · rename_i ctx v hrun
    exact absurd hrun (h ctx v)
  · exact ⟨rfl, rfl⟩

theorem nextCnt_congr {d : Fin ncpu} (hrun : s₁.running d = s.running d)
    (hcnt : s₁.maps.batchCnt d = s.maps.batchCnt d) : s₁.nextCnt d = s.nextCnt d ∧ s₁.due d = s.due d := by
  unfold nextCnt due cnt
  rw [hrun, hcnt]
  exact ⟨rfl, rfl⟩

/-- A step that starts or ends no output. -/
theorem nextCnt_update (hrun : s₁.running = Function.update s.running c x)
    (hcnt : s₁.maps.batchCnt = s.maps.batchCnt) (hold : Quiet (s.running c)) (hx : Quiet x) :
    s₁.nextCnt = s.nextCnt ∧ s₁.due = s.due := by
  have hall : ∀ d, s₁.nextCnt d = s.nextCnt d ∧ s₁.due d = s.due d := by
    intro d
    by_cases hd : d = c
    · subst hd
      have hx' : Quiet (s₁.running d) := by rwa [hrun, Function.update_self]
      obtain ⟨hcnt₁, hdue₁⟩ := nextCnt_of_quiet hx'
      obtain ⟨hcnt₀, hdue₀⟩ := nextCnt_of_quiet hold
      rw [hcnt₁, hdue₁, hcnt₀, hdue₀, hcnt]
      exact ⟨rfl, rfl⟩
    · exact nextCnt_congr (by rw [hrun, Function.update_of_ne hd]) (by rw [hcnt])
  exact ⟨funext fun d => (hall d).1, funext fun d => (hall d).2⟩

/-! ### A step of a run -/

theorem step_batchCnt (hp : ∀ ctx, p ≠ .sendmsg ctx) (m : Maps ncpu) (f : Fin ncpu → Vector UInt32 1) :
    p.step { m with batchCnt := f } = { p.step m with batchCnt := f } := by
  have hpid : ∀ pid, isTargetPid { m with batchCnt := f } pid = isTargetPid m pid := fun _ => rfl
  cases p with
  | recvmsg ctx =>
    simp only [ProbeRun.step, tryOnRecvmsg, hpid]
    split <;> rfl
  | recvmsgRet ctx =>
    simp only [ProbeRun.step, tryOnRecvmsgRet, hpid]
    split
    · rfl
    · split
      · rfl
      · split <;> rfl
  | sendmsg ctx => exact absurd rfl (hp ctx)

/-- The run is over, with the maps and the outputs it has as one step. -/
structure Over (s s₁ : Cpus ncpu) (p : ProbeRun ncpu) : Prop where
  eq : s₁ = s.done p (p.step s.maps)
  step : ∀ f, p.step { s.maps with batchCnt := f } = { p.step s.maps with batchCnt := f }
  outputs : ∀ f, p.outputs { s.maps with batchCnt := f } = []

/-- A send that finds no entry. -/
theorem over_sendmsg {ctx : ProbeCtx ncpu} (h : ∀ f, tryOnSendmsg ctx { s.maps with batchCnt := f } =
    (.ok 0, { s.maps with batchCnt := f }, none)) : Over s (s.done (.sendmsg ctx) s.maps) (.sendmsg ctx) := by
  have hstep : ∀ f, (ProbeRun.sendmsg ctx).step { s.maps with batchCnt := f } = { s.maps with batchCnt := f } :=
    fun f => by rw [ProbeRun.step, h]
  have hmaps : (ProbeRun.sendmsg ctx).step s.maps = s.maps := hstep s.maps.batchCnt
  refine ⟨by rw [hmaps], fun f => by rw [hstep, hmaps], fun f => ?_⟩
  exact outputs_of_none (by rw [h])

theorem over_of_not_send (hp : ∀ ctx, p ≠ .sendmsg ctx) (h : s₁ = s.done p (p.step s.maps)) : Over s s₁ p :=
  ⟨h, step_batchCnt hp s.maps, fun _ => outputs_of_not_send _ hp⟩

/-- A run is over at once, or stops with the entry it has found. -/
theorem enter_cases (hm : s.maps.targetPid = #v[target]) (p : ProbeRun ncpu) :
    Over { s with entered := s.entered ++ [p] } (s.enter p) p ∨
      ∃ pt, s.enter p = ({ s with entered := s.entered ++ [p] } : Cpus ncpu).stop pt ∧ pt.ctx = p.ctx ∧
        pt.Holds ∧ ProbePoint.ahead (some pt) = [p] ∧ accepts target p.ctx.pid = true ∧ pt.Found s.maps := by
  cases p with
  | recvmsg ctx => exact .inl (over_of_not_send (by simp) rfl)
  | recvmsgRet ctx =>
    have hnot : ∀ c, ProbeRun.recvmsgRet ctx ≠ .sendmsg c := by simp
    have hpid := isTargetPid_eq hm ctx.pid
    unfold enter
    dsimp only
    rw [hpid]
    cases hacc : accepts target ctx.pid with
    | false =>
      refine .inl (over_of_not_send hnot ?_)
      simp [ProbeRun.step, tryOnRecvmsgRet, hpid, hacc]
    | true =>
      cases hget : s.maps.reqCtx.get ctx.tgid with
      | none =>
        refine .inl (over_of_not_send hnot ?_)
        simp [ProbeRun.step, tryOnRecvmsgRet, hpid, hacc, hget]
      | some v =>
        by_cases hiov : v.iovBase = 0
        · refine .inl (over_of_not_send hnot ?_)
          simp [ProbeRun.step, tryOnRecvmsgRet, hpid, hacc, hget, hiov]
        · refine .inr ⟨.reading ctx v.iovBase, ?_, rfl, trivial, rfl, hacc, v, hget, rfl, hiov⟩
          simp [hiov]
  | sendmsg ctx =>
    have hpid := isTargetPid_eq hm ctx.pid
    have hpid' : ∀ f : Fin ncpu → Vector UInt32 1, isTargetPid { s.maps with batchCnt := f } ctx.pid = accepts target ctx.pid := fun _ => hpid
    unfold enter
    dsimp only
    rw [hpid]
    cases hacc : accepts target ctx.pid with
    | false =>
      refine .inl (over_sendmsg (s := { s with entered := s.entered ++ [.sendmsg ctx] }) fun f => ?_)
      simp [tryOnSendmsg, hpid', hacc]
    | true =>
      cases hget : s.maps.reqCtx.get ctx.tgid with
      | none =>
        refine .inl (over_sendmsg (s := { s with entered := s.entered ++ [.sendmsg ctx] }) fun f => ?_)
        simp [tryOnSendmsg, hpid', hacc, hget]
      | some v => exact .inr ⟨.removing ctx v, by simp, rfl, trivial, rfl, hacc, hget⟩

/-! ### One step -/

theorem Over.targets (hover : Over s s₁ p) : s₁.maps = p.step s.maps ∧ s₁.trace = s.trace ++ [p] ∧
    s₁.running = Function.update s.running p.ctx.cpu none ∧ s₁.outputs = s.outputs ∧ s₁.entered = s.entered := by
  rw [hover.eq]
  exact ⟨rfl, rfl, rfl, rfl, rfl⟩

theorem Over.batchCnt (hover : Over s s₁ p) : s₁.maps.batchCnt = s.maps.batchCnt := by
  have hsame : p.step s.maps = { p.step s.maps with batchCnt := s.maps.batchCnt } := hover.step s.maps.batchCnt
  rw [hover.targets.1, hsame]

theorem quiet_none : Quiet (none : Option (ProbePoint ncpu)) := fun _ _ h => nomatch h

theorem quiet_of_holds (pt : ProbePoint ncpu) (h : pt.Holds) : Quiet (some pt) := by
  rintro ctx v ⟨⟩
  exact h

theorem Linearised.over (h : Linearised target s) (hover : Over s s₁ p) (hold : Quiet (s.running p.ctx.cpu))
    (hkeep : ∀ c' pt, c' ≠ p.ctx.cpu → s.running c' = some pt → pt.Holds →
      s₁.maps.reqCtx.get pt.ctx.tgid = s.maps.reqCtx.get pt.ctx.tgid) : Linearised target s₁ := by
  obtain ⟨hmaps, htrace, hrun, hout, -⟩ := hover.targets
  obtain ⟨hnext, hdue⟩ := nextCnt_update hrun hover.batchCnt hold quiet_none
  refine ⟨h.toFlight.update hrun hkeep (fun _ hx => nomatch hx) (fun _ hx => nomatch hx), ?_, fun c => ?_⟩
  · rw [htrace, List.foldl_append, h.maps, hnext, hmaps]
    exact hover.step s.nextCnt
  · rw [htrace, outputs_concat, h.maps, hover.outputs, List.append_nil, h.outputs, hout, hdue]

theorem Linearised.stop (h : Linearised target s) {pt : ProbePoint ncpu} (hidle : s.running pt.ctx.cpu = none)
    (hpt : pt.Holds) (hacc : accepts target pt.ctx.pid = true) (hfound : pt.Found s.maps)
    (hapart : ∀ c' pt', s.running c' = some pt' → pt'.Holds → pt'.ctx.tgid ≠ pt.ctx.tgid) :
    Linearised target (s.stop pt) := by
  have hrun : (s.stop pt).running = Function.update s.running pt.ctx.cpu (some pt) := rfl
  obtain ⟨hnext, hdue⟩ := nextCnt_update hrun rfl (hidle ▸ quiet_none) (quiet_of_holds pt hpt)
  refine ⟨h.toFlight.update hrun (fun _ _ _ _ _ => rfl) ?_ ?_, ?_, fun c => ?_⟩
  · rintro _ ⟨⟩
    exact ⟨rfl, hacc, hfound⟩
  · rintro _ ⟨⟩ - c' pt' - hs' hpt'
    exact hapart c' pt' hs' hpt'
  · rw [hnext]
    exact h.maps
  · rw [hdue]
    exact h.outputs c

/-- Another run under the key has not touched the entry. -/
theorem Linearised.enter (h : Linearised target s) (p : ProbeRun ncpu) (hidle : s.running p.ctx.cpu = none)
    (hok : Apart target s p) : Linearised target (s.enter p) := by
  have h' : Linearised target { s with entered := s.entered ++ [p] } :=
    ⟨⟨h.place, h.found, h.apart⟩, h.maps, h.outputs⟩
  rcases enter_cases h.targetPid p with hover | ⟨pt, heq, hctx, hpt, -, hacc, hfound⟩
  · refine h'.over hover (hidle ▸ quiet_none) fun c' pt _ hs hpt => ?_
    rw [hover.targets.1]
    exact get_step_of_not_touches h.targetPid (hok c' pt hs hpt)
  · rw [heq]
    refine h'.stop (hctx ▸ hidle) hpt (hctx ▸ hacc) hfound fun c' pt' hs' hpt' hkey => ?_
    exact hok c' pt' hs' hpt' ⟨hacc, hctx ▸ hkey.symm⟩

/-- The step that counts, of a run that has found its entry. -/
theorem Linearised.count (h : Linearised target s) {pt : ProbePoint ncpu} (hs : s.running pt.ctx.cpu = some pt)
    (hpt : pt.Holds) (hctx : p.ctx = pt.ctx) (hover : Over s s₁ p) : Linearised target s₁ := by
  refine h.over hover (hctx ▸ hs ▸ quiet_of_holds pt hpt) fun c' pt' hne hs' hpt' => ?_
  rw [hover.targets.1]
  refine get_step_of_not_touches h.targetPid fun ht => ?_
  rw [hctx] at hne ht
  exact h.apart _ _ pt pt' (Ne.symm hne) hs hs' hpt hpt' ht.2

theorem over_reading (hm : s.maps.targetPid = #v[target]) {ctx : ProbeCtx ncpu} {iovBase : UInt64}
    (hacc : accepts target ctx.pid = true) (hfound : (ProbePoint.reading ctx iovBase).Found s.maps) :
    Over s (s.resume (.reading ctx iovBase)) (.recvmsgRet ctx) := by
  obtain ⟨v, hget, rfl, hiov⟩ := hfound
  refine over_of_not_send (by simp) ?_
  simp [resume, ProbeRun.step, tryOnRecvmsgRet, isTargetPid_eq hm, hacc, hget, hiov]

section
variable {ctx : ProbeCtx ncpu} {v : ReqCtx}

/-- `try_on_sendmsg` on an entry, whatever the counters. -/
theorem tryOnSendmsg_found {m : Maps ncpu} (hm : m.targetPid = #v[target]) (hacc : accepts target ctx.pid = true)
    (hget : m.reqCtx.get ctx.tgid = some v) (f : Fin ncpu → Vector UInt32 1) :
    tryOnSendmsg ctx { m with batchCnt := f } =
      if ctx.ktimeNs - v.startNs > 10_000_000_000 then
        (.ok 0, { m with reqCtx := m.reqCtx.remove ctx.tgid, batchCnt := f }, none)
      else (.ok 0, { m with
          reqCtx := m.reqCtx.remove ctx.tgid
          batchCnt := Function.update f ctx.cpu #v[(nextBatch ((f ctx.cpu).get 0)).1] },
        some ⟨latencyEvent ctx v, (nextBatch ((f ctx.cpu).get 0)).2⟩) := by
  have hpid : isTargetPid { m with batchCnt := f } ctx.pid = true := (isTargetPid_eq hm ctx.pid).trans hacc
  simp only [tryOnSendmsg, hpid, hget, Bool.not_true, Bool.false_eq_true, if_false]
  split
  · rfl
  · have hslot : (f ctx.cpu).set 0 (nextBatch ((f ctx.cpu).get 0)).1 Nat.one_pos =
        #v[(nextBatch ((f ctx.cpu).get 0)).1] := set_slot _ _
    show (_, _, some _) = _
    simp only [← hslot]
    rfl

theorem over_removing (hm : s.maps.targetPid = #v[target]) (hacc : accepts target ctx.pid = true)
    (hget : s.maps.reqCtx.get ctx.tgid = some v) (hlate : ctx.ktimeNs - v.startNs > 10_000_000_000) :
    Over s (s.resume (.removing ctx v)) (.sendmsg ctx) := by
  have hstep : ∀ f, tryOnSendmsg ctx { s.maps with batchCnt := f } =
      (.ok 0, { s.maps with reqCtx := s.maps.reqCtx.remove ctx.tgid, batchCnt := f }, none) := fun f => by
    rw [tryOnSendmsg_found hm hacc hget, if_pos hlate]
  have hmaps : (ProbeRun.sendmsg ctx).step s.maps = { s.maps with reqCtx := s.maps.reqCtx.remove ctx.tgid } := by
    rw [ProbeRun.step]
    exact congrArg (fun r => r.2.1) (hstep s.maps.batchCnt)
  refine ⟨?_, fun f => ?_, fun f => outputs_of_none (by rw [hstep])⟩
  · rw [hmaps, resume]
    exact if_pos hlate
  · rw [ProbeRun.step, hstep, hmaps]

end

/-- The removal of a send that is in time: from here on the run counts, its output included. -/
theorem Linearised.removing (h : Linearised target s) {ctx : ProbeCtx ncpu} {v : ReqCtx}
    (hs : s.running ctx.cpu = some (.removing ctx v)) (hlat : ¬ ctx.ktimeNs - v.startNs > 10_000_000_000) :
    Linearised target (s.resume (.removing ctx v)) := by
  have hacc : accepts target ctx.pid = true := (h.found _ _ hs).1
  have hget : s.maps.reqCtx.get ctx.tgid = some v := (h.found _ _ hs).2
  have hrun : (s.resume (.removing ctx v)).running =
      Function.update s.running ctx.cpu (some (.sending ctx v)) := by
    rw [resume]
    simp only [hlat, if_false]
    exact Function.update_idem ..
  have hrest : (s.resume (.removing ctx v)).maps = { s.maps with reqCtx := s.maps.reqCtx.remove ctx.tgid } ∧
      (s.resume (.removing ctx v)).trace = s.trace ++ [.sendmsg ctx] ∧
      (s.resume (.removing ctx v)).outputs = s.outputs := by
    rw [resume]
    simp only [hlat, if_false]
    exact ⟨rfl, rfl, rfl⟩
  obtain ⟨hmaps, htrace, hout⟩ := hrest
  obtain ⟨hcnt, hdue⟩ := nextCnt_of_quiet (c := ctx.cpu) (hs ▸ quiet_of_holds (.removing ctx v) trivial)
  have hsend : (tryOnSendmsg ctx { s.maps with batchCnt := s.nextCnt }).2 = ({ s.maps with
      reqCtx := s.maps.reqCtx.remove ctx.tgid
      batchCnt := Function.update s.nextCnt ctx.cpu #v[(nextBatch (s.cnt ctx.cpu)).1] },
      some ⟨latencyEvent ctx v, (nextBatch (s.cnt ctx.cpu)).2⟩) := by
    rw [tryOnSendmsg_found h.targetPid hacc hget, if_neg hlat, hcnt]
    rfl
  have hother : ∀ d, d ≠ ctx.cpu → (s.resume (.removing ctx v)).nextCnt d = s.nextCnt d ∧
      (s.resume (.removing ctx v)).due d = s.due d := fun d hd =>
    nextCnt_congr (by rw [hrun, Function.update_of_ne hd]) (by rw [hmaps])
  have hself : (s.resume (.removing ctx v)).nextCnt ctx.cpu = #v[(nextBatch (s.cnt ctx.cpu)).1] ∧
      (s.resume (.removing ctx v)).due ctx.cpu =
        [⟨latencyEvent ctx v, (nextBatch (s.cnt ctx.cpu)).2⟩] := by
    unfold nextCnt due cnt
    rw [hrun, hmaps, Function.update_self]
    exact ⟨rfl, rfl⟩
  refine ⟨h.toFlight.update hrun ?_ ?_ ?_, ?_, fun c => ?_⟩
  · intro c' pt hne hs' hpt
    have hkey := h.apart _ _ _ pt hne.symm hs hs' trivial hpt
    rw [hmaps]
    exact BoundedMap.get_remove_of_ne (Ne.symm hkey)
  · rintro _ ⟨⟩
    exact ⟨rfl, hacc, UInt64.not_lt.1 hlat⟩
  · rintro _ ⟨⟩ hpt
    exact absurd hpt id
  · rw [htrace, List.foldl_append, h.maps, hmaps]
    show (tryOnSendmsg ctx { s.maps with batchCnt := s.nextCnt }).2.1 = _
    rw [hsend]
    have hnext : (s.resume (.removing ctx v)).nextCnt = Function.update s.nextCnt ctx.cpu
        #v[(nextBatch (s.cnt ctx.cpu)).1] := by
      funext d
      by_cases hd : d = ctx.cpu
      · rw [hd, hself.1, Function.update_self]
      · rw [(hother d hd).1, Function.update_of_ne hd]
    rw [hnext]
  · rw [htrace, outputs_concat, h.maps, outputs_of_some (o := ⟨latencyEvent ctx v, _⟩) (by rw [hsend]),
      onCpu_concat, h.outputs, hout]
    by_cases hd : c = ctx.cpu
    · rw [hd, if_pos rfl, hself.2, hdue, List.append_nil]
    · rw [if_neg (Ne.symm hd), (hother c hd).2, List.append_nil]

theorem resume_sending (s : Cpus ncpu) (ctx : ProbeCtx ncpu) (v : ReqCtx) :
    (s.resume (.sending ctx v)).maps = { s.maps with
        batchCnt := Function.update s.maps.batchCnt ctx.cpu #v[(nextBatch (s.cnt ctx.cpu)).1] } ∧
      (s.resume (.sending ctx v)).running = Function.update s.running ctx.cpu none ∧
      (s.resume (.sending ctx v)).outputs =
        s.outputs ++ [(ctx.cpu, ⟨latencyEvent ctx v, (nextBatch (s.cnt ctx.cpu)).2⟩)] := by
  refine ⟨?_, rfl, rfl⟩
  rw [← set_slot (s.maps.batchCnt ctx.cpu)]
  rfl

/-- The output: what the counter and the ring get is what was due. -/
theorem Linearised.sending (h : Linearised target s) {ctx : ProbeCtx ncpu} {v : ReqCtx}
    (hs : s.running ctx.cpu = some (.sending ctx v)) : Linearised target (s.resume (.sending ctx v)) := by
  have hcnt : s.nextCnt ctx.cpu = #v[(nextBatch (s.cnt ctx.cpu)).1] ∧
      s.due ctx.cpu = [⟨latencyEvent ctx v, (nextBatch (s.cnt ctx.cpu)).2⟩] := by
    unfold nextCnt due
    rw [hs]
    exact ⟨rfl, rfl⟩
  obtain ⟨hmaps, hrun, hout⟩ := resume_sending s ctx v
  have hall : ∀ d, (s.resume (.sending ctx v)).nextCnt d = s.nextCnt d ∧
      (s.resume (.sending ctx v)).due d = if d = ctx.cpu then [] else s.due d := by
    intro d
    by_cases hd : d = ctx.cpu
    · rw [if_pos hd, hd, hcnt.1]
      have hquiet := nextCnt_of_quiet (s := s.resume (.sending ctx v)) (c := ctx.cpu)
        (by rw [hrun, Function.update_self]; exact quiet_none)
      rw [hquiet.1, hquiet.2, hmaps]
      exact ⟨Function.update_self .., rfl⟩
    · rw [if_neg hd]
      exact nextCnt_congr (by rw [hrun, Function.update_of_ne hd]) (by rw [hmaps]; exact Function.update_of_ne hd ..)
  refine ⟨h.toFlight.update hrun ?_ (fun _ hx => nomatch hx) (fun _ hx => nomatch hx), ?_, fun c => ?_⟩
  · intro c' pt _ _ _
    rw [hmaps]
  · rw [hmaps, funext fun d => (hall d).1]
    exact h.maps
  · rw [hout, onCpu_concat, (hall c).2, List.append_assoc]
    refine (h.outputs c).trans ?_
    by_cases hc : c = ctx.cpu
    · rw [if_pos hc.symm, if_pos hc, hc, hcnt.2, List.append_nil]
    · rw [if_neg (Ne.symm hc), if_neg hc, List.nil_append]

theorem Linearised.resume (h : Linearised target s) {pt : ProbePoint ncpu}
    (hs : s.running pt.ctx.cpu = some pt) : Linearised target (s.resume pt) := by
  obtain ⟨hacc, hfound⟩ := h.found _ _ hs
  cases pt with
  | reading ctx iovBase => exact h.count hs trivial rfl (over_reading h.targetPid hacc hfound)
  | removing ctx v =>
    by_cases hlate : ctx.ktimeNs - v.startNs > 10_000_000_000
    · exact h.count hs trivial rfl (over_removing h.targetPid hacc hfound hlate)
    · exact h.removing hs hlate
  | sending ctx v => exact h.sending hs

/-! ### The order of the runs -/

theorem runsOn_append (c : Fin ncpu) (tr tr' : Trace ncpu) :
    runsOn c (tr ++ tr') = runsOn c tr ++ runsOn c tr' := List.filter_append ..

/-- A step of the CPU `c` on the runs `a`, which start, and `b`, which count. -/
theorem InOrder.update (h : s.InOrder) {a b : Trace ncpu} (hrun : s₁.running = Function.update s.running c x)
    (hentered : s₁.entered = s.entered ++ a) (htrace : s₁.trace = s.trace ++ b)
    (ha : ∀ p ∈ a, p.ctx.cpu = c) (hb : ∀ p ∈ b, p.ctx.cpu = c)
    (heq : ProbePoint.ahead (s.running c) ++ a = b ++ ProbePoint.ahead x) : s₁.InOrder := by
  intro d
  rw [hentered, htrace, runsOn_append, runsOn_append, h d, hrun]
  by_cases hd : d = c
  · subst hd
    have hall : ∀ l : Trace ncpu, (∀ p ∈ l, p.ctx.cpu = d) → runsOn d l = l := fun l hl =>
      List.filter_eq_self.2 fun p hp => decide_eq_true (hl p hp)
    rw [hall a ha, hall b hb, Function.update_self, List.append_assoc, heq, List.append_assoc]
  · have hnone : ∀ l : Trace ncpu, (∀ p ∈ l, p.ctx.cpu = c) → runsOn d l = [] := fun l hl =>
      List.filter_eq_nil_iff.2 fun p hp => by simpa using fun he => hd (he.symm.trans (hl p hp))
    rw [hnone a ha, hnone b hb, Function.update_of_ne hd, List.append_nil, List.append_nil]

theorem InOrder.enter (h : s.InOrder) (hm : s.maps.targetPid = #v[target]) (p : ProbeRun ncpu)
    (hidle : s.running p.ctx.cpu = none) : (s.enter p).InOrder := by
  have hself : ∀ q ∈ [p], q.ctx.cpu = p.ctx.cpu := by simp
  rcases enter_cases hm p with hover | ⟨pt, heq, hctx, -, hahead, -, -⟩
  · obtain ⟨-, htrace, hrun, -, hentered⟩ := hover.targets
    exact h.update hrun hentered htrace hself hself (by rw [hidle]; rfl)
  · rw [heq]
    refine h.update (b := []) (x := some pt) (c := p.ctx.cpu) ?_ rfl (List.append_nil _).symm hself (by simp) ?_
    · rw [← hctx]
      rfl
    · rw [hidle, hahead]
      rfl

theorem InOrder.resume (h : s.InOrder) {pt : ProbePoint ncpu} (hs : s.running pt.ctx.cpu = some pt) :
    (s.resume pt).InOrder := by
  cases pt with
  | reading ctx iovBase =>
    have hs : s.running ctx.cpu = some (.reading ctx iovBase) := hs
    exact h.update (a := []) (b := [.recvmsgRet ctx]) (c := ctx.cpu) (x := none) rfl (List.append_nil _).symm rfl
      (by simp) (by simp [ProbeRun.ctx]) (by rw [hs]; rfl)
  | removing ctx v =>
    have hs : s.running ctx.cpu = some (.removing ctx v) := hs
    have hctx : ∀ p ∈ [ProbeRun.sendmsg ctx], p.ctx.cpu = ctx.cpu := by simp [ProbeRun.ctx]
    unfold Cpus.resume
    dsimp only
    split
    · exact h.update (a := []) (c := ctx.cpu) (x := none) rfl (List.append_nil _).symm rfl (by simp) hctx
        (by rw [hs]; rfl)
    · exact h.update (a := []) (c := ctx.cpu) (x := some (.sending ctx v)) (Function.update_idem ..)
        (List.append_nil _).symm rfl (by simp) hctx (by rw [hs]; rfl)
  | sending ctx v =>
    have hs : s.running ctx.cpu = some (.sending ctx v) := hs
    exact h.update (a := []) (b := []) (c := ctx.cpu) (x := none) rfl (List.append_nil _).symm
      (List.append_nil _).symm (by simp) (by simp) (by rw [hs]; rfl)

/-! ### Whole runs -/

theorem Linearised.init (ncpu : Nat) (target : UInt32) : Linearised target (init ncpu target) :=
  ⟨.init target, rfl, fun _ => rfl⟩

/-- A pinned task makes one run at a time, and no other passes the filter. -/
theorem Flight.apart_of_oneRun (h : Flight target s) (hne : target ≠ 0) (hone : OneRun s p) : Apart target s p := by
  intro c pt hs _ ht
  have hpid : p.ctx.pid = target := (accepts_of_ne_zero hne).1 ht.1
  have hpid' : pt.ctx.pid = target := (accepts_of_ne_zero hne).1 (h.found c pt hs).1
  exact hone c pt hs (hpid'.trans hpid.symm)

theorem Reachable.linearised {ok : Cpus ncpu → ProbeRun ncpu → Prop}
    (hok : ∀ s p, Linearised target s → ok s p → Apart target s p) (h : Reachable ok target s) :
    Linearised target s ∧ s.InOrder := by
  refine Transition.invariant (I := fun s => Linearised target s ∧ s.InOrder) ⟨.init ncpu target, fun _ => rfl⟩ ?_ h
  rintro s s' ⟨hlin, horder⟩ hstep
  cases hstep with
  | enter p hidle hp => exact ⟨hlin.enter p hidle (hok s p hlin hp), horder.enter hlin.targetPid p hidle⟩
  | resume pt hs => exact ⟨hlin.resume hs, horder.resume hs⟩

theorem count_onCpu (outs : List (Fin ncpu × Output)) (x : Fin ncpu × Output) :
    outs.count x = (onCpu x.1 outs).count x.2 := by
  induction outs with
  | nil => rfl
  | cons y outs ih =>
    obtain ⟨c, o⟩ := x
    obtain ⟨d, o'⟩ := y
    rw [List.count_cons, ih]
    by_cases hd : d = c
    · subst hd
      simp [onCpu, List.count_cons]
    · simp [onCpu, hd]

/-- Outputs that a list of each CPU begins with are outputs of the list. -/
theorem subperm_of_onCpu {outs outs' : List (Fin ncpu × Output)}
    (h : ∀ c, onCpu c outs <+: onCpu c outs') : outs.Subperm outs' := by
  refine List.subperm_ext_iff.2 fun x _ => ?_
  rw [count_onCpu, count_onCpu]
  exact (h x.1).sublist.count_le x.2

theorem perm_of_onCpu {outs outs' : List (Fin ncpu × Output)} (h : ∀ c, onCpu c outs = onCpu c outs') :
    outs.Perm outs' := List.perm_iff_count.2 fun x => by rw [count_onCpu, count_onCpu, h]

/-- Runs that overlap count one after the other, if none touches an entry another is at work on. A pinned
task never does. The order is that of each CPU, and between runs that do not overlap that of time. -/
theorem probes_linearise (ncpu : Nat) (target : UInt32) (s : Cpus ncpu)
    (h : Reachable (Apart target) target s ∨ target ≠ 0 ∧ Reachable OneRun target s) :
    (∀ c, runsOn c s.trace <+: runsOn c s.entered ∧
        onCpu c s.outputs <+: onCpu c (RedisTracer.outputs (.init ncpu target) s.trace)) ∧
      s.outputs.Subperm (RedisTracer.outputs (.init ncpu target) s.trace) ∧
      ((∀ c, s.running c = none) → s.maps = mapsAt target s.trace s.trace.length ∧
        (∀ c, runsOn c s.trace = runsOn c s.entered) ∧
        s.outputs.Perm (RedisTracer.outputs (.init ncpu target) s.trace)) := by
  have hlin : Linearised target s ∧ s.InOrder := by
    rcases h with h | ⟨hne, h⟩
    · exact h.linearised fun _ _ _ hok => hok
    · exact h.linearised fun _ _ hlin hone => hlin.toFlight.apart_of_oneRun hne hone
  obtain ⟨hlin, horder⟩ := hlin
  have hprefix : ∀ c, onCpu c s.outputs <+: onCpu c (RedisTracer.outputs (.init ncpu target) s.trace) := fun c =>
    ⟨s.due c, (hlin.outputs c).symm⟩
  refine ⟨fun c => ⟨⟨_, (horder c).symm⟩, hprefix c⟩, subperm_of_onCpu hprefix, fun hidle => ⟨?_, fun c => ?_, ?_⟩⟩
  · have hnext : s.nextCnt = s.maps.batchCnt := funext fun c =>
      (nextCnt_of_quiet (hidle c ▸ quiet_none)).1
    have hmaps := hlin.maps
    rw [hnext] at hmaps
    rw [mapsAt, Run.stateAt, List.take_length]
    exact hmaps.symm
  · have hruns := horder c
    rw [hidle c] at hruns
    exact (hruns.trans (List.append_nil _)).symm
  · refine perm_of_onCpu fun c => ?_
    rw [hlin.outputs c, (nextCnt_of_quiet (hidle c ▸ quiet_none)).2, List.append_nil]

/-- Two receives, and two sends that both have their entry before one removes it; the second task is of the
process `k`. -/
def bothFound (k : UInt32) : Cpus 2 :=
  let s := ((init 2 0).enter (.recvmsg (bareCtx 0 100 1 1 0))).enter (.recvmsg (bareCtx 1 k 2 1 0))
  (s.enter (.sendmsg (bareCtx 0 100 1 2 0))).enter (.sendmsg (bareCtx 1 k 2 2 0))

/-- The second is the first to reach the ring. -/
def bothSent (k : UInt32) (v : ReqCtx) : Cpus 2 :=
  let s := ((bothFound k).resume (.removing (bareCtx 0 100 1 2 0) v)).resume (.removing (bareCtx 1 k 2 2 0) v)
  (s.resume (.sending (bareCtx 1 k 2 2 0) v)).resume (.sending (bareCtx 0 100 1 2 0) v)

def bareEntry : ReqCtx := ⟨1, 0, 0, Vector.replicate 32 0⟩

theorem reachable_bothSent {ok : Cpus 2 → ProbeRun 2 → Prop} {k : UInt32} (hk : k = 100 ∨ k = 200)
    (hidle : ∀ s p, (∀ c, s.running c = none) → ok s p)
    (hok : ∀ s : Cpus 2, s.running 0 = some (.removing (bareCtx 0 100 1 2 0) bareEntry) → s.running 1 = none →
      ok s (.sendmsg (bareCtx 1 k 2 2 0))) : Reachable ok 0 (bothSent k bareEntry) := by
  have hrun : ∀ s : Cpus 2, s.running 0 = none → s.running 1 = none → ∀ c, s.running c = none := fun s h0 h1 =>
    Fin.forall_fin_two.2 ⟨h0, h1⟩
  have hreceived : Reachable ok 0
      (((init 2 0).enter (.recvmsg (bareCtx 0 100 1 1 0))).enter (.recvmsg (bareCtx 1 k 2 1 0))) :=
    (Relation.ReflTransGen.single (.enter _ _ rfl (hidle _ _ (hrun _ rfl rfl)))).tail
      (.enter _ _ rfl (hidle _ _ (hrun _ rfl rfl)))
  have hfound : Reachable ok 0 (bothFound k) := by
    refine (hreceived.tail (.enter _ (.sendmsg (bareCtx 0 100 1 2 0)) rfl (hidle _ _ (hrun _ rfl rfl)))).tail
      (.enter _ (.sendmsg (bareCtx 1 k 2 2 0)) ?_ (hok _ ?_ ?_))
    all_goals rcases hk with rfl | rfl <;> rfl
  refine (((hfound.tail (.resume _ (.removing (bareCtx 0 100 1 2 0) bareEntry) ?_)).tail
    (.resume _ (.removing (bareCtx 1 k 2 2 0) bareEntry) ?_)).tail
      (.resume _ (.sending (bareCtx 1 k 2 2 0) bareEntry) ?_)).tail
        (.resume _ (.sending (bareCtx 0 100 1 2 0) bareEntry) ?_)
  all_goals rcases hk with rfl | rfl <;> rfl

theorem probes_linearise_apart : (bothSent 200 bareEntry).outputs.map Prod.fst = [1, 0] ∧
    (bothSent 200 bareEntry).outputs.Perm (RedisTracer.outputs (.init 2 0) (bothSent 200 bareEntry).trace) := by
  have hreach : Reachable (Apart 0) 0 (bothSent 200 bareEntry) := by
    refine reachable_bothSent (.inr rfl) (fun s p hidle c pt hs => ?_) fun s h0 h1 => ?_
    · rw [hidle c] at hs
      cases hs
    · refine Fin.forall_fin_two.2 ⟨fun pt hs _ ht => ?_, fun pt hs => ?_⟩
      · cases h0.symm.trans hs
        exact absurd ht.2 (by decide)
      · cases h1.symm.trans hs
  have hidle : ∀ c, (bothSent 200 bareEntry).running c = none := Fin.forall_fin_two.2 ⟨rfl, rfl⟩
  exact ⟨rfl, ((probes_linearise 2 0 (bothSent 200 bareEntry) (.inl hreach)).2.2 hidle).2.2⟩

/-- Two tasks of one process can make an event each of one entry. -/
theorem not_probes_linearise : Reachable OneRun 0 (bothSent 100 bareEntry) ∧
    ¬ (bothSent 100 bareEntry).outputs.Subperm
      (RedisTracer.outputs (.init 2 0) (bothSent 100 bareEntry).trace) := by
  refine ⟨reachable_bothSent (.inl rfl) (fun s p hidle c pt hs => ?_) fun s h0 h1 => ?_, fun hsub => ?_⟩
  · rw [hidle c] at hs
    cases hs
  · refine Fin.forall_fin_two.2 ⟨fun pt hs => ?_, fun pt hs => ?_⟩
    · cases h0.symm.trans hs
      decide
    · cases h1.symm.trans hs
  · exact absurd hsub.length_le (by decide)

end Cpus

end RedisTracer
