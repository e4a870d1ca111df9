import RedisTracer.Probes
import RedisTracer.Lib.Run
import RedisTracer.Lib.Packing

/-!
# Runs of the latency probes

A trace lists probe runs in the order they happen, whatever thread, connection or CPU they belong to;
`mapsAt target tr j` are the maps just before run number `j`. What one run does to the `REQ_CTX` entry
of a key `k` is said once (`get_step_*`): only an accepted run whose key is `k` touches it.
`OutputAt` are the `LATENCY_RINGBUF.output` calls of a trace.
-/

namespace RedisTracer

variable {ncpu : Nat}

inductive ProbeRun (ncpu : Nat)
  | recvmsg (ctx : ProbeCtx ncpu)
  | recvmsgRet (ctx : ProbeCtx ncpu)
  | sendmsg (ctx : ProbeCtx ncpu)

namespace ProbeRun

def ctx : ProbeRun ncpu → ProbeCtx ncpu
  | recvmsg ctx => ctx
  | recvmsgRet ctx => ctx
  | sendmsg ctx => ctx

def step (m : Maps ncpu) : ProbeRun ncpu → Maps ncpu
  | recvmsg ctx => (tryOnRecvmsg ctx m).2
  | recvmsgRet ctx => (tryOnRecvmsgRet ctx m).2
  | sendmsg ctx => (tryOnSendmsg ctx m).2.1

end ProbeRun

abbrev Trace (ncpu : Nat) := List (ProbeRun ncpu)

/-! ### The filter -/

/-- What `is_target_pid` answers while `TARGET_PID` holds `target`. -/
def accepts (target pid : UInt32) : Bool := if target != 0 then pid == target else true

/-- The run passes the filter and works on the `REQ_CTX` entry `k`. -/
def Touches (target k : UInt32) (ctx : ProbeCtx ncpu) : Prop :=
  accepts target ctx.pid = true ∧ ctx.tgid = k

instance (target k : UInt32) (ctx : ProbeCtx ncpu) : Decidable (Touches target k ctx) :=
  inferInstanceAs (Decidable (_ ∧ _))

theorem set_slot (v : Vector UInt32 1) (n : UInt32) : v.set 0 n Nat.one_pos = #v[n] := by
  apply Vector.ext
  intro i hi
  obtain rfl : i = 0 := by omega
  simp

theorem isTargetPid_eq {m : Maps ncpu} {target : UInt32} (h : m.targetPid = #v[target]) (pid : UInt32) :
    isTargetPid m pid = accepts target pid := by
  simp [isTargetPid, accepts, h]

theorem accepts_of_ne_zero {target pid : UInt32} (h : target ≠ 0) :
    accepts target pid = true ↔ pid = target := by
  simp [accepts, h]

theorem accepts_zero (pid : UInt32) : accepts 0 pid = true := by simp [accepts]

/-! ### One run -/

/-- What `try_on_recvmsg_ret` does to the entry it finds. -/
def fill (ctx : ProbeCtx ncpu) (v : ReqCtx) : ReqCtx :=
  if v.iovBase = 0 then v
  else { v with reqData := bpfProbeRead ctx.userMem v.iovBase 32, iovBase := 0 }

@[simp] theorem fill_startNs (ctx : ProbeCtx ncpu) (v : ReqCtx) : (fill ctx v).startNs = v.startNs := by
  unfold fill; split <;> rfl

@[simp] theorem fill_clientPacked (ctx : ProbeCtx ncpu) (v : ReqCtx) :
    (fill ctx v).clientPacked = v.clientPacked := by
  unfold fill; split <;> rfl

@[simp] theorem fill_iovBase (ctx : ProbeCtx ncpu) (v : ReqCtx) : (fill ctx v).iovBase = 0 := by
  unfold fill; split <;> simp_all

@[simp] theorem fill_fill (ctx ctx' : ProbeCtx ncpu) (v : ReqCtx) :
    fill ctx' (fill ctx v) = fill ctx v := by
  rw [fill, if_pos (fill_iovBase ctx v)]

section
variable {m : Maps ncpu} {target k : UInt32} {ctx : ProbeCtx ncpu}

theorem tryOnRecvmsg_reqCtx (hm : m.targetPid = #v[target]) :
    (tryOnRecvmsg ctx m).2.reqCtx =
      if accepts target ctx.pid then m.reqCtx.insert ctx.tgid (newReqCtx ctx) else m.reqCtx := by
  unfold tryOnRecvmsg
  rw [isTargetPid_eq hm]
  cases accepts target ctx.pid <;> rfl

theorem get_tryOnRecvmsgRet (hm : m.targetPid = #v[target]) :
    (tryOnRecvmsgRet ctx m).2.reqCtx.get k =
      if Touches target k ctx then (m.reqCtx.get k).map (fill ctx)
      else m.reqCtx.get k := by
  unfold tryOnRecvmsgRet
  rw [isTargetPid_eq hm]
  cases hacc : accepts target ctx.pid with
  | false => simp [Touches, hacc]
  | true =>
    simp only [Touches, hacc, true_and, Bool.not_true, Bool.false_eq_true, if_false]
    by_cases hk : ctx.tgid = k
    · subst hk
      cases hget : m.reqCtx.get ctx.tgid with
      | none => simp [hget]
      | some v =>
        by_cases hv : v.iovBase = 0
        · simp [hv, hget, fill]
        · simp [hv, hget, fill, BoundedMap.get_modify_self]
    · cases hget : m.reqCtx.get ctx.tgid with
      | none => simp [hk]
      | some v =>
        by_cases hv : v.iovBase = 0 <;>
          simp [hv, hk, BoundedMap.get_modify_of_ne _ (Ne.symm hk)]

/-- `try_on_sendmsg` removes the entry of its key, whether or not it makes an output. -/
theorem get_tryOnSendmsg (hm : m.targetPid = #v[target]) :
    (tryOnSendmsg ctx m).2.1.reqCtx.get k =
      if Touches target k ctx then none else m.reqCtx.get k := by
  have hrem : (m.reqCtx.remove ctx.tgid).get k = if ctx.tgid = k then none else m.reqCtx.get k := by
    split
    · rename_i hk; subst hk; exact BoundedMap.get_remove_self
    · exact BoundedMap.get_remove_of_ne (Ne.symm ‹_›)
  unfold tryOnSendmsg
  rw [isTargetPid_eq hm]
  cases hacc : accepts target ctx.pid with
  | false => simp [Touches, hacc]
  | true =>
    simp only [Touches, hacc, true_and, Bool.not_true, Bool.false_eq_true, if_false]
    cases hget : m.reqCtx.get ctx.tgid with
    | none =>
      dsimp only
      split
      · rename_i hk; subst hk; exact hget
      · rfl
    | some v =>
      dsimp only
      split
      · exact hrem
      · split <;> exact hrem

theorem targetPid_step (m : Maps ncpu) (p : ProbeRun ncpu) : (p.step m).targetPid = m.targetPid := by
  cases p with
  | recvmsg ctx => simp only [ProbeRun.step, tryOnRecvmsg]; split <;> rfl
  | recvmsgRet ctx =>
    simp only [ProbeRun.step, tryOnRecvmsgRet]
    split
    · rfl
    · split
      · rfl
      · split <;> rfl
  | sendmsg ctx =>
    simp only [ProbeRun.step, tryOnSendmsg]
    split
    · rfl
    · split
      · rfl
      · split
        · rfl
        · split <;> rfl

/-- A run that is filtered out, or works on another key, leaves the entry of `k` alone. -/
theorem get_step_of_not_touches (hm : m.targetPid = #v[target]) {p : ProbeRun ncpu}
    (h : ¬ Touches target k p.ctx) : (p.step m).reqCtx.get k = m.reqCtx.get k := by
  cases p with
  | recvmsg ctx =>
    rw [ProbeRun.step, tryOnRecvmsg_reqCtx hm]
    split
    · rename_i hacc
      exact BoundedMap.get_insert_of_ne fun hk => h ⟨hacc, hk.symm⟩
    · rfl
  | recvmsgRet ctx => rw [ProbeRun.step, get_tryOnRecvmsgRet hm]; exact if_neg h
  | sendmsg ctx => rw [ProbeRun.step, get_tryOnSendmsg hm]; exact if_neg h

theorem get_step_recvmsg (hm : m.targetPid = #v[target]) (ctx) (h : Touches target k ctx) :
    ((ProbeRun.recvmsg ctx).step m).reqCtx.get k =
      if m.reqCtx.HasRoom k then some (newReqCtx ctx) else none := by
  obtain ⟨hacc, rfl⟩ := h
  rw [ProbeRun.step, tryOnRecvmsg_reqCtx hm, if_pos hacc]
  split
  · exact BoundedMap.get_insert_self ‹_›
  · exact BoundedMap.get_insert_of_full ‹_›

theorem get_step_recvmsgRet (hm : m.targetPid = #v[target]) (ctx) (h : Touches target k ctx) :
    ((ProbeRun.recvmsgRet ctx).step m).reqCtx.get k = (m.reqCtx.get k).map (fill ctx) := by
  rw [ProbeRun.step, get_tryOnRecvmsgRet hm, if_pos h]

theorem get_step_sendmsg (hm : m.targetPid = #v[target]) (ctx) (h : Touches target k ctx) :
    ((ProbeRun.sendmsg ctx).step m).reqCtx.get k = none := by
  rw [ProbeRun.step, get_tryOnSendmsg hm, if_pos h]

end

/-! ### Positions of a trace -/

def mapsAt (target : UInt32) (tr : Trace ncpu) (j : Nat) : Maps ncpu :=
  Run.stateAt ProbeRun.step (Maps.init ncpu target) tr j

/-- Run number `j` is a `try_on_sendmsg` run that passes `o` to `LATENCY_RINGBUF.output`. -/
def OutputAt (target : UInt32) (tr : Trace ncpu) (j : Nat) (ctx : ProbeCtx ncpu) (o : Output) : Prop :=
  tr[j]? = some (.sendmsg ctx) ∧ (tryOnSendmsg ctx (mapsAt target tr j)).2.2 = some o

def TouchedAt (target k : UInt32) (tr : Trace ncpu) (l : Nat) : Prop :=
  ∃ p, tr[l]? = some p ∧ Touches target k p.ctx

def RecvUnder (target k : UInt32) (tr : Trace ncpu) (i : Nat) : Prop :=
  ∃ c, tr[i]? = some (.recvmsg c) ∧ Touches target k c

def SendUnder (target k : UInt32) (tr : Trace ncpu) (l : Nat) : Prop :=
  ∃ ctx, tr[l]? = some (.sendmsg ctx) ∧ Touches target k ctx

def MonotonicClock (tr : Trace ncpu) : Prop :=
  tr.Pairwise fun p q => p.ctx.ktimeNs ≤ q.ctx.ktimeNs

section
variable {target k : UInt32} {tr : Trace ncpu} {i j : Nat} {p q : ProbeRun ncpu}

theorem mapsAt_succ (h : tr[j]? = some p) : mapsAt target tr (j + 1) = p.step (mapsAt target tr j) :=
  Run.stateAt_succ h

theorem mapsAt_invariant {I : Nat → Maps ncpu → Prop} (h0 : I 0 (Maps.init ncpu target))
    (hstep : ∀ j p, tr[j]? = some p → I j (mapsAt target tr j) →
      I (j + 1) (p.step (mapsAt target tr j))) :
    ∀ j, j ≤ tr.length → I j (mapsAt target tr j) :=
  Run.stateAt_invariant h0 hstep

theorem targetPid_foldl (ps : Trace ncpu) (m : Maps ncpu) :
    (ps.foldl ProbeRun.step m).targetPid = m.targetPid := by
  induction ps generalizing m with
  | nil => rfl
  | cons p ps ih => exact (ih (p.step m)).trans (targetPid_step m p)

@[simp] theorem targetPid_mapsAt (target : UInt32) (tr : Trace ncpu) (j : Nat) :
    (mapsAt target tr j).targetPid = #v[target] := targetPid_foldl _ _

theorem MonotonicClock.le (h : MonotonicClock tr) (hij : i < j) (hi : tr[i]? = some p)
    (hj : tr[j]? = some q) : p.ctx.ktimeNs ≤ q.ctx.ktimeNs := by
  obtain ⟨hi', rfl⟩ := List.getElem?_eq_some_iff.1 hi
  obtain ⟨hj', rfl⟩ := List.getElem?_eq_some_iff.1 hj
  exact List.pairwise_iff_getElem.1 h i j hi' hj' hij

/-! ### Contexts of given threads -/

/-- A run of task `tid` of process `tgid` at time `now` on socket `sock`; all memory faults. -/
def bareCtx (cpu : Fin ncpu) (tgid tid : UInt32) (now sock : UInt64) : ProbeCtx ncpu where
  pidTgid := tgid.toUInt64 <<< 32 ||| tid.toUInt64
  ktimeNs := now
  cpu := cpu
  arg n := if n = 0 then sock else 0
  ret := none
  kernelMem _ := none
  userMem _ := none

section
variable (cpu : Fin ncpu) (tgid tid : UInt32) (now sock : UInt64)

theorem pidTgid_bounds : tid.toUInt64.toNat < 2 ^ (32 : UInt64).toNat ∧
    tgid.toUInt64.toNat * 2 ^ (32 : UInt64).toNat < 2 ^ 64 := by
  have htid : tid.toNat < 2 ^ 32 := tid.toNat_lt
  have htgid : tgid.toNat < 2 ^ 32 := tgid.toNat_lt
  have hk : (32 : UInt64).toNat = 32 := rfl
  rw [UInt32.toNat_toUInt64, UInt32.toNat_toUInt64, hk]
  omega

@[simp] theorem bareCtx_pid : (bareCtx cpu tgid tid now sock).pid = tid := by
  obtain ⟨hlo, hhi⟩ := pidTgid_bounds tgid tid
  apply UInt32.toNat_inj.1
  rw [ProbeCtx.pid, bareCtx, UInt64.toNat_toUInt32, Packing.toNat_pack (by decide) hlo hhi]
  exact Nat.mul_add_mod_of_lt hlo

@[simp] theorem bareCtx_tgid : (bareCtx cpu tgid tid now sock).tgid = tgid := by
  obtain ⟨hlo, hhi⟩ := pidTgid_bounds tgid tid
  apply UInt32.toNat_inj.1
  rw [ProbeCtx.tgid, bareCtx, UInt64.toNat_toUInt32, Packing.toNat_high (by decide) hlo hhi,
    UInt32.toNat_toUInt64]
  exact Nat.mod_eq_of_lt tgid.toNat_lt

@[simp] theorem bareCtx_ktimeNs : (bareCtx cpu tgid tid now sock).ktimeNs = now := rfl

@[simp] theorem bareCtx_sock : (bareCtx cpu tgid tid now sock).sock = sock := rfl

end

/-! ### Outputs -/

theorem batchCnt_getElem? (m : Maps ncpu) (c : Fin ncpu) :
    (m.batchCnt c)[0]? = some ((m.batchCnt c).get 0) := rfl

/-- `try_on_sendmsg` makes an output exactly when it is accepted, finds an entry, and that entry is
at most ten seconds old. -/
theorem tryOnSendmsg_output {m : Maps ncpu} (hm : m.targetPid = #v[target]) (ctx : ProbeCtx ncpu)
    (o : Output) :
    (tryOnSendmsg ctx m).2.2 = some o ↔
      ∃ v, accepts target ctx.pid = true ∧ m.reqCtx.get ctx.tgid = some v ∧
        ctx.ktimeNs - v.startNs ≤ 10_000_000_000 ∧
        o = ⟨latencyEvent ctx v, (nextBatch ((m.batchCnt ctx.cpu).get 0)).2⟩ := by
  unfold tryOnSendmsg
  rw [isTargetPid_eq hm]
  cases hacc : accepts target ctx.pid with
  | false => simp
  | true =>
    cases hget : m.reqCtx.get ctx.tgid with
    | none => simp [hget]
    | some v =>
      by_cases hlat : ctx.ktimeNs - v.startNs > 10_000_000_000
      · have hlat' : ¬ ctx.ktimeNs - v.startNs ≤ 10_000_000_000 := UInt64.not_le.2 hlat
        simp [hget, hlat, hlat']
      · have hlat' : ctx.ktimeNs - v.startNs ≤ 10_000_000_000 := UInt64.not_lt.1 hlat
        simp only [hget, hlat, batchCnt_getElem?, eq_comm]
        simp [hlat']

theorem OutputAt.inv {ctx : ProbeCtx ncpu} {o : Output} (h : OutputAt target tr j ctx o) :
    ∃ v, accepts target ctx.pid = true ∧ (mapsAt target tr j).reqCtx.get ctx.tgid = some v ∧
      ctx.ktimeNs - v.startNs ≤ 10_000_000_000 ∧ o.event = latencyEvent ctx v := by
  obtain ⟨v, hacc, hget, hlat, rfl⟩ := (tryOnSendmsg_output (targetPid_mapsAt target tr j) ctx o).1 h.2
  exact ⟨v, hacc, hget, hlat, rfl⟩

theorem outputAt_of_get {ctx : ProbeCtx ncpu} {v : ReqCtx} (hj : tr[j]? = some (.sendmsg ctx))
    (hacc : accepts target ctx.pid = true) (hget : (mapsAt target tr j).reqCtx.get ctx.tgid = some v)
    (hlat : ctx.ktimeNs - v.startNs ≤ 10_000_000_000) :
    ∃ o, OutputAt target tr j ctx o ∧ o.event = latencyEvent ctx v :=
  ⟨_, ⟨hj, (tryOnSendmsg_output (targetPid_mapsAt target tr j) ctx _).2 ⟨v, hacc, hget, hlat, rfl⟩⟩, rfl⟩

end

end RedisTracer
