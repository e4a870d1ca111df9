import RedisTracer.Pairing

/-!
# The target filter

The latency probes compare `TARGET_PID` with `ctx.pid()`, the task id; the CPU sampler compares it
with `ctx.tgid()`, the process id. For a nonzero target the two agree, and the latency probes serve
the target process and nothing else, exactly when every thread that runs a probe has the target as
its task id if and only if it has it as its process id.
-/

namespace RedisTracer

open Run

variable {ncpu : Nat} {target : UInt32} {tr : Trace ncpu} {i j : Nat} {c ctx : ProbeCtx ncpu} {o : Output}
  {T : Set UInt32} {tgidOf : UInt32 → UInt32}

/-- One of the two stacks of the sample has a frame. -/
def SampleCtx.HasStack (s : SampleCtx ncpu) : Prop :=
  stackLen (s.getStack false).1 > 0 ∨ stackLen (s.getStack true).1 > 0

def FailedInsertionAt (target : UInt32) (tr : Trace ncpu) (l : Nat) : Prop :=
  ∃ c, tr[l]? = some (.recvmsg c) ∧ accepts target c.pid = true ∧
    ¬ (mapsAt target tr l).reqCtx.HasRoom c.tgid

/-- Every send of the target process that follows a receive of its thread by at most ten seconds,
with no other send of the thread, no failed insertion and no other thread of the process in between,
makes an output. -/
def ServesTarget (target : UInt32) (tr : Trace ncpu) : Prop :=
  ∀ i j c ctx, i < j → tr[i]? = some (.recvmsg c) → tr[j]? = some (.sendmsg ctx) → c.pid = ctx.pid →
    ctx.tgid = target → ctx.ktimeNs.toNat ≤ c.ktimeNs.toNat + 10_000_000_000 →
    (∀ l s, i < l → l < j → tr[l]? = some (.sendmsg s) → s.pid ≠ ctx.pid) →
    (∀ l, i ≤ l → l < j → ¬ FailedInsertionAt target tr l) →
    (∀ l p, i < l → l < j → tr[l]? = some p → p.ctx.tgid = target → p.ctx.pid = ctx.pid) →
    ∃! o, OutputAt target tr j ctx o

def ServesOnlyTarget (target : UInt32) (tr : Trace ncpu) : Prop :=
  ∀ j ctx o, OutputAt target tr j ctx o → ctx.tgid = target

/-- The latency probes accept a thread exactly when the sampler makes an output of its stack. -/
def AgreesWithSampler (target : UInt32) (tr : Trace ncpu) : Prop :=
  ∀ p ∈ tr, ∀ (m : Maps ncpu) (s : SampleCtx ncpu),
    m.targetPid = (Maps.init ncpu target).targetPid → flamegraphEnabled m = true →
    s.pidTgid = p.ctx.pidTgid → s.HasStack →
    (isTargetPid m p.ctx.pid = true ↔ (tryCpuSample s m).2.isSome)

theorem tryCpuSample_isSome {m : Maps ncpu} (hm : m.targetPid = #v[target]) (s : SampleCtx ncpu) :
    (tryCpuSample s m).2.isSome ↔
      accepts target s.tgid = true ∧ flamegraphEnabled m = true ∧ s.HasStack := by
  unfold tryCpuSample SampleCtx.HasStack
  dsimp only
  rw [isTargetPid_eq hm]
  cases hacc : accepts target s.tgid with
  | false => simp
  | true =>
    cases hflame : flamegraphEnabled m with
    | false => simp
    | true =>
      simp only [Bool.not_true, Bool.or_false, Bool.false_eq_true, if_false, true_and,
        Bool.or_eq_true, decide_eq_true_eq]
      split
      · simpa
      · rename_i hstack
        simpa using hstack

theorem OutputAt.unique {o' : Output} (h : OutputAt target tr j ctx o)
    (h' : OutputAt target tr j ctx o') : o = o' :=
  Option.some.inj (h.2.symm.trans h'.2)

theorem OutputAt.tgid_eq (h0 : target ≠ 0) (hT : RunsOn T tgidOf tr)
    (hmain : ∀ t ∈ T, (t = target ↔ tgidOf t = target)) (h : OutputAt target tr j ctx o) :
    ctx.tgid = target := by
  obtain ⟨_, hacc, -⟩ := h.inv
  obtain ⟨hmem, hproc⟩ := hT.thread h.1
  exact hproc.trans ((hmain _ hmem).1 ((accepts_of_ne_zero h0).1 hacc))

theorem RunsOn.servesTarget (h0 : target ≠ 0) (hT : RunsOn T tgidOf tr) (hclock : MonotonicClock tr)
    (hmain : ∀ t ∈ T, (t = target ↔ tgidOf t = target)) : ServesTarget target tr := by
  intro i j c ctx hij hi hj hpid htgid hage hsend hfail _
  obtain ⟨hmem, hproc⟩ := hT.thread hj
  change ctx.pid ∈ T at hmem
  change ctx.tgid = tgidOf ctx.pid at hproc
  have hctx : ctx.pid = target := (hmain _ hmem).2 (hproc.symm.trans htgid)
  have htouches : ∀ {l : Nat} {p : ProbeRun ncpu}, tr[l]? = some p → p.ctx.pid = ctx.pid →
      Touches target target p.ctx := by
    intro l p hl hp
    obtain ⟨-, hproc'⟩ := hT.thread hl
    exact ⟨(accepts_of_ne_zero h0).2 (hp.trans hctx), by rw [hproc', hp, ← hproc, htgid]⟩
  have hins : InsertionAt target target tr i c := by
    have ht : Touches target target c := htouches hi hpid
    refine ⟨hi, ht, ?_⟩
    by_contra hroom
    exact hfail i (Nat.le_refl i) hij ⟨c, hi, ht.1, ht.2 ▸ hroom⟩
  obtain ⟨o, -, -, -, ho, -, -⟩ := hins.exists_output hij hj (htouches hj rfl) hclock hage <| by
    rintro l h1 h2 ⟨s, hs, hacc, -⟩
    exact hsend l s h1 h2 hs (((accepts_of_ne_zero h0).1 hacc).trans hctx.symm)
  exact ⟨o, ho, fun o' ho' => ho'.unique ho⟩

/-! ### One thread -/

section
variable (cpu : Fin ncpu) {tgid t : UInt32}

theorem oneReply_runsOn (ht : t ∈ T) (hp : tgidOf t = tgid) :
    RunsOn T tgidOf (oneReply cpu tgid t) := by
  intro p h
  simp only [oneReply, List.mem_cons, List.not_mem_nil, or_false] at h
  rcases h with rfl | rfl | rfl <;> simp [ProbeRun.ctx, ht, hp]

theorem not_servesTarget_oneReply (h0 : target ≠ 0) (hne : t ≠ target) :
    ¬ ServesTarget target (oneReply cpu target t) := by
  intro h
  obtain ⟨o, ho, -⟩ := h 0 2 (bareCtx cpu target t 0 1) (bareCtx cpu target t 2 1) (by omega) rfl rfl
    (by simp) (by simp) (by simp only [bareCtx_ktimeNs, UInt64.reduceToNat]; omega)
    (fun l s h1 h2 hl => by
      obtain rfl : l = 1 := by omega
      simp [oneReply] at hl)
    (fun l h1 h2 ⟨c, hc, hacc, _⟩ => by
      obtain rfl | rfl : l = 0 ∨ l = 1 := by omega
      · cases hc
        exact hne (by simpa using (accepts_of_ne_zero h0).1 hacc)
      · simp [oneReply] at hc)
    (fun l p h1 h2 hl _ => by
      obtain rfl : l = 1 := by omega
      cases hl; simp [ProbeRun.ctx])
  obtain ⟨_, hacc, -⟩ := ho.inv
  exact hne (by simpa using (accepts_of_ne_zero h0).1 hacc)

end

theorem target_filter_iff (cpu : Fin ncpu) (target : UInt32) (h0 : target ≠ 0) (T : Set UInt32)
    (tgidOf : UInt32 → UInt32) :
    (∀ tr : Trace ncpu, RunsOn T tgidOf tr → MonotonicClock tr →
      ServesTarget target tr ∧ ServesOnlyTarget target tr ∧ AgreesWithSampler target tr) ↔
    ∀ t ∈ T, (t = target ↔ tgidOf t = target) := by
  constructor
  · intro hall t ht
    obtain ⟨hserves, honly, -⟩ :=
      hall (oneReply cpu (tgidOf t) t) (oneReply_runsOn cpu ht rfl) (oneReply_clock cpu (tgidOf t) t)
    constructor
    · rintro rfl
      obtain ⟨o, ho⟩ := oneReply_output cpu (tgidOf t) t ((accepts_of_ne_zero h0).2 rfl)
      simpa using honly 2 _ o ho
    · intro hproc
      by_contra hne
      exact not_servesTarget_oneReply cpu h0 hne (hproc ▸ hserves)
  · intro hmain tr hT hclock
    refine ⟨hT.servesTarget h0 hclock hmain, fun j ctx o ho => ho.tgid_eq h0 hT hmain, ?_⟩
    intro p hp m s hm hflame hid hstack
    obtain ⟨hmem, hproc⟩ := hT p hp
    have hs : s.tgid = p.ctx.tgid := by rw [SampleCtx.tgid, hid, ProbeCtx.tgid]
    rw [tryCpuSample_isSome hm, isTargetPid_eq hm, accepts_of_ne_zero h0, accepts_of_ne_zero h0, hs,
      hproc, hmain _ hmem]
    exact ⟨fun h => ⟨h, hflame, hstack⟩, fun h => h.1⟩

theorem target_filter_iff_redis :
    (∀ tr : Trace 1, RunsOn {100} (fun _ => 100) tr → MonotonicClock tr →
      ServesTarget 100 tr ∧ ServesOnlyTarget 100 tr ∧ AgreesWithSampler 100 tr) ↔
    ∀ t ∈ ({100} : Set UInt32), (t = 100 ↔ (fun _ => 100 : UInt32 → UInt32) t = 100) :=
  target_filter_iff (0 : Fin 1) 100 (by decide) {100} fun _ => 100

/-- Thread `101` of process `100` is not served under `TARGET_PID = 100`. -/
theorem io_thread_not_served :
    ¬ ∀ tr : Trace 1, RunsOn {101} (fun _ => 100) tr → MonotonicClock tr →
      ServesTarget 100 tr ∧ ServesOnlyTarget 100 tr ∧ AgreesWithSampler 100 tr := fun hall =>
  not_servesTarget_oneReply (0 : Fin 1) (by decide : (100 : UInt32) ≠ 0) (by decide : (101 : UInt32) ≠ 100)
    (hall (oneReply 0 100 101) (oneReply_runsOn 0 (by simp) rfl) (oneReply_clock 0 100 101)).1

end RedisTracer
