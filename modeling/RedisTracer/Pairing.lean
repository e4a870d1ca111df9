import RedisTracer.EntryOrigin
import Mathlib

/-!
# Which call an event is built from

By socket: the entry is filed under `ctx.tgid()`, the socket is not part of the key. An event carries
the latest receive under its key, which need not be a receive on the socket of the send.

By thread: two threads of one process share the key. Events are built from the sender's own latest
call, over every interleaving, exactly when no two threads of one process pass the filter.
-/

namespace RedisTracer

open Run

variable {ncpu : Nat} {target k : UInt32} {tr : Trace ncpu} {i j : Nat} {o : Output}
  {ctx : ProbeCtx ncpu}

def RunBy (tr : Trace ncpu) (t : UInt32) (l : Nat) : Prop := ∃ p, tr[l]? = some p ∧ p.ctx.pid = t

def RecvBy (tr : Trace ncpu) (t : UInt32) (i : Nat) : Prop :=
  ∃ c, tr[i]? = some (.recvmsg c) ∧ c.pid = t

def RecvOn (tr : Trace ncpu) (s : UInt64) (i : Nat) : Prop :=
  ∃ c, tr[i]? = some (.recvmsg c) ∧ c.sock = s

/-! ### Two receives before a send -/

/-- Threads `t` and `u` of one process receive, on sockets `a` and `b`, then `t` sends on `a`. -/
def twoReceives (cpu : Fin ncpu) (tgid t u : UInt32) (a b : UInt64) : Trace ncpu :=
  [.recvmsg (bareCtx cpu tgid t 0 a), .recvmsgRet (bareCtx cpu tgid t 1 a),
    .recvmsg (bareCtx cpu tgid u 2 b), .recvmsgRet (bareCtx cpu tgid u 3 b),
    .sendmsg (bareCtx cpu tgid t 4 a)]

section
variable (cpu : Fin ncpu) (tgid t u : UInt32) (a b : UInt64)

theorem twoReceives_clock : MonotonicClock (twoReceives cpu tgid t u a b) := by
  simp [MonotonicClock, twoReceives, ProbeRun.ctx]

theorem twoReceives_output (target : UInt32) (ht : accepts target t) (hu : accepts target u) :
    ∃ o, OutputAt target (twoReceives cpu tgid t u a b) 4 (bareCtx cpu tgid t 4 a) o ∧
      o.event.latencyNs = 2 := by
  have hfirst : InsertionAt target tgid (twoReceives cpu tgid t u a b) 0 (bareCtx cpu tgid t 0 a) :=
    ⟨rfl, ⟨by simpa using ht, by simp⟩, hasRoom_start _ _ _⟩
  obtain ⟨v, hv⟩ := hfirst.exists_entry (j := 2) (by omega) (by simp [twoReceives]) <| by
    intro l h1 h2
    obtain rfl : l = 1 := by omega
    simp [SendUnder, twoReceives]
  have hsecond : InsertionAt target tgid (twoReceives cpu tgid t u a b) 2 (bareCtx cpu tgid u 2 b) :=
    ⟨rfl, ⟨by simpa using hu, by simp⟩, BoundedMap.hasRoom_of_get hv⟩
  have hsend : (twoReceives cpu tgid t u a b)[4]? = some (.sendmsg (bareCtx cpu tgid t 4 a)) := rfl
  obtain ⟨o, v, i, c, ho, hfrom, he⟩ := hsecond.exists_output (by omega) hsend
    ⟨by simpa using ht, by simp⟩
    (twoReceives_clock cpu tgid t u a b)
    (by simp only [bareCtx_ktimeNs, UInt64.reduceToNat]; omega) fun l h1 h2 => by
      obtain rfl : l = 3 := by omega
      simp [SendUnder, twoReceives]
  have hi : i = 2 := hfrom.latest.unique ⟨by omega, hsecond.recvUnder, fun l h1 h2 => by
    obtain rfl : l = 3 := by omega
    simp [RecvUnder, twoReceives]⟩
  subst hi
  cases hsecond.1.symm.trans hfrom.inserted.1
  refine ⟨o, ho, ?_⟩
  rw [he, latencyEvent, hfrom.startNs]
  show (4 : UInt64) - 2 = 2
  decide

end

/-! ### By socket -/

/-- The event is built from the latest `tcp_recvmsg` call on the socket of the send. -/
def FromOwnSocket (tr : Trace ncpu) (j : Nat) (ctx : ProbeCtx ncpu) (o : Output) : Prop :=
  ∃ i c l r, LastBefore (RecvOn tr ctx.sock) j i ∧ tr[i]? = some (.recvmsg c) ∧
    FirstAfter (RunBy tr c.pid) i l ∧ tr[l]? = some (.recvmsgRet r) ∧ o.event = callEvent ctx c r

/-- An event is built from the latest receive under its key: that call's start time and client, and
what the first return under the key captured, if there was one. It is the latest receive on the
socket of the send exactly when that receive is under the key and the key has seen no receive on
another socket since. -/
theorem output_from_latest_receive (target : UInt32) (tr : Trace ncpu) (j : Nat)
    (ctx : ProbeCtx ncpu) (o : Output) (h : OutputAt target tr j ctx o) :
    ∃ i c, LastBefore (RecvUnder target ctx.tgid tr) j i ∧ tr[i]? = some (.recvmsg c) ∧
      ((o.event = latencyEvent ctx (newReqCtx c) ∧
          ∀ l, i < l → l < j → ¬ TouchedAt target ctx.tgid tr l) ∨
        ∃ l r, l < j ∧ FirstAfter (TouchedAt target ctx.tgid tr) i l ∧
          tr[l]? = some (.recvmsgRet r) ∧ o.event = callEvent ctx c r) ∧
      ∀ i', LastBefore (RecvOn tr ctx.sock) j i' → (i = i' ↔ RecvUnder target ctx.tgid tr i' ∧
        ∀ l c', i' < l → l < j → tr[l]? = some (.recvmsg c') → Touches target ctx.tgid c' →
          c'.sock = ctx.sock) := by
  obtain ⟨v, i, c, hfrom, -, -, he⟩ := h.origin
  refine ⟨i, c, hfrom.latest, hfrom.inserted.1, ?_, fun i' hi' => ⟨?_, ?_⟩⟩
  · rcases hfrom.value with ⟨rfl, hno⟩ | ⟨l, r, hl, hfirst, hr, rfl⟩
    · exact .inl ⟨he, hno⟩
    · exact .inr ⟨l, r, hl, hfirst, hr, by rw [he, fill_newReqCtx]; rfl⟩
  · rintro rfl
    exact ⟨hfrom.latest.2.1, fun l c' h1 h2 hc' ht => absurd ⟨c', hc', ht⟩ (hfrom.latest.2.2 l h1 h2)⟩
  · rintro ⟨hu, hsock⟩
    refine hfrom.latest.unique ⟨hi'.1, hu, fun l h1 h2 => ?_⟩
    rintro ⟨c', hc', ht⟩
    exact hi'.2.2 l h1 h2 ⟨c', hc', hsock l c' h1 h2 hc' ht⟩

theorem output_from_latest_receive_two : ∃ o,
    OutputAt 0 (twoReceives (0 : Fin 1) 100 100 100 1 2) 4 (bareCtx 0 100 100 4 1) o ∧
      ∃ i c, LastBefore (RecvUnder 0 100 (twoReceives (0 : Fin 1) 100 100 100 1 2)) 4 i ∧
        (twoReceives (0 : Fin 1) 100 100 100 1 2)[i]? = some (.recvmsg c) := by
  obtain ⟨o, ho, -⟩ := twoReceives_output (0 : Fin 1) 100 100 100 1 2 0 (accepts_zero _) (accepts_zero _)
  obtain ⟨i, c, hi, hc, -⟩ := output_from_latest_receive 0 _ 4 _ o ho
  rw [bareCtx_tgid] at hi
  exact ⟨o, ho, i, c, hi, hc⟩

/-- One thread receives on sockets `1` and `2`, then sends on `1`: the event is of socket `2`. -/
theorem not_all_from_own_socket :
    ¬ ∀ j ctx o, OutputAt 0 (twoReceives (0 : Fin 1) 100 100 100 1 2) j ctx o →
      FromOwnSocket (twoReceives (0 : Fin 1) 100 100 100 1 2) j ctx o := by
  intro hall
  obtain ⟨o, ho, hlat⟩ := twoReceives_output (0 : Fin 1) 100 100 100 1 2 0 (accepts_zero _) (accepts_zero _)
  obtain ⟨i, c, l, r, hlast, hc, -, -, he⟩ := hall 4 _ o ho
  have hzero : LastBefore (RecvOn (twoReceives (0 : Fin 1) 100 100 100 1 2) 1) 4 0 := by
    refine ⟨by omega, ⟨_, rfl, rfl⟩, fun l h1 h2 => ?_⟩
    rcases l with _ | _ | _ | _ | l
    all_goals first | omega | simp [RecvOn, twoReceives]
  obtain rfl : i = 0 := hlast.unique hzero
  cases hc
  rw [he] at hlat
  change (4 : UInt64) - 0 = 2 at hlat
  revert hlat; decide

/-! ### By thread -/

/-- After the entry of a `tcp_recvmsg` call, the next probe run of the thread is its return. -/
def WellThreaded (tr : Trace ncpu) : Prop :=
  ∀ i l c p, tr[i]? = some (.recvmsg c) → FirstAfter (RunBy tr c.pid) i l → tr[l]? = some p →
    ∃ r, p = .recvmsgRet r

/-- The runs belong to threads of `T`; thread `t` belongs to process `tgidOf t`. -/
def RunsOn (T : Set UInt32) (tgidOf : UInt32 → UInt32) (tr : Trace ncpu) : Prop :=
  ∀ p ∈ tr, p.ctx.pid ∈ T ∧ p.ctx.tgid = tgidOf p.ctx.pid

/-- The event is built from the latest `tcp_recvmsg` call of the sending thread: start and client of
its entry, data of its own return, and no run of another thread changes the entry in between. -/
def FromOwnCall (target : UInt32) (tr : Trace ncpu) (j : Nat) (ctx : ProbeCtx ncpu) (o : Output) :
    Prop :=
  ∃ i c l r, LastBefore (RecvBy tr ctx.pid) j i ∧ tr[i]? = some (.recvmsg c) ∧ l < j ∧
    FirstAfter (RunBy tr ctx.pid) i l ∧ tr[l]? = some (.recvmsgRet r) ∧
    o.event = callEvent ctx c r ∧
    ∀ n p, i < n → n < j → tr[n]? = some p → p.ctx.pid ≠ ctx.pid →
      (mapsAt target tr (n + 1)).reqCtx.get ctx.tgid = (mapsAt target tr n).reqCtx.get ctx.tgid

section
variable {T : Set UInt32} {tgidOf : UInt32 → UInt32}

theorem RunsOn.thread (h : RunsOn T tgidOf tr) {p : ProbeRun ncpu} (hi : tr[i]? = some p) :
    p.ctx.pid ∈ T ∧ p.ctx.tgid = tgidOf p.ctx.pid :=
  h p (List.mem_of_getElem? hi)

/-- Where accepted threads of one process coincide, the runs under an accepted thread's key are the
runs of the thread. -/
theorem RunsOn.touches_iff (h : RunsOn T tgidOf tr)
    (hsep : ∀ t ∈ T, ∀ u ∈ T, accepts target t → accepts target u → tgidOf t = tgidOf u → t = u)
    {p : ProbeRun ncpu} (hi : tr[i]? = some p) (hj : tr[j]? = some (.sendmsg ctx))
    (hacc : accepts target ctx.pid = true) :
    Touches target ctx.tgid p.ctx ↔ p.ctx.pid = ctx.pid := by
  obtain ⟨hpT, hp⟩ := h.thread hi
  obtain ⟨hcT, hc⟩ := h.thread hj
  change ctx.pid ∈ T at hcT
  change ctx.tgid = tgidOf ctx.pid at hc
  constructor
  · rintro ⟨hpacc, hkey⟩
    exact hsep _ hpT _ hcT hpacc hacc (by rw [← hp, ← hc, hkey])
  · intro hpid
    exact ⟨hpid ▸ hacc, by rw [hp, hc, hpid]⟩

theorem OutputAt.fromOwnCall (hT : RunsOn T tgidOf tr) (hw : WellThreaded tr)
    (hsep : ∀ t ∈ T, ∀ u ∈ T, accepts target t → accepts target u → tgidOf t = tgidOf u → t = u)
    (h : OutputAt target tr j ctx o) : FromOwnCall target tr j ctx o := by
  obtain ⟨v, i, c, hfrom, hacc, -, he⟩ := h.origin
  have htouch : ∀ {n} {p : ProbeRun ncpu}, tr[n]? = some p → (Touches target ctx.tgid p.ctx ↔ p.ctx.pid = ctx.pid) :=
    fun hn => hT.touches_iff hsep hn h.1 hacc
  have htouched : TouchedAt target ctx.tgid tr = RunBy tr ctx.pid := by
    funext n; apply propext
    exact ⟨fun ⟨p, hp, ht⟩ => ⟨p, hp, (htouch hp).1 ht⟩, fun ⟨p, hp, ht⟩ => ⟨p, hp, (htouch hp).2 ht⟩⟩
  have hcpid : c.pid = ctx.pid := (htouch hfrom.inserted.1).1 hfrom.inserted.2.1
  -- the call has returned: its thread is at the send
  obtain ⟨l, hl, hfirst⟩ := FirstAfter.exists_of_lt (P := RunBy tr ctx.pid) hfrom.lt ⟨_, h.1, rfl⟩
  obtain ⟨p, hp, -⟩ := hfirst.2.1
  obtain ⟨r, rfl⟩ := hw i l c p hfrom.inserted.1 (hcpid ▸ hfirst) hp
  have hlj : l < j := by
    refine Nat.lt_of_le_of_ne hl ?_
    rintro rfl
    cases hp.symm.trans h.1
  refine ⟨i, c, l, r, ⟨hfrom.lt, ⟨c, hfrom.inserted.1, hcpid⟩, ?_⟩, hfrom.inserted.1, hlj, hfirst, hp,
    ?_, fun n p _ _ hn hne => ?_⟩
  · rintro n h1 h2 ⟨c', hc', hpid⟩
    exact hfrom.latest.2.2 n h1 h2 ⟨c', hc', (htouch hc').2 hpid⟩
  · rcases hfrom.value with ⟨-, hno⟩ | ⟨l', r', -, hfirst', hr', rfl⟩
    · exact absurd (htouched ▸ hfirst.2.1) (hno l hfirst.1 hlj)
    · obtain rfl : l' = l := (htouched ▸ hfirst').unique hfirst
      cases hr'.symm.trans hp
      rw [he, fill_newReqCtx]; rfl
  · rw [mapsAt_succ hn]
    exact get_step_of_not_touches (targetPid_mapsAt target tr n) fun ht => hne ((htouch hn).1 ht)

theorem not_fromOwnCall_of_shared (cpu : Fin ncpu) (tgid : UInt32) {t u : UInt32} (hne : t ≠ u)
    (ht : accepts target t) (hu : accepts target u) :
    ∃ o, OutputAt target (twoReceives cpu tgid t u 1 1) 4 (bareCtx cpu tgid t 4 1) o ∧
      ¬ FromOwnCall target (twoReceives cpu tgid t u 1 1) 4 (bareCtx cpu tgid t 4 1) o := by
  obtain ⟨o, ho, hlat⟩ := twoReceives_output cpu tgid t u 1 1 target ht hu
  refine ⟨o, ho, ?_⟩
  rintro ⟨i, c, l, r, hlast, hc, -, -, -, he, -⟩
  have hzero : LastBefore (RecvBy (twoReceives cpu tgid t u 1 1) t) 4 0 := by
    refine ⟨by omega, ⟨_, rfl, by simp⟩, fun l h1 h2 => ?_⟩
    rcases l with _ | _ | _ | _ | l
    all_goals first | omega | simp [RecvBy, twoReceives, Ne.symm hne]
  rw [bareCtx_pid] at hlast
  obtain rfl : i = 0 := hlast.unique hzero
  cases hc
  rw [he] at hlat
  change (4 : UInt64) - 0 = 2 at hlat
  revert hlat; decide

theorem wellThreaded_of_next (h : ∀ (i : Nat) (c : ProbeCtx ncpu), tr[i]? = some (.recvmsg c) →
    ∃ r : ProbeCtx ncpu, tr[i + 1]? = some (.recvmsgRet r) ∧ r.pid = c.pid) : WellThreaded tr := by
  intro i l c p hi hl hp
  obtain ⟨r, hr, hpid⟩ := h i c hi
  have hnext : FirstAfter (RunBy tr c.pid) i (i + 1) :=
    ⟨Nat.lt_succ_self i, ⟨_, hr, hpid⟩, fun n h1 h2 => by omega⟩
  obtain rfl := hl.unique hnext
  exact ⟨r, Option.some.inj (hp.symm.trans hr)⟩

theorem twoReceives_wellThreaded (cpu : Fin ncpu) (tgid t u : UInt32) (a b : UInt64) :
    WellThreaded (twoReceives cpu tgid t u a b) := by
  refine wellThreaded_of_next fun i c hi => ?_
  rcases i with _ | _ | _ | _ | _ | i <;> simp [twoReceives] at hi
  all_goals subst hi; exact ⟨_, rfl, by simp⟩

theorem twoReceives_runsOn (cpu : Fin ncpu) {tgid t u : UInt32} (a b : UInt64) (ht : t ∈ T)
    (hu : u ∈ T) (htp : tgidOf t = tgid) (hup : tgidOf u = tgid) :
    RunsOn T tgidOf (twoReceives cpu tgid t u a b) := by
  intro p hp
  simp only [twoReceives, List.mem_cons, List.not_mem_nil, or_false] at hp
  rcases hp with rfl | rfl | rfl | rfl | rfl <;> simp [ProbeRun.ctx, ht, hu, htp, hup]

theorem thread_pairing_iff (cpu : Fin ncpu) (target : UInt32) (T : Set UInt32)
    (tgidOf : UInt32 → UInt32) :
    (∀ tr : Trace ncpu, RunsOn T tgidOf tr → WellThreaded tr → ∀ j ctx o, OutputAt target tr j ctx o →
      FromOwnCall target tr j ctx o) ↔
    ∀ t ∈ T, ∀ u ∈ T, accepts target t → accepts target u → tgidOf t = tgidOf u → t = u := by
  refine ⟨fun hall t ht u hu htacc huacc hproc => ?_, fun hsep tr hT hw j ctx o ho =>
    ho.fromOwnCall hT hw hsep⟩
  by_contra hne
  obtain ⟨o, ho, hnot⟩ := not_fromOwnCall_of_shared cpu (tgidOf t) hne htacc huacc
  exact hnot (hall _ (twoReceives_runsOn cpu 1 1 ht hu rfl hproc.symm)
    (twoReceives_wellThreaded cpu (tgidOf t) t u 1 1) 4 _ o ho)

/-- With `TARGET_PID` zero, threads `101` and `102` of process `100` mix their calls up. -/
theorem not_thread_pairing :
    ¬ ∀ tr : Trace 1, RunsOn {101, 102} (fun _ => 100) tr → WellThreaded tr → ∀ j ctx o,
      OutputAt 0 tr j ctx o → FromOwnCall 0 tr j ctx o := by
  intro hall
  obtain ⟨o, ho, hnot⟩ := not_fromOwnCall_of_shared (0 : Fin 1) 100
    (by decide : (101 : UInt32) ≠ 102) (accepts_zero 101) (accepts_zero 102)
  exact hnot (hall _ (twoReceives_runsOn 0 1 1 (by simp) (by simp) rfl rfl)
    (twoReceives_wellThreaded (0 : Fin 1) 100 101 102 1 1) 4 _ o ho)

end

end RedisTracer
