import RedisTracer.Wakeup
import RedisTracer.Target

/-!
# The outputs of a trace

`outputs` lists what the `tcp_sendmsg` probe passes to the ring over a whole trace. `Metered` is the
invariant of the wake-ups: of the outputs of a CPU every sixteenth is forced. `Owed` is that of the
requests: a process has no more outputs than receives, its waiting entry included.
-/

namespace RedisTracer

open Run

variable {ncpu : Nat} {target k : UInt32} {tr : Trace ncpu} {m : Maps ncpu} {p : ProbeRun ncpu}
  {ctx : ProbeCtx ncpu} {o : Output} {c : Fin ncpu} {outs : List (Fin ncpu × Output)}

/-- The outputs of one run, each with the CPU it is made on. -/
def ProbeRun.outputs (m : Maps ncpu) : ProbeRun ncpu → List (Fin ncpu × Output)
  | recvmsg _ => []
  | recvmsgRet _ => []
  | sendmsg ctx => ((tryOnSendmsg ctx m).2.2.map fun o => (ctx.cpu, o)).toList

def outputs (m : Maps ncpu) : Trace ncpu → List (Fin ncpu × Output)
  | [] => []
  | p :: tr => p.outputs m ++ outputs (p.step m) tr

theorem outputs_append (m : Maps ncpu) (tr tr' : Trace ncpu) :
    outputs m (tr ++ tr') = outputs m tr ++ outputs (tr.foldl ProbeRun.step m) tr' := by
  induction tr generalizing m with
  | nil => rfl
  | cons p tr ih => rw [List.cons_append, outputs, ih, outputs, List.foldl_cons, List.append_assoc]

theorem outputs_concat (m : Maps ncpu) (tr : Trace ncpu) (p : ProbeRun ncpu) :
    outputs m (tr ++ [p]) = outputs m tr ++ p.outputs (tr.foldl ProbeRun.step m) := by
  rw [outputs_append, outputs, outputs, List.append_nil]

theorem outputs_of_not_send (m : Maps ncpu) (h : ∀ ctx, p ≠ .sendmsg ctx) : p.outputs m = [] := by
  cases p with
  | recvmsg ctx => rfl
  | recvmsgRet ctx => rfl
  | sendmsg ctx => exact absurd rfl (h ctx)

theorem outputs_of_none (h : (tryOnSendmsg ctx m).2.2 = none) :
    (ProbeRun.sendmsg ctx).outputs m = [] := by
  rw [ProbeRun.outputs, h]; rfl

theorem outputs_of_some (h : (tryOnSendmsg ctx m).2.2 = some o) :
    (ProbeRun.sendmsg ctx).outputs m = [(ctx.cpu, o)] := by
  rw [ProbeRun.outputs, h]; rfl

theorem mem_outputs {x : Fin ncpu × Output} : x ∈ outputs m tr ↔ ∃ j ctx, tr[j]? = some (.sendmsg ctx) ∧
    (tryOnSendmsg ctx (stateAt ProbeRun.step m tr j)).2.2 = some x.2 ∧ ctx.cpu = x.1 := by
  induction tr generalizing m with
  | nil => simp [outputs]
  | cons p tr ih =>
    rw [outputs, List.mem_append, ih]
    constructor
    · rintro (hx | ⟨j, ctx, hj, ho, hc⟩)
      · cases p with
        | recvmsg ctx => cases hx
        | recvmsgRet ctx => cases hx
        | sendmsg ctx =>
          rw [ProbeRun.outputs, Option.mem_toList, Option.map_eq_some_iff] at hx
          obtain ⟨o, ho, rfl⟩ := hx
          exact ⟨0, ctx, rfl, ho, rfl⟩
      · exact ⟨j + 1, ctx, hj, ho, hc⟩
    · rintro ⟨j, ctx, hj, ho, hc⟩
      rcases j with _ | j
      · cases hj
        rw [stateAt_zero] at ho
        rw [outputs_of_some ho, hc]
        exact .inl (List.mem_singleton_self _)
      · exact .inr ⟨j, ctx, hj, ho, hc⟩

theorem mem_outputs_init {x : Fin ncpu × Output} : x ∈ outputs (.init ncpu target) tr ↔
    ∃ j ctx, OutputAt target tr j ctx x.2 ∧ ctx.cpu = x.1 := by
  rw [mem_outputs]
  exact exists_congr fun j => exists_congr fun ctx => (and_assoc (a := _)).symm

/-! ### Wake-ups -/

def onCpu (c : Fin ncpu) (outs : List (Fin ncpu × Output)) : List Output :=
  (outs.filter fun x => x.1 = c).map Prod.snd

theorem onCpu_append (c : Fin ncpu) (outs outs' : List (Fin ncpu × Output)) :
    onCpu c (outs ++ outs') = onCpu c outs ++ onCpu c outs' := by
  rw [onCpu, List.filter_append, List.map_append, onCpu, onCpu]

theorem onCpu_concat (c d : Fin ncpu) (outs : List (Fin ncpu × Output)) (o : Output) :
    onCpu c (outs ++ [(d, o)]) = onCpu c outs ++ if d = c then [o] else [] := by
  rw [onCpu_append]
  by_cases hd : d = c <;> simp [onCpu, hd]

/-- The flags of the output number `k` of a CPU. -/
def wakeupFlags (k : Nat) : UInt64 := if (k + 1) % 16 = 0 then bpfRbForceWakeup else bpfRbNoWakeup

theorem nextBatch_eq {cur : UInt32} {n : Nat} (h : cur.toNat = n % 16) :
    (nextBatch cur).1.toNat = (n + 1) % 16 ∧ (nextBatch cur).2 = wakeupFlags n := by
  have hlt : n % 16 < 16 := Nat.mod_lt n (by omega)
  have hadd : (cur + 1).toNat = n % 16 + 1 := by
    rw [UInt32.toNat_add, h]; exact Nat.mod_eq_of_lt (by simp; omega)
  unfold nextBatch wakeupFlags
  split
  · rename_i hge
    have hge : 16 ≤ (cur + 1).toNat := UInt32.le_iff_toNat_le.1 hge
    have hzero : (n + 1) % 16 = 0 := by omega
    rw [if_pos hzero]
    exact ⟨hzero.symm, rfl⟩
  · rename_i hlt'
    have hlt' : (cur + 1).toNat < 16 := UInt32.lt_iff_toNat_lt.1 (UInt32.not_le.1 hlt')
    rw [if_neg (by omega)]
    exact ⟨by rw [hadd]; omega, rfl⟩

/-- `BATCH_CNT` counts the outputs of a CPU modulo sixteen, and the flags go by the same count. -/
structure Metered (m : Maps ncpu) (outs : List (Fin ncpu × Output)) : Prop where
  count : ∀ c, ((m.batchCnt c).get 0).toNat = (onCpu c outs).length % 16
  flags : ∀ c, (onCpu c outs).map Output.flags = (List.range (onCpu c outs).length).map wakeupFlags

namespace Metered

theorem of_batchCnt (h : Metered m outs) {m' : Maps ncpu} (hm : m'.batchCnt = m.batchCnt) :
    Metered m' outs :=
  ⟨by rw [hm]; exact h.count, h.flags⟩

theorem concat (h : Metered m outs) {m' : Maps ncpu}
    (hflags : o.flags = (nextBatch ((m.batchCnt c).get 0)).2)
    (hm : m'.batchCnt = Function.update m.batchCnt c #v[(nextBatch ((m.batchCnt c).get 0)).1]) :
    Metered m' (outs ++ [(c, o)]) := by
  obtain ⟨hcnt, hnext⟩ := nextBatch_eq (h.count c)
  refine ⟨fun d => ?_, fun d => ?_⟩
  all_goals rw [onCpu_concat]; split
  · rename_i hd
    subst hd
    rw [hm, Function.update_self, List.length_append]
    exact hcnt
  · rename_i hd
    rw [hm, Function.update_of_ne (Ne.symm hd), List.append_nil]
    exact h.count d
  · rename_i hd
    subst hd
    rw [List.length_append, List.length_singleton, List.range_succ, List.map_append, List.map_append,
      h.flags c, List.map_singleton, List.map_singleton, hflags, hnext]
  · rw [List.append_nil]
    exact h.flags d

theorem step (h : Metered m outs) (p : ProbeRun ncpu) : Metered (p.step m) (outs ++ p.outputs m) := by
  have hquiet : ∀ {p : ProbeRun ncpu}, (∀ ctx, p ≠ .sendmsg ctx) →
      Metered (p.step m) (outs ++ p.outputs m) := by
    intro p hp
    rw [outputs_of_not_send m hp, List.append_nil]
    exact h.of_batchCnt (batchCnt_step_of_not_send m hp)
  cases p with
  | recvmsg ctx => exact hquiet (by simp)
  | recvmsgRet ctx => exact hquiet (by simp)
  | sendmsg ctx =>
    rcases tryOnSendmsg_batch ctx m with ⟨hnone, hm⟩ | ⟨o, hsome, hflags, hm⟩
    · rw [outputs_of_none hnone, List.append_nil]
      exact h.of_batchCnt hm
    · rw [outputs_of_some hsome]
      exact h.concat hflags hm

theorem flags_eq (h : Metered m outs) {n : Nat} (hn : (onCpu c outs)[n]? = some o) : o.flags = wakeupFlags n := by
  have hflags := congrArg (·[n]?) (h.flags c)
  simp only [List.getElem?_map, hn, Option.map_some,
    List.getElem?_range (List.getElem?_eq_some_iff.1 hn).1] at hflags
  exact Option.some.inj hflags

theorem run (h : Metered m outs) (tr : Trace ncpu) :
    Metered (tr.foldl ProbeRun.step m) (outs ++ outputs m tr) := by
  induction tr using List.reverseRecOn with
  | nil => rwa [outputs, List.append_nil]
  | append_singleton tr p ih =>
    rw [List.foldl_append, outputs_concat, ← List.append_assoc]
    exact ih.step p

end Metered

theorem metered (target : UInt32) (tr : Trace ncpu) :
    Metered (tr.foldl ProbeRun.step (.init ncpu target)) (outputs (.init ncpu target) tr) := by
  have hinit : Metered (.init ncpu target) [] := ⟨fun _ => rfl, fun _ => rfl⟩
  exact hinit.run tr

theorem countP_wakeupFlags (n : Nat) :
    (((List.range n).map wakeupFlags).countP fun flags => flags = bpfRbForceWakeup) = n / 16 := by
  induction n with
  | zero => rfl
  | succ n ih =>
    have hquiet : bpfRbNoWakeup ≠ bpfRbForceWakeup := by decide
    rw [List.range_succ, List.map_append, List.countP_append, ih, List.map_singleton,
      List.countP_singleton, wakeupFlags]
    by_cases hn : (n + 1) % 16 = 0
    · rw [if_pos hn]; simp; omega
    · rw [if_neg hn]; simp [hquiet]; omega

/-- Of the outputs of a CPU every sixteenth is forced and no other: one in sixteen, rounded down. -/
theorem wakeups_metered (ncpu : Nat) (target : UInt32) (tr : Trace ncpu) (c : Fin ncpu) :
    let outs := onCpu c (outputs (.init ncpu target) tr)
    (∀ k o, outs[k]? = some o →
      o.flags = if (k + 1) % 16 = 0 then bpfRbForceWakeup else bpfRbNoWakeup) ∧
    (outs.countP fun o => o.flags = bpfRbForceWakeup) = outs.length / 16 ∧
    (((mapsAt target tr tr.length).batchCnt c).get 0).toNat = outs.length % 16 := by
  have h := metered target tr
  refine ⟨fun _ _ hk => h.flags_eq hk, ?_, ?_⟩
  · rw [← countP_wakeupFlags, ← h.flags c, List.countP_map]; rfl
  · rw [mapsAt, stateAt, List.take_length]
    exact h.count c

/-! ### Requests -/

/-- The accepted receives under the key `k`. -/
def receives (target k : UInt32) (tr : Trace ncpu) : List (ProbeCtx ncpu) :=
  tr.filterMap fun
    | .recvmsg c => if Touches target k c then some c else none
    | _ => none

def ofProcess (k : UInt32) (outs : List (Fin ncpu × Output)) : List (Fin ncpu × Output) :=
  outs.filter fun x => x.2.event.tid = k

/-- The entry of `k` that waits for its reply. -/
def waiting (m : Maps ncpu) (k : UInt32) : Nat := if (m.reqCtx.get k).isSome then 1 else 0

def Owed (target k : UInt32) (tr : Trace ncpu) (m : Maps ncpu) (outs : List (Fin ncpu × Output)) : Prop :=
  (ofProcess k outs).length + waiting m k ≤ (receives target k tr).length

theorem waiting_le (m : Maps ncpu) (k : UInt32) : waiting m k ≤ 1 := by
  unfold waiting; split <;> omega

theorem receives_concat (target k : UInt32) (tr : Trace ncpu) (p : ProbeRun ncpu) :
    receives target k (tr ++ [p]) = receives target k tr ++ receives target k [p] := by
  rw [receives, List.filterMap_append]; rfl

/-- A run has an output under `k` only if it takes the entry of `k` out of the map. -/
theorem outputs_le_waiting (hm : m.targetPid = #v[target]) (k : UInt32) (p : ProbeRun ncpu) :
    (ofProcess k (p.outputs m)).length + waiting (p.step m) k ≤
      waiting m k + (receives target k [p]).length := by
  by_cases ht : Touches target k p.ctx
  · cases p with
    | recvmsg c =>
      have ht : Touches target k c := ht
      have hone : receives target k [ProbeRun.recvmsg c] = [c] := by simp [receives, ht]
      have hle := waiting_le ((ProbeRun.recvmsg c).step m) k
      rw [outputs_of_not_send m (by simp), hone, List.length_singleton]
      show 0 + _ ≤ _
      omega
    | recvmsgRet r =>
      have hsame : waiting ((ProbeRun.recvmsgRet r).step m) k = waiting m k := by
        rw [waiting, get_step_recvmsgRet hm r ht, Option.isSome_map]; rfl
      rw [outputs_of_not_send m (by simp), hsame]
      exact Nat.le_of_eq (Nat.add_comm ..)
    | sendmsg ctx =>
      have hgone : waiting ((ProbeRun.sendmsg ctx).step m) k = 0 := by
        rw [waiting, get_step_sendmsg hm ctx ht]; rfl
      rw [hgone]
      cases ho : (tryOnSendmsg ctx m).2.2 with
      | none => rw [outputs_of_none ho]; exact Nat.zero_le _
      | some o =>
        obtain ⟨v, -, hget, -, -⟩ := (tryOnSendmsg_output hm ctx o).1 ho
        obtain ⟨-, rfl⟩ := ht
        have hhere : waiting m ctx.tgid = 1 := by rw [waiting, hget]; rfl
        have hle : (ofProcess ctx.tgid [(ctx.cpu, o)]).length ≤ 1 := List.length_filter_le ..
        rw [outputs_of_some ho]
        show (ofProcess ctx.tgid [(ctx.cpu, o)]).length + 0 ≤ waiting m ctx.tgid + _
        omega
  · have hsame : waiting (p.step m) k = waiting m k := by
      rw [waiting, get_step_of_not_touches hm ht]; rfl
    have hnone : ofProcess k (p.outputs m) = [] := by
      cases p with
      | recvmsg c => rfl
      | recvmsgRet r => rfl
      | sendmsg ctx =>
        cases ho : (tryOnSendmsg ctx m).2.2 with
        | none => rw [outputs_of_none ho]; rfl
        | some o =>
          obtain ⟨v, hacc, -, -, rfl⟩ := (tryOnSendmsg_output hm ctx o).1 ho
          have hkey : ctx.tgid ≠ k := fun hk => ht ⟨hacc, hk⟩
          rw [outputs_of_some ho, ofProcess, List.filter_cons_of_neg (by simpa [latencyEvent] using hkey)]
          rfl
    rw [hsame, hnone]
    exact (Nat.zero_add _).le.trans (Nat.le_add_right ..)

theorem owed (target k : UInt32) (tr : Trace ncpu) :
    Owed target k tr (tr.foldl ProbeRun.step (.init ncpu target)) (outputs (.init ncpu target) tr) := by
  induction tr using List.reverseRecOn with
  | nil => exact Nat.le_refl 0
  | append_singleton tr p ih =>
    have hm : (tr.foldl ProbeRun.step (.init ncpu target)).targetPid = #v[target] := targetPid_foldl ..
    have hstep := outputs_le_waiting hm k p
    have hsplit : (ofProcess k (outputs (.init ncpu target) (tr ++ [p]))).length =
        (ofProcess k (outputs (.init ncpu target) tr)).length +
          (ofProcess k (p.outputs (tr.foldl ProbeRun.step (.init ncpu target)))).length := by
      rw [outputs_concat, ofProcess, List.filter_append, List.length_append]; rfl
    unfold Owed at ih ⊢
    rw [hsplit, receives_concat, List.length_append, List.foldl_append]
    show _ + waiting (p.step _) k ≤ _
    omega

/-! ### Failed insertions -/

/-- The process `k` is between a receive and its reply just before run number `l`. -/
def MidRequest (target k : UInt32) (tr : Trace ncpu) (l : Nat) : Prop :=
  ∃ i c, i < l ∧ InsertionAt target k tr i c ∧ ∀ n, i < n → n < l → ¬ SendUnder target k tr n

theorem midRequest_of_get {v : ReqCtx} {l : Nat} (hl : l ≤ tr.length)
    (h : (mapsAt target tr l).reqCtx.get k = some v) : MidRequest target k tr l := by
  obtain ⟨i, c, hfrom⟩ := exists_fromRecv target tr l hl k v h
  refine ⟨i, c, hfrom.lt, hfrom.inserted, ?_⟩
  rintro n h1 h2 ⟨s, hs, ht⟩
  obtain ⟨r, hr⟩ := hfrom.returns n h1 h2 _ hs ht
  cases hr

theorem MidRequest.mem_keys {l : Nat} (hl : l ≤ tr.length) (h : MidRequest target k tr l) :
    k ∈ (mapsAt target tr l).reqCtx.entries.keys := by
  obtain ⟨i, c, hil, hins, hno⟩ := h
  obtain ⟨v, hv⟩ := hins.exists_entry hil hl hno
  exact AList.mem_keys.1 (BoundedMap.mem_of_get hv)

/-- An insertion fails exactly when 10240 other processes are between a receive and its reply. -/
theorem failed_insertion_iff (ncpu : Nat) (target : UInt32) (tr : Trace ncpu) (l : Nat) :
    FailedInsertionAt target tr l ↔ ∃ c, tr[l]? = some (.recvmsg c) ∧ accepts target c.pid = true ∧
      ∃ ks : List UInt32, ks.Nodup ∧ ks.length = 10240 ∧ c.tgid ∉ ks ∧
        ∀ k ∈ ks, MidRequest target k tr l := by
  constructor
  · rintro ⟨c, hc, hacc, hfull⟩
    obtain ⟨habsent, hlen⟩ := not_or.1 hfull
    have hl : l ≤ tr.length := (List.getElem?_eq_some_iff.1 hc).1.le
    refine ⟨c, hc, hacc, (mapsAt target tr l).reqCtx.entries.keys, AList.keys_nodup _, ?_, habsent,
      fun k hk => ?_⟩
    · exact le_antisymm (mapsAt target tr l).reqCtx.size_le (Nat.not_lt.1 hlen)
    · obtain ⟨v, hv⟩ := Option.isSome_iff_exists.1 (AList.lookup_isSome.2 (AList.mem_keys.2 hk))
      exact midRequest_of_get hl hv
  · rintro ⟨c, hc, hacc, ks, hnodup, hlen, habsent, hmid⟩
    have hl : l ≤ tr.length := (List.getElem?_eq_some_iff.1 hc).1.le
    have hsub : ks ⊆ (mapsAt target tr l).reqCtx.entries.keys := fun k hk => (hmid k hk).mem_keys hl
    have hsize := (mapsAt target tr l).reqCtx.size_le
    have hperm := (hnodup.subperm hsub).perm_of_length_le (by omega)
    refine ⟨c, hc, hacc, ?_⟩
    rintro (hmem | hroom)
    · exact habsent (hperm.mem_iff.2 (AList.mem_keys.1 hmem))
    · rw [← hperm.length_eq] at hroom
      omega

end RedisTracer
