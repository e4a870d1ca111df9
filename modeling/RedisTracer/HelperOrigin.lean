import RedisTracer.HelperSteps

/-!
# Events of overlapping runs

What holds however runs overlap: `Sourced` says that the entry of a key, and each copy of it in flight, is of
receives under that key, so no event mixes two processes; the counter of a CPU is its own, so the outputs
keep their flags (`Metered`).
-/

namespace RedisTracer

variable {ncpu : Nat} {target k : UInt32} {tr tr' : Trace ncpu} {v : ReqCtx} {ctx : ProbeCtx ncpu}
  {buf : UInt64}

/-- The buffer of a receive under the key. -/
def BufferOf (target k : UInt32) (tr : Trace ncpu) (buf : UInt64) : Prop :=
  ∃ c, .recvmsg c ∈ tr ∧ Touches target k c ∧ buf = iovBase c

/-- An entry of receives under the key: one gave the time and the client, and what is copied is from the
buffer of one. -/
structure OfProcess (target k : UInt32) (tr : Trace ncpu) (v : ReqCtx) : Prop where
  received : ∃ c, .recvmsg c ∈ tr ∧ Touches target k c ∧ v.startNs = c.ktimeNs ∧ v.clientPacked = clientPacked c
  buffer : v.iovBase = 0 ∨ BufferOf target k tr v.iovBase
  copied : v.reqData = Vector.replicate 32 0 ∨ ∃ r buf, .recvmsgRet r ∈ tr ∧ Touches target k r ∧ buf ≠ 0 ∧
    BufferOf target k tr buf ∧ v.reqData = bpfProbeRead r.userMem buf 32

theorem BufferOf.mono (hsub : tr ⊆ tr') (h : BufferOf target k tr buf) :
    BufferOf target k tr' buf := by
  obtain ⟨c, hc, hrest⟩ := h
  exact ⟨c, hsub hc, hrest⟩

theorem OfProcess.mono (hsub : tr ⊆ tr') (h : OfProcess target k tr v) : OfProcess target k tr' v := by
  obtain ⟨⟨c, hc, hrest⟩, hbuf, hdata⟩ := h
  refine ⟨⟨c, hsub hc, hrest⟩, hbuf.imp_right (BufferOf.mono hsub), hdata.imp_right ?_⟩
  rintro ⟨r, buf, hr, ht, hne, hbuf, heq⟩
  exact ⟨r, buf, hsub hr, ht, hne, hbuf.mono hsub, heq⟩

theorem OfProcess.received_new (h : .recvmsg ctx ∈ tr) (ht : Touches target k ctx) :
    OfProcess target k tr (newReqCtx ctx) :=
  ⟨⟨ctx, h, ht, rfl, rfl⟩, .inr ⟨ctx, h, ht, rfl⟩, .inl rfl⟩

/-- The copy of a buffer into an entry, whichever receive wrote it. -/
theorem OfProcess.fill (h : OfProcess target k tr v) (hr : .recvmsgRet ctx ∈ tr)
    (ht : Touches target k ctx) (hne : buf ≠ 0) (hbuf : BufferOf target k tr buf) :
    OfProcess target k tr { v with reqData := bpfProbeRead ctx.userMem buf 32, iovBase := 0 } :=
  ⟨h.received, .inl rfl, .inr ⟨ctx, buf, hr, ht, hne, hbuf, rfl⟩⟩

theorem OfProcess.filled (h : OfProcess target k tr v) (hr : .recvmsgRet ctx ∈ tr) (ht : Touches target k ctx) :
    OfProcess target k tr (RedisTracer.fill ctx v) := by
  unfold RedisTracer.fill
  split
  · exact h
  · rename_i hne
    exact h.fill hr ht hne (h.buffer.resolve_left hne)

namespace ProbePoint

/-- What a run in flight works with is of its own process. -/
def Sourced (target : UInt32) (tr : Trace ncpu) : ProbePoint ncpu → Prop
  | reading ctx iovBase => .recvmsgRet ctx ∈ tr ∧ accepts target ctx.pid = true ∧ iovBase ≠ 0 ∧
      BufferOf target ctx.tgid tr iovBase
  | removing ctx v => .sendmsg ctx ∈ tr ∧ accepts target ctx.pid = true ∧ OfProcess target ctx.tgid tr v
  | sending ctx v => .sendmsg ctx ∈ tr ∧ accepts target ctx.pid = true ∧ OfProcess target ctx.tgid tr v ∧
      ctx.ktimeNs - v.startNs ≤ 10_000_000_000

theorem Sourced.mono {pt : ProbePoint ncpu} (hsub : tr ⊆ tr') (h : pt.Sourced target tr) : pt.Sourced target tr' := by
  cases pt with
  | reading ctx iovBase => exact ⟨hsub h.1, h.2.1, h.2.2.1, h.2.2.2.mono hsub⟩
  | removing ctx v => exact ⟨hsub h.1, h.2.1, h.2.2.mono hsub⟩
  | sending ctx v => exact ⟨hsub h.1, h.2.1, h.2.2.1.mono hsub, h.2.2.2⟩

end ProbePoint

/-- An output of a send that started, from an entry of its process. -/
def OutputOf (target : UInt32) (tr : Trace ncpu) (x : Fin ncpu × Output) : Prop :=
  ∃ ctx v, .sendmsg ctx ∈ tr ∧ accepts target ctx.pid = true ∧ ctx.cpu = x.1 ∧ x.2.event = latencyEvent ctx v ∧
    ctx.ktimeNs - v.startNs ≤ 10_000_000_000 ∧ OfProcess target ctx.tgid tr v

namespace Cpus

variable {s s₁ : Cpus ncpu} {c : Fin ncpu} {x : Option (ProbePoint ncpu)}

structure Sourced (target : UInt32) (s : Cpus ncpu) : Prop where
  filter : s.maps.targetPid = #v[target]
  entries : ∀ k v, s.maps.reqCtx.get k = some v → OfProcess target k s.entered v
  points : ∀ c pt, s.running c = some pt → pt.Sourced target s.entered
  outputs : ∀ x ∈ s.outputs, OutputOf target s.entered x
  metered : Metered s.maps s.outputs

/-- A step of one CPU that makes no output. -/
theorem Sourced.update (h : Sourced target s) (hsub : s.entered ⊆ s₁.entered)
    (hrun : s₁.running = Function.update s.running c x) (hout : s₁.outputs = s.outputs)
    (hpid : s₁.maps.targetPid = s.maps.targetPid) (hcnt : s₁.maps.batchCnt = s.maps.batchCnt)
    (hentries : ∀ k v, s₁.maps.reqCtx.get k = some v →
      OfProcess target k s₁.entered v ∨ s.maps.reqCtx.get k = some v)
    (hx : ∀ pt, x = some pt → pt.Sourced target s₁.entered) : Sourced target s₁ := by
  refine ⟨hpid.trans h.filter, fun k v hget => ?_, fun d pt hd => ?_, fun y hy => ?_, ?_⟩
  · exact (hentries k v hget).elim id fun hold => (h.entries k v hold).mono hsub
  · rcases running_update hrun hd with ⟨-, hxpt⟩ | ⟨-, hs⟩
    · exact hx pt hxpt
    · exact (h.points d pt hs).mono hsub
  · rw [hout] at hy
    obtain ⟨ctx, v, hctx, hacc, hcpu, hev, hlat, hv⟩ := h.outputs y hy
    exact ⟨ctx, v, hsub hctx, hacc, hcpu, hev, hlat, hv.mono hsub⟩
  · rw [hout]
    exact h.metered.of_batchCnt hcnt

/-- A run that is over at once leaves the entries as they are, or its own if it is a receive. -/
theorem get_over {p : ProbeRun ncpu} (hm : s.maps.targetPid = #v[target]) (hover : Over s s₁ p)
    (hget : s₁.maps.reqCtx.get k = some v) :
    (∃ c, p = .recvmsg c ∧ Touches target k c ∧ v = newReqCtx c) ∨
      (∃ w, s.maps.reqCtx.get k = some w ∧ ∃ r, p = .recvmsgRet r ∧ Touches target k r ∧ v = fill r w) ∨
      s.maps.reqCtx.get k = some v := by
  rw [hover.targets.1] at hget
  by_cases ht : Touches target k p.ctx
  · cases p with
    | recvmsg c =>
      rw [get_step_recvmsg hm c ht] at hget
      split at hget
      · exact .inl ⟨c, rfl, ht, (Option.some.inj hget).symm⟩
      · cases hget
    | recvmsgRet r =>
      rw [get_step_recvmsgRet hm r ht] at hget
      obtain ⟨w, hw, rfl⟩ := Option.map_eq_some_iff.1 hget
      exact .inr (.inl ⟨w, hw, r, rfl, ht, rfl⟩)
    | sendmsg ctx =>
      rw [get_step_sendmsg hm ctx ht] at hget
      cases hget
  · rw [get_step_of_not_touches hm ht] at hget
    exact .inr (.inr hget)

theorem Sourced.enter (h : Sourced target s) (p : ProbeRun ncpu) : Sourced target (s.enter p) := by
  have hsub : s.entered ⊆ s.entered ++ [p] := List.subset_append_left _ _
  have hmem : p ∈ s.entered ++ [p] := List.mem_append_right _ (List.mem_singleton_self p)
  rcases enter_cases h.filter p with hover | ⟨pt, heq, hctx, hpt, hahead, hacc, hfound⟩
  · obtain ⟨hmaps, -, hrun, hout, hentered⟩ := hover.targets
    refine h.update (x := none) (hentered ▸ hsub) hrun hout ?_ hover.batchCnt (fun k v hget => ?_)
      (fun _ hx => nomatch hx)
    · rw [hmaps]
      exact targetPid_step s.maps p
    · rw [hentered]
      rcases get_over (s := { s with entered := s.entered ++ [p] }) h.filter hover hget with
        ⟨c, rfl, ht, rfl⟩ | ⟨w, hw, r, rfl, ht, rfl⟩ | hold
      · exact .inl (.received_new hmem ht)
      · exact .inl (((h.entries k w hw).mono hsub).filled hmem ht)
      · exact .inr hold
  · rw [heq]
    refine h.update (c := pt.ctx.cpu) (x := some pt) hsub rfl rfl rfl rfl (fun _ _ hget => .inr hget) ?_
    rintro _ ⟨⟩
    cases pt with
    | reading ctx buf =>
      obtain ⟨v, hget, rfl, hne⟩ := hfound
      cases hahead
      exact ⟨hmem, hacc, hne, (((h.entries _ v hget).mono hsub).buffer).resolve_left hne⟩
    | removing ctx v =>
      cases hahead
      exact ⟨hmem, hacc, (h.entries _ v hfound).mono hsub⟩
    | sending ctx v => exact hpt.elim

theorem Sourced.resume (h : Sourced target s) {pt : ProbePoint ncpu} (hs : s.running pt.ctx.cpu = some pt) :
    Sourced target (s.resume pt) := by
  have hpt := h.points _ _ hs
  cases pt with
  | reading ctx iovBase =>
    obtain ⟨hr, hacc, hne, hbuf⟩ := hpt
    refine h.update (c := ctx.cpu) (x := none) (fun _ hp => hp) rfl rfl rfl rfl (fun k v hget => ?_)
      (fun _ hx => nomatch hx)
    by_cases hk : k = ctx.tgid
    · subst hk
      obtain ⟨w, hw, rfl⟩ := Option.map_eq_some_iff.1 ((BoundedMap.get_modify_self _).symm.trans hget)
      exact .inl ((h.entries _ w hw).fill hr ⟨hacc, rfl⟩ hne hbuf)
    · exact .inr ((BoundedMap.get_modify_of_ne _ hk).symm.trans hget)
  | removing ctx v =>
    obtain ⟨hsend, hacc, hv⟩ := hpt
    have hentries : ∀ k w, (s.maps.reqCtx.remove ctx.tgid).get k = some w → s.maps.reqCtx.get k = some w := by
      intro k w hget
      by_cases hk : k = ctx.tgid
      · rw [hk, BoundedMap.get_remove_self] at hget
        cases hget
      · rwa [BoundedMap.get_remove_of_ne hk] at hget
    unfold Cpus.resume
    dsimp only
    split
    · exact h.update (c := ctx.cpu) (x := none) (fun _ hp => hp) rfl rfl rfl rfl
        (fun k w hget => .inr (hentries k w hget)) (fun _ hx => nomatch hx)
    · rename_i hlat
      refine h.update (c := ctx.cpu) (x := some (.sending ctx v)) (fun _ hp => hp) (Function.update_idem ..) rfl rfl
        rfl (fun k w hget => .inr (hentries k w hget)) ?_
      rintro _ ⟨⟩
      exact ⟨hsend, hacc, hv, UInt64.not_lt.1 hlat⟩
  | sending ctx v =>
    obtain ⟨hsend, hacc, hv, hlat⟩ := hpt
    refine ⟨h.filter, h.entries, fun d pt hd => ?_, fun y hy => ?_, ?_⟩
    · rcases running_update (s := s) (c := ctx.cpu) (x := none) rfl hd with ⟨-, hnone⟩ | ⟨-, hs⟩
      · cases hnone
      · exact h.points d pt hs
    · rcases List.mem_append.1 hy with hy | hy
      · exact h.outputs y hy
      · rw [List.mem_singleton.1 hy]
        exact ⟨ctx, v, hsend, hacc, rfl, rfl, hlat, hv⟩
    · refine h.metered.concat rfl ?_
      rw [← set_slot (s.maps.batchCnt ctx.cpu)]
      rfl

theorem Reachable.sourced {ok : Cpus ncpu → ProbeRun ncpu → Prop} (h : Reachable ok target s) :
    Sourced target s := by
  refine Transition.invariant (I := Sourced target) ?_ (fun s s' hs hstep => ?_) h
  · refine ⟨rfl, fun k v hget => ?_, fun _ _ hs => (nomatch hs), fun _ hx => (nomatch hx), ⟨fun _ => rfl, fun _ => rfl⟩⟩
    rw [init, Maps.init, BoundedMap.get_empty] at hget
    cases hget
  · cases hstep with
    | enter p => exact hs.enter p
    | resume pt hrun => exact hs.resume hrun

end Cpus

end RedisTracer
