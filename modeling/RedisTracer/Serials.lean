import RedisTracer.EntryOrigin

/-!
# Every event consumes one insertion

The serial number of a successful `REQ_CTX` insertion is its position in the trace. An event consumes
the latest insertion under its key; between the two, no accepted `try_on_sendmsg` run has seen the
key, so no insertion is consumed twice.
-/

namespace RedisTracer

open Run

variable {ncpu : Nat} {target k : UInt32} {tr : Trace ncpu} {i j j' : Nat}
  {c c' ctx ctx' : ProbeCtx ncpu} {o o' : Output}

/-- The output made at `j` by `ctx` consumes serial `i`, of the insertion made by `c`: the latest
successful insertion for the key, made after the previous accepted send for the key. -/
structure Consumes (target : UInt32) (tr : Trace ncpu) (j : Nat) (ctx : ProbeCtx ncpu) (i : Nat)
    (c : ProbeCtx ncpu) : Prop where
  inserted : InsertionAt target ctx.tgid tr i c
  latest : LastBefore (fun l => ∃ c', InsertionAt target ctx.tgid tr l c') j i
  unsent : ∀ l, i < l → l < j → ¬ SendUnder target ctx.tgid tr l

theorem FromRecv.consumes {v : ReqCtx} (h : FromRecv target ctx.tgid tr j v i c) :
    Consumes target tr j ctx i c where
  inserted := h.inserted
  latest := ⟨h.lt, ⟨c, h.inserted⟩, fun l h1 h2 ⟨_, hc⟩ => h.latest.2.2 l h1 h2 hc.recvUnder⟩
  unsent := by
    rintro l h1 h2 ⟨s, hs, ht⟩
    obtain ⟨r, hr⟩ := h.returns l h1 h2 _ hs ht
    cases hr

/-- Two accepted sends cannot consume one insertion: the first of them ends it. -/
theorem Consumes.position_unique (hc : Consumes target tr j ctx i c)
    (hc' : Consumes target tr j' ctx' i c') (ho : OutputAt target tr j ctx o)
    (ho' : OutputAt target tr j' ctx' o') : j = j' := by
  have hkey : ctx.tgid = ctx'.tgid := by
    have hcc : c = c' := by
      have := hc.inserted.1.symm.trans hc'.inserted.1
      cases this; rfl
    subst hcc
    exact hc.inserted.2.1.2.symm.trans hc'.inserted.2.1.2
  have hs : SendUnder target ctx.tgid tr j :=
    let ⟨_, hacc, _⟩ := ho.inv; ⟨ctx, ho.1, hacc, rfl⟩
  have hs' : SendUnder target ctx.tgid tr j' :=
    let ⟨_, hacc, _⟩ := ho'.inv; ⟨ctx', ho'.1, hacc, hkey.symm⟩
  rcases Nat.lt_trichotomy j j' with hlt | heq | hlt
  · exact absurd (hkey ▸ hs) (hc'.unsent j hc.latest.1 hlt)
  · exact heq
  · exact absurd hs' (hc.unsent j' hc'.latest.1 hlt)

theorem OutputAt.latency_exact (hclock : MonotonicClock tr) (ho : OutputAt target tr j ctx o)
    (hij : i < j) (hi : tr[i]? = some (.recvmsg c)) :
    c.ktimeNs ≤ ctx.ktimeNs ∧
      (ctx.ktimeNs - c.ktimeNs).toNat = ctx.ktimeNs.toNat - c.ktimeNs.toNat := by
  have hle : c.ktimeNs ≤ ctx.ktimeNs := hclock.le hij hi ho.1
  exact ⟨hle, UInt64.toNat_sub_of_le _ _ hle⟩

theorem output_consumes_serial (target : UInt32) (tr : Trace ncpu) (hclock : MonotonicClock tr) :
    (∀ j ctx o, OutputAt target tr j ctx o →
      ∃ i c, Consumes target tr j ctx i c ∧ c.ktimeNs ≤ ctx.ktimeNs ∧
        o.event.latencyNs.toNat = ctx.ktimeNs.toNat - c.ktimeNs.toNat ∧
        o.event.latencyNs.toNat ≤ 10_000_000_000) ∧
    ∀ j j' ctx ctx' o o' i c c', OutputAt target tr j ctx o → OutputAt target tr j' ctx' o' →
      Consumes target tr j ctx i c → Consumes target tr j' ctx' i c' → j = j' := by
  refine ⟨fun j ctx o ho => ?_, fun j j' ctx ctx' o o' i c c' ho ho' hc hc' =>
    hc.position_unique hc' ho ho'⟩
  obtain ⟨v, i, c, hfrom, -, hlat, he⟩ := ho.origin
  obtain ⟨hle, hsub⟩ := ho.latency_exact hclock hfrom.lt hfrom.inserted.1
  have hlatency : o.event.latencyNs = ctx.ktimeNs - c.ktimeNs := by
    rw [he, latencyEvent, hfrom.startNs]
  refine ⟨i, c, hfrom.consumes, hle, hlatency ▸ hsub, ?_⟩
  rw [hlatency]; exact UInt64.le_iff_toNat_le.1 hlat

theorem output_consumes_serial_one : ∃ o i c,
    OutputAt 0 (oneReply (0 : Fin 1) 100 101) 2 (bareCtx 0 100 101 2 1) o ∧
      Consumes 0 (oneReply (0 : Fin 1) 100 101) 2 (bareCtx 0 100 101 2 1) i c := by
  obtain ⟨o, ho⟩ := oneReply_output (0 : Fin 1) 100 101 (accepts_zero 101)
  obtain ⟨i, c, hc, -⟩ := (output_consumes_serial 0 _ (oneReply_clock 0 100 101)).1 2 _ o ho
  exact ⟨o, i, c, ho, hc⟩

end RedisTracer
