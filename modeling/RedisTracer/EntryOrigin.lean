import RedisTracer.ProbeRuns

/-!
# Where a `REQ_CTX` entry comes from

`FromRecv` is the invariant every result about the events rests on: an entry present at `j` was
inserted by one `tcp_recvmsg` entry, since then its key has only seen `tcp_recvmsg` returns, and the
first of them filled it. `OutputAt.origin` reads an event off its entry.
-/

namespace RedisTracer

open Run

variable {ncpu : Nat} {target k : UInt32} {tr : Trace ncpu} {i j l : Nat} {v : ReqCtx}
  {c ctx r : ProbeCtx ncpu} {p : ProbeRun ncpu}

/-- What the return run `r` captures for the call entered by `c`: nothing when the call has no
buffer. -/
def captured (c r : ProbeCtx ncpu) : Vector UInt8 32 :=
  if iovBase c = 0 then Vector.replicate 32 0 else bpfProbeRead r.userMem (iovBase c) 32

theorem fill_newReqCtx (c r : ProbeCtx ncpu) :
    fill r (newReqCtx c) = ⟨c.ktimeNs, 0, clientPacked c, captured c r⟩ := by
  unfold fill captured newReqCtx; split <;> simp_all

/-- The event a send makes of the call entered by `c` and returned from at `r`. -/
def callEvent (ctx c r : ProbeCtx ncpu) : LatencyEvent :=
  latencyEvent ctx ⟨c.ktimeNs, 0, clientPacked c, captured c r⟩

/-- Run number `i` inserts the entry `c` under `k`; the insertion succeeds. -/
def InsertionAt (target k : UInt32) (tr : Trace ncpu) (i : Nat) (c : ProbeCtx ncpu) : Prop :=
  tr[i]? = some (.recvmsg c) ∧ Touches target k c ∧ (mapsAt target tr i).reqCtx.HasRoom k

theorem InsertionAt.recvUnder (h : InsertionAt target k tr i c) : RecvUnder target k tr i :=
  ⟨c, h.1, h.2.1⟩

/-- The entry `v` of key `k` at `j` comes from the `tcp_recvmsg` entry `c` at `i`. -/
structure FromRecv (target k : UInt32) (tr : Trace ncpu) (j : Nat) (v : ReqCtx) (i : Nat)
    (c : ProbeCtx ncpu) : Prop where
  lt : i < j
  inserted : InsertionAt target k tr i c
  returns : ∀ l, i < l → l < j → ∀ p, tr[l]? = some p → Touches target k p.ctx → ∃ r, p = .recvmsgRet r
  /-- The entry is as inserted, or as the first of these returns left it. -/
  value : (v = newReqCtx c ∧ ∀ l, i < l → l < j → ¬ TouchedAt target k tr l) ∨
    ∃ l r, l < j ∧ FirstAfter (TouchedAt target k tr) i l ∧ tr[l]? = some (.recvmsgRet r) ∧
      v = fill r (newReqCtx c)

namespace FromRecv

theorem insert (h : InsertionAt target k tr j c) : FromRecv target k tr (j + 1) (newReqCtx c) j c :=
  ⟨Nat.lt_succ_self j, h, fun l h1 h2 => by omega, .inl ⟨rfl, fun l h1 h2 => by omega⟩⟩

theorem returns_succ (h : FromRecv target k tr j v i c) (hj : tr[j]? = some p)
    (hp : Touches target k p.ctx → ∃ r, p = .recvmsgRet r) :
    ∀ l, i < l → l < j + 1 → ∀ p, tr[l]? = some p → Touches target k p.ctx → ∃ r, p = .recvmsgRet r := by
  intro l h1 h2 q hq ht
  rcases Nat.lt_succ_iff_lt_or_eq.1 h2 with h2 | rfl
  · exact h.returns l h1 h2 q hq ht
  · obtain rfl : p = q := Option.some.inj (hj.symm.trans hq)
    exact hp ht

theorem skip (h : FromRecv target k tr j v i c) (hj : tr[j]? = some p)
    (hp : ¬ Touches target k p.ctx) : FromRecv target k tr (j + 1) v i c := by
  refine ⟨Nat.lt_succ_of_lt h.lt, h.inserted, h.returns_succ hj fun ht => absurd ht hp, ?_⟩
  rcases h.value with ⟨hv, hno⟩ | ⟨l, r, hl, hfirst, hr, hv⟩
  · refine .inl ⟨hv, fun l h1 h2 => ?_⟩
    rcases Nat.lt_succ_iff_lt_or_eq.1 h2 with h2 | rfl
    · exact hno l h1 h2
    · rintro ⟨q, hq, ht⟩
      exact hp (Option.some.inj (hj.symm.trans hq) ▸ ht)
  · exact .inr ⟨l, r, Nat.lt_succ_of_lt hl, hfirst, hr, hv⟩

theorem fill (h : FromRecv target k tr j v i c) (hj : tr[j]? = some (.recvmsgRet r))
    (ht : Touches target k r) : FromRecv target k tr (j + 1) (fill r v) i c := by
  refine ⟨Nat.lt_succ_of_lt h.lt, h.inserted, h.returns_succ hj fun _ => ⟨r, rfl⟩, .inr ?_⟩
  rcases h.value with ⟨rfl, hno⟩ | ⟨l, r', hl, hfirst, hr, rfl⟩
  · exact ⟨j, r, Nat.lt_succ_self j, ⟨h.lt, ⟨_, hj, ht⟩, hno⟩, hj, rfl⟩
  · exact ⟨l, r', Nat.lt_succ_of_lt hl, hfirst, hr, fill_fill r' r _⟩

theorem startNs (h : FromRecv target k tr j v i c) : v.startNs = c.ktimeNs := by
  rcases h.value with ⟨rfl, -⟩ | ⟨_, _, -, -, -, rfl⟩
  · rfl
  · exact fill_startNs _ _

theorem clientPacked (h : FromRecv target k tr j v i c) : v.clientPacked = clientPacked c := by
  rcases h.value with ⟨rfl, -⟩ | ⟨_, _, -, -, -, rfl⟩
  · rfl
  · exact fill_clientPacked _ _

theorem latest (h : FromRecv target k tr j v i c) : LastBefore (RecvUnder target k tr) j i := by
  refine ⟨h.lt, h.inserted.recvUnder, fun l h1 h2 => ?_⟩
  rintro ⟨c', hc', ht⟩
  obtain ⟨r, hr⟩ := h.returns l h1 h2 _ hc' ht
  cases hr

end FromRecv

/-- Every entry of every reachable map comes from a `tcp_recvmsg` entry. -/
theorem exists_fromRecv (target : UInt32) (tr : Trace ncpu) :
    ∀ j, j ≤ tr.length → ∀ k v, (mapsAt target tr j).reqCtx.get k = some v →
      ∃ i c, FromRecv target k tr j v i c := by
  refine mapsAt_invariant (I := fun j m => ∀ k v, m.reqCtx.get k = some v →
    ∃ i c, FromRecv target k tr j v i c) (fun k v h => ?_) fun j p hj ih k v hget => ?_
  · simp [Maps.init] at h
  have hm := targetPid_mapsAt target tr j
  by_cases ht : Touches target k p.ctx
  · cases p with
    | recvmsg c =>
      rw [get_step_recvmsg hm c ht] at hget
      split at hget
      · cases hget; exact ⟨j, c, .insert ⟨hj, ht, ‹_›⟩⟩
      · cases hget
    | recvmsgRet r =>
      rw [get_step_recvmsgRet hm r ht] at hget
      obtain ⟨v', hv', rfl⟩ := Option.map_eq_some_iff.1 hget
      obtain ⟨i, c, h⟩ := ih k v' hv'
      exact ⟨i, c, h.fill hj ht⟩
    | sendmsg ctx => rw [get_step_sendmsg hm ctx ht] at hget; cases hget
  · rw [get_step_of_not_touches hm ht] at hget
    obtain ⟨i, c, h⟩ := ih k v hget
    exact ⟨i, c, h.skip hj ht⟩

theorem OutputAt.origin {o : Output} (h : OutputAt target tr j ctx o) :
    ∃ v i c, FromRecv target ctx.tgid tr j v i c ∧ accepts target ctx.pid = true ∧
      ctx.ktimeNs - c.ktimeNs ≤ 10_000_000_000 ∧ o.event = latencyEvent ctx v := by
  obtain ⟨v, hacc, hget, hlat, ho⟩ := h.inv
  have hj : j ≤ tr.length := Nat.le_of_lt (List.getElem?_eq_some_iff.1 h.1).1
  obtain ⟨i, c, hfrom⟩ := exists_fromRecv target tr j hj _ v hget
  exact ⟨v, i, c, hfrom, hacc, hfrom.startNs ▸ hlat, ho⟩

/-! ### Entries that must be there -/

theorem hasRoom_start (target k : UInt32) (tr : Trace ncpu) :
    (mapsAt target tr 0).reqCtx.HasRoom k := .inr (by show 0 < 10240; omega)

/-- Until its key is sent on, an inserted entry stays in the map, possibly replaced. -/
theorem InsertionAt.exists_entry (hi : InsertionAt target k tr i c) (hij : i < j)
    (hj : j ≤ tr.length) (hno : ∀ l, i < l → l < j → ¬ SendUnder target k tr l) :
    ∃ v, (mapsAt target tr j).reqCtx.get k = some v := by
  induction j with
  | zero => exact absurd hij (Nat.not_lt_zero i)
  | succ j ih =>
    rcases Nat.lt_succ_iff_lt_or_eq.1 hij with hlt | rfl
    · obtain ⟨v, hv⟩ := ih hlt (Nat.le_of_succ_le hj) fun l h1 h2 => hno l h1 (Nat.lt_succ_of_lt h2)
      obtain ⟨p, hp⟩ : ∃ p, tr[j]? = some p := ⟨_, List.getElem?_eq_getElem hj⟩
      have hm := targetPid_mapsAt target tr j
      rw [mapsAt_succ hp]
      by_cases ht : Touches target k p.ctx
      · cases p with
        | recvmsg c' =>
          rw [get_step_recvmsg hm c' ht, if_pos (BoundedMap.hasRoom_of_get hv)]
          exact ⟨_, rfl⟩
        | recvmsgRet r => rw [get_step_recvmsgRet hm r ht, hv]; exact ⟨_, rfl⟩
        | sendmsg s => exact absurd ⟨s, hp, ht⟩ (hno j hlt (Nat.lt_succ_self j))
      · rw [get_step_of_not_touches hm ht]; exact ⟨v, hv⟩
    · rw [mapsAt_succ hi.1, get_step_recvmsg (targetPid_mapsAt target tr i) c hi.2.1, if_pos hi.2.2]
      exact ⟨_, rfl⟩

/-- An accepted send at most ten seconds after an insertion under its key, with no other send under
the key in between, makes an output; it carries the latest receive under the key. -/
theorem InsertionAt.exists_output (hi : InsertionAt target k tr i c) (hij : i < j)
    (hj : tr[j]? = some (.sendmsg ctx)) (ht : Touches target k ctx) (hclock : MonotonicClock tr)
    (hage : ctx.ktimeNs.toNat ≤ c.ktimeNs.toNat + 10_000_000_000)
    (hno : ∀ l, i < l → l < j → ¬ SendUnder target k tr l) :
    ∃ o v i' c', OutputAt target tr j ctx o ∧ FromRecv target k tr j v i' c' ∧
      o.event = latencyEvent ctx v := by
  have hlen : j ≤ tr.length := Nat.le_of_lt (List.getElem?_eq_some_iff.1 hj).1
  obtain ⟨v, hv⟩ := hi.exists_entry hij hlen hno
  obtain ⟨i', c', hfrom⟩ := exists_fromRecv target tr j hlen k v hv
  have hle : i ≤ i' := Nat.le_of_not_lt fun hlt =>
    hfrom.latest.2.2 i hlt hij hi.recvUnder
  have hcc : c.ktimeNs ≤ c'.ktimeNs := by
    rcases Nat.lt_or_eq_of_le hle with hlt | rfl
    · exact hclock.le hlt hi.1 hfrom.inserted.1
    · cases hi.1.symm.trans hfrom.inserted.1; exact UInt64.le_refl _
  have hcs : c'.ktimeNs ≤ ctx.ktimeNs := hclock.le hfrom.lt hfrom.inserted.1 hj
  have hlat : ctx.ktimeNs - v.startNs ≤ 10_000_000_000 := by
    rw [hfrom.startNs, UInt64.le_iff_toNat_le, UInt64.toNat_sub_of_le _ _ hcs]
    have := UInt64.le_iff_toNat_le.1 hcc
    show _ ≤ 10_000_000_000
    omega
  obtain ⟨hacc, rfl⟩ := ht
  obtain ⟨o, ho, he⟩ := outputAt_of_get hj hacc hv hlat
  exact ⟨o, v, i', c', ho, hfrom, he⟩

/-! ### One call and its reply -/

theorem reply_output (hc : Touches target k c) (hctx : Touches target k ctx)
    (hclock : MonotonicClock [.recvmsg c, .recvmsgRet r, .sendmsg ctx])
    (hage : ctx.ktimeNs.toNat ≤ c.ktimeNs.toNat + 10_000_000_000) :
    ∃ o, OutputAt target [.recvmsg c, .recvmsgRet r, .sendmsg ctx] 2 ctx o := by
  have hins : InsertionAt target k [.recvmsg c, .recvmsgRet r, .sendmsg ctx] 0 c :=
    ⟨rfl, hc, hasRoom_start _ _ _⟩
  obtain ⟨o, -, -, -, ho, -, -⟩ := hins.exists_output (j := 2) (by omega) rfl hctx hclock hage <| by
    intro l h1 h2
    obtain rfl : l = 1 := by omega
    simp [SendUnder]
  exact ⟨o, ho⟩

def oneReply (cpu : Fin ncpu) (tgid t : UInt32) : Trace ncpu :=
  [.recvmsg (bareCtx cpu tgid t 0 1), .recvmsgRet (bareCtx cpu tgid t 1 1),
    .sendmsg (bareCtx cpu tgid t 2 1)]

section
variable (cpu : Fin ncpu) (tgid t : UInt32)

theorem oneReply_clock : MonotonicClock (oneReply cpu tgid t) := by
  simp [MonotonicClock, oneReply, ProbeRun.ctx]

theorem oneReply_output (hacc : accepts target t) :
    ∃ o, OutputAt target (oneReply cpu tgid t) 2 (bareCtx cpu tgid t 2 1) o := by
  have htouches : ∀ now, Touches target tgid (bareCtx cpu tgid t now 1) := fun now =>
    ⟨by simpa using hacc, by simp⟩
  exact reply_output (htouches 0) (htouches 2) (oneReply_clock cpu tgid t)
    (by simp only [bareCtx_ktimeNs, UInt64.reduceToNat]; omega)

end

end RedisTracer
