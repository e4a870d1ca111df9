import RedisTracer.EntryOrigin
import RedisTracer.Lib.RingBuf
import Mathlib

/-!
# Batched wake-ups

The latency probes on `ncpu` CPUs, the shared ring and the reader of `aya-test/src/reader.rs`.
`Strands` is the invariant: while the reader neither drains nor is about to, the unread events of a
CPU are at most its `BATCH_CNT`. So the ring has room then, and the forcing output is not dropped.
-/

namespace RedisTracer

variable {ncpu cap : Nat} {target : UInt32}

/-- Where the reader task is: at `readable_mut().await`, in the collecting loop, or at the batch. -/
inductive ReaderPhase
  | asleep
  | collecting
  | processing
deriving DecidableEq

/-- `pending` is a raised readiness the reader has not woken up for yet. -/
structure Sys (ncpu cap : Nat) where
  maps : Maps ncpu
  ring : RingBuf (Fin ncpu) LatencyEvent cap
  pending : Bool
  reader : ReaderPhase
  batch : List LatencyEvent
  processed : List (List LatencyEvent)

namespace Sys

def init (ncpu cap : Nat) (target : UInt32) : Sys ncpu cap where
  maps := .init ncpu target
  ring := .empty
  pending := false
  reader := .asleep
  batch := []
  processed := []

/-- The wake-up rule of the ring: forced, not at all, or when the reader had caught up. -/
def wakes (flags : UInt64) (caughtUp : Bool) : Bool :=
  if flags &&& bpfRbForceWakeup != 0 then true
  else if flags &&& bpfRbNoWakeup != 0 then false
  else caughtUp

/-- `LATENCY_RINGBUF.output`: a full ring drops the record and its wake-up. -/
def output (s : Sys ncpu cap) (cpu : Fin ncpu) (o : Output) : Sys ncpu cap :=
  match s.ring.push cpu o.event with
  | some ring => { s with ring := ring, pending := s.pending || wakes o.flags s.ring.items.isEmpty }
  | none => s

def probe (s : Sys ncpu cap) (p : ProbeRun ncpu) : Sys ncpu cap :=
  let s' := { s with maps := p.step s.maps }
  match p with
  | .recvmsg _ => s'
  | .recvmsgRet _ => s'
  | .sendmsg ctx =>
    match (tryOnSendmsg ctx s.maps).2.2 with
    | some o => s'.output ctx.cpu o
    | none => s'

inductive Step : Sys ncpu cap → Sys ncpu cap → Prop
  | probe (s : Sys ncpu cap) (p : ProbeRun ncpu) : Step s (s.probe p)
  | wake (s : Sys ncpu cap) : s.reader = .asleep → s.pending = true →
      Step s { s with reader := .collecting, pending := false }
  | collect (s : Sys ncpu cap) (ev : LatencyEvent) (ring : RingBuf (Fin ncpu) LatencyEvent cap) :
      s.reader = .collecting → s.ring.pop = some (ev, ring) →
      Step s { s with ring := ring, batch := s.batch ++ [ev] }
  | drained (s : Sys ncpu cap) : s.reader = .collecting → s.ring.pop = none →
      Step s { s with reader := .processing }
  | process (s : Sys ncpu cap) : s.reader = .processing →
      Step s { s with reader := .asleep, batch := [], processed := s.processed ++ [s.batch] }

def Reachable (target : UInt32) : Sys ncpu cap → Prop := Relation.ReflTransGen Step (init ncpu cap target)

def batchCnt (s : Sys ncpu cap) (c : Fin ncpu) : Nat := ((s.maps.batchCnt c)[0]?.getD 0).toNat

end Sys

/-! ### Counters -/

/-- The counter goes up without a wake-up, or back to zero with one. -/
theorem nextBatch_cases {cur : UInt32} (h : cur.toNat < 16) :
    (cur.toNat + 1 < 16 ∧ (nextBatch cur).1.toNat = cur.toNat + 1 ∧ (nextBatch cur).2 = bpfRbNoWakeup) ∨
      ((nextBatch cur).1 = 0 ∧ (nextBatch cur).2 = bpfRbForceWakeup) := by
  have hadd : (cur + 1).toNat = cur.toNat + 1 := by
    rw [UInt32.toNat_add]; exact Nat.mod_eq_of_lt (by simp; omega)
  unfold nextBatch
  split
  · exact .inr ⟨rfl, rfl⟩
  · rename_i hlt
    have hlt : (cur + 1).toNat < 16 := UInt32.lt_iff_toNat_lt.1 (UInt32.not_le.1 hlt)
    exact .inl ⟨hadd ▸ hlt, hadd, rfl⟩

theorem tryOnSendmsg_batch (ctx : ProbeCtx ncpu) (m : Maps ncpu) :
    ((tryOnSendmsg ctx m).2.2 = none ∧ (tryOnSendmsg ctx m).2.1.batchCnt = m.batchCnt) ∨
      ∃ o, (tryOnSendmsg ctx m).2.2 = some o ∧ o.flags = (nextBatch ((m.batchCnt ctx.cpu).get 0)).2 ∧
        (tryOnSendmsg ctx m).2.1.batchCnt = Function.update m.batchCnt ctx.cpu
          #v[(nextBatch ((m.batchCnt ctx.cpu).get 0)).1] := by
  unfold tryOnSendmsg
  split
  · exact .inl ⟨rfl, rfl⟩
  · dsimp only
    split
    · exact .inl ⟨rfl, rfl⟩
    · split
      · exact .inl ⟨rfl, rfl⟩
      · rw [batchCnt_getElem?]
        refine .inr ⟨_, rfl, rfl, congrArg (Function.update m.batchCnt ctx.cpu) ?_⟩
        exact set_slot _ _

theorem batchCnt_step_of_not_send (m : Maps ncpu) {p : ProbeRun ncpu}
    (h : ∀ ctx, p ≠ .sendmsg ctx) : (p.step m).batchCnt = m.batchCnt := by
  cases p with
  | recvmsg ctx => simp only [ProbeRun.step, tryOnRecvmsg]; split <;> rfl
  | recvmsgRet ctx =>
    simp only [ProbeRun.step, tryOnRecvmsgRet]
    split
    · rfl
    · split
      · rfl
      · split <;> rfl
  | sendmsg ctx => exact absurd rfl (h ctx)

/-! ### The invariant -/

namespace Sys

structure Strands (s : Sys ncpu cap) : Prop where
  cnt_lt : ∀ c, s.batchCnt c < 16
  unread_le : s.reader ≠ .collecting → s.pending = false → ∀ c, s.ring.unread c ≤ s.batchCnt c

variable {s s' : Sys ncpu cap}

theorem Strands.length_le (h : s.Strands) (hreader : s.reader ≠ .collecting) (hpend : s.pending = false) :
    s.ring.items.length ≤ 15 * ncpu := by
  have hle := RingBuf.length_le_mul (r := s.ring) (n := 15) fun c => by
    have h1 := h.unread_le hreader hpend c
    have h2 := h.cnt_lt c
    omega
  rwa [Fintype.card_fin] at hle

theorem Strands.of_batchCnt (h : s.Strands) {m : Maps ncpu} (hm : m.batchCnt = s.maps.batchCnt) :
    ({ s with maps := m } : Sys ncpu cap).Strands := by
  constructor
  · intro c; rw [batchCnt, hm]; exact h.cnt_lt c
  · intro hr hp c; rw [batchCnt, hm]; exact h.unread_le hr hp c

theorem batchCnt_update (s : Sys ncpu cap) {m : Maps ncpu} {cpu : Fin ncpu} {n : UInt32}
    (hm : m.batchCnt = Function.update s.maps.batchCnt cpu #v[n]) (c : Fin ncpu) :
    ((m.batchCnt c).get 0).toNat = if cpu = c then n.toNat else s.batchCnt c := by
  rw [hm]
  by_cases hc : cpu = c
  · subst hc; rw [Function.update_self, if_pos rfl]; rfl
  · rw [Function.update_of_ne (Ne.symm hc), if_neg hc]; rfl

/-- An emission keeps the invariant: while the reader does not drain the ring has room, so a forcing
output gets through. -/
theorem Strands.output (hcap : 15 * ncpu < cap) (h : s.Strands) {m : Maps ncpu} {cpu : Fin ncpu}
    {o : Output} (hflags : o.flags = (nextBatch ((s.maps.batchCnt cpu).get 0)).2)
    (hm : m.batchCnt = Function.update s.maps.batchCnt cpu
      #v[(nextBatch ((s.maps.batchCnt cpu).get 0)).1]) :
    (({ s with maps := m } : Sys ncpu cap).output cpu o).Strands := by
  have hcnt := s.batchCnt_update hm
  have hcur : ((s.maps.batchCnt cpu).get 0).toNat < 16 := h.cnt_lt cpu
  have hnext := nextBatch_cases hcur
  have hlt : ∀ c, ((m.batchCnt c).get 0).toNat < 16 := by
    intro c
    rw [hcnt c]
    split
    · rcases hnext with ⟨hlt, hup, -⟩ | ⟨hzero, -⟩
      · rw [hup]; exact hlt
      · rw [hzero]; decide
    · exact h.cnt_lt c
  unfold Sys.output
  cases hpush : s.ring.push cpu o.event with
  | none =>
    refine ⟨hlt, fun hreader hpend => ?_⟩
    obtain ⟨ring, hring⟩ := RingBuf.push_isSome
      (Nat.lt_of_le_of_lt (h.length_le hreader hpend) hcap) cpu o.event
    rw [hpush] at hring; cases hring
  | some ring =>
    refine ⟨hlt, fun hreader hpend c => ?_⟩
    obtain ⟨hpend, hquiet⟩ := Bool.or_eq_false_iff.1 hpend
    show ring.unread c ≤ ((m.batchCnt c).get 0).toNat
    rcases hnext with ⟨-, hup, -⟩ | ⟨-, hforce⟩
    · have hold := h.unread_le hreader hpend c
      rw [RingBuf.unread_push hpush, hcnt c, hup]
      split
      · rename_i hc; subst hc; exact Nat.add_le_add_right hold 1
      · exact hold
    · rw [hflags, hforce] at hquiet
      exact absurd hquiet (by simp [wakes, bpfRbForceWakeup])

theorem Strands.probe (hcap : 15 * ncpu < cap) (h : s.Strands) (p : ProbeRun ncpu) :
    (s.probe p).Strands := by
  cases p with
  | recvmsg ctx => exact h.of_batchCnt (batchCnt_step_of_not_send _ (by simp))
  | recvmsgRet ctx => exact h.of_batchCnt (batchCnt_step_of_not_send _ (by simp))
  | sendmsg ctx =>
    rcases tryOnSendmsg_batch ctx s.maps with ⟨hnone, hm⟩ | ⟨o, hsome, hflags, hm⟩
    · rw [Sys.probe]; simp only [hnone]
      exact h.of_batchCnt hm
    · rw [Sys.probe]; simp only [hsome]
      exact h.output hcap hflags hm

theorem Strands.step (hcap : 15 * ncpu < cap) (h : s.Strands) (hstep : Step s s') : s'.Strands := by
  cases hstep with
  | probe p => exact h.probe hcap p
  | wake => exact ⟨h.cnt_lt, fun hreader => absurd rfl hreader⟩
  | collect ev ring hreader => exact ⟨h.cnt_lt, fun hne => absurd hreader hne⟩
  | drained _ hpop =>
    refine ⟨h.cnt_lt, fun _ _ c => ?_⟩
    rw [RingBuf.unread_of_pop_none hpop]; exact Nat.zero_le _
  | process hreader =>
    exact ⟨h.cnt_lt, fun _ hpend c => h.unread_le (by rw [hreader]; decide) hpend c⟩

theorem Reachable.strands (hcap : 15 * ncpu < cap) (h : Reachable target s) : s.Strands := by
  induction h with
  | refl => exact ⟨fun _ => (by decide : 0 < 16), fun _ _ _ => Nat.zero_le _⟩
  | tail _ hstep ih => exact ih.step hcap hstep

theorem reachable_probes (target : UInt32) (tr : Trace ncpu) :
    Reachable target (tr.foldl probe (init ncpu cap target)) := by
  induction tr using List.reverseRecOn with
  | nil => exact .refl
  | append_singleton tr p ih => rw [List.foldl_append]; exact ih.tail (.probe _ p)

end Sys

/-- While the reader sleeps with no wake-up pending, at most fifteen events of each CPU wait. -/
theorem batched_wakeup_bound (ncpu cap : Nat) (hcap : 15 * ncpu < cap) (target : UInt32)
    (s : Sys ncpu cap) (h : Sys.Reachable target s) :
    (∀ c, s.batchCnt c < 16) ∧ (s.reader = .asleep → s.pending = false →
      (∀ c, s.ring.unread c ≤ s.batchCnt c) ∧ s.ring.items.length ≤ 15 * ncpu) := by
  have hs := h.strands hcap
  refine ⟨hs.cnt_lt, fun hreader hpend => ?_⟩
  have hne : s.reader ≠ .collecting := by rw [hreader]; decide
  exact ⟨hs.unread_le hne hpend, hs.length_le hne hpend⟩

theorem batched_wakeup_bound_one :
    ((oneReply (0 : Fin 1) 100 101).foldl Sys.probe (Sys.init 1 16 0)).ring.items.length ≤ 15 * 1 :=
  ((batched_wakeup_bound 1 16 (by decide) 0 _ (Sys.reachable_probes 0 (oneReply (0 : Fin 1) 100 101))).2
    (by decide) (by decide)).2

end RedisTracer
