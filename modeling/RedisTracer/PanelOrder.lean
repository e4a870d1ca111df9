import RedisTracer.Panels

/-!
# The order of the panels

`Counted` and `Logged` are the invariants of a run: at the locks of the reporter the stores hold whole
batches, as many requests in the totals as in the commands, and each panel is of the batches of the one
before and more.
-/

namespace RedisTracer

open Locks GroupFold

namespace Panels

variable {H : Type} [HdrHistogram H] {dec : RespDecoder} {up : UpperTable} {intervalSecs : UInt64}
  {s s' : Panels H}

/-! ### Counts -/

omit [HdrHistogram H] in
theorem latencyCount_report (st : LatencyStats H) :
    latencyCount (st.report intervalSecs).1 = st.total.toNat := by
  unfold LatencyStats.report
  split
  · rename_i h0
    have h0 : st.total = 0 := by simpa using h0
    rw [h0]; rfl
  · rfl

omit [HdrHistogram H] in
theorem total_report (st : LatencyStats H) : (st.report intervalSecs).2.total = st.total := by
  unfold LatencyStats.report
  split <;> rfl

theorem map_of_mapM {α β γ : Type} {f : α → Option β} {g : β → γ} {k : α → γ} {as : List α}
    {bs : List β} (hf : ∀ a b, f a = some b → g b = k a) (h : as.mapM f = some bs) :
    bs.map g = as.map k := by
  induction as generalizing bs with
  | nil =>
    cases h; rfl
  | cons a as ih =>
    rw [List.mapM_cons] at h
    obtain ⟨b, hb, h⟩ := Option.bind_eq_some_iff.1 h
    obtain ⟨bs', hbs, h⟩ := Option.bind_eq_some_iff.1 h
    cases h
    rw [List.map_cons, List.map_cons, hf a b hb, ih hbs]

theorem sum_filter_pos {α : Type} (n : α → UInt64) (as : List α) :
    ((as.filter fun a => n a > 0).map fun a => (n a).toNat).sum = (as.map fun a => (n a).toNat).sum := by
  induction as with
  | nil => rfl
  | cons a as ih =>
    rw [List.filter_cons, List.map_cons, List.sum_cons]
    split
    · rw [List.map_cons, List.sum_cons, ih]
    · rename_i hzero
      have hzero : n a = 0 := by simpa using hzero
      rw [ih, hzero]
      exact (Nat.zero_add _).symm

omit [HdrHistogram H] in
/-- The rows of a panel show all the entries with a count. -/
theorem rowSum_report {cs : CommandStats H} {rows : List (String × UInt64)}
    (h : cs.report = some rows) : rowSum rows = (cs.commands.entries.map fun e => e.2.total.toNat).sum := by
  have hrows := map_of_mapM (g := fun r : String × UInt64 => r.2.toNat)
    (k := fun e : (_ : String) × LatencyStats H => e.2.total.toNat) (fun e r hr => by
      obtain ⟨name, -, rfl⟩ := Option.map_eq_some_iff.1 hr; rfl) h
  rw [rowSum, hrows, ((List.mergeSort_perm _ _).map _).sum_eq]
  exact sum_filter_pos (fun e : (_ : String) × LatencyStats H => e.2.total) _

/-- The events in a panel's rows, when there are less than `2 ^ 64`. -/
theorem rowSum_recordAll {evs : List LatencyEvent} {rows : List (String × UInt64)}
    (h : (recordAll H dec up evs).report = some rows) (hlt : evs.length < 2 ^ 64) :
    rowSum rows = evs.length := by
  rw [rowSum_report h, recordAll_eq]
  refine sum_entries_group (fun st : LatencyStats H => st.total.toNat) fun c st hst => ?_
  have hle : (ofKey (labelOf dec up) c evs).length ≤ evs.length := List.length_filter_le ..
  rw [eq_of_lookup_group hst, LatencyStats.total_foldl]
  exact toNat_counter (Nat.lt_of_le_of_lt hle hlt)

/-- The totals and the commands are those of the events recorded; the reporter's list is up to date
while it has a lock. -/
structure Counted (dec : RespDecoder) (up : UpperTable) (s : Panels H) : Prop where
  total : s.stores.stats.total = UInt64.ofNat s.recorded.length
  commands : s.stores.cmdStats = recordAll H dec up s.recorded
  seen : ∀ l seen, s.reporter = .reporting l seen → seen = s.processed

theorem Counted.of_same (h : Counted dec up s) (htotal : s'.stores.stats.total = s.stores.stats.total)
    (hcmd : s'.stores.cmdStats = s.stores.cmdStats) (hrec : s'.recorded = s.recorded)
    (hseen : ∀ l seen, s'.reporter = .reporting l seen → seen = s'.processed) : Counted dec up s' :=
  ⟨by rw [htotal, hrec]; exact h.total, by rw [hcmd, hrec]; exact h.commands, hseen⟩

omit [HdrHistogram H] in
theorem recorded_eq {point : ReaderPoint} (hread : s.reader = point)
    (hpoint : ∀ done rest, point ≠ .recording done rest) : s.recorded = s.processed.flatten := by
  rw [recorded, hread]
  cases point with
  | recording done rest => exact absurd rfl (hpoint done rest)
  | _ => exact List.append_nil _

theorem Counted.step (hlock : Locked s) (h : Counted dec up s) (hstep : Step dec up intervalSecs s s') :
    Counted dec up s' := by
  cases hstep with
  | collect batch hread =>
    refine h.of_same rfl rfl ?_ h.seen
    rw [recorded, recorded, hread]; rfl
  | readerLock l batch hread =>
    refine h.of_same rfl rfl ?_ h.seen
    rw [recorded, recorded, hread]
    cases l <;> rfl
  | record done rest ev hread =>
    have hrec : s.recorded = s.processed.flatten ++ done := by rw [recorded, hread]; rfl
    have htotal := h.total
    have hcommands := h.commands
    rw [hrec] at htotal hcommands
    refine ⟨?_, ?_, h.seen⟩
    · show s.stores.stats.total + 1 = UInt64.ofNat (s.processed.flatten ++ (done ++ [ev])).length
      rw [← List.append_assoc, List.length_append, htotal, UInt64.ofNat_add]; rfl
    · show s.stores.cmdStats.recordEvent dec up ev = recordAll H dec up (s.processed.flatten ++ (done ++ [ev]))
      rw [← List.append_assoc, recordAll, List.foldl_append, hcommands]; rfl
  | finish done hread =>
    refine h.of_same rfl rfl ?_ fun l seen hrep => absurd hread (hlock.not_recording hrep)
    rw [recorded, recorded, hread]
    simp [ReaderPoint.recorded]
  | readerUnlock l hread =>
    refine h.of_same rfl rfl ?_ h.seen
    rw [recorded, recorded, hread]
    cases l <;> rfl
  | tick hrep => exact h.of_same rfl rfl rfl fun l seen hrep => nomatch hrep
  | reporterLock l hrep =>
    refine h.of_same rfl rfl rfl fun l' seen hrep => ?_
    cases hrep; rfl
  | reportStats seen hrep =>
    exact h.of_same (total_report _) rfl rfl fun l seen hrep => nomatch hrep
  | reportCommand seen rows hrep =>
    exact h.of_same rfl rfl rfl fun l seen hrep => nomatch hrep
  | reportClient seen hrep =>
    exact h.of_same rfl rfl rfl fun l seen hrep => nomatch hrep

/-! ### What is printed -/

structure Logged (dec : RespDecoder) (up : UpperTable) (s : Panels H) : Prop where
  latency : ∀ p ∈ s.latency, p.count = (UInt64.ofNat p.seen.flatten.length).toNat ∧ p.seen <+: s.processed
  command : ∀ p ∈ s.command, (∃ rows, (recordAll H dec up p.seen.flatten).report = some rows ∧
    p.count = rowSum rows) ∧ p.seen <+: s.processed
  length : s.latency.length = s.command.length + s.reporter.pending
  within : ∀ (k : Nat) (p q : Printed), s.latency[k]? = some p → s.command[k]? = some q → p.seen <+: q.seen
  across : ∀ (k : Nat) (p q : Printed), s.command[k]? = some p → s.latency[k + 1]? = some q → p.seen <+: q.seen

theorem Logged.of_same (h : Logged dec up s) (hlat : s'.latency = s.latency) (hcmd : s'.command = s.command)
    (hproc : s.processed <+: s'.processed) (hpend : s'.reporter.pending = s.reporter.pending) :
    Logged dec up s' where
  latency p hp := by
    rw [hlat] at hp
    exact ⟨(h.latency p hp).1, (h.latency p hp).2.trans hproc⟩
  command p hp := by
    rw [hcmd] at hp
    exact ⟨(h.command p hp).1, (h.command p hp).2.trans hproc⟩
  length := by rw [hlat, hcmd, hpend]; exact h.length
  within := by rw [hlat, hcmd]; exact h.within
  across := by rw [hlat, hcmd]; exact h.across

theorem getElem?_concat {α : Type} {as : List α} {a b : α} {k : Nat} (h : (as ++ [a])[k]? = some b) :
    (k < as.length ∧ as[k]? = some b) ∨ (k = as.length ∧ b = a) := by
  rcases Nat.lt_trichotomy k as.length with hlt | rfl | hgt
  · rw [List.getElem?_append_left hlt] at h
    exact .inl ⟨hlt, h⟩
  · rw [List.getElem?_concat_length] at h
    exact .inr ⟨rfl, (Option.some.inj h).symm⟩
  · rw [List.getElem?_eq_none (by simp; omega)] at h; cases h

theorem Logged.reportStats (h : Logged dec up s) (hlen : s.latency.length = s.command.length)
    {p : Printed} (hp : p.count = (UInt64.ofNat p.seen.flatten.length).toNat) (hseen : p.seen = s.processed)
    (hlat : s'.latency = s.latency ++ [p]) (hcmd : s'.command = s.command)
    (hproc : s'.processed = s.processed) (hpend : s'.reporter.pending = 1) : Logged dec up s' where
  latency q hq := by
    rw [hlat, List.mem_append, List.mem_singleton] at hq
    rw [hproc]
    rcases hq with hq | rfl
    · exact h.latency q hq
    · exact ⟨hp, hseen ▸ List.prefix_rfl⟩
  command := by rw [hcmd, hproc]; exact h.command
  length := by rw [hlat, hcmd, hpend, List.length_append, hlen]; rfl
  within k q r hq hr := by
    rw [hlat] at hq
    rw [hcmd] at hr
    have hlt := (List.getElem?_eq_some_iff.1 hr).1
    rcases getElem?_concat hq with ⟨-, hq⟩ | ⟨hk, -⟩
    · exact h.within k q r hq hr
    · omega
  across k q r hq hr := by
    rw [hcmd] at hq
    rw [hlat] at hr
    rcases getElem?_concat hr with ⟨-, hr⟩ | ⟨-, rfl⟩
    · exact h.across k q r hq hr
    · rw [hseen]
      exact (h.command q (List.mem_of_getElem? hq)).2

theorem Logged.reportCommand (h : Logged dec up s) (hlen : s.latency.length = s.command.length + 1)
    {p : Printed} {rows : List (String × UInt64)}
    (hrows : (recordAll H dec up p.seen.flatten).report = some rows) (hp : p.count = rowSum rows)
    (hseen : p.seen = s.processed) (hlat : s'.latency = s.latency) (hcmd : s'.command = s.command ++ [p])
    (hproc : s'.processed = s.processed) (hpend : s'.reporter.pending = 0) : Logged dec up s' where
  latency := by rw [hlat, hproc]; exact h.latency
  command q hq := by
    rw [hcmd, List.mem_append, List.mem_singleton] at hq
    rw [hproc]
    rcases hq with hq | rfl
    · exact h.command q hq
    · exact ⟨⟨rows, hrows, hp⟩, hseen ▸ List.prefix_rfl⟩
  length := by rw [hlat, hcmd, hpend, List.length_append, hlen]; rfl
  within k q r hq hr := by
    rw [hlat] at hq
    rw [hcmd] at hr
    rcases getElem?_concat hr with ⟨-, hr⟩ | ⟨-, rfl⟩
    · exact h.within k q r hq hr
    · rw [hseen]
      exact (h.latency q (List.mem_of_getElem? hq)).2
  across k q r hq hr := by
    rw [hcmd] at hq
    rw [hlat] at hr
    have hlt := (List.getElem?_eq_some_iff.1 hr).1
    rcases getElem?_concat hq with ⟨-, hq⟩ | ⟨hk, -⟩
    · exact h.across k q r hq hr
    · omega

theorem Logged.step (hlock : Locked s) (hcount : Counted dec up s) (h : Logged dec up s)
    (hstep : Step dec up intervalSecs s s') : Logged dec up s' := by
  have hwhole : ∀ {l seen}, s.reporter = .reporting l seen → s.recorded = seen.flatten := by
    intro l seen hrep
    rw [hcount.seen l seen hrep]
    exact recorded_eq rfl fun done rest => hlock.not_recording hrep
  have hlen := h.length
  cases hstep with
  | collect batch hread => exact h.of_same rfl rfl List.prefix_rfl rfl
  | readerLock l batch hread => exact h.of_same rfl rfl List.prefix_rfl rfl
  | record done rest ev hread => exact h.of_same rfl rfl List.prefix_rfl rfl
  | finish done hread => exact h.of_same rfl rfl (List.prefix_append ..) rfl
  | readerUnlock l hread => exact h.of_same rfl rfl List.prefix_rfl rfl
  | tick hrep => exact h.of_same rfl rfl List.prefix_rfl (by rw [hrep]; rfl)
  | reporterLock l hrep =>
    refine h.of_same rfl rfl List.prefix_rfl ?_
    rw [hrep]
    cases l <;> rfl
  | reportStats seen hrep =>
    rw [hrep] at hlen
    refine h.reportStats hlen ?_ (hcount.seen _ _ hrep) rfl rfl rfl rfl
    rw [latencyCount_report, hcount.total, hwhole hrep]
  | reportCommand seen rows hrep hrows =>
    rw [hrep] at hlen
    rw [hcount.commands, hwhole hrep] at hrows
    exact h.reportCommand hlen hrows rfl (hcount.seen _ _ hrep) rfl rfl rfl rfl
  | reportClient seen hrep => exact h.of_same rfl rfl List.prefix_rfl (by rw [hrep]; rfl)

theorem Reachable.inv (h : Reachable dec up intervalSecs s) :
    Locked s ∧ Counted dec up s ∧ Logged dec up s := by
  induction h with
  | refl =>
    refine ⟨⟨fun l => ?_, fun l => ?_⟩, ⟨rfl, rfl, fun l seen hrep => nomatch hrep⟩, ?_⟩
    · simp [init, ReaderPoint.Holds]
    · simp [init, ReporterPoint.Holds]
    · exact ⟨by simp [init], by simp [init], rfl, by simp [init], by simp [init]⟩
  | tail _ hstep ih =>
    obtain ⟨hlock, hcount, hlog⟩ := ih
    exact ⟨hlock.step hstep, hcount.step hlock hstep, hlog.step hlock hcount hstep⟩

/-- `T` is the latency panel of a cycle, `C` its command panel. -/
structure Ordered (s : Panels H) : Prop where
  within : ∀ (k : Nat) (T C : Printed), s.latency[k]? = some T → s.command[k]? = some C →
    T.count ≤ C.count ∧ ∃ between, C.seen = T.seen ++ between ∧
      C.count - T.count = between.flatten.length
  across : ∀ (k : Nat) (C T : Printed), s.command[k]? = some C → s.latency[k + 1]? = some T →
    C.count ≤ T.count

omit [HdrHistogram H] in
theorem flatten_length_le {as bs : List (List LatencyEvent)} (h : as <+: bs) :
    as.flatten.length ≤ bs.flatten.length := by
  obtain ⟨cs, rfl⟩ := h
  rw [List.flatten_append, List.length_append]
  exact Nat.le_add_right ..

theorem Logged.ordered (h : Logged dec up s) (hlt : s.recorded.length < 2 ^ 64) : s.Ordered := by
  have hfit : ∀ {seen}, seen <+: s.processed → seen.flatten.length < 2 ^ 64 := by
    intro seen hseen
    have hle := flatten_length_le hseen
    rw [recorded, List.length_append] at hlt
    omega
  have hlat : ∀ {k : Nat} {p : Printed}, s.latency[k]? = some p → p.count = p.seen.flatten.length := by
    intro k p hp
    obtain ⟨hcount, hseen⟩ := h.latency p (List.mem_of_getElem? hp)
    rw [hcount]
    exact UInt64.toNat_ofNat_of_lt' (hfit hseen)
  have hcmd : ∀ {k : Nat} {p : Printed}, s.command[k]? = some p → p.count = p.seen.flatten.length := by
    intro k p hp
    obtain ⟨⟨rows, hrows, hcount⟩, hseen⟩ := h.command p (List.mem_of_getElem? hp)
    rw [hcount]
    exact rowSum_recordAll hrows (hfit hseen)
  refine ⟨fun k T C hT hC => ?_, fun k C T hC hT => ?_⟩
  · obtain ⟨between, hbetween⟩ := h.within k T C hT hC
    rw [hlat hT, hcmd hC, ← hbetween, List.flatten_append, List.length_append]
    exact ⟨Nat.le_add_right .., between, rfl, Nat.add_sub_cancel_left ..⟩
  · rw [hlat hT, hcmd hC]
    exact flatten_length_le (h.across k C T hC hT)

/-- In a run of fewer than `2 ^ 64` requests the panels count growing sets of whole batches. -/
theorem panels_ordered (H : Type) [HdrHistogram H] (dec : RespDecoder) (up : UpperTable)
    (intervalSecs : UInt64) (s : Panels H) (h : Reachable dec up intervalSecs s)
    (hlt : s.recorded.length < 2 ^ 64) : s.Ordered ∧ ¬ s.MutualWait := by
  obtain ⟨hlock, -, hlog⟩ := h.inv
  exact ⟨hlog.ordered hlt, hlock.no_mutual_wait⟩

/-! ### Runs -/

theorem steps_record (done rest : List LatencyEvent) (hread : s.reader = .recording done rest) :
    Relation.ReflTransGen (Step dec up intervalSecs) s
      { s with stores := rest.foldl (processEvent dec up) s.stores,
               reader := .recording (done ++ rest) [] } := by
  induction rest generalizing s done with
  | nil =>
    rw [List.append_nil, ← hread]; exact .refl
  | cons ev rest ih =>
    have hrest := ih (done ++ [ev]) (s := { s with
      stores := processEvent dec up s.stores ev, reader := .recording (done ++ [ev]) rest }) rfl
    rw [List.append_assoc] at hrest
    exact .head (.record s done rest ev hread) hrest

/-- The reader takes its locks, records a batch and gives them back. -/
theorem steps_batch {batch : List LatencyEvent} (hread : s.reader = .collecting)
    (hfree : ∀ l, s.owner l = none) (hne : batch ≠ []) :
    Relation.ReflTransGen (Step dec up intervalSecs) s
      { s with stores := batch.foldl (processEvent dec up) s.stores,
               processed := s.processed ++ [batch] } := by
  let locked := acquire (acquire (acquire s.owner .stats .reader) .cmdStats .reader) .clientStats .reader
  have hlock : Relation.ReflTransGen (Step dec up intervalSecs) s
      { s with owner := locked, reader := .recording [] batch } := by
    refine (((Relation.ReflTransGen.single (.collect s batch hread hne)).tail
      (.readerLock _ .stats batch rfl (hfree _))).tail
        (.readerLock _ .cmdStats batch rfl ?_)).tail (.readerLock _ .clientStats batch rfl ?_)
    · simp [acquire, hfree]
    · simp [acquire, hfree]
  have hdone := hlock.trans (steps_record [] batch rfl)
  have howner : release (release (release locked .clientStats) .cmdStats) .stats = s.owner := by
    funext l
    cases l <;> simp [locked, acquire, release, hfree]
  have hstate : ({ s with stores := batch.foldl (processEvent dec up) s.stores,
                          processed := s.processed ++ [batch] } : Panels H) =
      { s with stores := batch.foldl (processEvent dec up) s.stores,
               processed := s.processed ++ [batch],
               owner := release (release (release locked .clientStats) .cmdStats) .stats,
               reader := .collecting } := by rw [howner, ← hread]
  rw [hstate]
  exact (((hdone.tail (.finish _ batch rfl)).tail (.readerUnlock _ .clientStats rfl)).tail
    (.readerUnlock _ .cmdStats rfl)).tail (.readerUnlock _ .stats rfl)

theorem steps_batches (batch : List LatencyEvent) (n : Nat) (hread : s.reader = .collecting)
    (hfree : ∀ l, s.owner l = none) (hne : batch ≠ []) :
    ∃ s', Relation.ReflTransGen (Step dec up intervalSecs) s s' ∧ s'.reader = .collecting ∧
      s'.owner = s.owner ∧ s'.reporter = s.reporter ∧ s'.latency = s.latency ∧ s'.command = s.command ∧
      s'.processed = s.processed ++ List.replicate n batch := by
  induction n with
  | zero => exact ⟨s, .refl, hread, rfl, rfl, rfl, rfl, (List.append_nil _).symm⟩
  | succ n ih =>
    obtain ⟨s', hsteps, hread', howner, hrep, hlat, hcmd, hproc⟩ := ih
    refine ⟨_, hsteps.trans (steps_batch hread' (howner ▸ hfree) hne), hread', howner, hrep, hlat, hcmd, ?_⟩
    rw [List.replicate_succ', ← List.append_assoc, ← hproc]

/-- The reporter's first latency panel, before any request. -/
theorem exists_first (H : Type) [HdrHistogram H] (dec : RespDecoder) (up : UpperTable)
    (intervalSecs : UInt64) : ∃ s : Panels H, Reachable dec up intervalSecs s ∧ s.reader = .collecting ∧
    (∀ l, s.owner l = none) ∧ s.reporter = .acquiring .cmdStats ∧ s.latency = [⟨0, []⟩] ∧
    s.command = [] ∧ s.processed = [] := by
  refine ⟨_, ((Relation.ReflTransGen.single (.tick _ rfl)).tail (.reporterLock _ .stats rfl rfl)).tail
    (.reportStats _ [] rfl), rfl, fun l => ?_, rfl, rfl, rfl, rfl⟩
  cases l <;> simp [init, acquire, release]

/-- A cycle with `n` requests, one a batch, between its two panels. -/
theorem exists_cycle (intervalSecs : UInt64) (ev : LatencyEvent) (n : Nat)
    {rows : List (String × UInt64)}
    (hrows : (recordAll H dec up (List.replicate n ev)).report = some rows) :
    ∃ s : Panels H, Reachable dec up intervalSecs s ∧ s.latency = [⟨0, []⟩] ∧
      s.command = [⟨rowSum rows, List.replicate n [ev]⟩] ∧ s.recorded = List.replicate n ev := by
  obtain ⟨s, hreach, hread, hfree, hrep, hlat, hcmd, hproc⟩ :=
    exists_first H dec up intervalSecs
  obtain ⟨s', hsteps, hread', howner, hrep', hlat', hcmd', hproc'⟩ :=
    steps_batches [ev] n hread hfree (by simp)
  have hflat : (List.replicate n [ev]).flatten = List.replicate n ev := by simp
  rw [hproc, List.nil_append] at hproc'
  have hlocked := (hreach.trans hsteps).tail
    (.reporterLock s' .cmdStats (hrep'.trans hrep) (howner ▸ hfree _))
  have hrec : s'.recorded = List.replicate n ev := by
    rw [recorded_eq hread' (by simp), hproc', hflat]
  have hreport : s'.stores.cmdStats.report = some rows := by
    rw [(Reachable.inv (hreach.trans hsteps)).2.1.commands, hrec]; exact hrows
  refine ⟨_, hlocked.tail (.reportCommand _ s'.processed rows rfl hreport), ?_, ?_, ?_⟩
  · exact hlat'.trans hlat
  · show s'.command ++ [_] = _
    rw [hcmd', hcmd, hproc']; rfl
  · exact hrec

def pingEvent : LatencyEvent :=
  ⟨100, 100, 5000, 5, 16777343, 40000, 0, 0, capture (RespFormat.encode [[80, 73, 78, 71]])⟩

theorem panels_ordered_one : ∃ s : Panels CountingHistogram, s.latency = [⟨0, []⟩] ∧
    s.command = [⟨1, [[pingEvent]]⟩] ∧ s.Ordered ∧ ¬ s.MutualWait := by
  have hrows : (recordAll CountingHistogram bulkDecoder asciiUpper (List.replicate 1 pingEvent)).report =
      some [("PING", 1)] := by
    have hone : (recordAll CountingHistogram bulkDecoder asciiUpper (List.replicate 1 pingEvent)).commands.entries.filter
        (fun e => decide (e.2.total > 0)) = [⟨"PING", LatencyStats.recordEvent .new pingEvent⟩] := rfl
    rw [CommandStats.report, hone, List.mergeSort_singleton]; rfl
  obtain ⟨s, hreach, hlat, hcmd, hrec⟩ := exists_cycle 10 pingEvent 1 hrows
  exact ⟨s, hlat, hcmd, panels_ordered CountingHistogram bulkDecoder asciiUpper 10 s hreach
    (by rw [hrec]; simp)⟩

/-- At `2 ^ 64` requests a count is back at zero, and its row is not printed. -/
theorem report_wrapped (ev : LatencyEvent) {n : Nat} (hn : UInt64.ofNat n = 0) :
    (recordAll H dec up (List.replicate n ev)).report = some [] := by
  have hzero : ∀ e ∈ (recordAll H dec up (List.replicate n ev)).commands.entries, e.2.total = 0 := by
    intro e he
    rw [recordAll_eq] at he
    have hlookup := AList.mem_lookup_iff.2 he
    obtain ⟨a, ha, hkey⟩ := exists_lookup_group.1 ⟨e.2, hlookup⟩
    cases List.eq_of_mem_replicate ha
    have hnew : (LatencyStats.new : LatencyStats H).total = 0 := rfl
    rw [eq_of_lookup_group hlookup, LatencyStats.total_foldl, ofKey,
      List.filter_replicate_of_pos (by simpa using hkey), List.length_replicate, hn, hnew]
    rfl
  have hnone : (recordAll H dec up (List.replicate n ev)).commands.entries.filter
      (fun e => decide (e.2.total > 0)) = [] := by
    refine List.filter_eq_nil_iff.2 fun e he => ?_
    rw [hzero e he]; decide
  rw [CommandStats.report, hnone, List.mergeSort_nil]; rfl

theorem not_panels_ordered : ¬ ∀ s : Panels CountingHistogram,
    Reachable bulkDecoder asciiUpper 10 s → s.Ordered := by
  intro hall
  obtain ⟨n, hn, hne⟩ : ∃ n, UInt64.ofNat n = 0 ∧ n ≠ 0 := ⟨2 ^ 64, rfl, by decide⟩
  obtain ⟨s, hreach, hlat, hcmd, -⟩ := exists_cycle 10 pingEvent n
    (report_wrapped (H := CountingHistogram) pingEvent hn)
  obtain ⟨-, between, hseen, hcount⟩ :=
    (hall s hreach).within 0 ⟨0, []⟩ _ (by rw [hlat]; rfl) (by rw [hcmd]; rfl)
  cases hseen
  have hflat : (List.replicate n [pingEvent]).flatten.length = n := by simp
  exact hne (hflat.symm.trans hcount.symm)

end Panels

end RedisTracer
