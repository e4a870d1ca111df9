import RedisTracer.Ledger

/-!
# Report intervals

`LatencyStats::report` prints how much was recorded since the last report. `Tally` is the invariant of
a session of calls: the remembered totals and what came after the last report make up the totals. So
no subtraction saturates, and the deltas of the reports add up to the totals.
-/

namespace RedisTracer

variable {H : Type}

inductive StatsCall
  | record (latencyNs bytes : UInt64)
  | report (intervalSecs : UInt64)

/-- The bytes of each sample recorded, in order. -/
def samples (calls : List StatsCall) : List UInt64 :=
  calls.filterMap fun
    | .record _ bytes => some bytes
    | .report _ => none

def sinceReport (calls : List StatsCall) : List UInt64 :=
  samples <| calls.rtakeWhile fun
    | .record _ _ => true
    | .report _ => false

def byteTotal (bytes : List UInt64) : Nat := (bytes.map UInt64.toNat).sum

/-- A store and the outcome of each report so far. -/
structure Session (H : Type) where
  stats : LatencyStats H
  reports : List (Option (LatencyPanel H))

def Session.call [HdrHistogram H] (s : Session H) : StatsCall → Session H
  | .record latencyNs bytes => { s with stats := s.stats.record latencyNs bytes }
  | .report intervalSecs =>
    let (panel, stats) := s.stats.report intervalSecs
    ⟨stats, s.reports ++ [panel]⟩

def session (H : Type) [HdrHistogram H] (calls : List StatsCall) : Session H :=
  calls.foldl Session.call ⟨.new, []⟩

/-- The samples a report accounts for; one that prints nothing accounts for none. -/
def deltaOf (panel : Option (LatencyPanel H)) : Nat := (panel.map fun p => p.delta.toNat).getD 0

def deltaBytesOf (panel : Option (LatencyPanel H)) : Nat :=
  (panel.map fun p => p.deltaBytes.toNat).getD 0

/-! ### Calls -/

section
variable (calls : List StatsCall) (latencyNs bytes intervalSecs : UInt64)

@[simp] theorem samples_record :
    samples (calls ++ [.record latencyNs bytes]) = samples calls ++ [bytes] := by
  simp [samples, List.filterMap_append]

@[simp] theorem samples_report : samples (calls ++ [.report intervalSecs]) = samples calls := by
  simp [samples, List.filterMap_append]

@[simp] theorem sinceReport_record :
    sinceReport (calls ++ [.record latencyNs bytes]) = sinceReport calls ++ [bytes] := by
  rw [sinceReport, List.rtakeWhile_concat_pos _ _ _ rfl, samples_record]; rfl

@[simp] theorem sinceReport_report : sinceReport (calls ++ [.report intervalSecs]) = [] := by
  rw [sinceReport, List.rtakeWhile_concat_neg _ _ _ (by simp)]; rfl

@[simp] theorem byteTotal_append (xs ys : List UInt64) : byteTotal (xs ++ ys) = byteTotal xs + byteTotal ys := by
  simp [byteTotal]

@[simp] theorem byteTotal_singleton : byteTotal [bytes] = bytes.toNat := by simp [byteTotal]

theorem session_concat [HdrHistogram H] (c : StatsCall) : session H (calls ++ [c]) = (session H calls).call c := by
  rw [session, List.foldl_append]; rfl

end

theorem toNat_add_of_lt {a b : UInt64} (h : a.toNat + b.toNat < 2 ^ 64) :
    (a + b).toNat = a.toNat + b.toNat := by
  rw [UInt64.toNat_add]; exact Nat.mod_eq_of_lt h

theorem saturatingSub_toNat {a b : UInt64} (h : b.toNat ≤ a.toNat) :
    (saturatingSub a b).toNat = a.toNat - b.toNat := by
  have hle : b ≤ a := UInt64.le_iff_toNat_le.2 h
  rw [saturatingSub, if_neg (UInt64.not_lt.2 hle), UInt64.toNat_sub_of_le _ _ hle]

/-! ### The invariant -/

structure Tally (calls : List StatsCall) (s : Session H) : Prop where
  total : s.stats.total.toNat = (samples calls).length
  bytes : s.stats.totalBytes.toNat = byteTotal (samples calls)
  prevTotal : s.stats.prevTotal.toNat + (sinceReport calls).length = (samples calls).length
  prevBytes : s.stats.prevBytes.toNat + byteTotal (sinceReport calls) = byteTotal (samples calls)
  deltas : (s.reports.map deltaOf).sum = s.stats.prevTotal.toNat
  deltaBytes : (s.reports.map deltaBytesOf).sum = s.stats.prevBytes.toNat

namespace Tally

variable {calls : List StatsCall} {s : Session H}

theorem nothing_before (h : Tally calls s) (h0 : s.stats.total = 0) :
    s.stats.prevTotal = s.stats.total ∧ s.stats.prevBytes = s.stats.totalBytes ∧
      sinceReport calls = [] := by
  have hlen : (samples calls).length = 0 := by rw [← h.total, h0]; rfl
  have hnil : samples calls = [] := List.length_eq_zero_iff.1 hlen
  have hbytes := h.bytes
  have hprev := h.prevTotal
  have hprevBytes := h.prevBytes
  rw [hnil] at hbytes hprev hprevBytes
  have hsize : byteTotal [] = 0 := rfl
  rw [hsize] at hbytes hprevBytes
  rw [List.length_nil] at hprev
  refine ⟨UInt64.toNat_inj.1 ?_, UInt64.toNat_inj.1 ?_, List.length_eq_zero_iff.1 (by omega)⟩
  · rw [h.total, hlen]; omega
  · omega

/-- A report accounts for the samples since the last one, and remembers the totals. -/
theorem report (h : Tally calls s) (intervalSecs : UInt64) :
    deltaOf (s.stats.report intervalSecs).1 = (sinceReport calls).length ∧
      deltaBytesOf (s.stats.report intervalSecs).1 = byteTotal (sinceReport calls) ∧
      (s.stats.report intervalSecs).2 =
        { s.stats with prevTotal := s.stats.total, prevBytes := s.stats.totalBytes } := by
  have hprev := h.prevTotal
  have hprevBytes := h.prevBytes
  rw [← h.total] at hprev
  rw [← h.bytes] at hprevBytes
  by_cases h0 : s.stats.total = 0
  · obtain ⟨htotal, hbytes, hnil⟩ := h.nothing_before h0
    have hreport : s.stats.report intervalSecs = (none, s.stats) := if_pos (by simpa using h0)
    rw [hreport, hnil]
    refine ⟨rfl, rfl, ?_⟩
    rw [← htotal, ← hbytes]
  · rw [LatencyStats.report, if_neg (by simpa using h0)]
    refine ⟨?_, ?_, rfl⟩
    · show (saturatingSub s.stats.total s.stats.prevTotal).toNat = _
      rw [saturatingSub_toNat (by omega)]; omega
    · show (saturatingSub s.stats.totalBytes s.stats.prevBytes).toNat = _
      rw [saturatingSub_toNat (by omega)]; omega

theorem call_record [HdrHistogram H] (h : Tally calls s) {latencyNs bytes : UInt64}
    (hcount : (samples calls).length + 1 < 2 ^ 64)
    (hbytes : byteTotal (samples calls) + bytes.toNat < 2 ^ 64) :
    Tally (calls ++ [.record latencyNs bytes]) (s.call (.record latencyNs bytes)) where
  total := by
    rw [samples_record, List.length_append]
    exact toNat_add_one h.total hcount
  bytes := by
    rw [samples_record, byteTotal_append, byteTotal_singleton, ← h.bytes]
    exact toNat_add_of_lt (h.bytes ▸ hbytes)
  prevTotal := by
    rw [samples_record, sinceReport_record, List.length_append, List.length_append, ← Nat.add_assoc]
    exact congrArg (· + 1) h.prevTotal
  prevBytes := by
    rw [samples_record, sinceReport_record, byteTotal_append, byteTotal_append, ← Nat.add_assoc]
    exact congrArg (· + byteTotal [bytes]) h.prevBytes
  deltas := h.deltas
  deltaBytes := h.deltaBytes

theorem call_report [HdrHistogram H] (h : Tally calls s) (intervalSecs : UInt64) :
    Tally (calls ++ [.report intervalSecs]) (s.call (.report intervalSecs)) := by
  obtain ⟨hdelta, hdeltaBytes, hstats⟩ := h.report intervalSecs
  have hcall : s.call (.report intervalSecs) =
      ⟨{ s.stats with prevTotal := s.stats.total, prevBytes := s.stats.totalBytes },
        s.reports ++ [(s.stats.report intervalSecs).1]⟩ := by
    rw [← hstats]; rfl
  have hprev := h.prevTotal
  have hprevBytes := h.prevBytes
  rw [hcall]
  refine ⟨?_, ?_, ?_, ?_, ?_, ?_⟩
  · rw [samples_report]; exact h.total
  · rw [samples_report]; exact h.bytes
  · rw [samples_report, sinceReport_report]; exact h.total
  · rw [samples_report, sinceReport_report]; exact h.bytes
  · rw [List.map_append, List.sum_append, h.deltas, List.map_singleton, List.sum_singleton, hdelta,
      hprev]
    exact h.total.symm
  · rw [List.map_append, List.sum_append, h.deltaBytes, List.map_singleton, List.sum_singleton,
      hdeltaBytes, hprevBytes]
    exact h.bytes.symm

end Tally

theorem session_tally [HdrHistogram H] (calls : List StatsCall) (hcount : (samples calls).length < 2 ^ 64)
    (hbytes : byteTotal (samples calls) < 2 ^ 64) : Tally calls (session H calls) := by
  induction calls using List.reverseRecOn with
  | nil => exact ⟨rfl, rfl, rfl, rfl, rfl, rfl⟩
  | append_singleton calls c ih =>
    rw [session_concat]
    cases c with
    | record latencyNs bytes =>
      rw [samples_record, List.length_append, List.length_singleton] at hcount
      rw [samples_record, byteTotal_append, byteTotal_singleton] at hbytes
      exact (ih (by omega) (by omega)).call_record hcount hbytes
    | report intervalSecs =>
      rw [samples_report] at hcount hbytes
      exact (ih hcount hbytes).call_report intervalSecs

/-- Each report accounts for exactly the samples since the last one, without saturating; the reports
so far account for all samples before the last of them. -/
theorem report_deltas_partition (H : Type) [HdrHistogram H] (calls : List StatsCall)
    (hcount : (samples calls).length < 2 ^ 64) (hbytes : byteTotal (samples calls) < 2 ^ 64)
    (intervalSecs : UInt64) :
    let s := (session H calls).stats
    let after := session H (calls ++ [.report intervalSecs])
    deltaOf (s.report intervalSecs).1 = (sinceReport calls).length ∧
      deltaBytesOf (s.report intervalSecs).1 = byteTotal (sinceReport calls) ∧
      s.prevTotal ≤ s.total ∧ s.prevBytes ≤ s.totalBytes ∧
      (after.reports.map deltaOf).sum = s.total.toNat ∧
      (after.reports.map deltaBytesOf).sum = s.totalBytes.toNat := by
  have h : Tally calls (session H calls) := session_tally calls hcount hbytes
  obtain ⟨hdelta, hdeltaBytes, hstats⟩ := h.report intervalSecs
  have hafter : Tally _ (session H (calls ++ [.report intervalSecs])) :=
    session_concat (H := H) calls _ ▸ h.call_report intervalSecs
  have hprev := h.prevTotal
  have hprevBytes := h.prevBytes
  rw [← h.total] at hprev
  rw [← h.bytes] at hprevBytes
  refine ⟨hdelta, hdeltaBytes, UInt64.le_iff_toNat_le.2 (by omega),
    UInt64.le_iff_toNat_le.2 (by omega), ?_, ?_⟩
  · have htotal := hafter.prevTotal
    rw [sinceReport_report, samples_report, ← h.total] at htotal
    rw [hafter.deltas]; exact htotal
  · have htotal := hafter.prevBytes
    rw [sinceReport_report, samples_report, ← h.bytes] at htotal
    rw [hafter.deltaBytes]; exact htotal

theorem report_deltas_partition_two :
    deltaOf ((session CountingHistogram [.record 5000 5, .report 10, .record 7000 9]).stats.report 10).1 =
      1 :=
  (report_deltas_partition CountingHistogram [.record 5000 5, .report 10, .record 7000 9] (by decide)
    (by decide) 10).1

end RedisTracer
