import RedisTracer.Monitor
import RedisTracer.Intervals

/-!
# The windows of the monitor

`ProcessMonitor::report` sets the ticks since its last panel against the time since then. A reading that
fails prints nothing and leaves both to the next panel, so the windows follow on one another.
-/

namespace RedisTracer

open Utf8

/-- The time of the last reading, in nanoseconds, and its ticks. -/
structure ProcessMonitor where
  prev : Option (Nat × UInt64)

/-- `window` holds the nanoseconds and the ticks of the CPU share. -/
structure MonitorPanel where
  window : Option (Nat × UInt64)
  rss : UInt64
  vsize : UInt64
  threads : Int64
deriving DecidableEq

def MonitorPanel.elapsed (p : MonitorPanel) : Nat := (p.window.map Prod.fst).getD 0

def MonitorPanel.ticks (p : MonitorPanel) : Nat := (p.window.map fun w => w.2.toNat).getD 0

namespace ProcessMonitor

def new : ProcessMonitor := ⟨none⟩

def report (m : ProcessMonitor) (pageSz : UInt64) (now : Nat) (raw : Option String) :
    Except Panic (Option MonitorPanel × ProcessMonitor) := do
  match ← readStat raw pageSz with
  | none => return (none, m)
  | some (utime, stime, threads, vsize, rss) =>
    let ticks := utime + stime
    let window := m.prev.map fun prev => (now - prev.1, saturatingSub ticks prev.2)
    return (some { window, rss, vsize, threads }, ⟨some (now, ticks)⟩)

/-- The panels of the calls that print one. -/
def reports (pageSz : UInt64) (m : ProcessMonitor) :
    List (Nat × Option String) → Except Panic (List MonitorPanel × ProcessMonitor)
  | [] => return ([], m)
  | (now, raw) :: calls => do
    let (panel, m') ← m.report pageSz now raw
    let (panels, m'') ← m'.reports pageSz calls
    return (panel.toList ++ panels, m'')

end ProcessMonitor

/-- A call, with the line it finds. -/
structure Reading where
  now : Nat
  line : Option StatLine

def Reading.call (r : Reading) : Nat × Option String := (r.now, r.line.map fun line => String.ofList line.text)

/-- The readings that do not fail. -/
def shown (readings : List Reading) : List (Nat × StatFields) :=
  readings.filterMap fun r => r.line.map fun line => (r.now, line.fields)

def StatFields.ticks (s : StatFields) : Nat := s.utime.toNat + s.stime.toNat

/-- Time and ticks go forward. -/
structure Advancing (rs : List (Nat × StatFields)) : Prop where
  order : rs.Pairwise fun r r' => r.1 ≤ r'.1 ∧ r.2.ticks ≤ r'.2.ticks
  ticks_lt : ∀ r ∈ rs, r.2.ticks < 2 ^ 64

/-- The fields of a panel that are read as they are. -/
def Shows (pageSz : UInt64) (r : Nat × StatFields) (p : MonitorPanel) : Prop :=
  p.threads = r.2.threads ∧ p.vsize = r.2.vsize ∧ p.rss = r.2.rssPg.toUInt64 * pageSz

variable {pageSz : UInt64} {line : StatLine} {m : ProcessMonitor} {readings : List Reading}
  {rs : List (Nat × StatFields)} {r r' : Nat × StatFields} {prev : Option (Nat × UInt64)} {i j : Nat}

/-! ### One call -/

def lastOf (r : Nat × StatFields) : Nat × UInt64 := (r.1, r.2.utime + r.2.stime)

def panelOf (pageSz : UInt64) (prev : Option (Nat × UInt64)) (r : Nat × StatFields) : MonitorPanel where
  window := prev.map fun prev => (r.1 - prev.1, saturatingSub (r.2.utime + r.2.stime) prev.2)
  rss := r.2.rssPg.toUInt64 * pageSz
  vsize := r.2.vsize
  threads := r.2.threads

theorem parseStat_of_readsRight (h : line.ReadsRight) : parseStat line.text = .ok (some line.fields) := by
  obtain ⟨k, hk, hnums⟩ := h
  rcases parseStat_text line with ⟨hshift, -⟩ | ⟨k', ws, hshift, hlen, hle, hparse⟩
  · rw [hshift] at hk
    cases hk
  · rw [hshift] at hk
    cases hk
    rw [hparse, (statFields_iff hlen hle).2 hnums]

theorem report_line (m : ProcessMonitor) (pageSz : UInt64) (h : line.ReadsRight) (now : Nat) :
    m.report pageSz now (some (String.ofList line.text)) =
      .ok (some (panelOf pageSz m.prev (now, line.fields)), ⟨some (lastOf (now, line.fields))⟩) := by
  have hread : readStat (some (String.ofList line.text)) pageSz = .ok (some (line.fields.utime, line.fields.stime,
      line.fields.threads, line.fields.vsize, line.fields.rssPg.toUInt64 * pageSz)) := by
    unfold readStat
    dsimp only
    rw [String.toList_ofList, parseStat_of_readsRight h]
    rfl
  unfold ProcessMonitor.report
  rw [hread]
  rfl

/-! ### All calls -/

def panelsOf (pageSz : UInt64) : Option (Nat × UInt64) → List (Nat × StatFields) → List MonitorPanel
  | _, [] => []
  | prev, r :: rs => panelOf pageSz prev r :: panelsOf pageSz (some (lastOf r)) rs

theorem reports_eq (m : ProcessMonitor) (pageSz : UInt64) (hright : ∀ r ∈ readings, ∀ line ∈ r.line, line.ReadsRight) :
    ∃ m', m.reports pageSz (readings.map Reading.call) = .ok (panelsOf pageSz m.prev (shown readings), m') := by
  induction readings generalizing m with
  | nil => exact ⟨m, rfl⟩
  | cons r rs ih =>
    have ih := fun m => ih m fun r' hr' => hright r' (List.mem_cons_of_mem _ hr')
    obtain ⟨now, line⟩ := r
    cases line with
    | none =>
      obtain ⟨m', hrun⟩ := ih m
      refine ⟨m', ?_⟩
      show (do
        let (panels, m'') ← m.reports pageSz (rs.map Reading.call)
        return (panels, m'')) = _
      rw [hrun]
      rfl
    | some line =>
      have hline := report_line m pageSz (hright _ List.mem_cons_self line rfl) now
      obtain ⟨m', hrun⟩ := ih ⟨some (lastOf (now, line.fields))⟩
      refine ⟨m', ?_⟩
      show (do
        let (panel, m') ← m.report pageSz now (some (String.ofList line.text))
        let (panels, m'') ← m'.reports pageSz (rs.map Reading.call)
        return (panel.toList ++ panels, m'')) = _
      rw [hline]
      show (do
        let (panels, m'') ← (ProcessMonitor.mk (some (lastOf (now, line.fields)))).reports pageSz (rs.map Reading.call)
        return ([_] ++ panels, m'')) = _
      rw [hrun]
      rfl

theorem shows_panelsOf (pageSz : UInt64) (prev : Option (Nat × UInt64)) (rs : List (Nat × StatFields)) :
    List.Forall₂ (Shows pageSz) rs (panelsOf pageSz prev rs) := by
  induction rs generalizing prev with
  | nil => exact .nil
  | cons r rs ih => exact .cons ⟨rfl, rfl, rfl⟩ (ih _)

/-- A panel after the first covers the time since the one before it. -/
theorem getElem?_panelsOf (hr : rs[i]? = some r) (hr' : rs[i + 1]? = some r') :
    (panelsOf pageSz prev rs)[i + 1]? = some (panelOf pageSz (some (lastOf r)) r') := by
  induction rs generalizing prev i with
  | nil => cases hr
  | cons r₀ rs ih =>
    rw [panelsOf, List.getElem?_cons_succ]
    rw [List.getElem?_cons_succ] at hr'
    cases i with
    | zero =>
      cases hr
      cases rs with
      | nil => cases hr'
      | cons r₁ rs =>
        cases hr'
        rfl
    | succ i => exact ih (List.getElem?_cons_succ ▸ hr) hr'

/-! ### The windows -/

theorem window_panelOf (pageSz : UInt64) (h : r.1 ≤ r'.1 ∧ r.2.ticks ≤ r'.2.ticks) (hlt : r.2.ticks < 2 ^ 64)
    (hlt' : r'.2.ticks < 2 ^ 64) :
    r.1 + (panelOf pageSz (some (lastOf r)) r').elapsed = r'.1 ∧
      r.2.ticks + (panelOf pageSz (some (lastOf r)) r').ticks = r'.2.ticks := by
  constructor
  · exact Nat.add_sub_cancel' h.1
  · have hr : (r.2.utime + r.2.stime).toNat = r.2.ticks := toNat_add_of_lt hlt
    have hr' : (r'.2.utime + r'.2.stime).toNat = r'.2.ticks := toNat_add_of_lt hlt'
    show _ + (saturatingSub (r'.2.utime + r'.2.stime) (r.2.utime + r.2.stime)).toNat = _
    rw [saturatingSub_toNat (by rw [hr, hr']; exact h.2), hr, hr']
    exact Nat.add_sub_cancel' h.2

/-- The panels from the one after `i` to `j`. -/
def between (panels : List MonitorPanel) (i j : Nat) : List MonitorPanel := (panels.take (j + 1)).drop (i + 1)

theorem between_succ {panels : List MonitorPanel} {p : MonitorPanel} (hp : panels[j + 1]? = some p) (hij : i ≤ j) :
    between panels i (j + 1) = between panels i j ++ [p] := by
  obtain ⟨hlt, -⟩ := List.getElem?_eq_some_iff.1 hp
  rw [between, between, List.take_add_one, hp, List.drop_append_of_le_length (by rw [List.length_take]; omega)]
  rfl

theorem telescope (hadv : Advancing rs) (hr : rs[i]? = some r) (hr' : rs[j]? = some r') (hij : i ≤ j) :
    r.1 + ((between (panelsOf pageSz prev rs) i j).map MonitorPanel.elapsed).sum = r'.1 ∧
      r.2.ticks + ((between (panelsOf pageSz prev rs) i j).map MonitorPanel.ticks).sum = r'.2.ticks := by
  induction j, hij using Nat.le_induction generalizing r' with
  | base =>
    cases hr.symm.trans hr'
    have hnil : between (panelsOf pageSz prev rs) i i = [] :=
      List.drop_eq_nil_of_le (List.length_take_le _ _)
    rw [hnil]
    exact ⟨rfl, rfl⟩
  | succ j hij ih =>
    obtain ⟨hlt, hval⟩ := List.getElem?_eq_some_iff.1 hr'
    have hj : rs[j]? = some rs[j] := List.getElem?_eq_getElem (Nat.lt_of_succ_lt hlt)
    obtain ⟨hnow, hticks⟩ := ih hj
    have horder := List.pairwise_iff_getElem.1 hadv.order j (j + 1) (Nat.lt_of_succ_lt hlt) hlt (Nat.lt_succ_self j)
    rw [hval] at horder
    obtain ⟨hnow', hticks'⟩ := window_panelOf pageSz horder (hadv.ticks_lt _ (List.getElem_mem _))
      (hadv.ticks_lt r' (List.mem_of_getElem? hr'))
    rw [between_succ (getElem?_panelsOf hj hr') hij, List.map_append, List.sum_append, List.map_append,
      List.sum_append]
    simp only [List.map_singleton, List.sum_singleton]
    omega

/-- The windows of the panels between two readings add up to the time and the ticks between them. -/
theorem monitor_windows (pageSz : UInt64) (readings : List Reading)
    (hright : ∀ r ∈ readings, ∀ line ∈ r.line, line.ReadsRight) (hadv : Advancing (shown readings)) :
    ∃ panels m', ProcessMonitor.new.reports pageSz (readings.map Reading.call) = .ok (panels, m') ∧
      List.Forall₂ (Shows pageSz) (shown readings) panels ∧
      ∀ i j r r', i ≤ j → (shown readings)[i]? = some r → (shown readings)[j]? = some r' →
        r.1 + ((between panels i j).map MonitorPanel.elapsed).sum = r'.1 ∧
          r.2.ticks + ((between panels i j).map MonitorPanel.ticks).sum = r'.2.ticks := by
  obtain ⟨m', hrun⟩ := reports_eq .new pageSz hright
  exact ⟨_, m', hrun, shows_panelsOf pageSz none _, fun i j r r' hij hr hr' => telescope hadv hr hr' hij⟩

theorem statLine_readsRight {comm : List Char} (h : byteLen comm ≤ 15) (hparen : ')' ∉ comm) :
    (statLine comm h).ReadsRight := by
  refine ⟨0, ?_, rfl, rfl, rfl, rfl, rfl⟩
  have hnil : (statLine comm h).comm.dropWhile (· ≠ ')') = [] := by
    refine List.dropWhile_eq_nil_iff.2 fun c hc => decide_eq_true ?_
    rintro rfl
    exact hparen hc
  rw [StatLine.shift, hnil]
  rfl

/-- Two readings with one between them that fails. -/
def threeReadings : List Reading :=
  [⟨10, some (statLine ['a'] (by decide))⟩, ⟨20, none⟩, ⟨30, some (statLine ['a'] (by decide))⟩]

theorem monitor_windows_three : ∃ panels m',
    ProcessMonitor.new.reports 4096 (threeReadings.map Reading.call) = .ok (panels, m') ∧
      10 + ((between panels 0 1).map MonitorPanel.elapsed).sum = 30 := by
  have hright : ∀ r ∈ threeReadings, ∀ line ∈ r.line, line.ReadsRight := by
    intro r hr line hline
    have hread : (statLine ['a'] (by decide)).ReadsRight := statLine_readsRight _ (by decide)
    simp only [threeReadings, List.mem_cons, List.not_mem_nil, or_false] at hr
    rcases hr with rfl | rfl | rfl
    · cases hline
      exact hread
    · cases hline
    · cases hline
      exact hread
  have hadv : Advancing (shown threeReadings) := ⟨List.pairwise_pair.2 (by decide), by decide⟩
  obtain ⟨panels, m', hrun, -, hsum⟩ := monitor_windows 4096 threeReadings hright hadv
  exact ⟨panels, m', hrun, (hsum 0 1 _ _ (by decide) rfl rfl).1⟩

end RedisTracer
