import RedisTracer.Report
import RedisTracer.Lib.Locks

/-!
# The panels of a cycle

The reader (`aya-test/src/reader.rs`) takes the locks of the three stores, records a whole batch and
gives them back; the reporter (`aya-test/src/reporter.rs`) takes one lock at a time. `Locked` is the
invariant of the locks.
-/

namespace RedisTracer

open Locks

inductive Lock
  | stats
  | cmdStats
  | clientStats
deriving DecidableEq

/-- The order in which the reader takes the locks. -/
def Lock.rank : Lock → Nat
  | stats => 0
  | cmdStats => 1
  | clientStats => 2

inductive Party
  | reader
  | reporter
deriving DecidableEq

/-- Where the reader is: `acquiring l` waits for `l`, `releasing l` is about to give it back. -/
inductive ReaderPoint
  | collecting
  | acquiring (l : Lock) (batch : List LatencyEvent)
  | recording (done rest : List LatencyEvent)
  | releasing (l : Lock)

/-- Where the reporter is; `reporting l seen` took `l` when the batches `seen` were recorded. -/
inductive ReporterPoint
  | sleeping
  | acquiring (l : Lock)
  | reporting (l : Lock) (seen : List (List LatencyEvent))

namespace ReaderPoint

def locked (l : Lock) (batch : List LatencyEvent) : ReaderPoint :=
  match l with
  | .stats => acquiring .cmdStats batch
  | .cmdStats => acquiring .clientStats batch
  | .clientStats => recording [] batch

/-- The guards are dropped in the reverse order. -/
def unlocked : Lock → ReaderPoint
  | .clientStats => releasing .cmdStats
  | .cmdStats => releasing .stats
  | .stats => collecting

def Holds : ReaderPoint → Lock → Prop
  | collecting, _ => False
  | acquiring l _, k => k.rank < l.rank
  | recording _ _, _ => True
  | releasing l, k => k.rank ≤ l.rank

/-- The events of the batch recorded so far. -/
def recorded : ReaderPoint → List LatencyEvent
  | recording done _ => done
  | _ => []

end ReaderPoint

def ReporterPoint.Holds : ReporterPoint → Lock → Prop
  | reporting l _, k => k = l
  | _, _ => False

/-- By how many the latency panels printed exceed the command panels. -/
def ReporterPoint.pending : ReporterPoint → Nat
  | acquiring .cmdStats => 1
  | reporting .cmdStats _ => 1
  | _ => 0

/-- A panel as it was printed: its count, and the batches recorded when its lock was taken. -/
structure Printed where
  count : Nat
  seen : List (List LatencyEvent)

structure Panels (H : Type) where
  stores : Stores H
  owner : Lock → Option Party
  reader : ReaderPoint
  reporter : ReporterPoint
  processed : List (List LatencyEvent)
  latency : List Printed
  command : List Printed

/-- The count in the latency panel, `0` when none is printed. -/
def latencyCount {H : Type} (panel : Option (LatencyPanel H)) : Nat :=
  (panel.map fun p => p.req.toNat).getD 0

def rowSum (rows : List (String × UInt64)) : Nat := (rows.map fun r => r.2.toNat).sum

namespace Panels

variable {H : Type} [HdrHistogram H]

def init : Panels H where
  stores := .new
  owner _ := none
  reader := .collecting
  reporter := .sleeping
  processed := []
  latency := []
  command := []

/-- A step of the reader or of the reporter. A command panel that panics ends the program. -/
inductive Step (dec : RespDecoder) (up : UpperTable) (intervalSecs : UInt64) :
    Panels H → Panels H → Prop
  | collect (s : Panels H) (batch : List LatencyEvent) : s.reader = .collecting → batch ≠ [] →
      Step dec up intervalSecs s { s with reader := .acquiring .stats batch }
  | readerLock (s : Panels H) (l : Lock) (batch : List LatencyEvent) :
      s.reader = .acquiring l batch → s.owner l = none →
      Step dec up intervalSecs s
        { s with owner := acquire s.owner l .reader, reader := .locked l batch }
  | record (s : Panels H) (done rest : List LatencyEvent) (ev : LatencyEvent) :
      s.reader = .recording done (ev :: rest) →
      Step dec up intervalSecs s
        { s with stores := processEvent dec up s.stores ev, reader := .recording (done ++ [ev]) rest }
  | finish (s : Panels H) (done : List LatencyEvent) : s.reader = .recording done [] →
      Step dec up intervalSecs s
        { s with reader := .releasing .clientStats, processed := s.processed ++ [done] }
  | readerUnlock (s : Panels H) (l : Lock) : s.reader = .releasing l →
      Step dec up intervalSecs s { s with owner := release s.owner l, reader := .unlocked l }
  | tick (s : Panels H) : s.reporter = .sleeping →
      Step dec up intervalSecs s { s with reporter := .acquiring .stats }
  | reporterLock (s : Panels H) (l : Lock) : s.reporter = .acquiring l → s.owner l = none →
      Step dec up intervalSecs s
        { s with owner := acquire s.owner l .reporter, reporter := .reporting l s.processed }
  | reportStats (s : Panels H) (seen : List (List LatencyEvent)) :
      s.reporter = .reporting .stats seen →
      Step dec up intervalSecs s
        { s with
          stores := { s.stores with stats := (s.stores.stats.report intervalSecs).2 }
          owner := release s.owner .stats
          reporter := .acquiring .cmdStats
          latency := s.latency ++ [⟨latencyCount (s.stores.stats.report intervalSecs).1, seen⟩] }
  | reportCommand (s : Panels H) (seen : List (List LatencyEvent)) (rows : List (String × UInt64)) :
      s.reporter = .reporting .cmdStats seen → s.stores.cmdStats.report = some rows →
      Step dec up intervalSecs s
        { s with
          owner := release s.owner .cmdStats
          reporter := .acquiring .clientStats
          command := s.command ++ [⟨rowSum rows, seen⟩] }
  | reportClient (s : Panels H) (seen : List (List LatencyEvent)) :
      s.reporter = .reporting .clientStats seen →
      Step dec up intervalSecs s
        { s with owner := release s.owner .clientStats, reporter := .sleeping }

def Reachable (dec : RespDecoder) (up : UpperTable) (intervalSecs : UInt64) : Panels H → Prop :=
  Relation.ReflTransGen (Step dec up intervalSecs) init

/-- The events recorded so far. -/
def recorded (s : Panels H) : List LatencyEvent := s.processed.flatten ++ s.reader.recorded

/-- Each of the two waits for a lock the other holds. -/
def MutualWait (s : Panels H) : Prop :=
  ∃ l l' batch, s.reader = .acquiring l batch ∧ s.owner l = some .reporter ∧
    s.reporter = .acquiring l' ∧ s.owner l' = some .reader

variable {dec : RespDecoder} {up : UpperTable} {intervalSecs : UInt64} {s s' : Panels H}

/-! ### Locks -/

structure Locked (s : Panels H) : Prop where
  reader : Tracks s.owner .reader s.reader.Holds
  reporter : Tracks s.owner .reporter s.reporter.Holds

theorem holds_locked {l k : Lock} {batch : List LatencyEvent} :
    (ReaderPoint.locked l batch).Holds k ↔ k = l ∨ (ReaderPoint.acquiring l batch).Holds k := by
  cases l <;> cases k <;> simp [ReaderPoint.locked, ReaderPoint.Holds, Lock.rank]

theorem holds_unlocked {l k : Lock} :
    (ReaderPoint.unlocked l).Holds k ↔ k ≠ l ∧ (ReaderPoint.releasing l).Holds k := by
  cases l <;> cases k <;> simp [ReaderPoint.unlocked, ReaderPoint.Holds, Lock.rank]

omit [HdrHistogram H] in
/-- The reporter gives its lock back. -/
theorem Locked.report (h : Locked s) {l : Lock} {seen : List (List LatencyEvent)}
    (hrep : s.reporter = .reporting l seen) :
    Tracks (release s.owner l) .reader s.reader.Holds ∧
      Tracks (release s.owner l) .reporter fun _ => False := by
  have howner : s.owner l = some .reporter := by
    rw [h.reporter l, hrep]; rfl
  refine ⟨h.reader.release_other howner (by simp), h.reporter.release fun k => ?_⟩
  rw [hrep]
  exact ⟨False.elim, fun hk => hk.1 hk.2⟩

theorem Locked.step (h : Locked s) (hstep : Step dec up intervalSecs s s') : Locked s' := by
  cases hstep with
  | collect batch hread =>
    refine ⟨fun k => ?_, h.reporter⟩
    rw [h.reader k, hread]
    exact ⟨False.elim, fun hk => absurd hk (Nat.not_lt_zero _)⟩
  | readerLock l batch hread hfree =>
    refine ⟨h.reader.acquire fun k => ?_, h.reporter.acquire_other hfree (by simp)⟩
    rw [hread]; exact holds_locked
  | record done rest ev hread =>
    refine ⟨fun k => ?_, h.reporter⟩
    rw [h.reader k, hread]; rfl
  | finish done hread =>
    refine ⟨fun k => ?_, h.reporter⟩
    rw [h.reader k, hread]
    cases k <;> simp [ReaderPoint.Holds, Lock.rank]
  | readerUnlock l hread =>
    have howner : s.owner l = some .reader := by
      rw [h.reader l, hread]; exact Nat.le_refl _
    refine ⟨h.reader.release fun k => ?_, h.reporter.release_other howner (by simp)⟩
    rw [hread]; exact holds_unlocked
  | tick hrep =>
    refine ⟨h.reader, fun k => ?_⟩
    rw [h.reporter k, hrep]; rfl
  | reporterLock l hrep hfree =>
    refine ⟨h.reader.acquire_other hfree (by simp), h.reporter.acquire fun k => ?_⟩
    rw [hrep]; exact (or_false _).symm.to_iff
  | reportStats seen hrep => exact ⟨(h.report hrep).1, (h.report hrep).2⟩
  | reportCommand seen rows hrep => exact ⟨(h.report hrep).1, (h.report hrep).2⟩
  | reportClient seen hrep => exact ⟨(h.report hrep).1, (h.report hrep).2⟩

omit [HdrHistogram H] in
/-- While the reporter has a lock the reader is not in its loop over the batch. -/
theorem Locked.not_recording (h : Locked s) {l : Lock} {seen : List (List LatencyEvent)}
    (hrep : s.reporter = .reporting l seen) {done rest : List LatencyEvent} :
    s.reader ≠ .recording done rest := by
  intro hread
  have hreader : s.reader.Holds l := by rw [hread]; trivial
  refine h.reader.exclusive h.reporter (by simp) hreader ?_
  rw [hrep]; rfl

omit [HdrHistogram H] in
theorem Locked.no_mutual_wait (h : Locked s) : ¬ MutualWait s := by
  rintro ⟨l, l', batch, -, howner, hrep, -⟩
  rw [h.reporter l, hrep] at howner
  exact howner

end Panels

end RedisTracer
