import RedisTracer.PidPaths
import RedisTracer.Ledger

/-!
# What the settings do

The reader and the reporter (`aya-test/src/reporter.rs`) on the arguments `main` gives them. `main`
resolves the settings by priority, but passes every store to both, attaches the sampler at every
frequency and the reporter at every interval.
-/

namespace RedisTracer

variable {ncpu : Nat} {H : Type} [HdrHistogram H] {dec : RespDecoder} {up : UpperTable}
  {host : Host} {cli : Cli} {file : ConfigFile} {st : Started ncpu}

/-- The stores, and the panels printed so far. -/
structure App (H : Type) where
  stores : Stores H
  latencyPanels : List (LatencyPanel H)
  commandPanels : List (List (String × UInt64))
  clientPanels : List (List (String × UInt64 × UInt64) × UInt64)

inductive AppEvent
  | batch (evs : List LatencyEvent)
  | tick

/-- A turn of the reporter's loop; `none` is a panic, of `tokio::time::interval` or of a panel. -/
def reportCycle (args : ReporterArgs) (app : App H) : Option (App H) :=
  if args.intervalSecs = 0 then none else do
    let (latency, stats) := app.stores.stats.report args.intervalSecs
    let rows ← if args.cmdStats then app.stores.cmdStats.report else some []
    let clients := if args.clientStats then app.stores.clientStats.report else none
    return { stores := { app.stores with stats }
             latencyPanels := app.latencyPanels ++ latency.toList
             commandPanels := if rows.isEmpty then app.commandPanels else app.commandPanels ++ [rows]
             clientPanels := app.clientPanels ++ clients.toList }

def App.step (dec : RespDecoder) (up : UpperTable) (args : ReporterArgs) (app : App H) :
    AppEvent → Option (App H)
  | .batch evs => some { app with stores := processBatch dec up app.stores evs }
  | .tick => reportCycle args app

def App.run (dec : RespDecoder) (up : UpperTable) (args : ReporterArgs) (events : List AppEvent) :
    Option (App H) := events.foldlM (App.step dec up args) ⟨.new, [], [], []⟩

/-- What the program does is what its settings `cfg` say, over all events. -/
structure Honours (H : Type) [HdrHistogram H] (dec : RespDecoder) (up : UpperTable) (cfg : Config)
    (st : Started ncpu) : Prop where
  command : cfg.commandStats = false → ∀ events (app : App H),
    App.run dec up st.reporter events = some app →
      app.stores.cmdStats.commands.entries = [] ∧ app.commandPanels = []
  client : cfg.clientStats = false → ∀ events (app : App H),
    App.run dec up st.reporter events = some app →
      app.stores.clientStats.clients.entries = [] ∧ app.clientPanels = []
  sampling : cfg.frequencyHz = 0 → st.perfEvent = none
  interval : st.reporter.intervalSecs ≠ 0

/-- Settings that change nothing: both panels on, an interval, and a frequency or a kernel that refuses
the perf event. -/
structure Harmless (host : Host) (cfg : Config) : Prop where
  command : cfg.commandStats = true
  client : cfg.clientStats = true
  sampling : cfg.frequencyHz ≠ 0 ∨
    attachPerfEvent host (resolveRedisPid host cfg.pidFile) cfg.frequencyHz = false
  interval : cfg.intervalSecs ≠ 0

/-! ### What `main` starts -/

theorem start_ok (h : start host cli = .ok st) : ∃ cfg,
    Config.load host.readToString host.fromStr cli = .ok cfg ∧
      st.reporter = ⟨true, true, cfg.intervalSecs⟩ ∧
      st.perfEvent = if attachPerfEvent host (resolveRedisPid host cfg.pidFile) cfg.frequencyHz then
        some (resolveRedisPid host cfg.pidFile, cfg.frequencyHz) else none := by
  obtain ⟨p, hp, hstart⟩ := bind_eq_ok.1 h
  obtain ⟨hload, -, hreporter, hpid⟩ := prepare_ok hp
  refine ⟨p.cfg, hload, ?_⟩
  rw [← hpid, ← hreporter]
  split at hstart
  · rename_i hattach
    obtain ⟨-, -, hret⟩ := bind_eq_ok.1 hstart
    cases hret
    exact ⟨rfl, (if_pos hattach).symm⟩
  · rename_i hattach
    cases hstart
    exact ⟨rfl, (if_neg hattach).symm⟩

/-! ### One request -/

def oneRequest : LatencyEvent := ⟨1, 1, 0, 0, 1, 0, 0, 0, Vector.replicate 32 0⟩

theorem run_oneRequest (args : ReporterArgs) :
    App.run dec up args [.batch [oneRequest]] =
      some ⟨processEvent (H := H) dec up .new oneRequest, [], [], []⟩ := rfl

theorem oneRequest_recorded (H : Type) [HdrHistogram H] (dec : RespDecoder) (up : UpperTable) :
    (processEvent (H := H) dec up .new oneRequest).cmdStats.commands.entries ≠ [] ∧
      (processEvent (H := H) dec up .new oneRequest).clientStats.clients.entries ≠ [] := by
  constructor
  · simp [processEvent, CommandStats.record_eq]
  · simp [processEvent, oneRequest, ClientStats.record]

theorem settings_honoured_iff (H : Type) [HdrHistogram H] (dec : RespDecoder) (up : UpperTable)
    (ncpu : Nat) (host : Host) (cli : Cli) (file : ConfigFile)
    (hfile : Config.fileLayer host.readToString host.fromStr cli = some file) :
    Config.load host.readToString host.fromStr cli = .ok (Config.resolved cli file) ∧
      ∀ st : Started ncpu, start host cli = .ok st →
        (Honours H dec up (Config.resolved cli file) st ↔ Harmless host (Config.resolved cli file)) := by
  have hload := (Config.load_eq host.readToString host.fromStr cli _).2 ⟨file, hfile, rfl⟩
  refine ⟨hload, fun st hst => ?_⟩
  obtain ⟨cfg, hcfg, hreporter, hperf⟩ := start_ok hst
  cases hload.symm.trans hcfg
  generalize Config.resolved cli file = cfg at *
  obtain ⟨hcommands, hclients⟩ := oneRequest_recorded H dec up
  constructor
  · intro h
    refine ⟨?_, ?_, ?_, ?_⟩
    · by_contra hoff
      have hnone := h.command (by simpa using hoff) _ _ (run_oneRequest st.reporter)
      exact hcommands hnone.1
    · by_contra hoff
      have hnone := h.client (by simpa using hoff) _ _ (run_oneRequest st.reporter)
      exact hclients hnone.1
    · by_cases h0 : cfg.frequencyHz = 0
      · have hnone := h.sampling h0
        rw [hperf] at hnone
        refine .inr (Bool.eq_false_iff.2 fun hattach => ?_)
        rw [if_pos hattach] at hnone; cases hnone
      · exact .inl h0
    · have hinterval := h.interval
      rwa [hreporter] at hinterval
  · intro h
    refine ⟨fun hoff => ?_, fun hoff => ?_, fun h0 => ?_, ?_⟩
    · rw [h.command] at hoff; cases hoff
    · rw [h.client] at hoff; cases hoff
    · rw [hperf, h.sampling.resolve_left (not_not_intro h0)]; rfl
    · rw [hreporter]; exact h.interval

/-- `--no-command-stats` -/
def quietCli : Cli := ⟨none, none, none, none, none, true, false, none⟩

def quietStarted : Started 1 where
  maps := enableFlamegraph (.init 1 4242)
  reporter := ⟨true, true, 10⟩
  perfEvent := some (77, 99)

theorem start_quiet : start staleHost quietCli = .ok quietStarted := rfl

theorem settings_honoured_iff_quiet :
    Honours CountingHistogram bulkDecoder asciiUpper
        (Config.resolved quietCli ⟨none, none, none, none, none⟩) quietStarted ↔
      Harmless staleHost (Config.resolved quietCli ⟨none, none, none, none, none⟩) :=
  (settings_honoured_iff CountingHistogram bulkDecoder asciiUpper 1 staleHost quietCli
    ⟨none, none, none, none, none⟩ rfl).2 quietStarted start_quiet

theorem not_settings_honoured : ¬ ∀ (host : Host) (cli : Cli) (file : ConfigFile),
    Config.fileLayer host.readToString host.fromStr cli = some file → ∀ st : Started 1,
      start host cli = .ok st →
        Honours CountingHistogram bulkDecoder asciiUpper (Config.resolved cli file) st := by
  intro hall
  have h := hall staleHost quietCli ⟨none, none, none, none, none⟩ rfl quietStarted start_quiet
  have hnone := h.command rfl _ _ (run_oneRequest quietStarted.reporter)
  exact (oneRequest_recorded CountingHistogram bulkDecoder asciiUpper).1 hnone.1

end RedisTracer
