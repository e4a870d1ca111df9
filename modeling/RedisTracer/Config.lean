import Mathlib

/-!
# Configuration

`aya-test/src/config.rs`: the TOML file over the defaults, the command line over both. The TOML parser
(`toml::from_str`) and the file system are parameters. `load_eq` says what every setting resolves to.
-/

namespace RedisTracer

structure RedisSection where
  pidFile : Option String

structure SamplingSection where
  frequencyHz : Option UInt64

structure ReportSection where
  intervalSecs : Option UInt64
  commandStats : Option Bool
  clientStats : Option Bool

structure FlamegraphSection where
  output : Option String

structure OutputSection where
  file : Option String

structure ConfigFile where
  redis : Option RedisSection
  sampling : Option SamplingSection
  report : Option ReportSection
  flamegraph : Option FlamegraphSection
  output : Option OutputSection

structure Config where
  pidFile : String
  frequencyHz : UInt64
  intervalSecs : UInt64
  flamegraphOutput : String
  outputFile : Option String
  commandStats : Bool
  clientStats : Bool
deriving DecidableEq, Repr

structure Cli where
  pidFile : Option String
  frequency : Option UInt64
  interval : Option UInt64
  flamegraphOutput : Option String
  output : Option String
  noCommandStats : Bool
  noClientStats : Bool
  config : Option String

inductive StartError
  | readConfig
  | parseConfig
  | openOutput
  | loadEbpf
  | logDrain
  | parsePid
  | attachProbes
  | latencyRing
  | stackRing
deriving DecidableEq, Repr

namespace Config

def default : Config where
  pidFile := "/var/run/redis/redis.pid"
  frequencyHz := 99
  intervalSecs := 10
  flamegraphOutput := "/tmp/redis_flamegraph.svg"
  outputFile := none
  commandStats := true
  clientStats := true

/-- `if let Some(v) = v { cfg.field = v }` -/
def overlay {α : Type} (cfg : Config) (v : Option α) (set : Config → α → Config) : Config :=
  match v with
  | some v => set cfg v
  | none => cfg

def overlayFile (cfg : Config) (file : ConfigFile) : Config :=
  let cfg := cfg.overlay (file.redis.bind (·.pidFile)) fun cfg v => { cfg with pidFile := v }
  let cfg := cfg.overlay (file.sampling.bind (·.frequencyHz)) fun cfg v => { cfg with frequencyHz := v }
  let cfg := cfg.overlay (file.report.bind (·.intervalSecs)) fun cfg v => { cfg with intervalSecs := v }
  let cfg := cfg.overlay (file.report.bind (·.commandStats)) fun cfg v => { cfg with commandStats := v }
  let cfg := cfg.overlay (file.report.bind (·.clientStats)) fun cfg v => { cfg with clientStats := v }
  let cfg := cfg.overlay (file.flamegraph.bind (·.output)) fun cfg v => { cfg with flamegraphOutput := v }
  cfg.overlay (file.output.bind (·.file)) fun cfg v => { cfg with outputFile := some v }

def overlayCli (cfg : Config) (cli : Cli) : Config :=
  let cfg := cfg.overlay cli.pidFile fun cfg v => { cfg with pidFile := v }
  let cfg := cfg.overlay cli.frequency fun cfg v => { cfg with frequencyHz := v }
  let cfg := cfg.overlay cli.interval fun cfg v => { cfg with intervalSecs := v }
  let cfg := cfg.overlay cli.flamegraphOutput fun cfg v => { cfg with flamegraphOutput := v }
  let cfg := cfg.overlay cli.output fun cfg v => { cfg with outputFile := some v }
  let cfg := if cli.noCommandStats then { cfg with commandStats := false } else cfg
  if cli.noClientStats then { cfg with clientStats := false } else cfg

def load (readToString : String → Option String) (fromStr : String → Option ConfigFile) (cli : Cli) :
    Except StartError Config :=
  match cli.config with
  | some path =>
    match readToString path with
    | some content =>
      match fromStr content with
      | some file => .ok ((default.overlayFile file).overlayCli cli)
      | none => .error .parseConfig
    | none => .error .readConfig
  | none => .ok (default.overlayCli cli)

/-- The file given with `--config`; without one, a file that sets nothing. -/
def fileLayer (readToString : String → Option String) (fromStr : String → Option ConfigFile)
    (cli : Cli) : Option ConfigFile :=
  match cli.config with
  | some path => (readToString path).bind fromStr
  | none => some ⟨none, none, none, none, none⟩

/-- Every setting by priority: the command line, the file, the default. A panel is off when the file
or the command line says so. -/
def resolved (cli : Cli) (file : ConfigFile) : Config where
  pidFile := (cli.pidFile.or (file.redis.bind (·.pidFile))).getD "/var/run/redis/redis.pid"
  frequencyHz := (cli.frequency.or (file.sampling.bind (·.frequencyHz))).getD 99
  intervalSecs := (cli.interval.or (file.report.bind (·.intervalSecs))).getD 10
  flamegraphOutput :=
    (cli.flamegraphOutput.or (file.flamegraph.bind (·.output))).getD "/tmp/redis_flamegraph.svg"
  outputFile := cli.output.or (file.output.bind (·.file))
  commandStats := !cli.noCommandStats && file.report.bind (·.commandStats) != some false
  clientStats := !cli.noClientStats && file.report.bind (·.clientStats) != some false

theorem overlayFile_eq (cfg : Config) (file : ConfigFile) : cfg.overlayFile file =
    { pidFile := (file.redis.bind (·.pidFile)).getD cfg.pidFile
      frequencyHz := (file.sampling.bind (·.frequencyHz)).getD cfg.frequencyHz
      intervalSecs := (file.report.bind (·.intervalSecs)).getD cfg.intervalSecs
      flamegraphOutput := (file.flamegraph.bind (·.output)).getD cfg.flamegraphOutput
      outputFile := (file.output.bind (·.file)).or cfg.outputFile
      commandStats := (file.report.bind (·.commandStats)).getD cfg.commandStats
      clientStats := (file.report.bind (·.clientStats)).getD cfg.clientStats } := by
  simp only [overlayFile]
  generalize file.redis.bind (·.pidFile) = pidFile
  generalize file.sampling.bind (·.frequencyHz) = frequencyHz
  generalize file.report.bind (·.intervalSecs) = intervalSecs
  generalize file.report.bind (·.commandStats) = commandStats
  generalize file.report.bind (·.clientStats) = clientStats
  generalize file.flamegraph.bind (·.output) = flamegraphOutput
  generalize file.output.bind (·.file) = outputFile
  cases pidFile <;> cases frequencyHz <;> cases intervalSecs <;> cases commandStats <;>
    cases clientStats <;> cases flamegraphOutput <;> cases outputFile <;> rfl

theorem overlayCli_eq (cfg : Config) (cli : Cli) : cfg.overlayCli cli =
    { pidFile := cli.pidFile.getD cfg.pidFile
      frequencyHz := cli.frequency.getD cfg.frequencyHz
      intervalSecs := cli.interval.getD cfg.intervalSecs
      flamegraphOutput := cli.flamegraphOutput.getD cfg.flamegraphOutput
      outputFile := cli.output.or cfg.outputFile
      commandStats := !cli.noCommandStats && cfg.commandStats
      clientStats := !cli.noClientStats && cfg.clientStats } := by
  obtain ⟨pidFile, frequency, interval, flamegraphOutput, output, noCommandStats, noClientStats, _⟩ := cli
  cases pidFile <;> cases frequency <;> cases interval <;> cases flamegraphOutput <;> cases output <;>
    cases noCommandStats <;> cases noClientStats <;> rfl

theorem layers_eq (cli : Cli) (file : ConfigFile) :
    (default.overlayFile file).overlayCli cli = resolved cli file := by
  have hflag : ∀ o : Option Bool, o.getD true = (o != some false) := by
    rintro (_ | _ | _) <;> rfl
  rw [overlayFile_eq, overlayCli_eq, resolved]
  simp only [default, Option.getD_or, Option.or_none, hflag]

theorem load_eq (readToString : String → Option String) (fromStr : String → Option ConfigFile)
    (cli : Cli) (cfg : Config) : load readToString fromStr cli = .ok cfg ↔
      ∃ file, fileLayer readToString fromStr cli = some file ∧ cfg = resolved cli file := by
  unfold load fileLayer
  cases cli.config with
  | none =>
    have hempty : default.overlayFile ⟨none, none, none, none, none⟩ = default := by
      simp only [overlayFile, Option.bind_none, overlay]
    rw [← hempty, layers_eq]
    simp [eq_comm]
  | some path =>
    cases hread : readToString path with
    | none => simp [hread]
    | some content =>
      cases hfile : fromStr content with
      | none => simp [hread, hfile]
      | some file => simp [hread, hfile, layers_eq, eq_comm]

end Config

end RedisTracer
