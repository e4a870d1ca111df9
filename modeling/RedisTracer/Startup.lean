import RedisTracer.ProbeRuns
import RedisTracer.Config
import RedisTracer.Lib.Ascii

/-!
# Startup

`main` of `aya-test/src/main.rs` up to its wait for Ctrl-C, with `bootstrap.rs` and `probes.rs`. What
the kernel, the file system and the crates answer is a `Host`. The process is looked up twice, by
`pin_target_pid` for the filter and by `resolve_redis_pid` for the sampler.
-/

namespace RedisTracer

open Ascii

/-! ### Numbers in files -/

/-- The characters with the Unicode property `White_Space`. -/
def isWhitespace (c : Char) : Bool :=
  (9 ≤ c.toNat && c.toNat ≤ 13) || (0x2000 ≤ c.toNat && c.toNat ≤ 0x200A) ||
    [0x20, 0x85, 0xA0, 0x1680, 0x2028, 0x2029, 0x202F, 0x205F, 0x3000].contains c.toNat

theorem isWhitespace_of_isAlphanum {c : Char} (h : c.isAlphanum = true) : isWhitespace c = false := by
  have hrange : 48 ≤ c.toNat ∧ c.toNat ≤ 122 := by
    simp only [Char.isAlphanum, Char.isAlpha, Char.isUpper, Char.isLower, Char.isDigit, Bool.or_eq_true,
      Bool.and_eq_true, decide_eq_true_eq, ge_iff_le, UInt32.le_iff_toNat_le, UInt32.reduceToNat,
      Char.reduceVal] at h
    rw [Char.toNat]
    omega
  simp [isWhitespace]
  omega

def trim (s : String) : String :=
  String.ofList ((s.toList.dropWhile isWhitespace).rdropWhile isWhitespace)

/-- `str::parse::<u32>` -/
def parseU32 (s : String) : Option UInt32 :=
  let ds := match bytes s with
    | 43 :: ds => ds
    | ds => ds
  if ds ≠ [] ∧ ds.all isDigit ∧ value ds < 2 ^ 32 then some (UInt32.ofNat (value ds)) else none

/-! ### The machine -/

/-- An entry of `/proc`: its name when that is UTF-8, and its `comm` file when it can be read. -/
structure ProcEntry where
  fileName : Option String
  comm : Option String

structure Host where
  readToString : String → Option String
  fromStr : String → Option ConfigFile
  /-- `fs::metadata(path).is_ok()` -/
  metadata : String → Bool
  /-- `fs::read_dir("/proc")`; an entry that cannot be read is `none`. -/
  readProc : Option (List (Option ProcEntry))
  openAppend : String → Bool
  loadEbpf : Bool
  logDrain : Bool
  attachProbes : Bool
  latencyRing : Bool
  loadSampler : Bool
  /-- The answer to a perf event for a process at a frequency. -/
  perfEventOpen : UInt32 → UInt64 → Bool
  stackRing : Bool

variable {ncpu : Nat}

/-! ### `bootstrap.rs` -/

def pinTargetPid (host : Host) (m : Maps ncpu) (pidFile : String) : Except StartError (Maps ncpu) :=
  match host.readToString pidFile with
  | none => .ok m
  | some pidStr =>
    match parseU32 (trim pidStr) with
    | none => .error .parsePid
    | some pid => .ok { m with targetPid := m.targetPid.set 0 pid Nat.one_pos }

/-! ### `probes.rs` -/

def attachPerfEvent (host : Host) (targetPid : UInt32) (frequencyHz : UInt64) : Bool :=
  host.loadSampler && host.perfEventOpen targetPid frequencyHz

/-- The insertion's own error is dropped. -/
def enableFlamegraph (m : Maps ncpu) : Maps ncpu := { m with flamegraphOn := m.flamegraphOn.insert 0 1 }

/-! ### `main.rs` -/

def pidFromFile (host : Host) (pidFile : String) : Option UInt32 :=
  ((host.readToString pidFile).bind fun s => parseU32 (trim s)).filter fun pid =>
    pid > 1 && host.metadata s!"/proc/{pid}"

/-- The pid of an entry, when it is a server's. -/
def serverPid (e : ProcEntry) : Option UInt32 :=
  match e.comm with
  | some comm =>
    if trim comm = "valkey-server" ∨ trim comm = "redis-server" then
      (e.fileName.bind parseU32).filter (· > 1)
    else none
  | none => none

def resolveRedisPid (host : Host) (pidFile : String) : UInt32 :=
  match pidFromFile host pidFile with
  | some pid => pid
  | none => ((host.readProc.getD []).reduceOption.findSome? serverPid).getD 0

/-- The arguments of `spawn_reporter` besides the store of the totals; `true` for `Some`. -/
structure ReporterArgs where
  cmdStats : Bool
  clientStats : Bool
  intervalSecs : UInt64

/-- The state of `main` at its call of `attach_perf_event`. -/
structure Prepared (ncpu : Nat) where
  cfg : Config
  maps : Maps ncpu
  reporter : ReporterArgs
  redisPid : UInt32

def require (ok : Bool) (e : StartError) : Except StartError Unit := if ok then .ok () else .error e

def prepare (host : Host) (cli : Cli) : Except StartError (Prepared ncpu) := do
  let cfg ← Config.load host.readToString host.fromStr cli
  require (cfg.outputFile.all host.openAppend) .openOutput
  require host.loadEbpf .loadEbpf
  require host.logDrain .logDrain
  let maps ← pinTargetPid host (.init ncpu 0) cfg.pidFile
  require host.attachProbes .attachProbes
  require host.latencyRing .latencyRing
  return { cfg, maps, reporter := ⟨true, true, cfg.intervalSecs⟩,
           redisPid := resolveRedisPid host cfg.pidFile }

/-- What runs while `main` waits; `perfEvent` is the process and frequency sampled. -/
structure Started (ncpu : Nat) where
  maps : Maps ncpu
  reporter : ReporterArgs
  perfEvent : Option (UInt32 × UInt64)

def start (host : Host) (cli : Cli) : Except StartError (Started ncpu) := do
  let p ← prepare host cli
  if attachPerfEvent host p.redisPid p.cfg.frequencyHz then
    require host.stackRing .stackRing
    return ⟨enableFlamegraph p.maps, p.reporter, some (p.redisPid, p.cfg.frequencyHz)⟩
  else return ⟨p.maps, p.reporter, none⟩

/-! ### Preparation -/

theorem bind_eq_ok {α β : Type} {x : Except StartError α} {f : α → Except StartError β} {b : β} :
    (x >>= f) = .ok b ↔ ∃ a, x = .ok a ∧ f a = .ok b := by
  cases x with
  | error e => exact ⟨fun h => (nomatch h), fun ⟨_, h, _⟩ => (nomatch h)⟩
  | ok a => exact ⟨fun h => ⟨a, rfl, h⟩, fun ⟨_, h, hf⟩ => Except.ok.inj h ▸ hf⟩

/-- What `main` has done when it comes to `attach_perf_event`. -/
theorem prepare_ok {host : Host} {cli : Cli} {p : Prepared ncpu} (h : prepare host cli = .ok p) :
    Config.load host.readToString host.fromStr cli = .ok p.cfg ∧
      pinTargetPid host (.init ncpu 0) p.cfg.pidFile = .ok p.maps ∧
      p.reporter = ⟨true, true, p.cfg.intervalSecs⟩ ∧ p.redisPid = resolveRedisPid host p.cfg.pidFile := by
  simp only [prepare, bind_eq_ok] at h
  obtain ⟨cfg, hload, -, -, -, -, -, -, maps, hpin, -, -, -, -, hret⟩ := h
  cases hret
  exact ⟨hload, hpin, rfl, rfl⟩

end RedisTracer
