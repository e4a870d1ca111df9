import RedisTracer.Startup
import RedisTracer.Target

/-!
# The two process ids

The filter takes the number in the PID file as it is; the sampler takes it when `/proc` has the
process, else the first server that `/proc` lists, else `0`. They are one process (`OneProcess`) exactly
in the cases of `PathsAgree`.
-/

namespace RedisTracer

variable {ncpu : Nat} {host : Host} {pidFile : String} {e : ProcEntry} {n pid : UInt32}
  {m : Maps ncpu}

/-- The process sampled is not the tracer itself (`0` for perf), the filter accepts it, and with the
flame graph on none of its stacks is dropped. -/
structure OneProcess (p : Prepared ncpu) : Prop where
  redisPid : p.redisPid ≠ 0
  accepted : isTargetPid p.maps p.redisPid = true
  sampled : ∀ s : SampleCtx ncpu, s.tgid = p.redisPid → s.HasStack →
    (tryCpuSample s (enableFlamegraph p.maps)).2.isSome = true

def pidInFile (host : Host) (pidFile : String) : Option UInt32 :=
  (host.readToString pidFile).bind fun s => parseU32 (trim s)

def IsServer (e : ProcEntry) (pid : UInt32) : Prop :=
  (∃ comm, e.comm = some comm ∧ (trim comm = "valkey-server" ∨ trim comm = "redis-server")) ∧
    e.fileName.bind parseU32 = some pid ∧ 1 < pid

/-- The first server that `/proc` lists is `pid`. -/
def FirstServer (host : Host) (pid : UInt32) : Prop :=
  ∃ pre e post, (host.readProc.getD []).reduceOption = pre ++ e :: post ∧ IsServer e pid ∧
    ∀ e' ∈ pre, ∀ pid', ¬ IsServer e' pid'

/-- The file names a live process; or it is missing, or says `0`, and `/proc` lists a server; or the
first server listed is the one in the file. -/
def PathsAgree (host : Host) (pidFile : String) : Prop :=
  (∃ n, pidInFile host pidFile = some n ∧ 1 < n ∧ host.metadata s!"/proc/{n}" = true) ∨
    ∃ pid, FirstServer host pid ∧ (host.readToString pidFile = none ∨
      ∃ n, pidInFile host pidFile = some n ∧ (n = 0 ∨ n = pid))

/-! ### The scan of `/proc` -/

theorem serverPid_eq_some : serverPid e = some pid ↔ IsServer e pid := by
  unfold serverPid IsServer
  cases hcomm : e.comm with
  | none => simp
  | some comm =>
    by_cases hname : trim comm = "valkey-server" ∨ trim comm = "redis-server"
    · simp [hname]
    · simp [hname]

theorem serverPid_eq_none : serverPid e = none ↔ ∀ pid, ¬ IsServer e pid := by
  simp only [← serverPid_eq_some, Option.eq_none_iff_forall_ne_some, Ne]

theorem findSome?_serverPid :
    (host.readProc.getD []).reduceOption.findSome? serverPid = some pid ↔ FirstServer host pid := by
  simp only [List.findSome?_eq_some_iff, FirstServer, serverPid_eq_some, serverPid_eq_none]

theorem ne_zero_of_one_lt (h : 1 < n) : n ≠ 0 := by
  rintro rfl
  exact absurd h (by decide)

theorem FirstServer.ne_zero (h : FirstServer host pid) : pid ≠ 0 := by
  obtain ⟨_, _, _, -, hserver, -⟩ := h
  exact ne_zero_of_one_lt hserver.2.2

/-- Without a live process in the file, what is resolved is the first server listed. -/
theorem resolveRedisPid_of_none (h : pidFromFile host pidFile = none) (hpid : pid ≠ 0) :
    resolveRedisPid host pidFile = pid ↔ FirstServer host pid := by
  rw [resolveRedisPid, h, ← findSome?_serverPid]
  cases (host.readProc.getD []).reduceOption.findSome? serverPid with
  | none => simpa [eq_comm] using hpid
  | some q => simp

theorem pidFromFile_eq_some : pidFromFile host pidFile = some n ↔
    pidInFile host pidFile = some n ∧ 1 < n ∧ host.metadata s!"/proc/{n}" = true := by
  simp [pidFromFile, pidInFile, Option.filter_eq_some_iff]

theorem pidFromFile_eq_none : pidFromFile host pidFile = none ↔
    ∀ n, pidInFile host pidFile = some n → ¬ (1 < n ∧ host.metadata s!"/proc/{n}" = true) := by
  simp only [Option.eq_none_iff_forall_ne_some, Ne, pidFromFile_eq_some, not_and]

/-! ### The filter -/

theorem pinTargetPid_ok (h : pinTargetPid host (.init ncpu 0) pidFile = .ok m) :
    (host.readToString pidFile = none ∧ m = .init ncpu 0) ∨
      ∃ n, pidInFile host pidFile = some n ∧ m = .init ncpu n := by
  unfold pinTargetPid pidInFile at *
  cases hread : host.readToString pidFile with
  | none =>
    rw [hread] at h
    cases h
    exact .inl ⟨rfl, rfl⟩
  | some s =>
    rw [hread] at h
    dsimp only at h
    split at h
    · cases h
    · rename_i n hn
      cases h
      refine .inr ⟨n, hn, ?_⟩
      rw [set_slot]; rfl

theorem isTargetPid_init (target pid : UInt32) :
    isTargetPid (.init ncpu target) pid = accepts target pid := isTargetPid_eq rfl pid

theorem flamegraphEnabled_init (target : UInt32) :
    flamegraphEnabled (enableFlamegraph (.init ncpu target)) = true := by
  have hroom : (BoundedMap.empty : BoundedMap UInt32 UInt32 1).HasRoom 0 := .inr Nat.one_pos
  show (((BoundedMap.empty.insert 0 1).get (0 : UInt32)).map (· != 0)).getD false = true
  rw [BoundedMap.get_insert_self hroom]; rfl

/-- A stack passes the sampler of a started tracer when the filter accepts its process. -/
theorem tryCpuSample_started (target : UInt32) {s : SampleCtx ncpu} (hs : s.HasStack) :
    (tryCpuSample s (enableFlamegraph (.init ncpu target))).2.isSome ↔ accepts target s.tgid = true := by
  have htarget : (enableFlamegraph (.init ncpu target)).targetPid = #v[target] := rfl
  rw [tryCpuSample_isSome htarget, flamegraphEnabled_init]
  exact ⟨fun h => h.1, fun h => ⟨h, rfl, hs⟩⟩

theorem accepts_iff {target : UInt32} : accepts target pid = true ↔ target = 0 ∨ pid = target := by
  by_cases h0 : target = 0
  · simp [h0, accepts_zero]
  · simp [h0, accepts_of_ne_zero]

/-- Without a live process in the file, what matters is the first server listed. -/
theorem accepts_scanned {target : UInt32} (h : pidFromFile host pidFile = none) :
    (resolveRedisPid host pidFile ≠ 0 ∧ accepts target (resolveRedisPid host pidFile) = true) ↔
      ∃ pid, FirstServer host pid ∧ accepts target pid = true := by
  constructor
  · rintro ⟨hne, hacc⟩
    exact ⟨_, (resolveRedisPid_of_none h hne).1 rfl, hacc⟩
  · rintro ⟨pid, hfirst, hacc⟩
    rw [(resolveRedisPid_of_none h hfirst.ne_zero).2 hfirst]
    exact ⟨hfirst.ne_zero, hacc⟩

theorem oneProcess_iff {p : Prepared ncpu} {target : UInt32} (hm : p.maps = .init ncpu target) :
    OneProcess p ↔ p.redisPid ≠ 0 ∧ accepts target p.redisPid = true := by
  constructor
  · intro h
    have hacc := h.accepted
    rw [hm, isTargetPid_init] at hacc
    exact ⟨h.redisPid, hacc⟩
  · rintro ⟨hne, hacc⟩
    refine ⟨hne, by rw [hm, isTargetPid_init]; exact hacc, fun s hpid hs => ?_⟩
    rw [hm]
    exact (tryCpuSample_started target hs).2 (hpid ▸ hacc)

theorem pid_paths_iff (host : Host) (cli : Cli) (p : Prepared ncpu) (h : prepare host cli = .ok p) :
    OneProcess p ↔ PathsAgree host p.cfg.pidFile := by
  obtain ⟨-, hpin, -, hpid⟩ := prepare_ok h
  rcases pinTargetPid_ok hpin with ⟨hmissing, hm⟩ | ⟨n, hn, hm⟩
  · -- no file: everything is accepted
    have hnone : pidInFile host p.cfg.pidFile = none := by rw [pidInFile, hmissing]; rfl
    have hscan : pidFromFile host p.cfg.pidFile = none := by
      refine pidFromFile_eq_none.2 fun n hn => ?_
      rw [hnone] at hn; cases hn
    rw [oneProcess_iff hm, hpid, accepts_scanned hscan]
    constructor
    · rintro ⟨pid, hfirst, -⟩
      exact .inr ⟨pid, hfirst, .inl hmissing⟩
    · rintro (⟨n, hn, -⟩ | ⟨pid, hfirst, -⟩)
      · rw [hnone] at hn; cases hn
      · exact ⟨pid, hfirst, accepts_zero pid⟩
  · rw [oneProcess_iff hm, hpid]
    by_cases hlive : 1 < n ∧ host.metadata s!"/proc/{n}" = true
    · -- a live number: both take it
      have hne : n ≠ 0 := ne_zero_of_one_lt hlive.1
      rw [resolveRedisPid, pidFromFile_eq_some.2 ⟨hn, hlive⟩]
      exact iff_of_true ⟨hne, accepts_iff.2 (.inr rfl)⟩ (.inl ⟨n, hn, hlive⟩)
    · have hscan : pidFromFile host p.cfg.pidFile = none := by
        refine pidFromFile_eq_none.2 fun n' hn' => ?_
        cases hn.symm.trans hn'
        exact hlive
      rw [accepts_scanned hscan]
      constructor
      · rintro ⟨pid, hfirst, hacc⟩
        exact .inr ⟨pid, hfirst, .inr ⟨n, hn, (accepts_iff.1 hacc).imp_right Eq.symm⟩⟩
      · rintro (⟨n', hn', hlive'⟩ | ⟨pid, hfirst, hfile⟩)
        · cases hn.symm.trans hn'
          exact absurd hlive' hlive
        · refine ⟨pid, hfirst, accepts_iff.2 ?_⟩
          rcases hfile with hmissing | ⟨n', hn', hpid⟩
          · rw [pidInFile, hmissing] at hn; cases hn
          · cases hn.symm.trans hn'
            exact hpid.imp_right Eq.symm

/-- The PID file says `4242`, which is gone; `/proc` lists a server `77`. -/
def staleHost : Host where
  readToString _ := some "4242"
  fromStr _ := none
  metadata path := path = "/proc/77"
  readProc := some [some ⟨some "77", some "redis-server"⟩]
  openAppend _ := true
  loadEbpf := true
  logDrain := true
  attachProbes := true
  latencyRing := true
  loadSampler := true
  perfEventOpen _ _ := true
  stackRing := true

def bareCli : Cli := ⟨none, none, none, none, none, false, false, none⟩

def stalePrepared : Prepared 1 where
  cfg := .default
  maps := .init 1 4242
  reporter := ⟨true, true, 10⟩
  redisPid := 77

theorem prepare_stale : prepare staleHost bareCli = .ok stalePrepared := rfl

theorem pid_paths_iff_stale : OneProcess stalePrepared ↔ PathsAgree staleHost stalePrepared.cfg.pidFile :=
  pid_paths_iff staleHost bareCli stalePrepared prepare_stale

theorem not_pid_paths : ¬ ∀ (host : Host) (cli : Cli) (p : Prepared 1), prepare host cli = .ok p →
    OneProcess p := by
  intro hall
  have hacc := (hall staleHost bareCli stalePrepared prepare_stale).accepted
  cases hacc

end RedisTracer
