import RedisTracer.Symbolizer
import RedisTracer.Lib.Memo

/-!
# Folding counts each sample once

The symbolizer's cache holds what the files hold (`Fresh`), so a frame has the same name whenever it is
resolved (`resolve_answers`). The folded map then groups the samples by their line and does not depend
on their order.
-/

namespace RedisTracer

open GroupFold Memo

variable {env : Machine} {pid : UInt32} {samples : List StackEvent} {ev : StackEvent}
  {mappings : List MemMapping}

/-! ### Names without the cache -/

/-- `resolve` when the symbols are read from the file each time. -/
def resolveFresh (env : Machine) (mappings : List MemMapping) (ip : UInt64) : String :=
  match lookupMapping env.search mappings ip with
  | none => s!"0x{hex ip}"
  | some (fileOff, path) => symbolStep env.search (readSyms env (components path)) fileOff path

/-- The cache holds what the files hold. -/
def Fresh (env : Machine) (cache : SymbolCache) : Prop :=
  ∀ path syms, cache.lookup path = some syms → syms = readSyms env path

/-- The frames pushed for a sample. -/
def resolvedFrames (env : Machine) (pid : UInt32) (ev : StackEvent) : List String :=
  (kernelIps ev).reverse.map (resolveKernel env.search (loadKallsyms env)) ++
    (userIps ev).reverse.map (resolveFresh env (parseMaps env pid))

def samplePid (samples : List StackEvent) : UInt32 := (samples.head?.map StackEvent.pid).getD 0

/-- The map that `generate_flamegraph_svg` serialises; without samples it returns before there is one. -/
def generateFolded (env : Machine) (samples : List StackEvent) : Folded :=
  (foldSamples (.new env (samplePid samples)) samples ∅).1

/-- A nonzero address within the clamped lengths. -/
def Sampled (ev : StackEvent) : Prop :=
  (∃ ip ∈ ev.kstackIps.toList.take (frameCount ev.kstackLen), ip ≠ 0) ∨
    ∃ ip ∈ ev.ustackIps.toList.take (frameCount ev.ustackLen), ip ≠ 0

instance (ev : StackEvent) : Decidable (Sampled ev) := inferInstanceAs (Decidable (_ ∨ _))

def lineOf (env : Machine) (pid : UInt32) (ev : StackEvent) : String :=
  ";".intercalate (resolvedFrames env pid ev)

/-- `&[StackEvent]`; a slice takes at most `isize::MAX` bytes. -/
structure Samples where
  events : List StackEvent
  length_lt : events.length < 2 ^ 63

structure Conserves (env : Machine) (samples : List StackEvent) (folded : Folded) : Prop where
  total : (folded.entries.map fun e => e.2.toNat).sum = (samples.filter fun ev => Sampled ev).length
  count : ∀ key, ((folded.lookup key).getD 0).toNat =
    (samples.filter fun ev => Sampled ev ∧ lineOf env (samplePid samples) ev = key).length

theorem Fresh.empty (env : Machine) : Fresh env ∅ := by
  intro path syms h
  rw [AList.lookup_empty] at h
  cases h

theorem Fresh.insert {cache : SymbolCache} (h : Fresh env cache) (path : List Component) :
    Fresh env (cache.insert path (readSyms env path)) := by
  intro path' syms hlookup
  by_cases hpath : path' = path
  · subst hpath
    rw [AList.lookup_insert] at hlookup
    exact (Option.some.inj hlookup).symm
  · rw [AList.lookup_insert_ne hpath] at hlookup
    exact h path' syms hlookup

theorem loadSyms_answers (env : Machine) (path : String) :
    Answers (Fresh env) (loadSyms env path) (readSyms env (components path)) := by
  intro cache hfresh
  show ((if components path ∈ cache then cache else cache.insert _ _).lookup _).getD [] = _ ∧
    Fresh env (if components path ∈ cache then cache else cache.insert _ _)
  split
  · rename_i hmem
    obtain ⟨syms, hsyms⟩ := Option.isSome_iff_exists.1 (AList.lookup_isSome.2 hmem)
    rw [hsyms]
    exact ⟨hfresh _ _ hsyms, hfresh⟩
  · rw [AList.lookup_insert]
    exact ⟨rfl, hfresh.insert _⟩

theorem resolve_answers (env : Machine) (mappings : List MemMapping) (ip : UInt64) :
    Answers (Fresh env) (resolve env mappings ip) (resolveFresh env mappings ip) := by
  unfold resolve resolveFresh
  cases lookupMapping env.search mappings ip with
  | none => exact .pure _ _
  | some found => exact (loadSyms_answers env _).bind (.pure _ _)

theorem pushFrames_answers {I : SymbolCache → Prop} {resolve : UInt64 → StateM SymbolCache String}
    {name : UInt64 → String} (h : ∀ ip, Answers I (resolve ip) (name ip)) (ips : List UInt64) :
    Answers I (pushFrames resolve ips) ((ips.filter (· ≠ 0)).reverse.map name) := by
  rw [pushFrames, List.filter_reverse]
  exact .mapM h

theorem frames_answers (env : Machine) (pid : UInt32) (ev : StackEvent) :
    Answers (Fresh env) (frames (.new env pid) ev) (resolvedFrames env pid ev) := by
  have hkernel := pushFrames_answers (I := Fresh env)
    (fun ip => .pure _ (resolveKernel env.search (loadKallsyms env) ip))
    (ev.kstackIps.toList.take (frameCount ev.kstackLen))
  have huser := pushFrames_answers (resolve_answers env (parseMaps env pid))
    (ev.ustackIps.toList.take (frameCount ev.ustackLen))
  exact hkernel.bind (huser.bind (.pure _ _))

/-! ### The fold -/

/-- The frame lists that get a line. -/
def frameLists (env : Machine) (samples : List StackEvent) : List (List String) :=
  (samples.map (resolvedFrames env (samplePid samples))).filter fun frames => !frames.isEmpty

def countFrames (folded : Folded) (frames : List String) : Folded :=
  upsert 0 (fun n _ => n + 1) (fun fs => ";".intercalate fs) folded frames

/-- One turn of the loop, without the cache. -/
def foldFresh (env : Machine) (pid : UInt32) (folded : Folded) (ev : StackEvent) : Folded :=
  if (resolvedFrames env pid ev).isEmpty then folded else countFrames folded (resolvedFrames env pid ev)

theorem foldSample_answers (env : Machine) (pid : UInt32) (folded : Folded) (ev : StackEvent) :
    Answers (Fresh env) (foldSample (.new env pid) folded ev) (foldFresh env pid folded ev) := by
  unfold foldFresh
  refine (frames_answers env pid ev).bind ?_
  split
  · exact .pure _ _
  · exact .pure _ _

theorem foldl_foldFresh (env : Machine) (pid : UInt32) (folded : Folded) (samples : List StackEvent) :
    samples.foldl (foldFresh env pid) folded =
      ((samples.map (resolvedFrames env pid)).filter fun frames => !frames.isEmpty).foldl countFrames folded := by
  induction samples generalizing folded with
  | nil => rfl
  | cons ev evs ih =>
    rw [List.foldl_cons, ih, List.map_cons, List.filter_cons, foldFresh]
    cases (resolvedFrames env pid ev).isEmpty <;> rfl

theorem generateFolded_eq (env : Machine) (samples : List StackEvent) : generateFolded env samples =
    group 0 (fun n _ => n + 1) (fun fs => ";".intercalate fs) (frameLists env samples) := by
  have hrun : Answers (Fresh env) (foldSamples (.new env (samplePid samples)) samples)
      (samples.foldl (foldFresh env (samplePid samples)) ∅) :=
    .foldlM (foldSample_answers env (samplePid samples)) ∅
  rw [generateFolded, (hrun ∅ (Fresh.empty env)).1, foldl_foldFresh]
  rfl

/-! ### What is counted -/

theorem sampled_iff (env : Machine) (pid : UInt32) : Sampled ev ↔ resolvedFrames env pid ev ≠ [] := by
  simp [Sampled, resolvedFrames, kernelIps, userIps, List.filter_eq_nil_iff, or_iff_not_imp_left]

theorem not_isEmpty (env : Machine) (pid : UInt32) (ev : StackEvent) :
    (!(resolvedFrames env pid ev).isEmpty) = decide (Sampled ev) := by
  rw [Bool.eq_iff_iff, decide_eq_true_iff, sampled_iff env pid]
  simp

theorem length_frameLists (env : Machine) (samples : List StackEvent) :
    (frameLists env samples).length = (samples.filter fun ev => Sampled ev).length := by
  rw [frameLists, List.filter_map, List.length_map]
  congr 1
  exact List.filter_congr fun ev _ => not_isEmpty env _ ev

theorem length_ofKey_frameLists (env : Machine) (samples : List StackEvent) (key : String) :
    (ofKey (fun fs => ";".intercalate fs) key (frameLists env samples)).length =
      (samples.filter fun ev => Sampled ev ∧ lineOf env (samplePid samples) ev = key).length := by
  rw [frameLists, ofKey, List.filter_filter, List.filter_map, List.length_map]
  congr 1
  refine List.filter_congr fun ev _ => ?_
  rw [Function.comp_apply, not_isEmpty, Bool.decide_and, Bool.and_comm]
  rfl

theorem toNat_count {n : Nat} (h : n < 2 ^ 63) {l : List (List String)} (hl : l.length ≤ n) :
    (l.foldl (fun n _ => n + 1) (0 : UInt64)).toNat = l.length := by
  have hcount : l.foldl (fun n _ => n + 1) (0 : UInt64) = 0 + UInt64.ofNat (l.map fun _ => 1).sum :=
    counter_foldl id (fun _ => 1) (fun _ _ => rfl) 0 l
  rw [List.map_const', List.sum_replicate, smul_eq_mul, Nat.mul_one, UInt64.zero_add] at hcount
  rw [hcount]
  exact UInt64.toNat_ofNat_of_lt' (by rw [UInt64.size]; omega)

theorem length_ofKey_le (env : Machine) (samples : List StackEvent) (key : String) :
    (ofKey (fun fs => ";".intercalate fs) key (frameLists env samples)).length ≤ samples.length := by
  rw [length_ofKey_frameLists]
  exact List.length_filter_le _ _

theorem toNat_lookup (env : Machine) (samples : Samples) {key : String} {n : UInt64}
    (h : (generateFolded env samples.events).lookup key = some n) :
    n.toNat = (ofKey (fun fs => ";".intercalate fs) key (frameLists env samples.events)).length := by
  rw [generateFolded_eq] at h
  rw [eq_of_lookup_group h]
  exact toNat_count samples.length_lt (length_ofKey_le env _ key)

theorem generateFolded_conserves (env : Machine) (samples : Samples) :
    Conserves env samples.events (generateFolded env samples.events) := by
  constructor
  · rw [← length_frameLists env, generateFolded_eq]
    refine sum_entries_group UInt64.toNat fun key n hn => toNat_lookup env samples ?_
    rwa [generateFolded_eq]
  · intro key
    rw [← length_ofKey_frameLists]
    cases h : (generateFolded env samples.events).lookup key with
    | some n => exact toNat_lookup env samples h
    | none =>
      rw [generateFolded_eq, lookup_group] at h
      split at h
      · rename_i hnil
        rw [hnil]
        rfl
      · cases h

/-- A sample with one user frame and lengths out of range. -/
def userSample : StackEvent := { mixedSample with kstackLen := -14, ustackLen := 99 }

end RedisTracer
