import RedisTracer.Common
import RedisTracer.Lib.GroupFold

/-!
# Folded stacks

`aya-test/src/flamegraph.rs` folds each sample into one line, the names of its frames joined by `;`.
The kernel stack goes in first and the user stack after it, each from its outermost frame: of a sample
with both, the line is not a chain of calls.
-/

namespace RedisTracer

/-- Names addresses, and may fill its cache `σ` on the way. -/
structure Symbolizer (σ : Type) where
  resolve : UInt64 → StateM σ String
  resolveKernel : UInt64 → StateM σ String

def frameCount (stackLen : Int32) : Nat := min (max stackLen.toInt 0).toNat maxStackFrames

def pushFrames {σ : Type} (resolve : UInt64 → StateM σ String) (ips : List UInt64) :
    StateM σ (List String) :=
  (ips.reverse.filter (· ≠ 0)).mapM resolve

def frames {σ : Type} (sym : Symbolizer σ) (ev : StackEvent) : StateM σ (List String) := do
  let kernel ← pushFrames sym.resolveKernel (ev.kstackIps.toList.take (frameCount ev.kstackLen))
  let user ← pushFrames sym.resolve (ev.ustackIps.toList.take (frameCount ev.ustackLen))
  return kernel ++ user

abbrev Folded := AList fun _ : String => UInt64

/-- One turn of the loop over the samples. -/
def foldSample {σ : Type} (sym : Symbolizer σ) (folded : Folded) (ev : StackEvent) :
    StateM σ Folded := do
  let frames ← frames sym ev
  if frames.isEmpty then return folded
  else return GroupFold.upsert 0 (fun n _ => n + 1) (fun fs => ";".intercalate fs) folded frames

def foldSamples {σ : Type} (sym : Symbolizer σ) (samples : List StackEvent) : StateM σ Folded :=
  samples.foldlM (foldSample sym) ∅

/-! ### The call chain of a sample -/

/-- A frame of a sample: the `i`th valid entry of one of its stacks, the innermost first. -/
inductive StackFrame
  | kernel (i : Nat)
  | user (i : Nat)

def kernelIps (ev : StackEvent) : List UInt64 :=
  (ev.kstackIps.toList.take (frameCount ev.kstackLen)).filter (· ≠ 0)

def userIps (ev : StackEvent) : List UInt64 :=
  (ev.ustackIps.toList.take (frameCount ev.ustackLen)).filter (· ≠ 0)

/-- The kernel was entered from the innermost user frame. -/
inductive Calls (ev : StackEvent) : StackFrame → StackFrame → Prop
  | kernel (i : Nat) : i + 1 < (kernelIps ev).length → Calls ev (.kernel (i + 1)) (.kernel i)
  | user (i : Nat) : i + 1 < (userIps ev).length → Calls ev (.user (i + 1)) (.user i)
  | entry (i : Nat) : i + 1 = (kernelIps ev).length → 0 < (userIps ev).length →
      Calls ev (.user 0) (.kernel i)

def StackFrame.name {σ : Type} (sym : Symbolizer σ) (ev : StackEvent) : StackFrame → StateM σ String
  | kernel i => sym.resolveKernel ((kernelIps ev).getD i 0)
  | user i => sym.resolve ((userIps ev).getD i 0)

/-- The frames of the line of `ev` are `fs`, whatever the names. -/
def Reads (ev : StackEvent) (fs : List StackFrame) : Prop :=
  ∀ (σ : Type) (sym : Symbolizer σ), frames sym ev = fs.mapM (StackFrame.name sym ev)

/-- Each two neighbours in the line are a caller and its callee. -/
def InCallOrder (ev : StackEvent) : Prop := ∃ fs, Reads ev fs ∧ fs.IsChain (Calls ev)

/-- From the outermost of `n` frames to the innermost. -/
def rootFirst (frame : Nat → StackFrame) (n : Nat) : List StackFrame :=
  (List.range n).reverse.map frame

/-- The frames in the order in which they are pushed. -/
def pushed (ev : StackEvent) : List StackFrame :=
  rootFirst .kernel (kernelIps ev).length ++ rootFirst .user (userIps ev).length

/-- The frames in call order. -/
def callChain (ev : StackEvent) : List StackFrame :=
  rootFirst .user (userIps ev).length ++ rootFirst .kernel (kernelIps ev).length

variable {σ : Type} {sym : Symbolizer σ} {ev : StackEvent} {fs : List StackFrame} {n : Nat}
  {frame : Nat → StackFrame}

theorem rootFirst_succ : rootFirst frame (n + 1) = frame n :: rootFirst frame n := by
  rw [rootFirst, List.range_succ, List.reverse_concat]; rfl

/-! ### What is pushed -/

theorem pushFrames_eq (frame : Nat → StackFrame) (name : StackFrame → StateM σ String)
    {resolve : UInt64 → StateM σ String} {ips valid : List UInt64}
    (hvalid : ips.filter (· ≠ 0) = valid) (hname : ∀ i, name (frame i) = resolve (valid.getD i 0)) :
    pushFrames resolve ips = (rootFirst frame valid.length).mapM name := by
  have hrange : valid = (List.range valid.length).map fun i => valid.getD i 0 := by
    refine List.ext_getElem (by simp) fun i h _ => ?_
    simp [List.getD_eq_getElem?_getD, List.getElem?_eq_getElem h]
  rw [pushFrames, List.filter_reverse, hvalid, rootFirst, List.mapM_map]
  conv_lhs => rw [hrange]
  rw [← List.map_reverse, List.mapM_map]
  simp only [Function.comp_def, hname]

theorem reads_pushed (ev : StackEvent) : Reads ev (pushed ev) := by
  intro σ sym
  rw [frames, pushed, List.mapM_append, pushFrames_eq .kernel (StackFrame.name sym ev) rfl fun i => rfl,
    pushFrames_eq .user (StackFrame.name sym ev) rfl fun i => rfl]
  rfl

/-- Names a frame by the stack it is from. -/
def tagSymbolizer : Symbolizer Unit := ⟨fun _ => pure "user", fun _ => pure "kernel"⟩

def StackFrame.tag : StackFrame → String
  | kernel _ => "kernel"
  | user _ => "user"

theorem mapM_tag (fs : List StackFrame) :
    fs.mapM (StackFrame.name tagSymbolizer ev) = pure (fs.map StackFrame.tag) := by
  rw [← List.mapM_pure]
  congr 1
  funext f
  cases f <;> rfl

theorem Reads.tag_eq (h : Reads ev fs) : fs.map StackFrame.tag = (pushed ev).map StackFrame.tag := by
  have heq := (h Unit tagSymbolizer).symm.trans (reads_pushed ev Unit tagSymbolizer)
  rw [mapM_tag, mapM_tag] at heq
  exact congrArg Prod.fst (congrFun heq ())

/-! ### The order of the calls -/

theorem rootFirst_chain (h : ∀ i, i + 1 < n → Calls ev (frame (i + 1)) (frame i)) :
    (rootFirst frame n).IsChain (Calls ev) := by
  induction n with
  | zero => exact List.isChain_nil
  | succ n ih =>
    have ih := ih fun i hi => h i (Nat.lt_succ_of_lt hi)
    rw [rootFirst_succ]
    cases n with
    | zero => exact List.isChain_singleton _
    | succ n =>
      rw [rootFirst_succ] at ih ⊢
      exact List.isChain_cons_cons.2 ⟨h n (by omega), ih⟩

theorem callChain_chain (ev : StackEvent) : (callChain ev).IsChain (Calls ev) := by
  refine List.isChain_append.2 ⟨rootFirst_chain fun i hi => .user i hi,
    rootFirst_chain fun i hi => .kernel i hi, fun x hx y hy => ?_⟩
  -- the junction: the last user frame pushed is the innermost, the first kernel frame the outermost
  obtain ⟨hu, rfl⟩ : 0 < (userIps ev).length ∧ x = .user 0 := by
    simpa [rootFirst, List.getLast?_map, List.head?_range, eq_comm, Nat.pos_iff_ne_zero] using hx
  cases hk : (kernelIps ev).length with
  | zero => rw [hk] at hy; cases hy
  | succ k =>
    rw [hk, rootFirst_succ] at hy
    cases hy
    exact .entry k hk.symm hu

theorem tag_of_mem {t : String} (h : fs.map StackFrame.tag = (rootFirst frame n).map StackFrame.tag)
    (ht : ∀ i, (frame i).tag = t) {x : StackFrame} (hx : x ∈ fs) : x.tag = t := by
  have hmem : x.tag ∈ fs.map StackFrame.tag := List.mem_map_of_mem hx
  rw [h] at hmem
  obtain ⟨_, hf, htag⟩ := List.mem_map.1 hmem
  obtain ⟨i, -, rfl⟩ := List.mem_map.1 hf
  exact htag.symm.trans (ht i)

/-- A kernel frame calls no user frame. -/
theorem not_chain_of_both (hk : kernelIps ev ≠ []) (hu : userIps ev ≠ []) (hread : Reads ev fs) :
    ¬ fs.IsChain (Calls ev) := by
  intro hchain
  have htag := hread.tag_eq
  rw [pushed, List.map_append] at htag
  obtain ⟨ks, us, rfl, hks, hus⟩ := List.map_eq_append_iff.1 htag
  obtain ⟨-, -, hcalls⟩ := List.isChain_append.1 hchain
  have hkne : ks ≠ [] := by
    rintro rfl
    simp [rootFirst, hk] at hks
  have hune : us ≠ [] := by
    rintro rfl
    simp [rootFirst, hu] at hus
  have hx := tag_of_mem hks (fun _ => rfl) (List.getLast_mem hkne)
  have hy := tag_of_mem hus (fun _ => rfl) (List.head_mem hune)
  have hcall := hcalls _ (List.getLast?_eq_some_getLast hkne) _ (List.head?_eq_some_head hune)
  revert hx hy hcall
  generalize ks.getLast hkne = x
  generalize us.head hune = y
  rintro hx hy (i | i | i)
  · simp [StackFrame.tag] at hy
  · simp [StackFrame.tag] at hx
  · simp [StackFrame.tag] at hx

theorem folded_call_order_iff (ev : StackEvent) :
    InCallOrder ev ↔ kernelIps ev = [] ∨ userIps ev = [] := by
  constructor
  · rintro ⟨fs, hread, hchain⟩
    by_contra hboth
    rw [not_or] at hboth
    exact not_chain_of_both hboth.1 hboth.2 hread hchain
  · intro h
    have hsame : pushed ev = callChain ev := by
      rcases h with h | h
      · rw [pushed, callChain, h]; exact (List.append_nil _).symm
      · rw [pushed, callChain, h]; exact List.append_nil _
    exact ⟨pushed ev, reads_pushed ev, hsame ▸ callChain_chain ev⟩

/-- One kernel frame and one user frame. -/
def mixedSample : StackEvent :=
  { pid := 1, cpu := 0, kstackLen := 1, ustackLen := 1, timestampNs := 0,
    kstackIps := Vector.replicate 20 1, ustackIps := Vector.replicate 20 2 }

theorem not_folded_call_order : ¬ ∀ ev, InCallOrder ev := by
  intro hall
  obtain ⟨fs, hread, hchain⟩ := hall mixedSample
  exact not_chain_of_both (by decide) (by decide) hread hchain

end RedisTracer
