import RedisTracer.Capture
import RedisTracer.CollectorBooks
import RedisTracer.Intervals
import RedisTracer.Lib.Ranking

/-!
# The rows of the panels

The client panel shows the ten addresses with the most requests, the command panel every label, both with
the greatest counts first. Equal counts may stand in any order: the stores are hash maps.
-/

namespace RedisTracer

open Ascii RespFormat GroupFold Ranking RingBuf

variable {H : Type} [HdrHistogram H] {dec : RespDecoder} {up : UpperTable} {evs : List LatencyEvent}

/-- The rows are of the ten busiest addresses, each with its own requests and bytes; the shares are of all
requests with an address. -/
structure ClientRows (evs : List LatencyEvent) (rows : List (String × UInt64 × UInt64)) (total : UInt64) :
    Prop where
  total : total.toNat = (evs.filter fun ev => ev.clientIp != 0).length
  rows : ∃ addrs, IsTop 10 (fun a => (ofKey LatencyEvent.clientIp a evs).length)
      (fun a => a ≠ 0 ∧ ∃ ev ∈ evs, ev.clientIp = a) addrs ∧
    rows.map (fun r => (r.1, r.2.1.toNat, r.2.2.toNat)) = addrs.map fun a =>
      (ipv4Str a, (ofKey LatencyEvent.clientIp a evs).length, byteSum (ofKey LatencyEvent.clientIp a evs))

/-- A row for each label, with its own requests, the busiest first. -/
def CommandRows (dec : RespDecoder) (up : UpperTable) (evs : List LatencyEvent)
    (rows : List (String × UInt64)) : Prop :=
  ∃ labels, IsRanking (fun c => (ofKey (labelOf dec up) c evs).length)
      (fun c => ∃ ev ∈ evs, labelOf dec up ev = c) labels ∧
    labels.mapM (fun c => (truncateCmd c 14).map fun name => (name, (ofKey (labelOf dec up) c evs).length)) =
      some (rows.map fun r => (r.1, r.2.toNat))

theorem ranked_of_toNat {α : Type} (n : α → UInt64) (as : List α) :
    as.mergeSort (fun a b => n b ≤ n a) = ranked (fun a => (n a).toNat) as := by
  rw [ranked]
  congr 1

theorem toNat_sum {ns : List UInt64} (h : (ns.map UInt64.toNat).sum < 2 ^ 64) :
    ns.sum.toNat = (ns.map UInt64.toNat).sum := by
  induction ns with
  | nil => rfl
  | cons n ns ih =>
    rw [List.map_cons, List.sum_cons] at h
    rw [List.sum_cons, List.map_cons, List.sum_cons, toNat_add_of_lt, ih (by omega)]
    rw [ih (by omega)]
    exact h

/-! ### Clients -/

theorem client_entry {a : UInt32} {i : ClientInfo}
    (h : (group ⟨0, 0⟩ .countEvent LatencyEvent.clientIp (evs.filter fun ev => ev.clientIp != 0)).lookup a =
      some i) : (a ≠ 0 ∧ ∃ ev ∈ evs, ev.clientIp = a) ∧
      i = ⟨UInt64.ofNat (ofKey LatencyEvent.clientIp a evs).length,
        UInt64.ofNat (byteSum (ofKey LatencyEvent.clientIp a evs))⟩ := by
  have ha := exists_nonzero_client.1 (exists_lookup_group.1 ⟨i, h⟩)
  refine ⟨ha, ?_⟩
  have hkey : ofKey LatencyEvent.clientIp a (evs.filter fun ev => ev.clientIp != 0) =
      ofKey LatencyEvent.clientIp a evs := ofKey_nonzero_client ha.1
  rw [eq_of_lookup_group h, hkey]
  have hcount := ClientInfo.count_foldl ⟨0, 0⟩ (ofKey LatencyEvent.clientIp a evs)
  have hbytes := ClientInfo.totalBytes_foldl ⟨0, 0⟩ (ofKey LatencyEvent.clientIp a evs)
  rw [UInt64.zero_add] at hcount hbytes
  rw [← hcount, ← hbytes]

section
variable {cl : ClientStats} (hcl : cl.clients = group ⟨0, 0⟩ .countEvent LatencyEvent.clientIp
  (evs.filter fun ev => ev.clientIp != 0)) (hcount : evs.length < 2 ^ 64)
include hcl hcount

/-- The requests of the entries add up, without wrapping, to those with an address. -/
theorem client_total {es : List ((_ : UInt32) × ClientInfo)} (hes : es.Perm cl.clients.entries) :
    ((es.map fun e => e.2.count).sum : UInt64).toNat = (evs.filter fun ev => ev.clientIp != 0).length := by
  have hkey : ∀ a, (ofKey LatencyEvent.clientIp a evs).length < 2 ^ 64 := fun a =>
    Nat.lt_of_le_of_lt (List.length_filter_le ..) hcount
  have hsum : (cl.clients.entries.map fun e => e.2.count.toNat).sum =
      (evs.filter fun ev => ev.clientIp != 0).length := by
    rw [hcl]
    refine sum_entries_group (fun i : ClientInfo => i.count.toNat) fun a i hi => ?_
    obtain ⟨⟨ha, -⟩, rfl⟩ := client_entry hi
    rw [ofKey_nonzero_client ha]
    exact UInt64.toNat_ofNat_of_lt' (hkey a)
  have hperm := (hes.map fun e => e.2.count.toNat).sum_eq.trans hsum
  rw [toNat_sum] <;> rw [List.map_map]
  · exact hperm
  · exact Nat.lt_of_le_of_lt hperm.le (Nat.lt_of_le_of_lt (List.length_filter_le ..) hcount)

theorem client_rows (hbytes : byteSum evs < 2 ^ 64) {rows : List (String × UInt64 × UInt64)} {total : UInt64}
    (h : cl.report = some (rows, total)) : ClientRows evs rows total := by
  have hentry : ∀ e ∈ cl.clients.entries, e.2.count.toNat = (ofKey LatencyEvent.clientIp e.1 evs).length ∧
      e.2.totalBytes.toNat = byteSum (ofKey LatencyEvent.clientIp e.1 evs) := by
    intro e he
    have hlookup := AList.mem_lookup_iff.2 he
    rw [hcl] at hlookup
    rw [(client_entry hlookup).2]
    exact ⟨UInt64.toNat_ofNat_of_lt' (Nat.lt_of_le_of_lt (List.length_filter_le ..) hcount),
      UInt64.toNat_ofNat_of_lt' (Nat.lt_of_le_of_lt (byteSum_le List.filter_sublist) hbytes)⟩
  unfold ClientStats.report at h
  split at h
  · cases h
  · cases h
    rw [ranked_of_toNat]
    refine ⟨client_total hcl hcount (ranked_perm _ _),
      (ranked (fun a => (ofKey LatencyEvent.clientIp a evs).length) cl.clients.keys).take 10,
      (isRanking_ranked (AList.keys_nodup _) fun a => ?_).isTop 10, ?_⟩
    · rw [hcl, mem_keys_group, List.mem_map]
      exact exists_nonzero_client
    · have hmap := map_ranked (f := fun e : (_ : UInt32) × ClientInfo => e.2.count.toNat)
        (g := fun a => (ofKey LatencyEvent.clientIp a evs).length) (fun e => e.1) fun e he => (hentry e he).1
      rw [AList.keys, List.keys, ← hmap, ← List.map_take, List.map_map, List.map_map]
      refine List.map_congr_left fun e he => ?_
      obtain ⟨hn, hb⟩ := hentry e ((ranked_perm _ _).mem_iff.1 (List.mem_of_mem_take he))
      exact congrArg (ipv4Str e.1, ·) (congrArg₂ Prod.mk hn hb)

end

theorem client_report_none {cl : ClientStats} (hcl : cl.clients = group ⟨0, 0⟩ .countEvent
    LatencyEvent.clientIp (evs.filter fun ev => ev.clientIp != 0)) :
    cl.report = none ↔ ∀ ev ∈ evs, ev.clientIp = 0 := by
  have hempty : cl.clients.entries.isEmpty ↔ ∀ ev ∈ evs, ev.clientIp = 0 := by
    have hkeys : cl.clients.entries = [] ↔ cl.clients.keys = [] := (List.map_eq_nil_iff (f := Sigma.fst)).symm
    rw [List.isEmpty_iff, hkeys, List.eq_nil_iff_forall_not_mem, hcl]
    simp only [mem_keys_group, List.mem_map, List.mem_filter]
    constructor
    · intro h ev hev
      by_contra hne
      exact h ev.clientIp ⟨ev, ⟨hev, by simpa using hne⟩, rfl⟩
    · rintro h a ⟨ev, ⟨hev, hne⟩, -⟩
      simp [h ev hev] at hne
  unfold ClientStats.report
  split
  · rename_i hnil
    exact iff_of_true rfl (hempty.1 hnil)
  · rename_i hsome
    exact iff_of_false (by simp) fun h => hsome (hempty.2 h)

/-! ### Commands -/

theorem mapM_map_eq_some {α β γ : Type} {f : α → Option β} {g : α → Option γ} {k : β → γ} {as : List α}
    {bs : List β} (hg : ∀ a ∈ as, g a = (f a).map k) (h : as.mapM f = some bs) :
    as.mapM g = some (bs.map k) := by
  induction as generalizing bs with
  | nil => cases h; rfl
  | cons a as ih =>
    rw [List.mapM_cons] at h
    obtain ⟨b, hb, h⟩ := Option.bind_eq_some_iff.1 h
    obtain ⟨bs', hbs, h⟩ := Option.bind_eq_some_iff.1 h
    cases h
    rw [List.mapM_cons, hg a List.mem_cons_self, hb, ih (fun a ha => hg a (List.mem_cons_of_mem _ ha)) hbs]
    rfl

theorem command_rows (hcount : evs.length < 2 ^ 64) {cs : CommandStats H}
    (hcs : cs.commands = group .new LatencyStats.recordEvent (labelOf dec up) evs)
    {rows : List (String × UInt64)} (h : cs.report = some rows) : CommandRows dec up evs rows := by
  have hentry : ∀ e ∈ cs.commands.entries, e.2.total.toNat = (ofKey (labelOf dec up) e.1 evs).length ∧
      ofKey (labelOf dec up) e.1 evs ≠ [] := by
    intro e he
    have hlookup := AList.mem_lookup_iff.2 he
    rw [hcs] at hlookup
    refine ⟨?_, fun hnil => ofKey_eq_nil.1 hnil (exists_lookup_group.1 ⟨e.2, hlookup⟩)⟩
    rw [eq_of_lookup_group hlookup, LatencyStats.total_foldl]
    exact toNat_counter (Nat.lt_of_le_of_lt (List.length_filter_le ..) hcount)
  have hall : (cs.commands.entries.filter fun e => e.2.total > 0) = cs.commands.entries := by
    refine List.filter_eq_self.2 fun e he => decide_eq_true ?_
    obtain ⟨hn, hne⟩ := hentry e he
    have hpos := List.length_pos_iff.2 hne
    exact UInt64.lt_iff_toNat_lt.2 (hn ▸ hpos)
  unfold CommandStats.report at h
  dsimp only at h
  rw [hall, ranked_of_toNat] at h
  refine ⟨ranked (fun c => (ofKey (labelOf dec up) c evs).length) cs.commands.keys,
    isRanking_ranked (AList.keys_nodup _) fun c => ?_, ?_⟩
  · rw [hcs, mem_keys_group, List.mem_map]
  · have hmap := map_ranked (f := fun e : (_ : String) × LatencyStats H => e.2.total.toNat)
      (g := fun c => (ofKey (labelOf dec up) c evs).length) (fun e => e.1) fun e he => (hentry e he).1
    rw [AList.keys, List.keys, ← hmap, List.mapM_map]
    refine mapM_map_eq_some (fun e he => ?_) h
    rw [Function.comp_apply, Option.map_map, ← (hentry e ((ranked_perm _ _).mem_iff.1 he)).1]
    rfl

/-! ### Requests -/

/-- The capture of `ev` begins with the request of a command named in letters, with its arguments. -/
structure Captures (ev : LatencyEvent) (req : List UInt8 × List (List UInt8)) : Prop where
  nonempty : req.1 ≠ []
  letters : ∀ b ∈ req.1, isAlphabetic b = true
  front : requestHeader req.1 req.2 ++ req.1 <+: ev.reqData.toList

def upperName (req : List UInt8 × List (List UInt8)) : String := str (req.1.map toUpper)

/-- A row for each name, cut to fourteen letters, with its number of requests, the most frequent first. -/
def NameRows (names : List String) (rows : List (String × UInt64)) : Prop :=
  ∃ labels, IsRanking (fun c => names.count c) (· ∈ names) labels ∧
    rows.map (fun r => (r.1, r.2.toNat)) = labels.map fun c => (String.ofList (c.toList.take 14), names.count c)

theorem labelOf_captures {ev : LatencyEvent} {req : List UInt8 × List (List UInt8)} (h : Captures ev req) :
    labelOf dec up ev = upperName req := by
  have hfront := h.front
  rw [requestHeader, List.append_assoc] at hfront
  exact classifyCommand_front dec up (isNumeral_decimal _) (isNumeral_decimal _) (value_decimal _) h.nonempty
    (List.all_eq_true.2 h.letters) hfront

theorem labels_captures {reqs : List (List UInt8 × List (List UInt8))} (h : List.Forall₂ Captures evs reqs) :
    evs.map (labelOf dec up) = reqs.map upperName := by
  induction h with
  | nil => rfl
  | cons hcap _ ih => rw [List.map_cons, List.map_cons, labelOf_captures hcap, ih]

theorem truncateCmd_upperName {ev : LatencyEvent} {req : List UInt8 × List (List UInt8)} (h : Captures ev req) :
    truncateCmd (upperName req) 14 = some (String.ofList ((upperName req).toList.take 14)) := by
  have hlt := map_toUpper_lt (lt_of_all_alphabetic (List.all_eq_true.2 h.letters))
  have hascii : ∀ c ∈ (upperName req).toList, c.val ≤ 127 := by
    intro c hc
    rw [upperName, str, String.toList_ofList] at hc
    obtain ⟨b, hb, rfl⟩ := List.mem_map.1 hc
    exact val_le (hlt b hb)
  unfold truncateCmd
  split
  · rename_i hle
    have hsize : (upperName req).utf8ByteSize = (upperName req).toList.length := by
      rw [← utf8ByteSize_of_ascii hascii, String.ofList_toList]
    rw [List.take_of_length_le (hsize ▸ hle), String.ofList_toList]
  · rename_i hlt'
    have hvalid : (⟨14⟩ : String.Pos.Raw).IsValid (upperName req) := isValid_str hlt (Nat.le_of_not_le hlt')
    rw [if_pos (String.Pos.Raw.isValid_eq_true_iff.2 hvalid), extract_ascii hascii]

theorem mapM_eq_map {α β : Type} {f : α → Option β} {g : α → β} {as : List α} (h : ∀ a ∈ as, f a = some (g a)) :
    as.mapM f = some (as.map g) := by
  induction as with
  | nil => rfl
  | cons a as ih =>
    rw [List.mapM_cons, h a List.mem_cons_self, ih fun b hb => h b (List.mem_cons_of_mem _ hb)]
    rfl

theorem exists_req {reqs : List (List UInt8 × List (List UInt8))} (h : List.Forall₂ Captures evs reqs)
    {c : String} (hc : c ∈ reqs.map upperName) : ∃ ev req, Captures ev req ∧ upperName req = c := by
  induction h with
  | nil => cases hc
  | cons hcap _ ih =>
    rcases List.mem_cons.1 hc with rfl | hc
    · exact ⟨_, _, hcap, rfl⟩
    · exact ih hc

/-- Requests for commands named in letters never stop the panel, which counts them by name. -/
theorem name_rows (hcount : evs.length < 2 ^ 64) {cs : CommandStats H}
    (hcs : cs.commands = group .new LatencyStats.recordEvent (labelOf dec up) evs)
    {reqs : List (List UInt8 × List (List UInt8))} (hreqs : List.Forall₂ Captures evs reqs) :
    ∃ rows, cs.report = some rows ∧ NameRows (reqs.map upperName) rows := by
  have hlabels : evs.map (labelOf dec up) = reqs.map upperName := labels_captures hreqs
  have hcut : ∀ c ∈ reqs.map upperName, truncateCmd c 14 = some (String.ofList (c.toList.take 14)) := by
    intro c hc
    obtain ⟨ev, req, hcap, rfl⟩ := exists_req hreqs hc
    exact truncateCmd_upperName hcap
  have hsome : cs.report.isSome := by
    rw [CommandStats.report_isSome]
    intro c stats hlookup _ hnone
    rw [hcs] at hlookup
    have hc := exists_lookup_group.1 ⟨stats, hlookup⟩
    rw [← List.mem_map, hlabels] at hc
    rw [hcut c hc] at hnone
    cases hnone
  obtain ⟨rows, hrows⟩ := Option.isSome_iff_exists.1 hsome
  obtain ⟨labels, hrank, hmap⟩ := command_rows hcount hcs hrows
  simp only [length_ofKey, ← List.mem_map, hlabels] at hrank hmap
  refine ⟨rows, hrows, labels, hrank, ?_⟩
  rw [mapM_eq_map fun c hc => by rw [hcut c ((hrank.mem c).1 hc), Option.map_some]] at hmap
  exact (Option.some.inj hmap).symm

/-! ### In a run -/

theorem Collector.Reachable.commands {intervalSecs : UInt64} {ncpu cap : Nat} {m : Maps ncpu}
    {s : Collector H ncpu cap} (h : Collector.Reachable dec up intervalSecs m s) :
    s.panels.stores.cmdStats.commands = group .new LatencyStats.recordEvent (labelOf dec up) s.panels.recorded := by
  rw [h.panels.inv.2.1.commands, recordAll_eq]

/-- Whenever the reporter prints, the client panel is of the ten busiest addresses and the command panel of
all labels, with what is recorded of each. -/
theorem collector_rows (H : Type) [HdrHistogram H] (dec : RespDecoder) (up : UpperTable)
    (intervalSecs : UInt64) (ncpu cap : Nat) (m : Maps ncpu) (s : Collector H ncpu cap)
    (h : Collector.Reachable dec up intervalSecs m s) (hcount : s.panels.recorded.length < 2 ^ 64)
    (hbytes : byteSum s.panels.recorded < 2 ^ 64) :
    (s.panels.stores.clientStats.report = none ↔ ∀ ev ∈ s.panels.recorded, ev.clientIp = 0) ∧
      (∀ rows total, s.panels.stores.clientStats.report = some (rows, total) →
        ClientRows s.panels.recorded rows total) ∧
      ∀ rows, s.panels.stores.cmdStats.report = some rows → CommandRows dec up s.panels.recorded rows := by
  have hstored : s.panels.stores.forget = s.panels.recorded.foldl (processEvent dec up) .new := h.panels.stored
  have hcl : s.panels.stores.clientStats.clients = group ⟨0, 0⟩ .countEvent LatencyEvent.clientIp
      (s.panels.recorded.filter fun ev => ev.clientIp != 0) := by
    have hclients : (s.panels.recorded.foldl (processEvent dec up) (.new : Stores H)).clientStats.clients = _ :=
      clients_foldl ..
    rw [← hstored] at hclients
    exact hclients
  exact ⟨client_report_none hcl, fun rows total => client_rows hcl hcount hbytes,
    fun rows => command_rows hcount h.commands⟩

theorem collector_rows_served : ∃ (s : Collector CountingHistogram 1 16) (clients : List (String × UInt64 × UInt64))
    (total : UInt64) (commands : List (String × UInt64)),
    s.panels.recorded = (clientRequests (0 : Fin 1)).map Exchange.event ∧
      s.panels.stores.clientStats.report = some (clients, total) ∧
      s.panels.stores.cmdStats.report = some commands ∧ ClientRows s.panels.recorded clients total ∧
      CommandRows bulkDecoder asciiUpper s.panels.recorded commands := by
  obtain ⟨s, h, -, -, hrec⟩ := Collector.exists_served
  have hsafe : ∀ ev ∈ s.panels.recorded, ¬ CutInside bulkDecoder asciiUpper ev.reqData := by
    rw [hrec]
    exact List.forall_mem_map.2 (clientRequests_safe 0)
  obtain ⟨commands, hcommands⟩ := Option.isSome_iff_exists.1 (Collector.report_isSome h.panels hsafe)
  obtain ⟨hnone, hclients, hrows⟩ := collector_rows CountingHistogram bulkDecoder asciiUpper 10 1 16 (.init 1 0) s h
    (by rw [hrec]; decide) (by rw [hrec]; decide)
  cases hreport : s.panels.stores.clientStats.report with
  | none =>
    have hip := hnone.1 hreport (clientRequest (0 : Fin 1) 1 [[80, 73, 78, 71]]).event (by simp [hrec, clientRequests])
    exact absurd hip (by decide)
  | some panel => exact ⟨s, panel.1, panel.2, commands, hrec, hreport, hcommands, hclients _ _ hreport, hrows _ hcommands⟩

/-- From what clients send to what is printed: whatever the letter case and the arguments, the command panel
counts the first so many of the requests the ring took, by the name of their command. -/
theorem collector_commands (H : Type) [HdrHistogram H] (dec : RespDecoder) (up : UpperTable)
    (intervalSecs : UInt64) (ncpu cap : Nat) (m : Maps ncpu) (s : Collector H ncpu cap)
    (h : Collector.Reachable dec up intervalSecs m s) (hcount : s.panels.recorded.length < 2 ^ 64)
    (reqs : List (List UInt8 × List (List UInt8))) (hreqs : List.Forall₂ Captures (taken s.sent) reqs) :
    ∃ rows, s.panels.stores.cmdStats.report = some rows ∧
      NameRows ((reqs.take s.panels.recorded.length).map upperName) rows := by
  refine name_rows hcount h.commands ?_
  have hprefix := List.forall₂_take s.panels.recorded.length hreqs
  rwa [(Collector.delivered h).recorded, List.take_left' rfl] at hprefix

theorem captures_clientRequest {ncpu : Nat} (c : Fin ncpu) (addr : UInt8) {name : List UInt8} {args : List (List UInt8)}
    (hne : name ≠ []) (hletters : ∀ b ∈ name, isAlphabetic b = true)
    (hfit : (requestHeader name args ++ name).length ≤ 32) :
    Captures (clientRequest c addr (name :: args)).event (name, args) := by
  refine ⟨hne, hletters, ?_⟩
  rw [clientRequest_reqData]
  exact capture_of_isPrefix (encode_request name args ▸ List.prefix_append ..) hfit

/-- The commands of `clientRequests`, with their arguments. -/
def sentCommands : List (List UInt8 × List (List UInt8)) :=
  List.replicate 10 ([80, 73, 78, 71], []) ++ List.replicate 6 ([71, 69, 84], [[107]])

theorem collector_commands_served : ∃ s : Collector CountingHistogram 1 16, s.panels.recorded.length = 16 ∧
    ∃ rows, s.panels.stores.cmdStats.report = some rows ∧
      NameRows ((sentCommands.take s.panels.recorded.length).map upperName) rows := by
  obtain ⟨s, h, -, htaken, hrec⟩ := Collector.exists_served
  have hlen : s.panels.recorded.length = 16 := by
    rw [hrec]
    rfl
  have hping : Captures (clientRequest (0 : Fin 1) 1 [[80, 73, 78, 71]]).event ([80, 73, 78, 71], []) :=
    captures_clientRequest 0 1 (by simp) (List.all_eq_true.1 rfl) (by decide)
  have hget : Captures (clientRequest (0 : Fin 1) 2 [[71, 69, 84], [107]]).event ([71, 69, 84], [[107]]) :=
    captures_clientRequest 0 2 (by simp) (List.all_eq_true.1 rfl) (by decide)
  refine ⟨s, hlen, collector_commands CountingHistogram bulkDecoder asciiUpper 10 1 16 (.init 1 0) s h ?_ _ ?_⟩
  · rw [hlen]
    decide
  · rw [htaken]
    simp [clientRequests, sentCommands, List.replicate_succ, hping, hget]

end RedisTracer
