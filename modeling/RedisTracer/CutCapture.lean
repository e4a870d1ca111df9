import RedisTracer.Classify
import RedisTracer.Leftmost

/-!
# Captures cut off by segmentation

A capture that ends in the header of a request is `OTHER`, one that holds the whole name is filed
under it. One that ends inside the name is filed under the letters that are there: the scan clamps
the length to the bytes it has, and does not look for the CRLF after the name.
-/

namespace RedisTracer

open Ascii RespFormat FirstHit

variable {p q ns ds rest name w : List UInt8} {args : List (List UInt8)} {i : Nat}
  {dec : RespDecoder} {up : UpperTable}

/-- The label of the capture of `p`. -/
def captureLabel (dec : RespDecoder) (up : UpperTable) (p : List UInt8) : String :=
  (classifyCommand dec up (capture p)).asRef

theorem payload_capture_eq (hlen : p.length ≤ 32) (hzero : (0 : UInt8) ∉ p) :
    payload (capture p) = p := by
  rw [payload_capture, List.take_of_length_le hlen, List.takeWhile_eq_self_iff]
  intro b hb
  simpa using fun h0 : b = 0 => hzero (h0 ▸ hb)

/-! ### Cut in the header -/

/-- The only `$` of a header is the one before the length of the name. -/
theorem dollar_index (hns : IsNumeral ns) (hds : IsNumeral ds)
    (h : (header star ns ++ header dollar ds)[i]? = some dollar) : i = ns.length + 3 := by
  have hlen : (header star ns).length = ns.length + 3 := length_header ..
  rw [List.getElem?_append] at h
  split at h
  · exact absurd (List.mem_of_getElem? h) (not_mem_header hns (by decide))
  · rename_i hge
    match hk : i - (header star ns).length with
    | 0 => omega
    | k + 1 =>
      have hmem : dollar ∈ ds ++ [cr, lf] := by
        rw [hk] at h
        exact List.mem_of_getElem? (i := k) h
      rcases List.mem_append.1 hmem with hmem | hmem
      · exact absurd hmem (not_mem_numeral hds rfl)
      · simp [dollar, cr, lf] at hmem

theorem no_word_in_header (hns : IsNumeral ns) (hds : IsNumeral ds)
    (hp : p <+: header star ns ++ header dollar ds) : ¬ ValidAt p i w := by
  rintro ⟨ds', rest, ⟨hds', hdrop⟩, rfl, hne, -⟩
  obtain ⟨t, ht⟩ := hp
  have hdrop' : (header star ns ++ header dollar ds).drop i = header dollar ds' ++ (rest ++ t) := by
    have hle : i ≤ p.length := by
      by_contra hlt
      rw [List.drop_of_length_le (by omega)] at hdrop; cases hdrop
    rw [← ht, List.drop_append_of_le_length hle, hdrop, List.append_assoc]
  have hdollar : (header star ns ++ header dollar ds)[i]? = some dollar := by
    have hget : ((header star ns ++ header dollar ds).drop i)[0]? = some dollar := by
      rw [hdrop']; rfl
    simpa using hget
  have hi := dollar_index hns hds hdollar
  have hlen : (header star ns).length = ns.length + 3 := length_header ..
  rw [hi, ← hlen, List.drop_left] at hdrop'
  obtain ⟨-, hrest⟩ := header_append_inj hds hds' ((List.append_nil _).trans hdrop')
  obtain ⟨rfl, -⟩ := List.append_eq_nil_iff.1 hrest.symm
  exact hne (List.take_nil)

theorem scanRespCommand_header (hns : IsNumeral ns) (hds : IsNumeral ds) (hlen : p.length < 2 ^ 64)
    (hp : p <+: header star ns ++ header dollar ds) : scanRespCommand p = none := by
  cases hscan : scanRespCommand p with
  | none => rfl
  | some c =>
    obtain ⟨i, w, hw, -⟩ := scanRespCommand_first hlen hscan
    exact absurd hw (no_word_in_header hns hds hp)

/-! ### The three cuts -/

section
variable (hne : name ≠ []) (hlen : p.length ≤ 32) (hzero : (0 : UInt8) ∉ p)
include hlen hzero hne

theorem captureLabel_header (hdec : dec.Lawful) (hp : p <+: requestHeader name args) :
    captureLabel dec up p = "OTHER" := by
  rw [captureLabel, classifyCommand, payload_capture_eq hlen hzero]
  split
  · rfl
  · have hreq : encode (name :: args) =
        requestHeader name args ++ (name ++ cr :: lf :: args.flatMap bulk) := by
      rw [encode_request, List.append_assoc]
    have hcut : p ≠ encode (name :: args) := by
      intro heq
      have hle := hp.length_le
      have hpos := List.length_pos_iff.2 hne
      rw [heq, hreq, List.length_append, List.length_append] at hle
      omega
    rw [scanRespCommand_header (isNumeral_decimal _) (isNumeral_decimal _) (by omega) hp]
    show (decodeFallback dec up p).asRef = _
    rw [decodeFallback, hdec.incomplete _ _ (hp.trans (hreq ▸ List.prefix_append ..)) hcut]
    rfl

omit hzero in
theorem captureLabel_name (hall : ∀ b ∈ name, isAlphabetic b = true)
    (hp : requestHeader name args ++ name <+: p) :
    captureLabel dec up p = str (name.map toUpper) := by
  have hpre := capture_of_isPrefix hp (hp.length_le.trans hlen)
  rw [requestHeader, List.append_assoc] at hpre
  exact classifyCommand_front dec up (isNumeral_decimal _) (isNumeral_decimal _) (value_decimal _) hne
    (List.all_eq_true.2 hall) hpre

omit hne in
/-- A cut inside the name: what is there of the name is the word. -/
theorem captureLabel_cut (hall : ∀ b ∈ name, isAlphabetic b = true) (hw : w <+: name) (hwne : w ≠ [])
    (hname : name.length ≤ 32) (hp : p = requestHeader name args ++ w) :
    captureLabel dec up p = str (w.map toUpper) := by
  have hletters : w.all isAlphabetic = true :=
    List.all_eq_true.2 fun b hb => hall b (hw.subset hb)
  have hword : wordOf name.length w = some w := by
    rw [wordOf, List.take_of_length_le hw.length_le, if_pos ⟨hwne, hletters⟩]
  obtain ⟨c, hc, href⟩ := commandName_asRef hletters
  have hdata : p = header star (decimal (args.length + 1)) ++
      (header dollar (decimal name.length) ++ w) := by rw [hp, requestHeader, List.append_assoc]
  have hscan : scanRespCommand p = some c := by
    rw [scanRespCommand_front (isNumeral_decimal _) (isNumeral_decimal _) hdata hlen
      (by rw [value_decimal]; exact hname), value_decimal, hword, Option.map_some, hc]
    rfl
  have hlong : ¬ p.length < 4 := by
    rw [hdata]; simp; omega
  rw [captureLabel, classifyCommand, payload_capture_eq hlen hzero, if_neg hlong, hscan]
  exact href

end

/-- `p` ends inside the name, after letters that do not spell `OTHER`. -/
def CutInName (name : List UInt8) (args : List (List UInt8)) (p : List UInt8) : Prop :=
  (requestHeader name args).length < p.length ∧
    p.length < (requestHeader name args ++ name).length ∧
    str ((p.drop (requestHeader name args).length).map toUpper) ≠ "OTHER"

theorem captureLabel_cut_ne (hall : ∀ b ∈ name, isAlphabetic b = true) (hw : w <+: name)
    (hshort : w.length < name.length) : str (w.map toUpper) ≠ str (name.map toUpper) := by
  intro heq
  have hletters : ∀ b ∈ name, b.toNat < 128 := fun b hb => isAlphabetic_lt (hall b hb)
  have hmap := str_inj (map_toUpper_lt fun b hb => hletters b (hw.subset hb)) (map_toUpper_lt hletters) heq
  have hlen := congrArg List.length hmap
  rw [List.length_map, List.length_map] at hlen
  omega

/-- Of a request that starts with its header and name, every cut is filed as the request or as `OTHER`,
but those inside the name. -/
theorem cut_label_iff (dec : RespDecoder) (hdec : dec.Lawful) (up : UpperTable) (name : List UInt8)
    (hne : name ≠ []) (hall : ∀ b ∈ name, isAlphabetic b = true) (args : List (List UInt8))
    (q : List UInt8) (hname : requestHeader name args ++ name <+: q) (hlen : q.length ≤ 32)
    (hzero : (0 : UInt8) ∉ q) (p : List UInt8) (hp : p <+: q) :
    (captureLabel dec up p ≠ "OTHER" → captureLabel dec up p = captureLabel dec up q) ↔
      ¬ CutInName name args p := by
  have hplen : p.length ≤ 32 := hp.length_le.trans hlen
  have hpzero : (0 : UInt8) ∉ p := fun h0 => hzero (hp.subset h0)
  have hhead : requestHeader name args <+: q := (List.prefix_append ..).trans hname
  have hq : captureLabel dec up q = str (name.map toUpper) := captureLabel_name hne hlen hall hname
  rcases le_or_gt p.length (requestHeader name args).length with hle | hgt
  · -- the cut is in the header
    have hother : captureLabel dec up p = "OTHER" := captureLabel_header hne hplen hpzero hdec
      (List.prefix_of_prefix_length_le hp hhead hle)
    refine iff_of_true (fun hno => absurd hother hno) ?_
    rintro ⟨hgt, -⟩
    omega
  obtain ⟨w, hw⟩ := List.prefix_of_prefix_length_le hhead hp (Nat.le_of_lt hgt)
  have hdrop : p.drop (requestHeader name args).length = w := by rw [← hw, List.drop_left]
  rcases Nat.lt_or_ge p.length (requestHeader name args ++ name).length with hlt | hge
  · -- the cut is in the name
    have hpre : w <+: name := by
      rw [← List.prefix_append_right_inj (requestHeader name args), hw]
      exact List.prefix_of_prefix_length_le hp hname (Nat.le_of_lt hlt)
    have hsize := congrArg List.length hw
    rw [List.length_append] at hsize hlt
    have hwne : w ≠ [] := List.length_pos_iff.1 (by omega)
    have hnlen : name.length ≤ 32 := by
      have hle := hname.length_le
      rw [List.length_append] at hle; omega
    rw [captureLabel_cut hplen hpzero hall hpre hwne hnlen hw.symm, hq, CutInName, hdrop]
    have hshort : p.length < (requestHeader name args ++ name).length := by
      rw [List.length_append]; exact hlt
    simp only [captureLabel_cut_ne hall hpre (by omega), hgt, hshort, true_and, imp_false]
  · -- the name is whole
    have hsame : captureLabel dec up p = str (name.map toUpper) := captureLabel_name hne hplen hall
      (List.prefix_of_prefix_length_le hname hp hge)
    refine iff_of_true (fun _ => hsame.trans hq.symm) ?_
    rintro ⟨-, hlt, -⟩
    omega

/-- `PING` cut after `PI`. -/
theorem cut_label_iff_ping :
    (captureLabel bulkDecoder asciiUpper [42, 49, 13, 10, 36, 52, 13, 10, 80, 73] ≠ "OTHER" →
      captureLabel bulkDecoder asciiUpper [42, 49, 13, 10, 36, 52, 13, 10, 80, 73] =
        captureLabel bulkDecoder asciiUpper [42, 49, 13, 10, 36, 52, 13, 10, 80, 73, 78, 71, 13, 10]) ↔
      ¬ CutInName [80, 73, 78, 71] [] [42, 49, 13, 10, 36, 52, 13, 10, 80, 73] :=
  cut_label_iff bulkDecoder bulkDecoder_lawful asciiUpper [80, 73, 78, 71] (by simp)
    (List.all_eq_true.1 rfl) [] [42, 49, 13, 10, 36, 52, 13, 10, 80, 73, 78, 71, 13, 10] (by decide)
    (by simp) (by simp) [42, 49, 13, 10, 36, 52, 13, 10, 80, 73] (by decide)

theorem not_cut_label : ¬ ∀ name args q p, name ≠ [] → (∀ b ∈ name, isAlphabetic b = true) →
    requestHeader name args ++ name <+: q → q <+: encode (name :: args) → q.length ≤ 32 →
    (0 : UInt8) ∉ q → p <+: q → captureLabel bulkDecoder asciiUpper p ≠ "OTHER" →
    captureLabel bulkDecoder asciiUpper p = captureLabel bulkDecoder asciiUpper q := by
  intro hall
  have hping := hall [80, 73, 78, 71] [] (encode [[80, 73, 78, 71]])
    [42, 49, 13, 10, 36, 52, 13, 10, 80, 73] (by simp) (List.all_eq_true.1 rfl) (by decide) (by simp)
    (by decide) (by decide) (by decide)
  revert hping; decide

end RedisTracer
