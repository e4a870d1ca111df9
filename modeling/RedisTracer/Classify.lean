import RedisTracer.RespScan

/-!
# Which command a request is filed under

A request whose name is all letters is filed under it, whatever its arguments. For another name the
scan goes on into the arguments: the label is the first word it meets there, and only when there is
none does the decoder see the request.
-/

namespace RedisTracer

open Ascii RespFormat

variable {data suf tail ns ds name rest w : List UInt8} {args : List (List UInt8)} {i n : Nat}
  {dec : RespDecoder} {up : UpperTable}

/-! ### Captures -/

theorem payload_eq (reqData : Vector UInt8 32) :
    payload reqData = reqData.toList.takeWhile (· != 0) := by
  have hidx : (reqData.toList.findIdx? (· == 0)).getD 32 = reqData.toList.findIdx (· == 0) := by
    rw [List.findIdx_eq_getD_findIdx?, Vector.length_toList]
  rw [payload, hidx, List.takeWhile_eq_take_findIdx_not]
  simp [bne]

theorem length_payload (reqData : Vector UInt8 32) : (payload reqData).length ≤ 32 := by
  have h := (List.takeWhile_prefix (l := reqData.toList) (· != 0)).length_le
  rwa [← payload_eq, Vector.length_toList] at h

theorem payload_of_isPrefix {reqData : Vector UInt8 32} {p : List UInt8} (h : p <+: reqData.toList)
    (hz : (0 : UInt8) ∉ p) : p <+: payload reqData := by
  obtain ⟨t, ht⟩ := h
  rw [payload_eq, ← ht, List.takeWhile_append_of_pos fun b hb => by
    simpa using fun h0 : b = 0 => hz (h0 ▸ hb)]
  exact List.prefix_append ..

/-- The first 32 bytes of `bs`, filled up with zeros. -/
def capture (bs : List UInt8) : Vector UInt8 32 :=
  ⟨((bs ++ List.replicate 32 0).take 32).toArray, by simp⟩

theorem payload_capture (bs : List UInt8) : payload (capture bs) = (bs.take 32).takeWhile (· != 0) := by
  rw [payload_eq]
  show ((bs ++ List.replicate 32 0).take 32).takeWhile (· != 0) = _
  rw [List.take_append, List.take_replicate, List.takeWhile_append]
  split
  · rename_i h
    rw [(List.takeWhile_prefix _).eq_of_length h]; simp
  · rfl

theorem payload_capture_isPrefix (bs : List UInt8) : payload (capture bs) <+: bs := by
  rw [payload_capture]
  exact (List.takeWhile_prefix _).trans (List.take_prefix ..)

/-! ### The front of a request -/

def requestHeader (name : List UInt8) (args : List (List UInt8)) : List UInt8 :=
  header star (decimal (args.length + 1)) ++ header dollar (decimal name.length)

theorem not_mem_header {tag b : UInt8} (hds : IsNumeral ds)
    (hb : b ≠ tag ∧ isDigit b = false ∧ b ≠ cr ∧ b ≠ lf) : b ∉ header tag ds := by
  obtain ⟨htag, hdigit, hcr, hlf⟩ := hb
  simp [header, htag, hcr, hlf, not_mem_numeral hds hdigit]

theorem zero_mem_front (hns : IsNumeral ns) (hds : IsNumeral ds) :
    (0 : UInt8) ∈ header star ns ++ (header dollar ds ++ rest) ↔ 0 ∈ rest := by
  have hstar : (0 : UInt8) ∉ header star ns := not_mem_header hns (by decide)
  have hdollar : (0 : UInt8) ∉ header dollar ds := not_mem_header hds (by decide)
  simp [hstar, hdollar]

theorem encode_request (name : List UInt8) (args : List (List UInt8)) : encode (name :: args) =
    (requestHeader name args ++ name) ++ cr :: lf :: args.flatMap bulk := by
  rw [encode_cons, requestHeader]
  simp

theorem zero_mem_request : (0 : UInt8) ∈ requestHeader name args ++ name ↔ 0 ∈ name := by
  rw [requestHeader, List.append_assoc, zero_mem_front (isNumeral_decimal _) (isNumeral_decimal _)]

theorem scanFrom_header (hds : IsNumeral ds) :
    scanFrom data (header dollar ds ++ rest) i =
      (scanAt data i).or (scanFrom data rest (i + ds.length + 3)) := by
  have hdigits : dollar ∉ ds := not_mem_numeral hds rfl
  have hnot : dollar ∉ ds ++ [cr, lf] := by
    simp [hdigits, (by decide : dollar ≠ cr), (by decide : dollar ≠ lf)]
  have hcons : header dollar ds ++ rest = dollar :: (ds ++ [cr, lf] ++ rest) := by simp [header]
  rw [hcons, scanFrom_dollar, scanFrom_append, scanFrom_of_not_mem hnot, Option.none_or]
  congr 2
  simp; omega

theorem scanRespCommand_front (hns : IsNumeral ns) (hds : IsNumeral ds)
    (hdata : data = header star ns ++ (header dollar ds ++ rest)) (hlt : data.length ≤ 32)
    (hval : value ds ≤ 32) :
    scanRespCommand data = (((wordOf (value ds) rest).map commandName).or
      (scanFrom data rest (ns.length + 3 + ds.length + 3))).join := by
  have hstar : dollar ∉ header star ns := not_mem_header hns (by decide)
  have hlen : (header star ns).length = ns.length + 3 := length_header ..
  have hdrop : data.drop (ns.length + 3) = header dollar ds ++ rest := by
    rw [hdata, ← hlen, List.drop_left]
  have hat := scanAt_of_header hdrop hds (by
    have := lt_of_header hdrop
    omega)
  have hscan : scanFrom data data 0 =
      scanFrom data (header star ns ++ (header dollar ds ++ rest)) 0 := by rw [← hdata]
  rw [← hat, ← scanFrom_header hds, scanRespCommand_eq, hscan, scanFrom_append,
    scanFrom_of_not_mem hstar, Option.none_or, Nat.zero_add, hlen]

theorem wordOf_name (hne : name ≠ []) (hall : name.all isAlphabetic = true) :
    wordOf name.length (name ++ tail) = some name := by
  rw [wordOf, List.take_left, if_pos ⟨hne, hall⟩]

/-- A name of letters at the front of the payload is the command, whatever follows it. -/
theorem classifyCommand_front (dec : RespDecoder) (up : UpperTable) {reqData : Vector UInt8 32}
    (hns : IsNumeral ns) (hds : IsNumeral ds) (hval : value ds = name.length) (hne : name ≠ [])
    (hall : name.all isAlphabetic = true)
    (hpre : header star ns ++ (header dollar ds ++ name) <+: reqData.toList) :
    (classifyCommand dec up reqData).asRef = str (name.map toUpper) := by
  have hzero : (0 : UInt8) ∉ header star ns ++ (header dollar ds ++ name) := by
    rw [zero_mem_front hns hds]
    intro h0
    cases List.all_eq_true.1 hall 0 h0
  obtain ⟨tail, htail⟩ := payload_of_isPrefix hpre hzero
  have hdata : payload reqData = header star ns ++ (header dollar ds ++ (name ++ tail)) := by
    rw [← htail]; simp
  have hle := length_payload reqData
  have hpos : 0 < name.length := List.length_pos_iff.2 hne
  have hlen : (payload reqData).length =
      ns.length + 3 + (ds.length + 3 + (name.length + tail.length)) := by
    rw [hdata]; simp
  obtain ⟨c, hc, href⟩ := commandName_asRef hall
  have hscan : scanRespCommand (payload reqData) = some c := by
    rw [scanRespCommand_front hns hds hdata hle (by omega), hval, wordOf_name hne hall,
      Option.map_some, hc]
    rfl
  rw [classifyCommand, if_neg (by omega), hscan]
  exact href

/-! ### Names of letters -/

theorem classifyCommand_request (dec : RespDecoder) (up : UpperTable) (name : List UInt8)
    (args : List (List UInt8)) (reqData : Vector UInt8 32) (hne : name ≠ [])
    (hall : ∀ b ∈ name, isAlphabetic b = true)
    (hpre : requestHeader name args ++ name <+: reqData.toList) :
    (classifyCommand dec up reqData).asRef = str (name.map toUpper) := by
  rw [requestHeader, List.append_assoc] at hpre
  exact classifyCommand_front dec up (isNumeral_decimal _) (isNumeral_decimal _) (value_decimal _) hne
    (List.all_eq_true.2 hall) hpre

theorem classifyCommand_request_ping : (classifyCommand bulkDecoder asciiUpper
    (capture [42, 49, 13, 10, 36, 52, 13, 10, 112, 73, 110, 71, 36, 0, 255])).asRef = "PING" :=
  classifyCommand_request _ _ [112, 73, 110, 71] [] _ (by simp) (List.all_eq_true.1 rfl) (by decide)

/-! ### Other names -/

theorem toUppercase_str (up : UpperTable) (h : ∀ b ∈ w, b.toNat < 128) :
    up.toUppercase (str w) = str (w.map toUpper) := by
  rw [UpperTable.toUppercase, str, str, String.toList_ofList, List.flatMap_map, List.map_map]
  congr 1
  induction w with
  | nil => rfl
  | cons b w ih =>
    have hb : b.toNat < 128 := h b List.mem_cons_self
    rw [List.flatMap_cons, up.ascii _ (val_le hb), toUpper_char hb,
      ih fun c hc => h c (List.mem_cons_of_mem _ hc)]
    rfl

/-- The bytes after the arguments' CRLF are none, or start with `$`: no word is there. -/
theorem wordOf_bulks (h : rest <+: args.flatMap bulk) : wordOf n rest = none := by
  cases rest with
  | nil => simp [wordOf]
  | cons b rest =>
    obtain rfl : b = dollar := by
      obtain ⟨t, ht⟩ := h
      cases args with
      | nil => cases ht
      | cons a args =>
        rw [List.flatMap_cons, bulk, bulkWith, header] at ht
        exact (List.cons.inj ht).1
    cases n with
    | zero => simp [wordOf]
    | succ n => simp [wordOf, (by decide : isAlphabetic dollar = false)]

theorem firstWord_short (h : rest.length ≤ 1) : firstWord rest = none := by
  match rest with
  | [] => rfl
  | [b] =>
    have hword : wordAfter [b] = none := by simp [wordAfter, parseHeader]
    rw [firstWord_cons, hword]; rfl

section
variable (hlen : data.length ≤ 32) (htail : tail <+: cr :: lf :: args.flatMap bulk)
include hlen htail

/-- A `$` inside the name starts no word. It can end the scan, when its digits are the rest of the
name and overflow; then the capture has no room for a word after the name. -/
theorem scanAt_name {p : List UInt8} (hp : cr ∉ p) (hi : 8 ≤ i)
    (h : data.drop i = dollar :: (p ++ tail)) :
    scanAt data i = none ∨ (scanAt data i = some none ∧ firstWord tail = none) := by
  cases hparse : parseHeader dollar (dollar :: (p ++ tail)) with
  | none => exact .inl (scanAt_of_no_header h hparse)
  | some q =>
    obtain ⟨_, rest⟩ := q
    obtain ⟨ds, hds, -, heq⟩ := parseHeader_inv hparse
    have hdigits : p ++ tail = ds ++ cr :: lf :: rest := by simpa [header] using heq
    cases tail with
    | nil =>
      rw [List.append_nil] at hdigits
      exact absurd (hdigits ▸ by simp : cr ∈ p) hp
    | cons b tail =>
      obtain ⟨t, ht⟩ := htail
      obtain ⟨rfl, hrest⟩ := List.cons.inj ht
      obtain ⟨rfl, rfl⟩ := eq_of_append_cr hp (not_mem_numeral hds rfl) hdigits
      have hrest : rest <+: args.flatMap bulk := ⟨t, (List.cons.inj hrest).2⟩
      rw [heq] at h
      have hdata := lt_of_header h
      by_cases hlt : i + p.length + 3 + value p < 2 ^ 64
      · rw [scanAt_of_header h hds hlt, wordOf_bulks hrest]; exact .inl rfl
      · rw [scanAt_of_big h hds (Nat.le_of_not_lt hlt) (by omega)]
        split
        · exact .inl rfl
        · rename_i hbig
          -- `2 ^ 64` takes twenty digits
          have hlong : 20 ≤ p.length := by
            by_contra hshort
            have hval : value p < 10 ^ 19 :=
              Nat.lt_of_lt_of_le (value_lt hds.2) (Nat.pow_le_pow_right (by decide) (by omega))
            omega
          refine .inr ⟨rfl, ?_⟩
          rw [firstWord_cons_of_ne (by decide), firstWord_cons_of_ne (by decide),
            firstWord_short (by omega)]

theorem scanFrom_name {p : List UInt8} (hp : cr ∉ p) (hi : 8 ≤ i) (h : data.drop i = p ++ tail) :
    scanFrom data p i = none ∨ (scanFrom data p i = some none ∧ firstWord tail = none) := by
  induction p generalizing i with
  | nil => exact .inl rfl
  | cons b p ih =>
    have hp' : cr ∉ p := fun hmem => hp (List.mem_cons_of_mem _ hmem)
    have ih := ih hp' (i := i + 1) (by omega) (by rw [← List.drop_drop, h]; rfl)
    by_cases hb : b = dollar
    · subst hb
      rw [scanFrom_dollar]
      rcases scanAt_name hlen htail hp' hi h with hat | ⟨hat, hword⟩
      · rw [hat]; exact ih
      · rw [hat]; exact .inr ⟨rfl, hword⟩
    · rw [scanFrom_of_ne hb]; exact ih

/-- A name with a byte that is no letter is passed over; the scan returns the first word after it. -/
theorem scanRespCommand_passed (hns : IsNumeral ns) (hds : IsNumeral ds)
    (hval : value ds = name.length) (hname : name ≠ []) (hcr : cr ∉ name) (hall : ¬ name.all isAlphabetic = true)
    (hdata : data = header star ns ++ (header dollar ds ++ (name ++ tail))) :
    scanRespCommand data = (firstWord tail).bind commandName := by
  have hnpos : 0 < ns.length := List.length_pos_iff.2 hns.1
  have hdpos : 0 < ds.length := List.length_pos_iff.2 hds.1
  have hpos : 0 < name.length := List.length_pos_iff.2 hname
  have hsize : data.length = ns.length + 3 + (ds.length + 3 + (name.length + tail.length)) := by
    rw [hdata]; simp
  have hword : wordOf name.length (name ++ tail) = none := by
    rw [wordOf, List.take_left, if_neg fun h => hall h.2]
  have hdrop : data.drop (ns.length + 3 + ds.length + 3) = name ++ tail := by
    have hhead : (header star ns ++ header dollar ds).length = ns.length + 3 + ds.length + 3 := by
      rw [List.length_append, length_header, length_header]; omega
    rw [hdata, ← List.append_assoc, ← hhead, List.drop_left]
  rw [scanRespCommand_front hns hds hdata hlen (by omega), hval, hword, Option.map_none,
    Option.none_or, scanFrom_append]
  rcases scanFrom_name hlen htail hcr (by omega) hdrop with hscan | ⟨hscan, hnone⟩
  · rw [hscan, Option.none_or]
    cases tail with
    | nil => rfl
    | cons b tail =>
      obtain ⟨t, ht⟩ := htail
      obtain ⟨rfl, -⟩ := List.cons.inj ht
      have hdrop' : data.drop (ns.length + 3 + ds.length + 3 + name.length + 1) = tail := by
        rw [Nat.add_assoc _ name.length, ← List.drop_drop, hdrop, ← List.drop_drop, List.drop_left]
        rfl
      rw [scanFrom_of_ne (by decide), firstWord_cons_of_ne (by decide),
        scanFrom_eq_firstWord hlen (by omega) hdrop']
      cases firstWord tail <;> rfl
  · rw [hscan, hnone]; rfl

end

/-! ### The label of a request -/

def commandLabel (dec : RespDecoder) (up : UpperTable) (name : List UInt8) (args : List (List UInt8)) :
    String :=
  (classifyCommand dec up (capture (encode (name :: args)))).asRef

/-- The captured bytes after the name, up to the first zero. -/
def afterName (name : List UInt8) (args : List (List UInt8)) : List UInt8 :=
  (payload (capture (encode (name :: args)))).drop (requestHeader name args ++ name).length

/-- The name is all letters, or no word of the captured arguments comes first (but `OTHER`). -/
def NoForeignWord (name : List UInt8) (args : List (List UInt8)) : Prop :=
  (∀ b ∈ name, isAlphabetic b = true) ∨
    ∀ w, firstWord (afterName name args) = some w → str (w.map toUpper) = "OTHER"

theorem capture_of_isPrefix {p bs : List UInt8} (h : p <+: bs) (hfit : p.length ≤ 32) :
    p <+: (capture bs).toList :=
  List.prefix_take_iff.2 ⟨h.trans (List.prefix_append ..), hfit⟩

section
variable (hne : name ≠ []) (hgraphic : ∀ b ∈ name, isGraphic b = true)
  (hfit : (requestHeader name args ++ name).length ≤ 32)
include hgraphic

theorem not_mem_of_graphic {b : UInt8} (hb : isGraphic b = false) : b ∉ name := fun hmem => by
  rw [hgraphic b hmem] at hb; cases hb

theorem lt_of_graphic : ∀ b ∈ name, b.toNat < 128 := fun b hb => by
  have := isGraphic_iff.1 (hgraphic b hb); omega

include hfit

theorem payload_request :
    payload (capture (encode (name :: args))) = header star (decimal (args.length + 1)) ++
      (header dollar (decimal name.length) ++ (name ++ afterName name args)) ∧
    afterName name args <+: cr :: lf :: args.flatMap bulk := by
  have hzero : (0 : UInt8) ∉ requestHeader name args ++ name := by
    rw [zero_mem_request]
    exact not_mem_of_graphic hgraphic rfl
  have hcap : requestHeader name args ++ name <+: (capture (encode (name :: args))).toList :=
    capture_of_isPrefix (encode_request name args ▸ List.prefix_append ..) hfit
  obtain ⟨t, ht⟩ := payload_of_isPrefix hcap hzero
  have hafter : afterName name args = t := by rw [afterName, ← ht, List.drop_left]
  refine ⟨by rw [← ht, hafter, requestHeader]; simp, ?_⟩
  have hpre := payload_capture_isPrefix (encode (name :: args))
  rw [← ht, encode_request] at hpre
  rw [hafter]
  exact (List.prefix_append_right_inj _).1 hpre

theorem classifyCommand_capture :
    classifyCommand dec up (capture (encode (name :: args))) =
      (scanRespCommand (payload (capture (encode (name :: args))))).getD
        (decodeFallback dec up (payload (capture (encode (name :: args))))) := by
  obtain ⟨hdata, -⟩ := payload_request hgraphic hfit
  have hlen : ¬ (payload (capture (encode (name :: args)))).length < 4 := by
    rw [hdata]; simp; omega
  rw [classifyCommand, if_neg hlen]
  cases scanRespCommand (payload (capture (encode (name :: args)))) <;> rfl

include hne

theorem scan_request (hall : ¬ ∀ b ∈ name, isAlphabetic b = true) :
    scanRespCommand (payload (capture (encode (name :: args)))) =
      (firstWord (afterName name args)).bind commandName :=
  have ⟨hdata, htail⟩ := payload_request hgraphic hfit
  scanRespCommand_passed (length_payload _) htail (isNumeral_decimal _) (isNumeral_decimal _)
    (value_decimal _) hne (not_mem_of_graphic hgraphic rfl)
    (fun h => hall (List.all_eq_true.1 h)) hdata

theorem commandLabel_of_word (hall : ¬ ∀ b ∈ name, isAlphabetic b = true)
    (hword : firstWord (afterName name args) = some w) :
    commandLabel dec up name args = str (w.map toUpper) := by
  obtain ⟨c, hc, href⟩ := commandName_asRef (firstWord_some hword).2
  rw [commandLabel, classifyCommand_capture hgraphic hfit, scan_request hne hgraphic hfit hall,
    hword, Option.bind_some, hc]
  exact href

theorem commandLabel_of_no_word (hdec : dec.Lawful) (hall : ¬ ∀ b ∈ name, isAlphabetic b = true)
    (hword : firstWord (afterName name args) = none) :
    commandLabel dec up name args = str (name.map toUpper) ∨
      commandLabel dec up name args = "OTHER" := by
  have hascii := lt_of_graphic hgraphic
  rw [commandLabel, classifyCommand_capture hgraphic hfit, scan_request hne hgraphic hfit hall,
    hword, Option.bind_none, Option.getD_none, decodeFallback]
  by_cases hwhole : payload (capture (encode (name :: args))) = encode (name :: args)
  · rw [hwhole]
    cases hargs : args.mapM utf8? with
    | some ss =>
      have hmap : (name :: args).mapM utf8? = some (str name :: ss) := by
        rw [List.mapM_cons, utf8?_eq hascii, hargs]; rfl
      rw [hdec.complete _ _ hmap]
      exact .inl (toUppercase_str up hascii)
    | none =>
      have hmap : (name :: args).mapM utf8? = none := by
        rw [List.mapM_cons, utf8?_eq hascii, hargs]; rfl
      rw [hdec.invalid _ hmap]
      exact .inr rfl
  · rw [hdec.incomplete _ _ (payload_capture_isPrefix _) hwhole]
    exact .inr rfl

omit hgraphic in
theorem commandLabel_of_letters (hall : ∀ b ∈ name, isAlphabetic b = true) :
    commandLabel dec up name args = str (name.map toUpper) := by
  have hpre : requestHeader name args ++ name <+: encode (name :: args) :=
    encode_request name args ▸ List.prefix_append ..
  have hfront := capture_of_isPrefix hpre hfit
  rw [requestHeader, List.append_assoc] at hfront
  exact classifyCommand_front dec up (isNumeral_decimal _) (isNumeral_decimal _) (value_decimal _) hne
    (List.all_eq_true.2 hall) hfront

theorem NoForeignWord.label (hdec : dec.Lawful) (h : NoForeignWord name args) :
    commandLabel dec up name args = str (name.map toUpper) ∨
      commandLabel dec up name args = "OTHER" := by
  by_cases hall : ∀ b ∈ name, isAlphabetic b = true
  · exact .inl (commandLabel_of_letters hne hfit hall)
  cases hword : firstWord (afterName name args) with
  | some w =>
    rw [commandLabel_of_word hne hgraphic hfit hall hword]
    exact .inr (h.resolve_left hall w hword)
  | none => exact commandLabel_of_no_word hne hgraphic hfit hdec hall hword

theorem noForeignWord_of_label (h : commandLabel dec up name args = str (name.map toUpper) ∨
    commandLabel dec up name args = "OTHER") : NoForeignWord name args := by
  by_cases hall : ∀ b ∈ name, isAlphabetic b = true
  · exact .inl hall
  refine .inr fun w hword => ?_
  have hletters := (firstWord_some hword).2
  have hw := map_toUpper_lt (lt_of_all_alphabetic hletters)
  rw [commandLabel_of_word hne hgraphic hfit hall hword] at h
  rcases h with heq | hother
  · -- the word is all letters, the name is not
    have hmap : w.map toUpper = name.map toUpper :=
      str_inj hw (map_toUpper_lt (lt_of_graphic hgraphic)) heq
    refine absurd (fun b hb => ?_) hall
    have hmem : toUpper b ∈ w.map toUpper := hmap ▸ List.mem_map_of_mem hb
    obtain ⟨c, hc, hcb⟩ := List.mem_map.1 hmem
    rw [← isAlphabetic_toUpper, ← hcb, isAlphabetic_toUpper]
    exact List.all_eq_true.1 hletters c hc
  · exact hother

end

/-- A request is filed under its name or `OTHER` exactly when no word of its arguments comes first;
of two such requests with one name, none is filed under a name the other is not. -/
theorem argument_label_iff (dec : RespDecoder) (hdec : dec.Lawful) (up : UpperTable) (name : List UInt8)
    (hne : name ≠ []) (hgraphic : ∀ b ∈ name, isGraphic b = true) (args : List (List UInt8))
    (hfit : (requestHeader name args ++ name).length ≤ 32) :
    ((commandLabel dec up name args = str (name.map toUpper) ∨
        commandLabel dec up name args = "OTHER") ↔ NoForeignWord name args) ∧
      ∀ args', (requestHeader name args' ++ name).length ≤ 32 → NoForeignWord name args →
        NoForeignWord name args' → commandLabel dec up name args = "OTHER" ∨
          commandLabel dec up name args' = "OTHER" ∨
          commandLabel dec up name args = commandLabel dec up name args' := by
  refine ⟨⟨noForeignWord_of_label hne hgraphic hfit, fun h => h.label hne hgraphic hfit hdec⟩,
    fun args' hfit' h h' => ?_⟩
  rcases h.label hne hgraphic hfit hdec with hl | hl
  · rcases h'.label hne hgraphic hfit' hdec with hl' | hl'
    · exact .inr (.inr (hl.trans hl'.symm))
    · exact .inr (.inl hl')
  · exact .inl hl

theorem argument_label_iff_json :
    (commandLabel bulkDecoder asciiUpper [74, 83, 79, 78, 46, 71, 69, 84] [[107]] = "JSON.GET" ∨
      commandLabel bulkDecoder asciiUpper [74, 83, 79, 78, 46, 71, 69, 84] [[107]] = "OTHER") ↔
    NoForeignWord [74, 83, 79, 78, 46, 71, 69, 84] [[107]] :=
  (argument_label_iff bulkDecoder bulkDecoder_lawful asciiUpper [74, 83, 79, 78, 46, 71, 69, 84]
    (by simp) (List.all_eq_true.1 rfl) [[107]] (by decide)).1

/-- `JSON.SET foo` is filed under `FOO`. -/
theorem argument_reported : ¬ ∀ name args, name ≠ [] → (∀ b ∈ name, isGraphic b = true) →
    (requestHeader name args ++ name).length ≤ 32 →
    commandLabel bulkDecoder asciiUpper name args = str (name.map toUpper) ∨
      commandLabel bulkDecoder asciiUpper name args = "OTHER" := by
  intro hall
  have hset := hall [74, 83, 79, 78, 46, 83, 69, 84] [[102, 111, 111]] (by simp)
    (List.all_eq_true.1 rfl) (by decide)
  revert hset; decide

end RedisTracer
