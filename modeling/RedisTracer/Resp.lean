import RedisTracer.Lib.RespFormat

/-!
# Command classification

`aya-test/src/resp.rs`. The fast path is a byte scan for `$LEN CRLF CMD CRLF`, the fallback a full
decode by the `resp` crate (`RespDecoder`, of which only the documented behaviour is used).
`scanAt_eq` says once what the scan does at one `$`, in terms of the wire format.
-/

namespace RedisTracer

open Ascii RespFormat

/-! ### What the classifier builds on -/

/-- `Cow<'static, str>` -/
inductive Cow
  | borrowed (s : String)
  | owned (s : String)
deriving DecidableEq, Repr

def Cow.asRef : Cow → String
  | borrowed s => s
  | owned s => s

/-- `resp::Value`; the classifier looks at bulk strings and arrays only. -/
inductive RespValue
  | bulk (s : String)
  | array (vs : List RespValue)
  | other

/-- `resp::Decoder::decode`; `none` is an error. -/
abbrev RespDecoder := List UInt8 → Option RespValue

/-- The decoder returns the array of a complete request, fails when an element is not UTF-8, and
fails on an incomplete request. -/
structure RespDecoder.Lawful (dec : RespDecoder) : Prop where
  complete : ∀ xs ss, xs.mapM utf8? = some ss → dec (encode xs) = some (.array (ss.map .bulk))
  invalid : ∀ xs, xs.mapM utf8? = none → dec (encode xs) = none
  incomplete : ∀ xs p, p <+: encode xs → p ≠ encode xs → dec p = none

def bulkDecoder : RespDecoder := fun p =>
  match parse p with
  | some (xs, _) => (xs.mapM utf8?).map fun ss => .array (ss.map .bulk)
  | none => none

theorem bulkDecoder_lawful : bulkDecoder.Lawful where
  complete xs ss h := by
    have hp := parse_encode xs []
    rw [List.append_nil] at hp
    simp [bulkDecoder, hp, h]
  invalid xs h := by
    have hp := parse_encode xs []
    rw [List.append_nil] at hp
    simp [bulkDecoder, hp, h]
  incomplete xs p hpre hne := by simp [bulkDecoder, parse_of_isPrefix hpre hne]

/-- The table behind `str::to_uppercase`: what a character becomes. -/
structure UpperTable where
  upper : Char → List Char
  ascii : ∀ c, c.val ≤ 127 → upper c = [c.toUpper]

def UpperTable.toUppercase (up : UpperTable) (s : String) : String :=
  String.ofList (s.toList.flatMap up.upper)

def asciiUpper : UpperTable := ⟨fun c => [c.toUpper], fun _ _ => rfl⟩

/-! ### The classifier -/

def staticNames : List String :=
  ["GET", "SET", "DEL",
    "INCR", "DECR", "HGET",
    "HSET", "PING", "INFO",
    "MGET", "MSET", "KEYS",
    "TYPE", "SCAN", "QUIT",
    "AUTH", "ECHO", "EXEC",
    "MULT", "LPOP", "RPOP",
    "LLEN", "XADD", "ZADD",
    "HDEL", "HLEN", "SADD",
    "SPOP",
    "LPUSH", "RPUSH", "SETNX",
    "SETEX", "WATCH", "XREAD",
    "PUBLISH", "SELECT",
    "RENAME", "EXPIRE",
    "APPEND", "STRLEN",
    "UNLINK", "GETSET",
    "GETRANGE"]

/-- Each arm of the match maps the bytes of a name to that name. -/
def tryStatic (bs : List UInt8) : Option String := staticNames.find? fun s => bytes s == bs

/-- `str::parse::<usize>` on a 64-bit machine. -/
def parseUsize (s : String) : Option Nat :=
  let ds := match bytes s with
    | 43 :: ds => ds
    | ds => ds
  if ds ≠ [] ∧ ds.all isDigit ∧ value ds < 2 ^ 64 then some (value ds) else none

def commandName (bs : List UInt8) : Option Cow :=
  match tryStatic bs with
  | some s => some (.borrowed s)
  | none => (utf8? (bs.map toUpper)).map .owned

def digitEnd (data : List UInt8) (start : Nat) : Nat :=
  match (data.drop start).findIdx? fun b => !isDigit b with
  | some p => start + p
  | none => data.length

/-- One turn of the loop, at the `$` with index `i`: `none` goes on to the next `$`, `some` returns.
The addition wraps, as in a release build. -/
def scanAt (data : List UInt8) (i : Nat) : Option (Option Cow) :=
  let start := i + 1
  let digitEnd := digitEnd data start
  if digitEnd > start ∧ digitEnd + 1 < data.length ∧ data[digitEnd]? = some cr ∧
      data[digitEnd + 1]? = some lf then
    match (utf8? (data.extract start digitEnd)).bind parseUsize with
    | none => some none
    | some len =>
      let cmdStart := digitEnd + 2
      let cmdEnd := min ((cmdStart + len) % 2 ^ 64) data.length
      if cmdEnd > cmdStart then
        let bs := data.extract cmdStart cmdEnd
        if !bs.all isAlphabetic then none else some (commandName bs)
      else none
  else none

def scanRespCommand (data : List UInt8) : Option Cow :=
  ((data.zipIdx.filter fun p => p.1 == dollar).findSome? fun p => scanAt data p.2).join

def payload (reqData : Vector UInt8 32) : List UInt8 :=
  reqData.toList.take ((reqData.toList.findIdx? (· == 0)).getD 32)

/-- The fallback: the first element of the decoded array, when it is a bulk string. -/
def decodeFallback (dec : RespDecoder) (up : UpperTable) (data : List UInt8) : Cow :=
  match dec data with
  | some (.array (.bulk cmd :: _)) => .owned (up.toUppercase cmd)
  | _ => .borrowed "OTHER"

def classifyCommand (dec : RespDecoder) (up : UpperTable) (reqData : Vector UInt8 32) : Cow :=
  let data := payload reqData
  if data.length < 4 then .borrowed "OTHER" else
    match scanRespCommand data with
    | some cmd => cmd
    | none => decodeFallback dec up data

end RedisTracer
