import RedisTracer.EntryOrigin
import RedisTracer.Stats
import Mathlib

/-!
# The client address of an event

`try_on_recvmsg` reads address and port of the socket, `try_on_sendmsg` puts them into the event and
`ipv4_str` prints the address. Nothing is lost on the way (`unpack_ip`, `unpack_port`, `ipv4Str_toUInt32`), but
the address that is read is the local one, at offset 4; the peer's is at offset 0.
-/

namespace RedisTracer

open Run Packing

/-- The IPv4 address `a.b.c.d`. -/
structure Ipv4 where
  a : UInt8
  b : UInt8
  c : UInt8
  d : UInt8
deriving DecidableEq

namespace Ipv4

def bytes (x : Ipv4) : List UInt8 := [x.a, x.b, x.c, x.d]

def dotted (x : Ipv4) : String := s!"{x.a}.{x.b}.{x.c}.{x.d}"

end Ipv4

def networkOrder (p : UInt16) : List UInt8 := [(p >>> 8).toUInt8, p.toUInt8]

/-- The addresses in the kernel's `struct sock_common`: `skc_daddr` is the peer. -/
structure SockCommon where
  daddr : Ipv4
  rcvSaddr : Ipv4
  dport : UInt16
deriving DecidableEq

structure SockCommon.StoredAt (s : SockCommon) (mem : Mem) (base : UInt64) : Prop where
  daddr : (mem.read base 4).map Vector.toList = some s.daddr.bytes
  rcvSaddr : (mem.read (base + 4) 4).map Vector.toList = some s.rcvSaddr.bytes
  dport : (mem.read (base + 12) 2).map Vector.toList = some (networkOrder s.dport)

variable {ncpu : Nat} {target : UInt32} {tr : Trace ncpu} {i j : Nat} {c ctx : ProbeCtx ncpu}
  {o : Output} {s : SockCommon} {mem : Mem} {base addr : UInt64} {n : Nat} {bs : List UInt8}

/-! ### Byte order -/

theorem leNat_cons (b : UInt8) (bs : List UInt8) : leNat (b :: bs) = b.toNat + 256 * leNat bs := rfl

theorem leNat_lt (bs : List UInt8) : leNat bs < 256 ^ bs.length := by
  induction bs with
  | nil => exact Nat.one_pos
  | cons b bs ih =>
    have hb : b.toNat < 256 := b.toNat_lt
    rw [leNat_cons, List.length_cons, Nat.pow_succ]; omega

theorem leBytes_succ (n x : Nat) : leBytes (n + 1) x = UInt8.ofNat x :: leBytes n (x / 256) := by
  simp [leBytes, List.range_succ_eq_map, Nat.pow_succ', Nat.div_div_eq_div_mul]

theorem leBytes_leNat (bs : List UInt8) : leBytes bs.length (leNat bs) = bs := by
  induction bs with
  | nil => rfl
  | cons b bs ih =>
    have hb : b.toNat < 256 := b.toNat_lt
    have hdiv : (b.toNat + 256 * leNat bs) / 256 = leNat bs := by omega
    rw [List.length_cons, leBytes_succ, leNat_cons, hdiv, ih]
    congr 1
    apply UInt8.toNat_inj.1
    rw [UInt8.toNat_ofNat']; omega

theorem u32FromBe_leNat (h : bs.length = 4) :
    u32FromBe (UInt32.ofNat (leNat bs)) = UInt32.ofNat (leNat bs.reverse) := by
  have hlt : leNat bs < 256 ^ 4 := h ▸ leNat_lt bs
  rw [u32FromBe, UInt32.toNat_ofNat_of_lt' hlt, ← h, leBytes_leNat]

theorem u16FromBe_leNat (h : bs.length = 2) :
    u16FromBe (UInt16.ofNat (leNat bs)) = UInt16.ofNat (leNat bs.reverse) := by
  have hlt : leNat bs < 256 ^ 2 := h ▸ leNat_lt bs
  rw [u16FromBe, UInt16.toNat_ofNat_of_lt' hlt, ← h, leBytes_leNat]

theorem bpfProbeRead_toList (h : (mem.read addr n).map Vector.toList = some bs) :
    (bpfProbeRead mem addr n).toList = bs := by
  obtain ⟨v, hv, rfl⟩ := Option.map_eq_some_iff.1 h
  rw [bpfProbeRead, hv]; rfl

theorem leNat_networkOrder (p : UInt16) : UInt16.ofNat (leNat (networkOrder p).reverse) = p := by
  have hp : p.toNat < 2 ^ 16 := p.toNat_lt
  apply UInt16.toNat_inj.1
  simp only [networkOrder, List.reverse_cons, List.reverse_nil, List.nil_append, List.singleton_append,
    leNat_cons, UInt16.toNat_toUInt8, UInt16.toNat_shiftRight, UInt16.toNat_ofNat']
  simp [leNat, Nat.shiftRight_eq_div_pow]; omega

/-! ### Packing and unpacking -/

def Ipv4.toUInt32 (x : Ipv4) : UInt32 := UInt32.ofNat (leNat x.bytes.reverse)

/-- The packed word holds the local address and the peer's port. -/
theorem SockCommon.StoredAt.clientPacked (h : s.StoredAt c.kernelMem (c.arg 0)) (h0 : c.arg 0 ≠ 0) :
    clientPacked c = s.rcvSaddr.toUInt32.toUInt64 <<< 16 ||| s.dport.toUInt64 := by
  have hport : (bpfProbeRead c.kernelMem (c.arg 0 + 12) 2).toList = networkOrder s.dport :=
    bpfProbeRead_toList h.dport
  have hip : (bpfProbeRead c.kernelMem (c.arg 0 + 4) 4).toList = s.rcvSaddr.bytes :=
    bpfProbeRead_toList h.rcvSaddr
  have hne : (c.arg 0 != 0) = true := by simpa using h0
  unfold RedisTracer.clientPacked
  simp only [hne, if_true, hport, hip]
  rw [u32FromBe_leNat rfl, u16FromBe_leNat rfl, leNat_networkOrder, Ipv4.toUInt32]

section
variable (ip : UInt32) (port : UInt16)

theorem pack_bounds : port.toUInt64.toNat < 2 ^ (16 : UInt64).toNat ∧
    ip.toUInt64.toNat * 2 ^ (16 : UInt64).toNat < 2 ^ 64 := by
  have hport : port.toNat < 2 ^ 16 := port.toNat_lt
  have hip : ip.toNat < 2 ^ 32 := ip.toNat_lt
  have hk : (16 : UInt64).toNat = 16 := rfl
  rw [UInt16.toNat_toUInt64, UInt32.toNat_toUInt64, hk]
  omega

theorem unpack_ip : ((ip.toUInt64 <<< 16 ||| port.toUInt64) >>> 16).toUInt32 = ip := by
  obtain ⟨hlo, hhi⟩ := pack_bounds ip port
  apply UInt32.toNat_inj.1
  rw [UInt64.toNat_toUInt32, toNat_high (by decide) hlo hhi, UInt32.toNat_toUInt64]
  exact Nat.mod_eq_of_lt ip.toNat_lt

theorem unpack_port : ((ip.toUInt64 <<< 16 ||| port.toUInt64) &&& 0xFFFF).toUInt16 = port := by
  obtain ⟨hlo, hhi⟩ := pack_bounds ip port
  apply UInt16.toNat_inj.1
  rw [UInt64.toNat_toUInt16, toNat_low (by decide) hlo hhi rfl, UInt16.toNat_toUInt64]
  exact Nat.mod_eq_of_lt port.toNat_lt

end

/-! ### Printing -/

theorem toNat_mask (ip : UInt32) : (ip &&& 0xFF).toNat = ip.toNat % 2 ^ 8 := by
  have hmask : (0xFF : UInt32).toNat = 2 ^ 8 - 1 := rfl
  rw [UInt32.toNat_and, hmask, Nat.and_two_pow_sub_one_eq_mod]

theorem toNat_shift_mask (ip : UInt32) {k : UInt32} (n : Nat) (hk : k.toNat = n) (hn : n < 32) :
    ((ip >>> k) &&& 0xFF).toNat = ip.toNat / 2 ^ n % 2 ^ 8 := by
  rw [toNat_mask, UInt32.toNat_shiftRight, hk, Nat.mod_eq_of_lt hn, Nat.shiftRight_eq_div_pow]

namespace Ipv4
variable {x y : Ipv4}

theorem toNat_toUInt32 (x : Ipv4) : x.toUInt32.toNat =
    x.d.toNat + 256 * (x.c.toNat + 256 * (x.b.toNat + 256 * x.a.toNat)) := by
  have hlt : leNat x.bytes.reverse < 256 ^ 4 := leNat_lt x.bytes.reverse
  have hsum : leNat x.bytes.reverse = x.d.toNat + 256 * (x.c.toNat + 256 * (x.b.toNat + 256 * x.a.toNat)) := by
    simp [bytes, leNat]
  rw [toUInt32, UInt32.toNat_ofNat_of_lt' hlt, hsum]

theorem ipv4Str_toUInt32 (x : Ipv4) : ipv4Str x.toUInt32 = x.dotted := by
  have ha : x.a.toNat < 256 := x.a.toNat_lt
  have hb : x.b.toNat < 256 := x.b.toNat_lt
  have hc : x.c.toNat < 256 := x.c.toNat_lt
  have hd : x.d.toNat < 256 := x.d.toNat_lt
  have hnat := x.toNat_toUInt32
  have h24 : toString ((x.toUInt32 >>> 24) &&& 0xFF) = toString x.a := by
    show Nat.repr _ = Nat.repr _
    rw [toNat_shift_mask _ 24 rfl (by omega), hnat]; congr 1; omega
  have h16 : toString ((x.toUInt32 >>> 16) &&& 0xFF) = toString x.b := by
    show Nat.repr _ = Nat.repr _
    rw [toNat_shift_mask _ 16 rfl (by omega), hnat]; congr 1; omega
  have h8 : toString ((x.toUInt32 >>> 8) &&& 0xFF) = toString x.c := by
    show Nat.repr _ = Nat.repr _
    rw [toNat_shift_mask _ 8 rfl (by omega), hnat]; congr 1; omega
  have h0 : toString (x.toUInt32 &&& 0xFF) = toString x.d := by
    show Nat.repr _ = Nat.repr _
    rw [toNat_mask, hnat]; congr 1; omega
  rw [ipv4Str, h24, h16, h8, h0, dotted]

theorem toList_dotted (x : Ipv4) : x.dotted.toList =
    ['.'].intercalate (x.bytes.map fun b => Nat.toDigits 10 b.toNat) := by
  simp [dotted, bytes, toString, Nat.toList_repr, List.intercalate]

theorem dotted_injective (h : x.dotted = y.dotted) : x = y := by
  have hdot : ∀ z : Ipv4, ∀ l ∈ z.bytes.map fun b => Nat.toDigits 10 b.toNat, '.' ∉ l := by
    intro z l hl hmem
    obtain ⟨b, -, rfl⟩ := List.mem_map.1 hl
    exact absurd (Nat.isDigit_of_mem_toDigits (by omega) (by omega) hmem) (by decide)
  have hsplit : ∀ z : Ipv4, List.splitOn '.' z.dotted.toList =
      z.bytes.map fun b => Nat.toDigits 10 b.toNat := fun z => by
    rw [toList_dotted]; exact List.splitOn_intercalate '.' (hdot z) (by simp [bytes])
  have hbytes : x.bytes = y.bytes := by
    refine List.map_injective_iff.2 (fun a b hab => ?_) ((hsplit x).symm.trans (h ▸ hsplit y))
    refine UInt8.toNat_inj.1 (Nat.repr_injective (String.toList_inj.1 ?_))
    rw [Nat.toList_repr, Nat.toList_repr]; exact hab
  cases x; cases y
  simpa [bytes] using hbytes

theorem toUInt32_injective (h : x.toUInt32 = y.toUInt32) : x = y :=
  dotted_injective (by rw [← ipv4Str_toUInt32, h, ipv4Str_toUInt32])

end Ipv4

/-! ### End to end -/

/-- The event of the send at `j` is made of a receive on the socket `s`. -/
def ReceivedOn (target : UInt32) (tr : Trace ncpu) (j : Nat) (ctx : ProbeCtx ncpu) (s : SockCommon) :
    Prop :=
  ∃ i c, LastBefore (RecvUnder target ctx.tgid tr) j i ∧ tr[i]? = some (.recvmsg c) ∧ c.arg 0 ≠ 0 ∧
    s.StoredAt c.kernelMem (c.arg 0)

theorem OutputAt.clientPacked (h : OutputAt target tr j ctx o) (hs : ReceivedOn target tr j ctx s) :
    o.event.clientIp = s.rcvSaddr.toUInt32 ∧ o.event.clientPort = s.dport := by
  obtain ⟨v, i, c, hfrom, -, -, he⟩ := h.origin
  obtain ⟨i', c', hlast, hc', h0, hstored⟩ := hs
  obtain rfl : i = i' := hfrom.latest.unique hlast
  cases hfrom.inserted.1.symm.trans hc'
  rw [he, latencyEvent]
  dsimp only
  rw [hfrom.clientPacked, hstored.clientPacked h0]
  exact ⟨unpack_ip _ _, unpack_port _ _⟩

/-- The event names the peer exactly when the local address of the socket equals it; with that, two
peers have two keys. -/
theorem client_address_iff (target : UInt32) (tr : Trace ncpu) :
    (∀ j ctx o s, OutputAt target tr j ctx o → ReceivedOn target tr j ctx s →
      ((o.event.clientPort = s.dport ∧ ipv4Str o.event.clientIp = s.daddr.dotted) ↔
        s.rcvSaddr = s.daddr)) ∧
    ∀ j j' ctx ctx' o o' s s', OutputAt target tr j ctx o → OutputAt target tr j' ctx' o' →
      ReceivedOn target tr j ctx s → ReceivedOn target tr j' ctx' s' → s.rcvSaddr = s.daddr →
      s'.rcvSaddr = s'.daddr → s.daddr ≠ s'.daddr → o.event.clientIp ≠ o'.event.clientIp := by
  refine ⟨fun j ctx o s ho hs => ?_, fun j j' ctx ctx' o o' s s' ho ho' hs hs' hl hl' hne heq => ?_⟩
  · obtain ⟨hip, hport⟩ := ho.clientPacked hs
    rw [hip, hport, Ipv4.ipv4Str_toUInt32]
    exact ⟨fun h => Ipv4.dotted_injective h.2, fun h => ⟨rfl, congrArg Ipv4.dotted h⟩⟩
  · rw [(ho.clientPacked hs).1, (ho'.clientPacked hs').1, hl, hl'] at heq
    exact hne (Ipv4.toUInt32_injective heq)

/-! ### One reply on a socket -/

/-- The socket lies at address `64`. -/
def sockCtx (s : SockCommon) (now : UInt64) : ProbeCtx 1 :=
  { bareCtx (Fin.last 0) 100 101 now 64 with
    kernelMem := fun a =>
      (s.daddr.bytes ++ s.rcvSaddr.bytes ++ [0, 0, 0, 0] ++ networkOrder s.dport)[(a - 64).toNat]? }

def replyOn (s : SockCommon) : Trace 1 :=
  [.recvmsg (sockCtx s 0), .recvmsgRet (sockCtx s 1), .sendmsg (sockCtx s 2)]

theorem storedAt_sockCtx (s : SockCommon) (now : UInt64) : s.StoredAt (sockCtx s now).kernelMem 64 :=
  ⟨rfl, rfl, rfl⟩

theorem replyOn_receivedOn (s : SockCommon) : ReceivedOn 0 (replyOn s) 2 (sockCtx s 2) s := by
  have htouches : Touches 0 (sockCtx s 2).tgid (sockCtx s 0) := ⟨accepts_zero _, rfl⟩
  have hsock : (sockCtx s 0).arg 0 ≠ 0 := by show (64 : UInt64) ≠ 0; decide
  refine ⟨0, sockCtx s 0, ⟨by omega, ⟨_, rfl, htouches⟩, fun l h1 h2 => ?_⟩, rfl, hsock,
    storedAt_sockCtx s 0⟩
  obtain rfl : l = 1 := by omega
  simp [RecvUnder, replyOn]

theorem replyOn_output (s : SockCommon) : ∃ o, OutputAt 0 (replyOn s) 2 (sockCtx s 2) o := by
  have htouches : ∀ now, Touches 0 100 (sockCtx s now) := fun now =>
    ⟨accepts_zero _, bareCtx_tgid (Fin.last 0) 100 101 now 64⟩
  have hclock : MonotonicClock (replyOn s) := by
    simp [MonotonicClock, replyOn, ProbeRun.ctx, sockCtx]
  exact reply_output (htouches 0) (htouches 2) hclock
    (by simp only [sockCtx, bareCtx_ktimeNs, UInt64.reduceToNat]; omega)

def loopback : SockCommon := ⟨⟨127, 0, 0, 1⟩, ⟨127, 0, 0, 1⟩, 40000⟩

def remote : SockCommon := ⟨⟨192, 168, 0, 7⟩, ⟨10, 0, 0, 1⟩, 40000⟩

theorem client_address_iff_loopback : ∃ o, OutputAt 0 (replyOn loopback) 2 (sockCtx loopback 2) o ∧
    ((o.event.clientPort = 40000 ∧ ipv4Str o.event.clientIp = "127.0.0.1") ↔
      loopback.rcvSaddr = loopback.daddr) := by
  obtain ⟨o, ho⟩ := replyOn_output loopback
  exact ⟨o, ho, (client_address_iff 0 (replyOn loopback)).1 2 _ o loopback ho
    (replyOn_receivedOn loopback)⟩

/-- A request of `192.168.0.7` to `10.0.0.1` is counted for `10.0.0.1`. -/
theorem not_client_address : ¬ ∀ (tr : Trace 1) j ctx o s, OutputAt 0 tr j ctx o →
    ReceivedOn 0 tr j ctx s →
    o.event.clientPort = s.dport ∧ ipv4Str o.event.clientIp = s.daddr.dotted := by
  intro hall
  obtain ⟨o, ho⟩ := replyOn_output remote
  have hon := replyOn_receivedOn remote
  obtain ⟨-, hstr⟩ := hall _ 2 _ o remote ho hon
  rw [(ho.clientPacked hon).1, Ipv4.ipv4Str_toUInt32] at hstr
  exact absurd (Ipv4.dotted_injective hstr) (by decide)

end RedisTracer
