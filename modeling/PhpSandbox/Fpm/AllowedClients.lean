import PhpSandbox.Lib.CString

/-!
# Which web servers may connect

`fcgi_set_allowed_clients` and `fcgi_is_allowed` of `sapi/fpm/fpm/fastcgi.c`: the
list `listen.allowed_clients` (`FCGI_WEB_SERVER_ADDRS`) of the addresses that a
FastCGI connection may come from.

## The model

An address is its bytes. `inet_pton` of the C library turns an entry of the list
into one: four decimal numbers for IPv4, and for IPv6 eight groups of hexadecimal
digits, of which one run of zeros may be left out (`::`) and the last two may be
written as an IPv4 address.

## What is proved

`fcgiIsAllowed_iff`: which peers are let in. An IPv6 peer is compared in its first
twelve bytes only, so that every address that differs from a listed one in the last
four is let in as well. `fcgiIsAllowed_exact_iff`: the list is exact for the other
peers.
-/

namespace PhpSandbox.Fpm

open Lib

/-! ### Addresses and their texts -/

/-- An address. -/
inductive InetAddr where
  /-- `AF_INET`. -/
  | inet (addr : Vector UInt8 4)
  /-- `AF_INET6`. -/
  | inet6 (addr : Vector UInt8 16)
  deriving DecidableEq

/-- The value of a digit, in a base up to 16. -/
def digitValue (c : UInt8) : Option ℕ :=
  if 48 ≤ c ∧ c ≤ 57 then some (c.toNat - 48)
  else if 97 ≤ c ∧ c ≤ 102 then some (c.toNat - 87)
  else if 65 ≤ c ∧ c ≤ 70 then some (c.toNat - 55)
  else none

/-- The number that a text of digits stands for. -/
def number (base : ℕ) (s : Bytes) : Option ℕ :=
  s.foldlM (fun n c => (digitValue c).bind fun d => if d < base then some (n * base + d) else none) 0

variable (s : Bytes)

/-- One of the numbers of an IPv4 address: no other zero before a digit, and at most 255. -/
def octet : Option UInt8 :=
  if s = [] ∨ (s.head? = some 48 ∧ s.length ≠ 1) then none
  else (number 10 s).bind fun n => if n ≤ 255 then some (UInt8.ofNat n) else none

/-- `inet_pton(AF_INET, ...)`. -/
def inetPton4 : Option (Vector UInt8 4) :=
  match (s.splitOn 46).map octet with
  | [some a, some b, some c, some d] => some #v[a, b, c, d]
  | _ => none

/-- A group of an IPv6 address: one to four hexadecimal digits. -/
def group : Option Bytes :=
  if s = [] ∨ 4 < s.length then none
  else (number 16 s).map fun n => [UInt8.ofNat (n / 256), UInt8.ofNat (n % 256)]

/-- Groups, the last of which may be an IPv4 address if `mixed`. -/
def groups (mixed : Bool) : List Bytes → Option Bytes
  | [] => some []
  | [s] => if mixed ∧ 46 ∈ s then (inetPton4 s).map Vector.toList else group s
  | s :: rest => (group s).bind fun g => (groups mixed rest).map (g ++ ·)

/-- Groups between colons; none in the empty text. -/
def colonGroups (mixed : Bool) (s : Bytes) : Option Bytes :=
  if s = [] then some [] else groups mixed (s.splitOn 58)

/-- The bytes that a text of an IPv6 address gives, with the zeros for `::`. -/
def inet6Bytes : Option Bytes :=
  match strstr (ascii "::") s with
  | none => colonGroups true s
  | some k =>
    match colonGroups false (s.take k), colonGroups true (s.drop (k + 2)) with
    | some front, some back =>
      if front.length + back.length < 16 then
        some (front ++ List.replicate (16 - (front.length + back.length)) 0 ++ back)
      else none
    | _, _ => none

/-- `inet_pton(AF_INET6, ...)`. -/
def inetPton6 : Option (Vector UInt8 16) :=
  match inet6Bytes s with
  | none => none
  | some bytes => if h : bytes.length = 16 then some ⟨bytes.toArray, h⟩ else none

example : inetPton4 (ascii "127.0.0.1") = some #v[127, 0, 0, 1] := by decide +kernel

example : inetPton6 (ascii "2001:db8::ffff:1.2.3.4") =
    some #v[0x20, 1, 0xd, 0xb8, 0, 0, 0, 0, 0, 0, 0xff, 0xff, 1, 2, 3, 4] := by decide +kernel

/-! ### The list and the check -/

/-- An entry of the list. -/
def entryAddr (cur : Bytes) : Option InetAddr :=
  match inetPton4 cur with
  | some addr => some (.inet addr)
  | none => (inetPton6 cur).map .inet6

/-- `fcgi_set_allowed_clients`: `allowed_clients`, up to its end mark. An entry that is no address
is left out. -/
def fcgiSetAllowedClients (ip : Option Bytes) : Option (List InetAddr) :=
  ip.map fun ip => (ip.splitOn 44).filterMap entryAddr

/-- `client_sa`, where a connection comes from. -/
inductive ClientSa where
  /-- `AF_UNIX`. -/
  | unix
  /-- `AF_INET` or `AF_INET6`. -/
  | ip (addr : InetAddr)
  /-- Another family. -/
  | other

/-- `IN6_IS_ADDR_V4MAPPED`. -/
def in6IsAddrV4Mapped (addr : Vector UInt8 16) : Bool :=
  addr.toList.take 12 == List.replicate 10 0 ++ [0xff, 0xff]

/-- The test of the loop for an IPv6 peer. -/
def inet6Matches (peer : Vector UInt8 16) : InetAddr → Bool
  | .inet6 addr => peer.toList.take 12 == addr.toList.take 12
  | .inet addr => in6IsAddrV4Mapped peer && peer.toList.drop 12 == addr.toList

/-- `fcgi_is_allowed`. -/
def fcgiIsAllowed (allowedClients : Option (List InetAddr)) : ClientSa → Bool
  | .unix => true
  | .ip (.inet peer) =>
    match allowedClients with
    | none => true
    | some clients => clients.any (· == .inet peer)
  | .ip (.inet6 peer) =>
    match allowedClients with
    | none => true
    | some clients => clients.any (inet6Matches peer)
  | .other => allowedClients.isNone

/-! ### Who is let in -/

/-- The addresses that the list names. -/
def Listed (ip : Bytes) (addr : InetAddr) : Prop := ∃ cur ∈ ip.splitOn 44, entryAddr cur = some addr

/-- The peer is an IPv4 address mapped to IPv6. -/
def IsMapped (peer : InetAddr) (addr : Vector UInt8 4) : Prop :=
  ∃ peer6 : Vector UInt8 16, peer = .inet6 peer6 ∧
    peer6.toList = List.replicate 10 0 ++ [0xff, 0xff] ++ addr.toList

/-- The intended rule: the peer is listed, as it is or as the IPv4 address it stands for. -/
def Intended (ip : Option Bytes) (peer : InetAddr) : Prop :=
  ∀ list, ip = some list → Listed list peer ∨ ∃ addr, IsMapped peer addr ∧ Listed list (.inet addr)

/-- The peer is an IPv6 address that agrees with a listed one in its first twelve bytes. -/
def PrefixListed (list : Bytes) (peer : InetAddr) : Prop :=
  ∃ peer6 addr : Vector UInt8 16, peer = .inet6 peer6 ∧ Listed list (.inet6 addr) ∧
    peer6.toList.take 12 = addr.toList.take 12

section Allowed

variable {list : Bytes} {peer : InetAddr}

theorem mem_fcgiSetAllowedClients {addr : InetAddr} {clients : List InetAddr}
    (h : fcgiSetAllowedClients (some list) = some clients) : addr ∈ clients ↔ Listed list addr := by
  cases h
  simp [Listed]

theorem inet6Matches_inet_iff {peer6 : Vector UInt8 16} {addr : Vector UInt8 4} :
    inet6Matches peer6 (.inet addr) ↔ IsMapped (.inet6 peer6) addr := by
  have hsplit : peer6.toList = peer6.toList.take 12 ++ peer6.toList.drop 12 :=
    (List.take_append_drop 12 _).symm
  simp only [inet6Matches, in6IsAddrV4Mapped, Bool.and_eq_true, beq_iff_eq, IsMapped]
  constructor
  · rintro ⟨hfront, hback⟩
    refine ⟨peer6, rfl, ?_⟩
    rw [hsplit, hfront, hback]
  · rintro ⟨_, heq, hbytes⟩
    cases heq
    rw [hbytes]
    exact ⟨List.take_left' (by decide), List.drop_left' (by decide)⟩

/-- **Who is let in**: a listed peer, an IPv4 peer that is listed though it comes as an IPv6 one, and
every peer that agrees with a listed IPv6 address in its first twelve bytes. -/
theorem fcgiIsAllowed_iff :
    fcgiIsAllowed (fcgiSetAllowedClients (some list)) (.ip peer) ↔
      Listed list peer ∨ (∃ addr, IsMapped peer addr ∧ Listed list (.inet addr)) ∨ PrefixListed list peer := by
  obtain ⟨clients, hclients⟩ : ∃ clients, fcgiSetAllowedClients (some list) = some clients := ⟨_, rfl⟩
  have hmem : ∀ addr, addr ∈ clients ↔ Listed list addr := fun addr => mem_fcgiSetAllowedClients hclients
  rw [hclients]
  cases peer with
  | inet peer4 =>
    have hmapped : ∀ addr, ¬ IsMapped (.inet peer4) addr := by
      rintro addr ⟨_, heq, -⟩
      cases heq
    have hprefix : ¬ PrefixListed list (.inet peer4) := by
      rintro ⟨_, _, heq, -⟩
      cases heq
    simp [fcgiIsAllowed, hmem, hmapped, hprefix]
  | inet6 peer6 =>
    simp only [fcgiIsAllowed, List.any_eq_true, hmem]
    constructor
    · rintro ⟨addr, hlisted, hmatch⟩
      cases addr with
      | inet addr4 => exact .inr (.inl ⟨addr4, inet6Matches_inet_iff.mp hmatch, hlisted⟩)
      | inet6 addr6 => exact .inr (.inr ⟨peer6, addr6, rfl, hlisted, by simpa [inet6Matches] using hmatch⟩)
    · rintro (hlisted | ⟨addr4, hmapped, hlisted⟩ | ⟨_, addr6, heq, hlisted, hbytes⟩)
      · exact ⟨.inet6 peer6, hlisted, by simp [inet6Matches]⟩
      · exact ⟨.inet addr4, hlisted, inet6Matches_inet_iff.mpr hmapped⟩
      · cases heq
        exact ⟨.inet6 addr6, hlisted, by simpa [inet6Matches] using hbytes⟩

end Allowed

/-- **When the list is exact**: unless the peer agrees with a listed IPv6 address in its first twelve
bytes and is not to be let in. -/
theorem fcgiIsAllowed_exact_iff (ip : Option Bytes) (peer : InetAddr) :
    (fcgiIsAllowed (fcgiSetAllowedClients ip) (.ip peer) ↔ Intended ip peer) ↔
      ∀ list, ip = some list → PrefixListed list peer →
        Listed list peer ∨ ∃ addr, IsMapped peer addr ∧ Listed list (.inet addr) := by
  cases ip with
  | none =>
    have hallowed : fcgiIsAllowed (fcgiSetAllowedClients none) (.ip peer) = true := by cases peer <;> rfl
    simp [hallowed, Intended]
  | some list =>
    rw [fcgiIsAllowed_iff, ← or_assoc]
    simp only [Intended, Option.some.injEq, forall_eq']
    exact or_iff_left_iff_imp

/-- With `2001:db8::1` on the list, `2001:db8::2` is let in. -/
theorem fcgiIsAllowed_inexact :
    ∃ (list : Bytes) (peer : InetAddr), fcgiIsAllowed (fcgiSetAllowedClients (some list)) (.ip peer) ∧
      ¬ Intended (some list) peer := by
  have hlist : (ascii "2001:db8::1").splitOn 44 = [ascii "2001:db8::1"] := by decide +kernel
  have hentry : entryAddr (ascii "2001:db8::1") =
      some (.inet6 #v[0x20, 1, 0xd, 0xb8, 0, 0, 0, 0, 0, 0, 0, 0, 0, 0, 0, 1]) := by decide +kernel
  refine ⟨ascii "2001:db8::1", .inet6 #v[0x20, 1, 0xd, 0xb8, 0, 0, 0, 0, 0, 0, 0, 0, 0, 0, 0, 2],
    by decide +kernel, fun hintended => ?_⟩
  rcases hintended _ rfl with ⟨cur, hcur, haddr⟩ | ⟨addr, ⟨_, heq, hbytes⟩, -⟩
  · rw [hlist, List.mem_singleton] at hcur
    subst hcur
    rw [hentry] at haddr
    revert haddr
    decide
  · cases heq
    have hfirst := congrArg List.head? hbytes
    revert hfirst
    simp

end PhpSandbox.Fpm
