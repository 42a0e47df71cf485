import PiVpn.Lib.Text
import PiVpn.Lib.Cidr

/-! The part of the standard `ipaddress` module the program rests on: reading an
interface or a network from text, and writing it back. -/

namespace Ipaddress
open Text Cidr

/-! ## Reading -/

def natOfDigits (s : Text) : Nat := s.foldl (fun n c => 10 * n + (c.toNat - 48)) 0

/-- `_parse_octet`. -/
def parseOctet (s : Text) : Option Nat :=
  if s = [] then none
  else if ¬ s.all Char.isDigit then none
  else if 3 < s.length then none
  else if s ≠ ['0'] ∧ s.head? = some '0' then none
  else if 255 < natOfDigits s then none
  else some (natOfDigits s)

/-- `_BaseV4._ip_int_from_string`. -/
def ipv4OfString (s : Text) : Option (BitVec 32) :=
  match s.splitOn '.' with
  | [a, b, c, d] => do
    let a ← parseOctet a
    let b ← parseOctet b
    let c ← parseOctet c
    let d ← parseOctet d
    pure (BitVec.ofNat 32 (((a * 256 + b) * 256 + c) * 256 + d))
  | _ => none

def isHexDigit (c : Char) : Bool :=
  c.isDigit || ('a' ≤ c && c ≤ 'f') || ('A' ≤ c && c ≤ 'F')

def hexValue (c : Char) : Nat :=
  if c.isDigit then c.toNat - 48 else if 'a' ≤ c then c.toNat - 87 else c.toNat - 55

/-- `_parse_hextet`; `int("", 16)` raises. -/
def parseHextet (s : Text) : Option Nat :=
  if ¬ s.all isHexDigit then none
  else if 4 < s.length then none
  else if s = [] then none
  else some (s.foldl (fun n c => 16 * n + hexValue c) 0)

/-- An IPv4-style last part is turned into two hexadecimal ones. -/
def expandSuffix (parts : List Text) : Option (List Text) :=
  match parts.getLast? with
  | none => none
  | some last =>
    if '.' ∈ last then do
      let v4 ← ipv4OfString last
      pure (parts.dropLast ++
        [Nat.toDigits 16 (v4.toNat / 65536), Nat.toDigits 16 (v4.toNat % 65536)])
    else some parts

/-- The indices strictly inside `parts` where a part is empty. -/
def innerEmpty (parts : List Text) : List Nat :=
  (List.range parts.length).filter fun i =>
    0 < i && i + 1 < parts.length && parts[i]? == some []

/-- How many parts to read before and after the `::`, and how many it stands for. -/
def layout (parts : List Text) : Option (Nat × Nat × Nat) :=
  match innerEmpty parts with
  | [] =>
    if parts.length ≠ 8 ∨ parts.head? = some [] ∨ parts.getLast? = some [] then none
    else some (8, 0, 0)
  | [skip] =>
    let hi := skip
    let lo := parts.length - skip - 1
    let hi' := if parts.head? = some [] then hi - 1 else hi
    let lo' := if parts.getLast? = some [] then lo - 1 else lo
    if parts.head? = some [] ∧ hi' ≠ 0 then none
    else if parts.getLast? = some [] ∧ lo' ≠ 0 then none
    else if 8 < hi' + lo' + 1 then none
    else some (hi', lo', 8 - (hi' + lo'))
  | _ => none

/-- `_BaseV6._ip_int_from_string`. -/
def ipv6OfString (s : Text) : Option (BitVec 128) := do
  let parts := s.splitOn ':'
  if s = [] ∨ parts.length < 3 then none
  else
    let parts ← expandSuffix parts
    if 9 < parts.length then none
    else
      let (hi, lo, skipped) ← layout parts
      let front ← (parts.take hi).mapM parseHextet
      let back ← (parts.drop (parts.length - lo)).mapM parseHextet
      let fold := fun (n : Nat) (h : Nat) => n * 65536 + h
      pure (BitVec.ofNat 128 (back.foldl fold (front.foldl fold 0 * 65536 ^ skipped)))

/-- `_prefix_from_prefix_string`; `int` refuses more than 4300 digits. -/
def prefixOfDigits (w : Nat) (s : Text) : Option Nat :=
  if s ≠ [] ∧ s.all Char.isDigit ∧ s.length ≤ 4300 ∧ natOfDigits s ≤ w then some (natOfDigits s)
  else none

/-- `_prefix_from_ip_int`: ones, then zeros. -/
def prefixOfMask (m : BitVec 32) : Option Nat :=
  let zeros := ((List.range 32).takeWhile fun i => !m.getLsbD i).length
  if m.toNat / 2 ^ zeros = 2 ^ (32 - zeros) - 1 then some (32 - zeros) else none

/-- `_BaseV4._make_netmask`: a prefix length, a netmask or a hostmask. -/
def makeNetmask4 (s : Text) : Option Nat :=
  prefixOfDigits 32 s <|> do
    let m ← ipv4OfString s
    prefixOfMask m <|> prefixOfMask (~~~ m)

/-- `_split_optional_netmask`. -/
def splitPrefix (s : Text) : Option (Text × Option Text) :=
  match s.splitOn '/' with
  | [a] => some (a, none)
  | [a, m] => some (a, some m)
  | _ => none

/-- The zone of an IPv6 literal: any other text goes. -/
structure Scope where
  text : Text
  ne : text ≠ []
  noPercent : '%' ∉ text
  noSlash : '/' ∉ text
  deriving DecidableEq

/-- `_split_scope_id`, of a text that was cut at its slashes before. -/
def splitScope (s : Text) : Option (Text × Option Scope) :=
  if '%' ∉ s then some (s, none)
  else
    let scope := (s.dropWhile (· != '%')).drop 1
    if h : scope ≠ [] ∧ '%' ∉ scope ∧ '/' ∉ scope then
      some (s.takeWhile (· != '%'), some ⟨scope, h.1, h.2.1, h.2.2⟩)
    else none

def checkPrefix (w : Nat) (ip : BitVec w) (p : Nat) : Option (Interface w) :=
  if h : p ≤ w then some ⟨ip, p, h⟩ else none

def ipv4Interface (s : Text) : Option (Interface 32) := do
  let (addr, m) ← splitPrefix s
  let ip ← ipv4OfString addr
  let p ← match m with
    | none => some 32
    | some m => makeNetmask4 m
  checkPrefix 32 ip p

def ipv6Interface (s : Text) : Option (Interface 128 × Option Scope) := do
  let (addr, m) ← splitPrefix s
  let (addr, scope) ← splitScope addr
  let ip ← ipv6OfString addr
  let p ← match m with
    | none => some 128
    | some m => prefixOfDigits 128 m
  let i ← checkPrefix 128 ip p
  pure (i, scope)

/-- An interface of either version; only an IPv6 address carries a scope. -/
inductive IPInterface where
  | v4 (i : Interface 32)
  | v6 (i : Interface 128) (scope : Option Scope)
  deriving DecidableEq

inductive IPNetwork where
  | v4 (n : Network 32)
  | v6 (n : Network 128) (scope : Option Scope)
  deriving DecidableEq

def ipInterface (s : Text) : Option IPInterface :=
  (ipv4Interface s).map .v4 <|> (ipv6Interface s).map fun i => .v6 i.1 i.2

def hasHostBits {w : Nat} (i : Interface w) : Bool := i.ip &&& mask w i.prefixlen != i.ip

/-- Clearing the host bits also drops the scope. -/
def IPInterface.network : IPInterface → IPNetwork
  | .v4 i => .v4 i.network
  | .v6 i scope => .v6 i.network (if hasHostBits i then none else scope)

/-- `ip_network(s, strict=False)` reads the same texts as `ip_interface`. -/
def ipNetwork (s : Text) : Option IPNetwork := (ipInterface s).map IPInterface.network

/-- `IPv?Address(n)`: the smallest version that holds the number. -/
def ipInterfaceOfInt (n : Int) : Option IPInterface :=
  if 0 ≤ n ∧ n < 2 ^ 32 then some (.v4 ⟨BitVec.ofNat 32 n.toNat, 32, Nat.le_refl _⟩)
  else if 0 ≤ n ∧ n < 2 ^ 128 then some (.v6 ⟨BitVec.ofNat 128 n.toNat, 128, Nat.le_refl _⟩ none)
  else none

/-- `overlaps` is false between the versions. -/
def IPNetwork.overlaps : IPNetwork → IPNetwork → Bool
  | .v4 n, .v4 m => n.overlaps m
  | .v6 n _, .v6 m _ => n.overlaps m
  | _, _ => false

/-- An address of either version. -/
inductive IPAddress where
  | v4 (a : BitVec 32)
  | v6 (a : BitVec 128)
  deriving DecidableEq

def IPNetwork.contains : IPNetwork → IPAddress → Bool
  | .v4 n, .v4 a => n.contains a
  | .v6 n _, .v6 a => n.contains a
  | _, _ => false

theorem IPNetwork.overlaps_iff_common {n m : IPNetwork} :
    n.overlaps m = true ↔ ∃ a, n.contains a = true ∧ m.contains a = true := by
  constructor
  · intro h
    cases n <;> cases m
    · obtain ⟨a, ha⟩ := Network.overlaps_iff_common.mp h
      exact ⟨.v4 a, ha⟩
    · exact absurd h Bool.false_ne_true
    · exact absurd h Bool.false_ne_true
    · obtain ⟨a, ha⟩ := Network.overlaps_iff_common.mp h
      exact ⟨.v6 a, ha⟩
  · rintro ⟨a, hn, hm⟩
    cases n <;> cases m <;> cases a <;>
      simp only [contains, Bool.false_eq_true] at hn hm
    · exact Network.overlaps_iff_common.mpr ⟨_, hn, hm⟩
    · exact Network.overlaps_iff_common.mpr ⟨_, hn, hm⟩

/-- `IPv4Network.hosts`: without the network and broadcast address below /31. -/
def hosts (n : Network 32) : List (BitVec 32) :=
  if n.prefixlen = 32 then [n.address]
  else if n.prefixlen = 31 then [n.address, n.broadcast]
  else (List.range' (n.address.toNat + 1) (n.broadcast.toNat - (n.address.toNat + 1))).map
    (BitVec.ofNat 32)

/-! ## Writing -/

def octets (a : BitVec 32) : List Nat :=
  [a.toNat / 16777216, a.toNat / 65536 % 256, a.toNat / 256 % 256, a.toNat % 256]

def ipv4Str (a : BitVec 32) : Text := ['.'].intercalate ((octets a).map decimal)

def hextets (a : BitVec 128) : List Text :=
  (List.range 8).map fun i => Nat.toDigits 16 (a.toNat / 65536 ^ (7 - i) % 65536)

/-- The longest run of zeros so far, and the run being read. -/
structure ZeroRun where
  bestStart : Nat
  bestLen : Nat
  start : Option Nat
  len : Nat

def ZeroRun.step (r : ZeroRun) (index : Nat) (hextet : Text) : ZeroRun :=
  if hextet = ['0'] then
    let start := r.start.getD index
    let len := r.len + 1
    if r.bestLen < len then ⟨start, len, some start, len⟩ else ⟨r.bestStart, r.bestLen, some start, len⟩
  else ⟨r.bestStart, r.bestLen, none, 0⟩

/-- `_compress_hextets`. -/
def compressHextets (hs : List Text) : List Text :=
  let r := hs.zipIdx.foldl (fun (r : ZeroRun) h => r.step h.2 h.1) ⟨0, 0, none, 0⟩
  if 1 < r.bestLen then
    let tail := hs.drop (r.bestStart + r.bestLen)
    let tail := if tail = [] then [[]] else tail
    let middle := hs.take r.bestStart ++ [[]] ++ tail
    if r.bestStart = 0 then [] :: middle else middle
  else hs

def ipv6OfInt (a : BitVec 128) : Text := [':'].intercalate (compressHextets (hextets a))

/-- An IPv4-mapped address keeps its dotted half. -/
def ipv6Digits (a : BitVec 128) : Text :=
  if a.toNat / 2 ^ 32 = 0xffff then
    ipv6OfInt (BitVec.ofNat 128 0xffff) ++ [':'] ++ ipv4Str (BitVec.ofNat 32 a.toNat)
  else ipv6OfInt a

def scopeText : Option Scope → Text
  | none => []
  | some s => '%' :: s.text

/-- `IPv6Address.__str__`. -/
def ipv6Str (a : BitVec 128) (scope : Option Scope) : Text := ipv6Digits a ++ scopeText scope

def withPrefix (ip : Text) (p : Nat) : Text := ip ++ ['/'] ++ decimal p

def IPInterface.str : IPInterface → Text
  | .v4 i => withPrefix (ipv4Str i.ip) i.prefixlen
  | .v6 i scope => withPrefix (ipv6Str i.ip scope) i.prefixlen

def IPNetwork.str : IPNetwork → Text
  | .v4 n => withPrefix (ipv4Str n.address) n.prefixlen
  | .v6 n scope => withPrefix (ipv6Str n.address scope) n.prefixlen

/-! ## What is written reads back -/

theorem parseOctet_decimal {n : Nat} (h : n < 256) : parseOctet (decimal n) = some n := by
  have hall : ∀ n < 256, parseOctet (decimal n) = some n := by decide +kernel
  exact hall n h

theorem isDigit_of_mem_decimal {n : Nat} {c : Char} (h : c ∈ decimal n) : c.isDigit :=
  Nat.isDigit_of_mem_toDigits (by decide) (by decide) h

theorem not_mem_decimal {n : Nat} {c : Char} (hc : ¬ c.isDigit) : c ∉ decimal n :=
  fun h => hc (isDigit_of_mem_decimal h)

theorem splitOn_ipv4Str (a : BitVec 32) : (ipv4Str a).splitOn '.' = (octets a).map decimal := by
  apply List.splitOn_intercalate
  · intro t ht
    obtain ⟨n, -, rfl⟩ := List.mem_map.mp ht
    exact not_mem_decimal (by decide)
  · simp [octets]

theorem ipv4OfString_ipv4Str (a : BitVec 32) : ipv4OfString (ipv4Str a) = some a := by
  have hlt := a.isLt
  simp only [ipv4OfString, splitOn_ipv4Str]
  simp only [octets, List.map_cons, List.map_nil]
  rw [parseOctet_decimal (by omega), parseOctet_decimal (by omega), parseOctet_decimal (by omega),
    parseOctet_decimal (by omega)]
  simp only [Option.bind_eq_bind, Option.bind_some, Option.pure_def, Option.some.injEq]
  apply BitVec.eq_of_toNat_eq
  simp only [BitVec.toNat_ofNat]
  omega

theorem not_mem_ipv4Str {a : BitVec 32} {c : Char} (hc : ¬ c.isDigit) (hd : c ≠ '.') :
    c ∉ ipv4Str a := by
  simp [ipv4Str, octets, List.intercalate, not_mem_decimal hc, hd]

theorem prefixOfDigits_decimal {w p : Nat} (hw : w ≤ 128) (h : p ≤ w) :
    prefixOfDigits w (decimal p) = some p := by
  have hall : ∀ p ≤ 128, decimal p ≠ [] ∧ (decimal p).all Char.isDigit ∧
      (decimal p).length ≤ 4300 ∧ natOfDigits (decimal p) = p := by decide +kernel
  obtain ⟨h1, h2, h3, h4⟩ := hall p (h.trans hw)
  simp [prefixOfDigits, h1, h2, h3, h4, h]

theorem makeNetmask4_decimal {p : Nat} (h : p ≤ 32) : makeNetmask4 (decimal p) = some p := by
  simp [makeNetmask4, prefixOfDigits_decimal (by decide) h]

theorem splitPrefix_append {a m : Text} (ha : '/' ∉ a) (hm : '/' ∉ m) :
    splitPrefix (a ++ '/' :: m) = some (a, some m) := by
  rw [splitPrefix, List.splitOn_append_cons_self_of_not_mem ha, List.splitOn_eq_singleton hm]

theorem makeNetmask4_ipv4Str_mask {p : Nat} (h : p ≤ 32) :
    makeNetmask4 (ipv4Str (mask 32 p)) = some p := by
  have hall : ∀ p ≤ 32, makeNetmask4 (ipv4Str (mask 32 p)) = some p := by decide +kernel
  exact hall p h

theorem ipv4Interface_str (a : BitVec 32) {m : Text} {p : Nat} (hm : '/' ∉ m)
    (hp : makeNetmask4 m = some p) (h : p ≤ 32) :
    ipv4Interface (ipv4Str a ++ '/' :: m) = some ⟨a, p, h⟩ := by
  simp [ipv4Interface, splitPrefix_append (not_mem_ipv4Str (by decide) (by decide)) hm,
    ipv4OfString_ipv4Str, hp, checkPrefix, h]

theorem ipInterface_str (i : Interface 32) : ipInterface (IPInterface.v4 i).str = some (.v4 i) := by
  rw [ipInterface, IPInterface.str, withPrefix, List.append_assoc, List.singleton_append,
    ipv4Interface_str i.ip (not_mem_decimal (by decide)) (makeNetmask4_decimal i.le) i.le]
  rfl

/-- An address with its netmask reads as the address with its prefix length. -/
theorem ipInterface_netmask (i : Interface 32) :
    ipInterface (ipv4Str i.ip ++ '/' :: ipv4Str (mask 32 i.prefixlen)) = some (.v4 i) := by
  rw [ipInterface, ipv4Interface_str i.ip (not_mem_ipv4Str (by decide) (by decide))
    (makeNetmask4_ipv4Str_mask i.le) i.le]
  rfl

/-! ## What the written text is made of -/

/-- The characters of a written address. -/
def addressChars : Text :=
  ['0', '1', '2', '3', '4', '5', '6', '7', '8', '9', 'a', 'b', 'c', 'd', 'e', 'f', '.', ':']

theorem mem_toDigits {b n : Nat} (hb : 1 < b) (hb' : b ≤ 16) {c : Char}
    (hc : c ∈ Nat.toDigits b n) : c ∈ addressChars := by
  have hdigit : ∀ d < 16, Nat.digitChar d ∈ addressChars := by decide
  induction n using Nat.strongRecOn with
  | ind n ih =>
    rw [Nat.toDigits_eq_if hb] at hc
    by_cases hn : n < b
    · rw [if_pos hn, List.mem_singleton] at hc
      exact hc ▸ hdigit n (by omega)
    · rw [if_neg hn, List.mem_append, List.mem_singleton] at hc
      rcases hc with hc | rfl
      · exact ih (n / b) (Nat.div_lt_self (by omega) hb) hc
      · exact hdigit _ (lt_of_lt_of_le (Nat.mod_lt _ (by omega)) hb')

theorem mem_intercalate {sep : Text} {ts : List Text} {c : Char}
    (h : c ∈ sep.intercalate ts) : c ∈ sep ∨ ∃ t ∈ ts, c ∈ t := by
  induction ts with
  | nil => simp [List.intercalate] at h
  | cons t ts ih =>
    cases ts with
    | nil => exact .inr ⟨t, by simp, by simpa [List.intercalate] using h⟩
    | cons u ts =>
      rw [List.intercalate_cons_cons] at h
      simp only [List.mem_append] at h
      rcases h with (h | h) | h
      · exact .inr ⟨t, by simp, h⟩
      · exact .inl h
      · rcases ih h with h | ⟨v, hv, hc⟩
        · exact .inl h
        · exact .inr ⟨v, List.mem_cons_of_mem _ hv, hc⟩

theorem mem_ipv4Str {a : BitVec 32} {c : Char} (h : c ∈ ipv4Str a) : c ∈ addressChars := by
  rcases mem_intercalate h with h | ⟨t, ht, h⟩
  · rw [List.mem_singleton.mp h]
    decide
  · obtain ⟨n, -, rfl⟩ := List.mem_map.mp ht
    exact mem_toDigits (by decide) (by decide) h

theorem mem_compressHextets {hs : List Text} {t : Text} (h : t ∈ compressHextets hs) :
    t = [] ∨ t ∈ hs := by
  have htake : ∀ {n}, t ∈ hs.take n → t ∈ hs := List.mem_of_mem_take
  have hdrop : ∀ {n}, t ∈ hs.drop n → t ∈ hs := List.mem_of_mem_drop
  revert h
  unfold compressHextets
  simp only
  split
  · split <;> split <;> grind
  · exact .inr

theorem mem_ipv6OfInt {a : BitVec 128} {c : Char} (h : c ∈ ipv6OfInt a) : c ∈ addressChars := by
  rcases mem_intercalate h with h | ⟨t, ht, h⟩
  · rw [List.mem_singleton.mp h]
    decide
  · rcases mem_compressHextets ht with rfl | ht
    · simp at h
    · obtain ⟨i, -, rfl⟩ := List.mem_map.mp ht
      exact mem_toDigits (by decide) (by decide) h

theorem mem_ipv6Digits {a : BitVec 128} {c : Char} (h : c ∈ ipv6Digits a) : c ∈ addressChars := by
  unfold ipv6Digits at h
  split at h
  · simp only [List.mem_append, List.mem_singleton] at h
    rcases h with (h | rfl) | h
    · exact mem_ipv6OfInt h
    · decide
    · exact mem_ipv4Str h
  · exact mem_ipv6OfInt h

def IPInterface.scope : IPInterface → Option Scope
  | .v4 _ => none
  | .v6 _ scope => scope

def IPNetwork.scope : IPNetwork → Option Scope
  | .v4 _ => none
  | .v6 _ scope => scope

/-- A written address with its prefix: address characters, the zone, a slash, digits. -/
structure Written (t : Text) (scope : Option Scope) : Prop where
  eq : ∃ d p, t = d ++ (scopeText scope ++ '/' :: decimal p) ∧ ∀ c ∈ d, c ∈ addressChars

theorem written_withPrefix {d : Text} (scope : Option Scope) (p : Nat)
    (h : ∀ c ∈ d, c ∈ addressChars) : Written (withPrefix (d ++ scopeText scope) p) scope :=
  ⟨d, p, by simp [withPrefix], h⟩

theorem IPInterface.written (i : IPInterface) : Written i.str i.scope := by
  cases i with
  | v4 i =>
    have h := written_withPrefix none i.prefixlen fun _ => mem_ipv4Str (a := i.ip)
    rwa [scopeText, List.append_nil] at h
  | v6 i scope => exact written_withPrefix scope _ fun _ => mem_ipv6Digits

theorem IPNetwork.written (n : IPNetwork) : Written n.str n.scope := by
  cases n with
  | v4 n =>
    have h := written_withPrefix none n.prefixlen fun _ =>
      mem_ipv4Str (a := n.address)
    rwa [scopeText, List.append_nil] at h
  | v6 n scope => exact written_withPrefix scope _ fun _ => mem_ipv6Digits

end Ipaddress
