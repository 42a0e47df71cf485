import PiVpn.Python.Json
import PiVpn.Lib.Settings

/-! What the helper accepts: the two text patterns, the validators of the request
fields, and the values that passed them. -/

namespace Helper
open Text Pattern Ipaddress

/-! ## Patterns -/

def isTunnelNameChar (c : Char) : Bool :=
  ('a' ≤ c && c ≤ 'z') || ('A' ≤ c && c ≤ 'Z') || ('0' ≤ c && c ≤ '9') || c == '_' || c == '-'

/-- `^[a-zA-Z0-9_-]{1,15}$`. -/
def tunnelNamePattern : Pat :=
  .seq (.one isTunnelNameChar) (.seq (.upTo 14 isTunnelNameChar) .finalEnd)

def isKeyChar (c : Char) : Bool :=
  ('A' ≤ c && c ≤ 'Z') || ('a' ≤ c && c ≤ 'z') || ('0' ≤ c && c ≤ '9') || c == '+' || c == '/'

def isKeyLast (c : Char) : Bool :=
  ['A', 'E', 'I', 'M', 'Q', 'U', 'Y', 'c', 'g', 'k', 'o', 's', 'w', '0', '4', '8'].contains c

/-- `^[A-Za-z0-9+/]{42}[AEIMQUYcgkosw048]=$`. -/
def wgKeyPattern : Pat :=
  .seq (times isKeyChar 42) (.seq (.one isKeyLast) (.seq (.one (· == '=')) .finalEnd))

/-- A key of 44 characters and nothing after it. -/
structure FullKey (k : Text) : Prop where
  parts : ∃ body last, k = body ++ [last, '='] ∧ body.length = 42 ∧
    (∀ c ∈ body, isKeyChar c = true) ∧ isKeyLast last = true

theorem FullKey.length {k : Text} (h : FullKey k) : k.length = 44 := by
  obtain ⟨body, last, rfl, hlen, -⟩ := h.parts
  simp [hlen]

theorem isKeyChar_of_isKeyLast {c : Char} (h : isKeyLast c = true) : isKeyChar c = true := by
  simp only [isKeyLast, List.contains_eq_mem, List.mem_cons, List.not_mem_nil, or_false,
    decide_eq_true_eq] at h
  rcases h with rfl | rfl | rfl | rfl | rfl | rfl | rfl | rfl | rfl | rfl | rfl | rfl | rfl | rfl |
    rfl | rfl <;> decide

theorem FullKey.char {k : Text} (h : FullKey k) {c : Char} (hc : c ∈ k) :
    isKeyChar c = true ∨ c = '=' := by
  obtain ⟨body, last, rfl, -, hb, hl⟩ := h.parts
  simp only [List.mem_append, List.mem_cons, List.not_mem_nil, or_false] at hc
  rcases hc with hc | rfl | rfl
  · exact .inl (hb c hc)
  · exact .inl (isKeyChar_of_isKeyLast hl)
  · exact .inr rfl

theorem FullKey.not_mem {k : Text} (h : FullKey k) {c : Char} (hc : isKeyChar c = false)
    (hp : c ≠ '=') : c ∉ k := by
  intro hm
  rcases h.char hm with h' | h'
  · simp [h'] at hc
  · exact hp h'

theorem atFinalEnd_iff {t : Text} : atFinalEnd t = true ↔ t = [] ∨ t = ['\n'] := by
  simp [atFinalEnd]

theorem wgKeyPattern_iff {s : Text} :
    matchesAt wgKeyPattern s = true ↔ FullKey s ∨ ∃ k, FullKey k ∧ s = k ++ ['\n'] := by
  -- the pattern has one run at most: 42 characters, the last one, the sign and the end
  have hrun : matchesAt wgKeyPattern s = true ↔ ∃ body last t, s = body ++ last :: '=' :: t ∧
      body.length = 42 ∧ (∀ c ∈ body, isKeyChar c = true) ∧ isKeyLast last = true ∧
      (t = [] ∨ t = ['\n']) := by
    simp only [matchesAt, wgKeyPattern, Cursor.start, run, run_times, bne_iff_ne]
    by_cases hb : 42 ≤ s.length ∧ ∀ c ∈ s.take 42, isKeyChar c = true
    · rw [if_pos hb, List.flatMap_cons, List.flatMap_nil, List.append_nil]
      have hs : s = s.take 42 ++ s.drop 42 := (List.take_append_drop 42 s).symm
      have hlen : (s.take 42).length = 42 := List.length_take_of_le hb.1
      constructor
      · intro h
        rcases hd : s.drop 42 with _ | ⟨last, _ | ⟨p, t⟩⟩
        · simp [hd, Cursor.skip, run] at h
        · by_cases hl : isKeyLast last <;> simp [hd, Cursor.skip, run, hl] at h
        · by_cases hl : isKeyLast last
          · by_cases hp : p = '='
            · by_cases ht : atFinalEnd t = true
              · refine ⟨_, last, t, ?_, hlen, hb.2, hl, atFinalEnd_iff.mp ht⟩
                rw [← hp, ← hd]
                exact hs
              · simp [hd, Cursor.skip, run, hl, hp, ht] at h
            · simp [hd, Cursor.skip, run, hl, hp] at h
          · simp [hd, Cursor.skip, run, hl] at h
      · rintro ⟨body, last, t, rfl, hlen', hbody, hl, ht⟩
        rw [List.drop_left' hlen']
        simp [Cursor.skip, run, hl, atFinalEnd_iff.mpr ht]
    · rw [if_neg hb, List.flatMap_nil]
      refine iff_of_false (fun h => h rfl) ?_
      rintro ⟨body, last, t, rfl, hlen, hbody, -⟩
      refine hb ⟨by simp [hlen], ?_⟩
      rw [List.take_left' hlen]
      exact hbody
  rw [hrun]
  constructor
  · rintro ⟨body, last, t, rfl, hlen, hbody, hl, rfl | rfl⟩
    · exact .inl ⟨body, last, rfl, hlen, hbody, hl⟩
    · exact .inr ⟨body ++ [last, '='], ⟨body, last, rfl, hlen, hbody, hl⟩, by simp⟩
  · rintro (⟨body, last, rfl, hlen, hbody, hl⟩ | ⟨k, ⟨body, last, rfl, hlen, hbody, hl⟩, rfl⟩)
    · exact ⟨body, last, [], rfl, hlen, hbody, hl, .inl rfl⟩
    · exact ⟨body, last, ['\n'], by simp, hlen, hbody, hl, .inr rfl⟩

/-! ## Errors -/

/-- What the helper reports back to its caller. -/
inductive HelperError where
  | invalid (what : String)
  | invalidAllowedIps (entry : Json)
  | failed (what : String) (err : Text)

/-- `str(exc)`, with the printer of values that `{entry!r}` calls. -/
def HelperError.message (repr : Json → String) : HelperError → String
  | .invalid what => what
  | .invalidAllowedIps entry => "invalid allowed_ips entry: " ++ repr entry
  | .failed what err => what ++ " failed: " ++ String.ofList err

/-- An exception inside a command: the helper's own, or any other with its text. -/
inductive Fault where
  | helper (e : HelperError)
  | other (text : String)

def reject {α : Type} (what : String) : Except Fault α := .error (.helper (.invalid what))

/-! ## Validated values -/

structure TunnelName where
  text : String
  ok : matchesAt tunnelNamePattern text.toList = true
  deriving DecidableEq

structure WgKey where
  text : Text
  ok : matchesAt wgKeyPattern text = true
  deriving DecidableEq

/-- An integer, or a boolean standing for one, between two bounds. -/
structure IntIn (lo hi : Int) where
  value : PyInt
  lower : lo ≤ value.toInt
  upper : value.toInt ≤ hi

structure AllowedIps where
  nets : List IPNetwork
  ne : nets ≠ []

def commaSep : Text := [',', ' ']

/-- `", ".join(nets)`. -/
def AllowedIps.str (a : AllowedIps) : Text := commaSep.intercalate (a.nets.map IPNetwork.str)

/-- `_validate_tunnel_name`. -/
def validateTunnelName : Json → Except Fault TunnelName
  | .str s =>
    if h : matchesAt tunnelNamePattern s.toList = true then .ok ⟨s, h⟩
    else reject "invalid tunnel name"
  | _ => reject "invalid tunnel name"

theorem TunnelName.length_le (n : TunnelName) : n.text.toList.length ≤ 16 := by
  obtain ⟨text, ok⟩ := n
  simp only
  generalize text.toList = t at ok ⊢
  cases t with
  | nil => simp
  | cons c cs =>
    by_cases hc : isTunnelNameChar c
    · obtain ⟨s, hs⟩ := List.exists_mem_of_ne_nil _ (bne_iff_ne.mp ok)
      simp only [tunnelNamePattern, run, Cursor.start, if_pos hc, List.flatMap_cons,
        List.flatMap_nil, List.append_nil, List.mem_flatMap] at hs
      obtain ⟨m, hm, hs⟩ := hs
      have hlen := length_upToRuns hm
      have hend : m.after.length ≤ 1 := by
        obtain ⟨b, after⟩ := m
        simp only at hs
        split at hs
        · next h =>
          simp only [atFinalEnd, Bool.or_eq_true, beq_iff_eq] at h
          rcases h with h | h <;> simp [h]
        · cases hs
      simp only [List.length_cons]
      omega
    · simp [matchesAt, tunnelNamePattern, run, Cursor.start, hc] at ok

/-- `_validate_wg_key`. -/
def validateWgKey (key : Json) (field : String) : Except Fault WgKey :=
  match key with
  | .str s =>
    if h : matchesAt wgKeyPattern s.toList = true then .ok ⟨s.toList, h⟩
    else reject ("invalid " ++ field)
  | _ => reject ("invalid " ++ field)

theorem validateTunnelName_text (n : TunnelName) : validateTunnelName (.str n.text) = .ok n :=
  dif_pos n.ok

theorem validateWgKey_text (k : WgKey) (field : String) :
    validateWgKey (.str (String.ofList k.text)) field = .ok k := by
  have h : matchesAt wgKeyPattern (String.ofList k.text).toList = true := by
    rw [String.toList_ofList]
    exact k.ok
  rw [validateWgKey, dif_pos h]
  simp only [String.toList_ofList]

def validateIntIn (lo hi : Int) (x : Json) (field : String) : Except Fault (IntIn lo hi) :=
  match x.pyInt? with
  | some n =>
    if h : lo ≤ n.toInt ∧ n.toInt ≤ hi then .ok ⟨n, h.1, h.2⟩ else reject ("invalid " ++ field)
  | none => reject ("invalid " ++ field)

def readNetwork (entry : Json) : Except Fault IPNetwork :=
  match entry.ipNetwork with
  | some n => .ok n
  | none => .error (.helper (.invalidAllowedIps entry))

/-- `_validate_allowed_ips`. -/
def validateAllowedIps : Json → Except Fault AllowedIps
  | .arr (entry :: entries) => do
    let n ← readNetwork entry
    let ns ← entries.mapM readNetwork
    pure ⟨n :: ns, List.cons_ne_nil _ _⟩
  | _ => reject "allowed_ips must be a non-empty list"

/-- A field that may be null. -/
def nullable {α : Type} (x : Json) (validate : Json → Except Fault α) : Except Fault (Option α) :=
  match x with
  | .null => .ok none
  | x => (validate x).map some

abbrev Port := IntIn 1024 65535
abbrev Keepalive := IntIn 0 3600

abbrev Request := List (String × Json)

structure CreateTunnel where
  name : TunnelName
  privateKey : WgKey
  address : IPInterface
  listenPort : Port

def readAddress (x : Json) : Except Fault IPInterface :=
  match x.ipInterface with
  | some i => .ok i
  | none => reject "invalid address"

def readCreateTunnel (req : Request) : Except Fault CreateTunnel := do
  let name ← validateTunnelName (Json.get req "name")
  let privateKey ← validateWgKey (Json.get req "private_key") "private_key"
  let address ← readAddress (Json.get req "address")
  let listenPort ← validateIntIn 1024 65535 (Json.get req "listen_port") "listen_port"
  pure ⟨name, privateKey, address, listenPort⟩

structure AddPeer where
  tunnel : TunnelName
  publicKey : WgKey
  allowedIps : AllowedIps
  presharedKey : Option WgKey
  keepalive : Option Keepalive

def readAddPeer (req : Request) : Except Fault AddPeer := do
  let tunnel ← validateTunnelName (Json.get req "tunnel")
  let publicKey ← validateWgKey (Json.get req "public_key") "public_key"
  let allowedIps ← validateAllowedIps (Json.get req "allowed_ips")
  let presharedKey ← nullable (Json.get req "preshared_key") fun x => validateWgKey x "preshared_key"
  let keepalive ← nullable (Json.get req "keepalive") fun x => validateIntIn 0 3600 x "keepalive"
  pure ⟨tunnel, publicKey, allowedIps, presharedKey, keepalive⟩

structure RemovePeer where
  tunnel : TunnelName
  publicKey : WgKey

def readRemovePeer (req : Request) : Except Fault RemovePeer := do
  let tunnel ← validateTunnelName (Json.get req "tunnel")
  let publicKey ← validateWgKey (Json.get req "public_key") "public_key"
  pure ⟨tunnel, publicKey⟩

/-- The keepalive that is written: absent and zero are the same. -/
def keepaliveText : Option Keepalive → Option Text
  | some k => if k.value.toInt = 0 then none else some k.value.str
  | none => none

end Helper
