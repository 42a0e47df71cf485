import PiVpn.Lib.Findings
import PiVpn.App.StateRequest
import PiVpn.Helper.PeerSections

/-! The check of an activation against the conf file as `wg-quick` reads it: the networks
the tunnel would claim, those that the text shows in the one spelling that the check knows,
and on which texts and tables of addresses the two have the same conflicts. -/

namespace App
open Text Pattern Cidr Ipaddress Effect Helper

/-! ## What a tunnel claims -/

def valuesOf (key : Text) (x : ConfSection) : List Text :=
  (x.settings.filter (·.1 = lower key)).map Prod.snd

/-- The entries of all values of a key in the sections of one kind. -/
def entriesOf (content mark key : Text) : List Text :=
  ((((wgRead content).filter (·.header = lower mark)).flatMap (valuesOf key)).flatMap fun value =>
    (value.splitOn ',').map trim).filter (· ≠ [])

/-- Some peer of the tunnel has an endpoint. -/
def dials (content : Text) : Bool :=
  ((wgRead content).filter (·.header = lower peerMark)).any fun x => valuesOf endpointWord x ≠ []

/-- The networks of the peers of a tunnel that dials, else those of its own addresses. -/
def claimed (content : Text) : List IPNetwork :=
  (if dials content then entriesOf content peerMark allowedIpsWord
    else entriesOf content interfaceMark addressWord).filterMap ipNetwork

-- a list of addresses, a second line and a comment
example : claimed (unlines ["[interface]".toList, "address=10.9.0.1/24, 10.8.0.1/32 # home".toList,
    "Address = 10.7.0.1/24".toList]) =
    [.v4 ⟨0x0A090000#32, 24, by decide, by decide⟩, .v4 ⟨0x0A080001#32, 32, by decide, by decide⟩,
      .v4 ⟨0x0A070000#32, 24, by decide, by decide⟩] := by decide +kernel

/-- The addresses of the local interfaces. -/
abbrev Table := List (String × Interface 32)

def Table.rows (table : Table) : List IfaceAddr := table.map fun e => ifaceAddr e.1 e.2

/-- One of the networks shares an address with the subnet of an interface. -/
def Meets (nets : IPNetwork → Prop) (e : String × Interface 32) : Prop :=
  ∃ n, nets n ∧ Shares n (.v4 e.2.network)

/-- The tunnel would claim an address of another interface's subnet. -/
def Conflicting (content : Text) (name : String) (table : Table) : Prop :=
  ∃ e ∈ table, e.1 ≠ name ∧ Meets (· ∈ claimed content) e

/-! ## What the text shows -/

/-- In some block cut at a line that begins with `[Peer]` the word `Endpoint` opens a line
and has a value. -/
def ShowsEndpoint (content : Text) : Prop := ∃ b ∈ (sections content).2, HasSetting endpointWord b

/-- The networks of a text with such an endpoint are the entries of the values of
`AllowedIPs` in the blocks, those of another text the network of the first value of
`Address` before the blocks. Words are spelled as here, and a value is all that stands on
its line. -/
def Shown (content : Text) (n : IPNetwork) : Prop :=
  (ShowsEndpoint content ∧ ∃ b ∈ (sections content).2, ∃ vs, Says allowedIpsWord b vs ∧
    ∃ v ∈ vs, ∃ entry ∈ commaParts v, ipNetwork entry = some n) ∨
  (¬ ShowsEndpoint content ∧ ∃ v vs, Says addressWord (sections content).1 (v :: vs) ∧
    ∃ i, ipInterface v = some i ∧ i.network = n)

/-- That first value is an address and nothing more. -/
def Readable (content : Text) : Prop :=
  ¬ ShowsEndpoint content → ∀ v vs, Says addressWord (sections content).1 (v :: vs) →
    ∃ i, ipInterface v = some i

/-! ## What the check owes that reading -/

/-- The request without force of a tunnel whose status is answered goes on to the helper
when there is no conflict, is answered with 409 when there is one, and never ends in an
exception of its own. -/
def DecidedAsRead (content : Text) (n : TunnelName) (table : Table) : Prop :=
  ∀ (env : AppEnv) (w : World) (user : User), Succeeds env (tunnelStatusRequest (some n.text)) w →
    w.helper.conf.lookup n.text = some content →
    env.netIfAddrs (serve env (tunnelStatusRequest (some n.text)) w).2.helper.live = table.rows →
      (setStateRequest n.text .activate ∈
          (runApi env (setTunnelState n.text ⟨.activate, false⟩ user) w).2.sent.drop w.sent.length ↔
        ¬ Conflicting content n.text table) ∧
      (Conflicting content n.text table → ∃ detail,
        (runApi env (setTunnelState n.text ⟨.activate, false⟩ user) w).1 = .error (.http 409 detail)) ∧
      ∀ e, (runApi env (setTunnelState n.text ⟨.activate, false⟩ user) w).1 ≠ .error (.unhandled e)

/-- The networks that the text shows have the addresses of version 4 that the tunnel claims. -/
structure CheckedAsRead (content : Text) : Prop where
  readable : Readable content
  covers : ∀ a, (∃ n, Shown content n ∧ n.contains (.v4 a) = true) ↔
    ∃ n ∈ claimed content, n.contains (.v4 a) = true

/-- On this table the networks that the text shows raise no conflict but where there is one,
and miss none. -/
structure CheckedOn (content : Text) (name : String) (table : Table) : Prop where
  readable : Readable content
  alarms : ∀ e ∈ table, Meets (Shown content) e → Conflicting content name table
  misses : ∀ e ∈ table, e.1 ≠ name → Meets (· ∈ claimed content) e → ∃ e' ∈ table, Meets (Shown content) e'

/-- Where the tunnel's own interface is listed with a subnet in conflict, so is another. -/
def OwnQuiet (content : Text) (name : String) (table : Table) : Prop :=
  (∃ e ∈ table, e.1 = name ∧ Meets (· ∈ claimed content) e) → Conflicting content name table

/-! ## What is checked is what the text shows -/

theorem mode_client_iff {content : Text} :
    (parseConfInfo (universalNewlines content)).mode = .client ↔ ShowsEndpoint content :=
  parseConfInfo_client_iff

theorem allowedIps_isKey : IsKey allowedIpsWord := ⟨'A', _, rfl, by decide⟩

theorem address_isKey : IsKey addressWord := ⟨'A', _, rfl, by decide⟩

/-- The candidates of a tunnel are the networks that its text shows. -/
theorem candidatesOf_shown {content : Text} (h : Readable content) :
    ∃ candidates, candidatesOf (parseConfInfo (universalNewlines content)) = .pure candidates ∧
      ∀ n, n ∈ candidates ↔ Shown content n := by
  unfold candidatesOf
  cases hmode : (parseConfInfo (universalNewlines content)).mode with
  | client =>
    have hends := mode_client_iff.mp hmode
    refine ⟨_, rfl, fun n => ?_⟩
    have hips : (parseConfInfo (universalNewlines content)).configuredAllowedIps =
        (sections content).2.flatMap blockAllowedIps := rfl
    simp only [hips, Shown, hends, true_and, not_true_eq_false, false_and, or_false, List.mem_filterMap,
      List.mem_flatMap, blockAllowedIps]
    constructor
    · rintro ⟨entry, ⟨b, hb, v, hv, hentry⟩, hn⟩
      exact ⟨b, hb, _, (says_iff_captures allowedIps_isKey).mpr rfl, v, hv, entry, hentry, hn⟩
    · rintro ⟨b, hb, vs, hvs, v, hv, entry, hentry, hn⟩
      rw [← (says_iff_captures allowedIps_isKey).mp hvs] at hv
      exact ⟨entry, ⟨b, hb, v, hv, hentry⟩, hn⟩
  | server =>
    have hends : ¬ ShowsEndpoint content := fun hends => by
      rw [mode_client_iff.mpr hends] at hmode
      cases hmode
    have haddress : (parseConfInfo (universalNewlines content)).configuredAddress =
        (keyLine addressWord).first (sections content).1 := rfl
    simp only [haddress, Shown, hends, false_and, not_false_eq_true, true_and, false_or]
    cases hv : (keyLine addressWord).first (sections content).1 with
    | none =>
      refine ⟨[], rfl, fun n => iff_of_false List.not_mem_nil ?_⟩
      rintro ⟨v, vs, hsays, -⟩
      rw [(first_of_says_iff address_isKey).mpr ⟨vs, hsays⟩] at hv
      cases hv
    | some v =>
      obtain ⟨vs, hvs⟩ := (first_of_says_iff address_isKey).mp hv
      obtain ⟨i, hi⟩ := h hends v vs hvs
      refine ⟨[i.network], by simp only [hi]; rfl, fun n => ?_⟩
      rw [List.mem_singleton]
      constructor
      · rintro rfl
        exact ⟨v, vs, hvs, i, hi, rfl⟩
      · rintro ⟨v', vs', hvs', i', hi', rfl⟩
        have hsame := (first_of_says_iff address_isKey).mpr ⟨vs', hvs'⟩
        obtain rfl := Option.some.inj (hv.symm.trans hsame)
        obtain rfl := Option.some.inj (hi.symm.trans hi')
        rfl

theorem candidatesOf_unreadable {content : Text} (h : ¬ Readable content) :
    ∃ e, candidatesOf (parseConfInfo (universalNewlines content)) = .raise (.unhandled e) := by
  unfold Readable at h
  push Not at h
  obtain ⟨hends, v, vs, hvs, hv⟩ := h
  have haddress : (parseConfInfo (universalNewlines content)).configuredAddress = some v :=
    (first_of_says_iff address_isKey).mpr ⟨vs, hvs⟩
  have hmode : (parseConfInfo (universalNewlines content)).mode = .server := by
    cases hmode : (parseConfInfo (universalNewlines content)).mode with
    | client => exact absurd (mode_client_iff.mp hmode) hends
    | server => rfl
  have hread : ipInterface v = none := Option.eq_none_iff_forall_ne_some.mpr hv
  unfold candidatesOf
  simp only [hmode, haddress, hread]
  exact ⟨_, rfl⟩

theorem meets_congr {nets nets' : IPNetwork → Prop} (h : ∀ n, nets n ↔ nets' n) {table : Table} :
    (∃ e ∈ table, Meets nets e) ↔ ∃ e ∈ table, Meets nets' e := by
  simp only [Meets, h]

/-! ## How a request ends -/

section request

variable {env : AppEnv} {w : World} {content : Text} {n : TunnelName} {table : Table} {user : User}

theorem serve_sent (req : Request) : (serve env req w).2.sent = w.sent ++ [req] := by
  unfold serve
  cases env.link w.sent.length <;> rfl

theorem runApi_call_error {cmd : String} {params : Request} {e : Failure}
    (h : (runApi env (call cmd params) w).1 = .error e) : ∃ detail, e = .http 502 detail := by
  unfold call at h
  rw [runApi_bind, runApi_askHelper] at h
  generalize (serve env (("cmd", .str cmd) :: params) w).1 = reply at h
  rcases reply with e' | _ | _ | (res | text)
  · exact ⟨_, (Except.error.inj h).symm⟩
  · exact ⟨_, (Except.error.inj h).symm⟩
  · exact ⟨_, (Except.error.inj h).symm⟩
  · cases h
  · exact ⟨_, (Except.error.inj h).symm⟩

theorem runApi_call_sent (cmd : String) (params : Request) :
    (runApi env (call cmd params) w).2.sent = w.sent ++ [("cmd", .str cmd) :: params] := by
  unfold call
  rw [runApi_bind, runApi_askHelper, ← serve_sent]
  rcases (serve env (("cmd", .str cmd) :: params) w).1 with e | _ | _ | (res | e)
  · rfl
  · rfl
  · rfl
  · rfl
  · rfl

/-- What is left of the request once the check has let it through. -/
def switched (name : String) (user : User) : Api HttpResponse := do
  Client.setTunnelState name .activate
  log (infoLog "tunnel_state_changed" "wireguard.tunnel.state" user
    [("tunnel", .str name), ("action", .str Action.activate.name), ("forced", .bool false)])
  pure statusOk

theorem runApi_switched (name : String) (user : User) (w : World) :
    (runApi env (switched name user) w).2.sent = w.sent ++ [setStateRequest name .activate] ∧
      ∀ e, (runApi env (switched name user) w).1 ≠ .error (.unhandled e) := by
  have hsent := @runApi_call_sent env w "set_tunnel_state"
    [("name", .str name), ("action", .str Action.activate.name)]
  have herror := @runApi_call_error env w "set_tunnel_state"
    [("name", .str name), ("action", .str Action.activate.name)]
  unfold switched Client.setTunnelState
  rw [runApi_bind, runApi_bind]
  rcases hcall : runApi env (call "set_tunnel_state" _) w with ⟨e | res, w'⟩
  · rw [hcall] at hsent herror
    refine ⟨hsent, fun e' he => ?_⟩
    obtain ⟨detail, rfl⟩ := herror rfl
    cases he
  · rw [hcall] at hsent
    exact ⟨hsent, fun e he => by cases he⟩

theorem conflicts_rows {candidates : List IPNetwork} :
    table.rows.flatMap (conflictsWith candidates) = [] ↔ ¬ ∃ e ∈ table, Meets (· ∈ candidates) e := by
  rw [conflicts_eq_nil_iff]
  constructor
  · rintro h ⟨e, he, m, hm, hshares⟩
    exact h _ (List.mem_map_of_mem he) _ (localNet_ifaceAddr e.1 e.2) m hm hshares
  · rintro h a ha m hm m' hm' hshares
    obtain ⟨e, he, rfl⟩ := List.mem_map.mp ha
    rw [localNet_ifaceAddr] at hm
    exact h ⟨e, he, m', hm', Option.some.inj hm ▸ hshares⟩

section outcome

variable {candidates : List IPNetwork} (hstatus : Succeeds env (tunnelStatusRequest (some n.text)) w)
  (hc : w.helper.conf.lookup n.text = some content)
  (hrows : env.netIfAddrs (serve env (tunnelStatusRequest (some n.text)) w).2.helper.live = table.rows)
include hstatus hc

theorem activate_eq : runApi env (setTunnelState n.text ⟨.activate, false⟩ user) w =
    runApi env (checkActivation .activate (parseConfInfo (universalNewlines content)) >>= fun _ =>
      switched n.text user) (serve env (tunnelStatusRequest (some n.text)) w).2 :=
  runApi_setTunnelState hstatus hc

theorem activate_unread {e : Failure}
    (hcand : candidatesOf (parseConfInfo (universalNewlines content)) = .raise e) :
    (runApi env (setTunnelState n.text ⟨.activate, false⟩ user) w).1 = .error e := by
  rw [activate_eq hstatus hc, runApi_bind, runApi_check_unread hcand]

include hrows

/-- The check lets the request through, or answers 409 before anything is sent. -/
theorem activate_checked (hcand : candidatesOf (parseConfInfo (universalNewlines content)) = .pure candidates) :
    (setStateRequest n.text .activate ∈
        (runApi env (setTunnelState n.text ⟨.activate, false⟩ user) w).2.sent.drop w.sent.length ↔
      ¬ ∃ e ∈ table, Meets (· ∈ candidates) e) ∧
    ((∃ e ∈ table, Meets (· ∈ candidates) e) → ∃ detail,
      (runApi env (setTunnelState n.text ⟨.activate, false⟩ user) w).1 = .error (.http 409 detail)) ∧
    ∀ e, (runApi env (setTunnelState n.text ⟨.activate, false⟩ user) w).1 ≠ .error (.unhandled e) := by
  have hsent := @serve_sent env w (tunnelStatusRequest (some n.text))
  rw [activate_eq hstatus hc, runApi_bind, runApi_check_candidates hcand, hrows]
  by_cases hmeets : ∃ e ∈ table, Meets (· ∈ candidates) e
  · have hne : table.rows.flatMap (conflictsWith candidates) ≠ [] := fun h => conflicts_rows.mp h hmeets
    rw [if_neg (by simpa using hne)]
    refine ⟨iff_of_false ?_ fun h => h hmeets, fun _ => ⟨_, rfl⟩, fun e he => by cases he⟩
    -- only the status was asked for
    simp only [hsent, List.drop_left, List.mem_singleton]
    simp [setStateRequest, tunnelStatusRequest]
  · rw [conflicts_rows.mpr hmeets]
    obtain ⟨hswitched, hhandled⟩ := @runApi_switched env n.text user
      (serve env (tunnelStatusRequest (some n.text)) w).2
    refine ⟨iff_of_true ?_ hmeets, fun h => absurd h hmeets, hhandled⟩
    simp only [List.isEmpty_nil, if_true, hswitched, hsent, List.append_assoc, List.drop_left]
    simp

end outcome

end request

/-! ## Every text and table -/

section decided

variable {content : Text} {n : TunnelName} {table : Table}

/-- A machine with one conf file, where every subprocess succeeds. -/
def tableEnv (table : Table) : AppEnv where
  helper := fun _ _ _ live => (.exited 0 [] [], live)
  repr := fun _ => ""
  uid := 0
  link := fun _ => .up
  netIfAddrs := fun _ => table.rows
  uuid := fun _ => ""

def confWorld (name : String) (content : Text) : World where
  helper := { conf := ⟨[(name, content)], by simp⟩, live := fun _ => none, psk := none, log := [], tick := 0 }
  metadata := .absent
  log := []
  uuids := 0
  sent := []

theorem confWorld_lookup (name : String) (content : Text) :
    (confWorld name content).helper.conf.lookup name = some content := by
  simp [confWorld, ConfDir.lookup]

theorem confWorld_status (table : Table) (n : TunnelName) (content : Text) :
    Succeeds (tableEnv table) (tunnelStatusRequest (some n.text)) (confWorld n.text content) :=
  status_succeeds (fun _ _ _ _ _ h => by cases h) (fun _ => rfl) n _

theorem checkedOn_iff (h : Readable content) : CheckedOn content n.text table ↔
    ((∃ e ∈ table, Meets (Shown content) e) ↔ Conflicting content n.text table) := by
  constructor
  · rintro ⟨-, halarms, hmisses⟩
    exact ⟨fun ⟨e, he, hmeets⟩ => halarms e he hmeets, fun ⟨e, he, hne, hmeets⟩ => hmisses e he hne hmeets⟩
  · intro hiff
    exact ⟨h, fun e he hmeets => hiff.mp ⟨e, he, hmeets⟩, fun e he hne hmeets => hiff.mpr ⟨e, he, hne, hmeets⟩⟩

theorem decidedAsRead_iff : DecidedAsRead content n table ↔ CheckedOn content n.text table := by
  constructor
  · intro h
    have hstatus := confWorld_status table n content
    have hc := confWorld_lookup n.text content
    obtain ⟨hreach, -, hhandled⟩ := h (tableEnv table) (confWorld n.text content) none hstatus hc rfl
    by_cases hread : Readable content
    · obtain ⟨candidates, hcand, hshown⟩ := candidatesOf_shown hread
      rw [checkedOn_iff hread, ← meets_congr hshown]
      refine not_iff_not.mp ?_
      rw [← hreach]
      exact (@activate_checked (tableEnv table) _ _ _ _ none _ hstatus hc rfl hcand).1.symm
    · obtain ⟨e, hcand⟩ := candidatesOf_unreadable hread
      exact absurd (activate_unread hstatus hc hcand) (hhandled e)
  · intro h env w user hstatus hc hrows
    obtain ⟨candidates, hcand, hshown⟩ := candidatesOf_shown h.readable
    have hmeets := (checkedOn_iff h.readable).mp h
    rw [← meets_congr hshown] at hmeets
    obtain ⟨hreach, hrefused, hhandled⟩ := @activate_checked env w _ _ _ user _ hstatus hc hrows hcand
    exact ⟨hreach.trans (not_congr hmeets), fun h => hrefused (hmeets.mpr h), hhandled⟩

theorem meets_of_cover {nets nets' : IPNetwork → Prop}
    (h : ∀ a, (∃ n, nets n ∧ n.contains (.v4 a) = true) → ∃ n, nets' n ∧ n.contains (.v4 a) = true)
    {e : String × Interface 32} (hmeets : Meets nets e) : Meets nets' e := by
  obtain ⟨m, hm, a, hma, hea⟩ := hmeets
  cases a with
  | v6 a => cases hea
  | v4 a =>
    obtain ⟨m', hm', hma'⟩ := h a ⟨m, hm, hma⟩
    exact ⟨m', hm', .v4 a, hma', hea⟩

theorem meets_host {nets : IPNetwork → Prop} {iface : String} {a : BitVec 32} :
    Meets nets (iface, .host a) ↔ ∃ n, nets n ∧ n.contains (.v4 a) = true := by
  refine exists_congr fun n => and_congr_right fun _ => ?_
  have hhost : ∀ b, (IPNetwork.v4 (Interface.host a).network).contains (.v4 b) = true ↔ b = a :=
    fun b => Interface.host_contains
  constructor
  · rintro ⟨b, hn, hb⟩
    cases b with
    | v6 b => cases hb
    | v4 b => exact (hhost b).mp hb ▸ hn
  · exact fun hn => ⟨.v4 a, hn, (hhost a).mpr rfl⟩

/-- Where the text shows what it claims, only the tunnel's own interface can be in the way. -/
theorem CheckedAsRead.decided_iff (h : CheckedAsRead content) :
    DecidedAsRead content n table ↔ OwnQuiet content n.text table := by
  have hsame : (∃ e ∈ table, Meets (Shown content) e) ↔ ∃ e ∈ table, Meets (· ∈ claimed content) e :=
    exists_congr fun e => and_congr_right fun _ =>
      ⟨meets_of_cover fun a => (h.covers a).mp, meets_of_cover fun a => (h.covers a).mpr⟩
  rw [decidedAsRead_iff, checkedOn_iff h.readable, hsame]
  constructor
  · exact fun hiff ⟨e, he, _, hown⟩ => hiff.mp ⟨e, he, hown⟩
  · refine fun hquiet => ⟨?_, fun ⟨e, he, _, hmeets⟩ => ⟨e, he, hmeets⟩⟩
    rintro ⟨e, he, hmeets⟩
    by_cases hname : e.1 = n.text
    · exact hquiet ⟨e, he, hname, hmeets⟩
    · exact ⟨e, he, hname, hmeets⟩

/-- A table of one other interface with one address asks for that address alone. -/
theorem CheckedAsRead.of_decided (h : ∀ table, OwnQuiet content n.text table → DecidedAsRead content n table) :
    CheckedAsRead content := by
  have hnone := decidedAsRead_iff.mp (h [] fun ⟨e, he, _⟩ => absurd he List.not_mem_nil)
  refine ⟨hnone.readable, fun a => ?_⟩
  have hne : n.text ++ "x" ≠ n.text := fun h => by
    have hlen := congrArg String.length h
    simp at hlen
  have hquiet : OwnQuiet content n.text [(n.text ++ "x", Interface.host a)] := by
    rintro ⟨e, he, hown, -⟩
    rw [List.mem_singleton.mp he] at hown
    exact absurd hown hne
  have hiff := (checkedOn_iff hnone.readable).mp (decidedAsRead_iff.mp (h _ hquiet))
  rw [← @meets_host (Shown content) (n.text ++ "x"), ← @meets_host (· ∈ claimed content) (n.text ++ "x")]
  simpa [Conflicting, hne] using hiff

/-- On every text and table the requests are decided as the text is read exactly when the
networks it shows raise the conflicts of those it claims. Whatever the other interfaces are,
that is when the two have the same addresses; and then on just the tables where the tunnel's
own interface raises no conflict alone. -/
theorem decided_as_read_iff (content : Text) (n : TunnelName) :
    (∀ table, DecidedAsRead content n table ↔ CheckedOn content n.text table) ∧
      ((∀ table, OwnQuiet content n.text table → DecidedAsRead content n table) ↔ CheckedAsRead content) ∧
      (CheckedAsRead content → ∀ table, DecidedAsRead content n table ↔ OwnQuiet content n.text table) :=
  ⟨fun _ => decidedAsRead_iff,
    ⟨CheckedAsRead.of_decided, fun h _ hquiet => h.decided_iff.mpr hquiet⟩, fun h _ => h.decided_iff⟩

/-! ## A comment behind an address -/

/-- The address of a server tunnel, with a comment. -/
def commented : Text :=
  unlines [interfaceMark, setting addressWord ("10.9.0.1/24 # home").toList]

theorem comment_is_not_read : ¬ DecidedAsRead commented sampleName [] := by
  intro h
  have hshown : ¬ ShowsEndpoint commented := by
    rintro ⟨b, hb, -⟩
    have hnone : (sections commented).2 = [] := by decide +kernel
    rw [hnone] at hb
    cases hb
  have hfirst : (keyLine addressWord).first (sections commented).1 = some ("10.9.0.1/24 # home").toList := by
    decide +kernel
  obtain ⟨vs, hvs⟩ := (first_of_says_iff address_isKey).mp hfirst
  obtain ⟨i, hi⟩ := (decidedAsRead_iff.mp h).readable hshown _ vs hvs
  have hread : ipInterface ("10.9.0.1/24 # home").toList = none := by decide +kernel
  rw [hread] at hi
  cases hi

end decided

end App
