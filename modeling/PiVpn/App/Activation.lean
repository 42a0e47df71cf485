import PiVpn.Lib.Dict
import PiVpn.Lib.Transition
import PiVpn.App.StateRequest

/-! Runs of activate, deactivate and disconnect requests: which tunnels are up together,
whether the routes of one lead into the subnet of another or of the local network, and
whether it matters which of two came first. -/

namespace App
open Text Pattern Ipaddress Effect Helper

/-! ## Tunnels and their surroundings -/

inductive Tunnel where
  | server (address : IPInterface)
  | client (address : IPInterface) (allowedIps : List IPNetwork)

/-- The text says all there is to the tunnel: every entry can be read. -/
def Tunnel.ParsedFrom (content : Text) : Tunnel → Prop
  | .server address =>
    let conf := parseConfInfo (universalNewlines content)
    conf.mode = .server ∧ conf.configuredAddress.bind ipInterface = some address
  | .client address allowedIps =>
    let conf := parseConfInfo (universalNewlines content)
    conf.mode = .client ∧ conf.configuredAddress.bind ipInterface = some address ∧
      conf.configuredAllowedIps.mapM ipNetwork = some allowedIps

/-- The networks an activation is checked for. -/
def Tunnel.candidates : Tunnel → List IPNetwork
  | .server address => [address.network]
  | .client _ allowedIps => allowedIps

def Tunnel.address : Tunnel → IPInterface
  | .server address => address
  | .client address _ => address

/-- The check of the one tunnel finds the subnet of the other, where it is one of version 4. -/
def Tunnel.Finds (t t' : Tunnel) : Prop :=
  ∃ x, t'.address.network = .v4 x ∧ ∃ n ∈ t.candidates, Shares n (.v4 x)

theorem Tunnel.ParsedFrom.candidates {content : Text} {t : Tunnel} (h : t.ParsedFrom content) :
    candidatesOf (parseConfInfo (universalNewlines content)) = .pure t.candidates := by
  unfold candidatesOf
  cases t with
  | server address =>
    obtain ⟨hmode, haddress⟩ := h
    obtain ⟨text, htext, hread⟩ := Option.bind_eq_some_iff.mp haddress
    simp only [hmode, htext, hread]
    rfl
  | client address allowedIps =>
    obtain ⟨hmode, -, hips⟩ := h
    rw [hmode, filterMap_of_mapM hips]
    rfl

/-- The subnets of the local interfaces, and the tunnels by name. -/
structure Site where
  lan : List IPNetwork
  tunnels : String → Option Tunnel

namespace Site

variable (site : Site)

/-- The subnet of a local interface, or of a server tunnel that is up. -/
def Connected (live : Live) (m : IPNetwork) : Prop :=
  m ∈ site.lan ∨
    ∃ s address, (live s).isSome ∧ site.tunnels s = some (.server address) ∧ m = address.network

/-- A client tunnel that is up has the network among its routes. -/
def Routed (live : Live) (n : IPNetwork) : Prop :=
  ∃ c address allowedIps, (live c).isSome ∧ site.tunnels c = some (.client address allowedIps) ∧
    n ∈ allowedIps

end Site

/-- A subnet of version 4 of a local interface, or of a tunnel that is up. -/
def Site.Listed (site : Site) (live : Live) (x : Cidr.Network 32) : Prop :=
  .v4 x ∈ site.lan ∨
    ∃ u t, (live u).isSome ∧ site.tunnels u = some t ∧ t.address.network = .v4 x

/-- No route of a client tunnel leads into a connected subnet. -/
def Site.Clear (site : Site) (live : Live) : Prop :=
  ∀ n m, site.Routed live n → site.Connected live m → ¬ Shares n m

/-- What is documented of the machine: looking changes no interface, `systemctl` only the
one it names, stopping brings none up; and the addresses `psutil` lists include those of
the local interfaces and of the tunnels that are up. -/
structure Behaves (site : Site) (env : AppEnv) : Prop where
  dump : ∀ n psk live, (env.helper n .wgShowAllDump psk live).2 = live
  isActive : ∀ n t psk live, (env.helper n (.systemctl .isActive t) psk live).2 = live
  others : ∀ n verb t psk live other, other ≠ t →
    (env.helper n (.systemctl verb t) psk live).2 other = live other
  stops : ∀ n verb t psk live, verb ≠ .enableNow →
    ((env.helper n (.systemctl verb t) psk live).2 t).isSome → (live t).isSome
  lists : ∀ live (m : Cidr.Network 32), site.Connected live (.v4 m) →
    ∃ a ∈ env.netIfAddrs live, localNet a = some (.v4 m)

/-- On a machine that works every subprocess starts and every call goes through, an
activation that is let through brings its tunnel up, and `psutil` lists the addresses of
the local interfaces and of the tunnels that are up, and no others. -/
structure Works (site : Site) (env : AppEnv) : Prop extends Behaves site env where
  starts : Starts env.helper
  link : ∀ k, env.link k = .up
  brings : ∀ n t psk live, ((env.helper n (.systemctl .enableNow t) psk live).2 t).isSome
  listed : ∀ live m, (∃ a ∈ env.netIfAddrs live, localNet a = some m) ↔
    ∃ x, m = .v4 x ∧ site.Listed live x

/-- A request without force. -/
structure StateCall where
  name : String
  action : Action
  user : User

def StateCall.handler (r : StateCall) : Api HttpResponse :=
  setTunnelState r.name ⟨r.action, false⟩ r.user

def stateStep (env : AppEnv) (r : StateCall) (w : World) : Option World :=
  some (runApi env r.handler w).2

/-- The files are those of the site's tunnels. -/
def Site.Describes (site : Site) (w : World) : Prop :=
  ∀ name content, w.helper.conf.lookup name = some content →
    ∃ t, site.tunnels name = some t ∧ t.ParsedFrom content

/-- What the check of an activation does not look at does not stand in its way: the
routes of clients that are up when a server comes up, networks of IPv6 when a client does,
and the tunnel's own subnet where the check of a tunnel that is up would find it while its
own check does not find that tunnel's. -/
structure Site.Fits (site : Site) (name : String) (live : Live) : Prop where
  server : ∀ address, site.tunnels name = some (.server address) →
    ∀ n, site.Routed live n → ¬ Shares n address.network
  client : ∀ address allowedIps, site.tunnels name = some (.client address allowedIps) →
    ∀ x scope, .v6 x scope ∈ allowedIps → ∀ m, site.Connected live m → ¬ Shares (.v6 x scope) m
  bothWays : ∀ t, site.tunnels name = some t → ∀ u t', u ≠ name → (live u).isSome →
    site.tunnels u = some t' → t'.Finds t → t.Finds t'

def Site.Unopposed (site : Site) (r : StateCall) (w : World) : Prop :=
  r.action = .activate → site.Fits r.name w.helper.live

/-- One request after the other, both tunnels are up. -/
def UpTogether (env : AppEnv) (r r' : StateCall) (w : World) : Prop :=
  ∃ w', Transition.steps (stateStep env) [r, r'] w = some w' ∧
    (w'.helper.live r.name).isSome ∧ (w'.helper.live r'.name).isSome

/-! ## Looking at the tunnels -/

section status

variable {env : AppEnv} {w w' : World} {site : Site} {s s' : State} {name : String}

/-- Looking leaves the interfaces and the files as they are. -/
theorem Behaves.looks (hb : Behaves site env) {α : Type} {c : Cmd α} (hc : Prog.Only Op.Looks c) (s : State) :
    (execute env.helper c s).2.live = s.live ∧ (execute env.helper c s).2.conf = s.conf := by
  refine (hc.upholds (W := (handler env.helper).world)
    (I := fun s' => s'.live = s.live ∧ s'.conf = s.conf) ?_ ⟨rfl, rfl⟩).exec
  rintro o s₁ x s₂ ho ⟨hlive, hconf⟩ hstep
  obtain ⟨-, rfl⟩ := Prod.mk.inj hstep
  unfold Op.Looks at ho
  split at ho
  · exact ⟨hlive, hconf⟩
  · exact ⟨hlive, hconf⟩
  · exact ⟨(hb.dump ..).trans hlive, hconf⟩
  · exact ⟨(hb.isActive ..).trans hlive, hconf⟩
  · exact ho.elim

end status

/-! ## What one request does -/

section request

variable {env : AppEnv} {w : World} {site : Site} {r : StateCall}

theorem Behaves.serveStatus (hb : Behaves site env) (name : Option String) (w : World) :
    (serve env (tunnelStatusRequest name) w).2.helper.live = w.helper.live ∧
      (serve env (tunnelStatusRequest name) w).2.helper.conf = w.helper.conf := by
  have hlooks := hb.looks ((only_cmdTunnelStatus (tunnelStatusRequest name)).bind
    (f := fun ts => (pure (Result.tunnels ts) : Cmd Result)) fun _ => trivial) w.helper
  rcases @serve_helper env w (tunnelStatusRequest name) "tunnel_status" _ rfl rfl with h | ⟨records, h⟩
  · rw [h]
    exact ⟨rfl, rfl⟩
  · rw [h]
    exact hlooks

theorem Behaves.statusCall (hb : Behaves site env) (name : Option String) (w : World) :
    (runApi env (Client.tunnelStatus name) w).2.helper.live = w.helper.live ∧
      (runApi env (Client.tunnelStatus name) w).2.helper.conf = w.helper.conf := by
  have hhelper : (runApi env (Client.tunnelStatus name) w).2.helper =
      (serve env (tunnelStatusRequest name) w).2.helper :=
    (congrArg World.helper (runApi_map tunnelsOf _)).trans (runApi_call_helper ..)
  rw [hhelper]
  exact hb.serveStatus name w

/-- What one request does: nothing to the interfaces, or what `systemctl` does to the one
tunnel, brought up only if its file names no network in conflict. -/
theorem Behaves.request_cases (hb : Behaves site env) (r : StateCall) (w : World) :
    (runApi env r.handler w).2.helper.conf = w.helper.conf ∧
      ((runApi env r.handler w).2.helper.live = w.helper.live ∨
        ∃ n psk, (runApi env r.handler w).2.helper.live =
            (env.helper n (.systemctl r.action.verb r.name) psk w.helper.live).2 ∧
          (r.action = .activate → ∃ content candidates, w.helper.conf.lookup r.name = some content ∧
            candidatesOf (parseConfInfo (universalNewlines content)) = .pure candidates ∧
            (env.netIfAddrs w.helper.live).flatMap (conflictsWith candidates) = [])) := by
  obtain ⟨hlive, hconf⟩ := hb.statusCall (some r.name) w
  unfold StateCall.handler
  rw [setTunnelState_eq, runApi_bind]
  rcases hst : runApi env (Client.tunnelStatus (some r.name)) w with ⟨e | ts, w₁⟩
  · rw [hst] at hlive hconf
    exact ⟨hconf, .inl hlive⟩
  rw [hst] at hlive hconf
  cases ts with
  | nil => exact ⟨hconf, .inl hlive⟩
  | cons t ts =>
    obtain ⟨content, hc, hparse⟩ := (tunnelStatus_reads hst).1 t List.mem_cons_self
    obtain ⟨hsame, hpass⟩ := @runApi_checkActivation env r.action t.conf w₁
    simp only [switchTunnel, runApi_bind (checkActivation r.action t.conf)]
    -- only a check that has passed goes on to `systemctl`
    rcases hcheck : runApi env (checkActivation r.action t.conf) w₁ with ⟨e | _, w₂⟩
    · rw [hcheck] at hsame
      obtain rfl : w₂ = w₁ := hsame
      exact ⟨hconf, .inl hlive⟩
    · rw [hcheck] at hsame hpass
      obtain rfl : w₂ = w₁ := hsame
      obtain ⟨hconf₂, hset⟩ := @setTunnelState_cases env r.name r.action w₂
      have hrest := @runApi_then_log env w₂ _ _ (Client.setTunnelState r.name r.action)
        (infoLog "tunnel_state_changed" "wireguard.tunnel.state" r.user
          [("tunnel", .str r.name), ("action", .str r.action.name), ("forced", .bool false)]) statusOk
      simp only [hrest]
      refine ⟨hconf₂.trans hconf, ?_⟩
      rcases hset with hset | ⟨n, psk, hset⟩
      · exact .inl (hset.trans hlive)
      · refine .inr ⟨n, psk, hset.trans (by rw [hlive]), fun hact => ?_⟩
        obtain ⟨candidates, hcand, hfree⟩ := hpass rfl hact
        exact ⟨content, candidates, hc, hparse ▸ hcand, hlive ▸ hfree⟩

/-- On a machine that works a request without conflicts brings its tunnel up. -/
theorem Behaves.activated (hb : Behaves site env) (hs : Starts env.helper) (hlink : ∀ k, env.link k = .up)
    {n : TunnelName} (user : User) {content : Text} {candidates : List IPNetwork}
    (hc : w.helper.conf.lookup n.text = some content)
    (hcand : candidatesOf (parseConfInfo (universalNewlines content)) = .pure candidates)
    (hfree : (env.netIfAddrs w.helper.live).flatMap (conflictsWith candidates) = []) :
    ∃ k psk, (runApi env (StateCall.handler ⟨n.text, .activate, user⟩) w).2.helper.live =
      (env.helper k (.systemctl .enableNow n.text) psk w.helper.live).2 := by
  obtain ⟨hlive, hconf⟩ := hb.serveStatus (some n.text) w
  have hc₁ := hconf ▸ hc
  obtain ⟨k, psk, hrun⟩ := @setTunnelState_runs env (serve env (tunnelStatusRequest (some n.text)) w).2 n
    .activate hlink (by rw [hc₁]; rfl)
  refine ⟨k, psk, ?_⟩
  unfold StateCall.handler
  rw [runApi_setTunnelState (status_succeeds hs hlink n w) hc, runApi_bind, runApi_check_candidates hcand,
    hlive, hfree]
  simp only [List.isEmpty_nil, if_true, runApi_then_log]
  rw [hrun, hlive]
  rfl

end request

/-! ## Runs -/

section runs

variable {env : AppEnv} {w w' : World} {site : Site} {r : StateCall} {live live' : Live}

theorem Site.Routed.mono {n : IPNetwork} (h : site.Routed live' n)
    (hup : ∀ t, (live' t).isSome → (live t).isSome) : site.Routed live n := by
  obtain ⟨c, address, allowedIps, hc, ht, hn⟩ := h
  exact ⟨c, address, allowedIps, hup c hc, ht, hn⟩

theorem Site.Connected.mono {m : IPNetwork} (h : site.Connected live' m)
    (hup : ∀ t, (live' t).isSome → (live t).isSome) : site.Connected live m := by
  rcases h with h | ⟨s, address, hs, ht, hm⟩
  · exact .inl h
  · exact .inr ⟨s, address, hup s hs, ht, hm⟩

theorem Site.Clear.mono (h : site.Clear live) (hup : ∀ t, (live' t).isSome → (live t).isSome) :
    site.Clear live' := fun n m hn hm => h n m (hn.mono hup) (hm.mono hup)

/-- A client that passes its check comes up beside what is connected. -/
theorem Behaves.clear_client (hb : Behaves site env) (hclear : site.Clear live) {name : String}
    {address : IPInterface} {allowedIps : List IPNetwork}
    (ht : site.tunnels name = some (.client address allowedIps))
    (hup : ∀ t, t ≠ name → (live' t).isSome → (live t).isSome)
    (hfree : (env.netIfAddrs live).flatMap (conflictsWith allowedIps) = [])
    (hv6 : ∀ x scope, .v6 x scope ∈ allowedIps → ∀ m, site.Connected live m → ¬ Shares (.v6 x scope) m) :
    site.Clear live' := by
  rintro n m ⟨c, b, ns, hc, htc, hn⟩ hm
  -- the subnets of servers are those of before
  have hm : site.Connected live m := by
    rcases hm with hm | ⟨s, a, hs, hts, hm⟩
    · exact .inl hm
    · have hne : s ≠ name := by
        rintro rfl
        rw [ht] at hts
        cases hts
      exact .inr ⟨s, a, hup s hne hs, hts, hm⟩
  by_cases hcn : c = name
  · subst hcn
    obtain ⟨rfl, rfl⟩ := Tunnel.client.inj (Option.some.inj (ht.symm.trans htc))
    cases n with
    | v6 x scope => exact hv6 x scope hn m hm
    | v4 x =>
      cases m with
      | v6 y scope => exact not_shares_v4_v6 x y scope
      | v4 y =>
        obtain ⟨a, ha, hl⟩ := hb.lists live y hm
        exact conflicts_eq_nil_iff.mp hfree a ha _ hl _ hn
  · exact hclear n m ⟨c, b, ns, hup c hcn hc, htc, hn⟩ hm

/-- A server comes up beside the clients if none has a route into its subnet. -/
theorem Site.Clear.server (hclear : site.Clear live) {name : String} {address : IPInterface}
    (ht : site.tunnels name = some (.server address))
    (hup : ∀ t, t ≠ name → (live' t).isSome → (live t).isSome)
    (hroutes : ∀ n, site.Routed live n → ¬ Shares n address.network) : site.Clear live' := by
  rintro n m ⟨c, b, ns, hc, htc, hn⟩ hm
  have hne : c ≠ name := by
    rintro rfl
    rw [ht] at htc
    cases htc
  have hn : site.Routed live n := ⟨c, b, ns, hup c hne hc, htc, hn⟩
  rcases hm with hm | ⟨s, a, hs, hts, rfl⟩
  · exact hclear n m hn (.inl hm)
  · by_cases hsn : s = name
    · subst hsn
      obtain rfl := Tunnel.server.inj (Option.some.inj (ht.symm.trans hts))
      exact hroutes n hn
    · exact hclear n _ hn (.inr ⟨s, a, hup s hsn hs, hts, rfl⟩)

/-- One request keeps the routes clear, where what is not checked does not stand in its way. -/
theorem Behaves.step (hb : Behaves site env) (hdesc : site.Describes w) (hclear : site.Clear w.helper.live)
    (hopp : site.Unopposed r w) :
    site.Describes (runApi env r.handler w).2 ∧ site.Clear (runApi env r.handler w).2.helper.live := by
  obtain ⟨hconf, hcases⟩ := hb.request_cases r w
  refine ⟨fun name content hc => hdesc name content (hconf ▸ hc), ?_⟩
  rcases hcases with hsame | ⟨n, psk, hset, hstart⟩
  · rw [hsame]
    exact hclear
  rw [hset]
  have hothers : ∀ t, t ≠ r.name →
      ((env.helper n (.systemctl r.action.verb r.name) psk w.helper.live).2 t).isSome →
        (w.helper.live t).isSome := fun t hne h => by
    rwa [hb.others n r.action.verb r.name psk w.helper.live t hne] at h
  -- a tunnel that comes up has been checked; one that goes down takes its routes with it
  by_cases hact : r.action = .activate
  · obtain ⟨content, candidates, hc, hcand, hfree⟩ := hstart hact
    obtain ⟨hserver, hclient, -⟩ := hopp hact
    obtain ⟨t, ht, hparsed⟩ := hdesc r.name content hc
    obtain rfl : candidates = t.candidates := Prog.pure.inj (hcand.symm.trans hparsed.candidates)
    cases t with
    | server address => exact hclear.server ht hothers (hserver address ht)
    | client address allowedIps =>
      exact hb.clear_client hclear ht hothers hfree (hclient address allowedIps ht)
  · have hverb : r.action.verb ≠ .enableNow := by
      cases ha : r.action with
      | activate => exact absurd ha hact
      | deactivate => simp [Action.verb]
      | disconnect => simp [Action.verb]
    apply hclear.mono
    intro t h
    by_cases hne : t = r.name
    · subst hne
      exact hb.stops n r.action.verb r.name psk w.helper.live hverb h
    · exact hothers t hne h

/-! ## Which of two comes first -/

/-- No network that is checked shares an address with a listed subnet. -/
def Site.Passes (site : Site) (t : Tunnel) (live : Live) : Prop :=
  ∀ x, site.Listed live x → ∀ n ∈ t.candidates, ¬ Shares n (.v4 x)

theorem Works.conflicts_iff (hw : Works site env) (t : Tunnel) (live : Live) :
    (env.netIfAddrs live).flatMap (conflictsWith t.candidates) = [] ↔ site.Passes t live := by
  rw [conflicts_eq_nil_iff]
  constructor
  · intro h x hx
    obtain ⟨a, ha, hl⟩ := (hw.listed live _).mpr ⟨x, rfl, hx⟩
    exact h a ha _ hl
  · intro h a ha m hm
    obtain ⟨x, rfl, hx⟩ := (hw.listed live m).mp ⟨a, ha, hm⟩
    exact h x hx

theorem Behaves.frame (hb : Behaves site env) (r : StateCall) (w : World) {u : String} (hu : u ≠ r.name) :
    (runApi env r.handler w).2.helper.live u = w.helper.live u := by
  obtain ⟨-, hsame | ⟨n, psk, hset, -⟩⟩ := hb.request_cases r w
  · rw [hsame]
  · rw [hset, hb.others n r.action.verb r.name psk w.helper.live u hu]

theorem Behaves.upTogether_iff (hb : Behaves site env) {r r' : StateCall} (hne : r.name ≠ r'.name) :
    UpTogether env r r' w ↔ ((runApi env r.handler w).2.helper.live r.name).isSome ∧
      ((runApi env r'.handler (runApi env r.handler w).2).2.helper.live r'.name).isSome := by
  rw [← hb.frame r' (runApi env r.handler w).2 hne]
  constructor
  · rintro ⟨_, hsteps, h, h'⟩
    obtain rfl := Option.some.inj hsteps
    exact ⟨h, h'⟩
  · rintro ⟨h, h'⟩
    exact ⟨_, rfl, h, h'⟩

/-- A tunnel that is down comes up when it has a file and passes its check. -/
theorem Works.up_iff (hw : Works site env) (hdesc : site.Describes w) {n : TunnelName}
    (hdown : w.helper.live n.text = none) (user : User) :
    ((runApi env (StateCall.handler ⟨n.text, .activate, user⟩) w).2.helper.live n.text).isSome ↔
      (w.helper.conf.lookup n.text).isSome ∧
        ∃ t, site.tunnels n.text = some t ∧ site.Passes t w.helper.live := by
  constructor
  · intro hup
    obtain ⟨-, hsame | ⟨k, psk, -, hstart⟩⟩ := hw.request_cases ⟨n.text, .activate, user⟩ w
    · rw [hsame, hdown] at hup
      cases hup
    · obtain ⟨content, candidates, hc, hcand, hfree⟩ := hstart rfl
      obtain ⟨t, ht, hparsed⟩ := hdesc _ content hc
      obtain rfl : candidates = t.candidates := Prog.pure.inj (hcand.symm.trans hparsed.candidates)
      exact ⟨by rw [hc]; rfl, t, ht, (hw.conflicts_iff t _).mp hfree⟩
  · rintro ⟨hfile, t, ht, hpasses⟩
    obtain ⟨content, hc⟩ := Option.isSome_iff_exists.mp hfile
    obtain ⟨t', ht', hparsed⟩ := hdesc _ content hc
    obtain rfl : t = t' := Option.some.inj (ht.symm.trans ht')
    obtain ⟨k, psk, hlive⟩ := hw.activated hw.starts hw.link user hc hparsed.candidates
      ((hw.conflicts_iff t _).mpr hpasses)
    rw [hlive]
    exact hw.brings k n.text psk _

/-- Two tunnels that came up one after the other come up in the other order too, if the second
one fitted. -/
theorem Works.swap (hw : Works site env) (hdesc : site.Describes w) {a b : TunnelName} (hab : a.text ≠ b.text)
    (ha : w.helper.live a.text = none) (hb : w.helper.live b.text = none) {user user' : User}
    (hfits : site.Fits b.text
      (runApi env (StateCall.handler ⟨a.text, .activate, user⟩) w).2.helper.live)
    (h : UpTogether env ⟨a.text, .activate, user⟩ ⟨b.text, .activate, user'⟩ w) :
    UpTogether env ⟨b.text, .activate, user'⟩ ⟨a.text, .activate, user⟩ w := by
  obtain ⟨haUp, hbUp⟩ := (hw.upTogether_iff hab).mp h
  have hdescribes : ∀ r, site.Describes (runApi env (StateCall.handler r) w).2 := fun r name content hc =>
    hdesc name content ((hw.request_cases r w).1 ▸ hc)
  have hconf : ∀ r, (runApi env (StateCall.handler r) w).2.helper.conf = w.helper.conf := fun r =>
    (hw.request_cases r w).1
  obtain ⟨haFile, ta, hta, haPasses⟩ := (hw.up_iff hdesc ha user).mp haUp
  have hbDown : (runApi env (StateCall.handler ⟨a.text, .activate, user⟩) w).2.helper.live b.text = none :=
    (hw.frame ⟨a.text, .activate, user⟩ w hab.symm).trans hb
  obtain ⟨hbFile, tb, htb, hbPasses⟩ := (hw.up_iff (hdescribes _) hbDown user').mp hbUp
  rw [hconf] at hbFile
  -- what was listed is listed beside the first tunnel too
  have hbAlone : site.Passes tb w.helper.live := by
    intro x hx
    refine hbPasses x ?_
    rcases hx with hx | ⟨u, t, hu, ht, hn⟩
    · exact .inl hx
    · have hne : u ≠ a.text := by
        rintro rfl
        rw [ha] at hu
        cases hu
      exact .inr ⟨u, t, by rwa [hw.frame ⟨a.text, .activate, user⟩ w hne], ht, hn⟩
  have hapart : ¬ ta.Finds tb := by
    intro hfinds
    obtain ⟨x, hx, n, hn, hshares⟩ := hfits.bothWays tb htb a.text ta hab haUp hta hfinds
    exact hbPasses x (.inr ⟨a.text, ta, haUp, hta, hx⟩) n hn hshares
  have hbFirst := (hw.up_iff hdesc hb user').mpr ⟨hbFile, tb, htb, hbAlone⟩
  have haDown : (runApi env (StateCall.handler ⟨b.text, .activate, user'⟩) w).2.helper.live a.text = none :=
    (hw.frame ⟨b.text, .activate, user'⟩ w hab).trans ha
  refine (hw.upTogether_iff hab.symm).mpr ⟨hbFirst, ?_⟩
  refine (hw.up_iff (hdescribes _) haDown user).mpr ⟨by rwa [hconf], ta, hta, ?_⟩
  intro x hx n hn hshares
  rcases hx with hx | ⟨u, t, hu, ht, hnet⟩
  · exact haPasses x (.inl hx) n hn hshares
  · by_cases hub : u = b.text
    · subst hub
      obtain rfl : tb = t := Option.some.inj (htb.symm.trans ht)
      exact hapart ⟨x, hnet, n, hn, hshares⟩
    · rw [hw.frame ⟨b.text, .activate, user'⟩ w hub] at hu
      exact haPasses x (.inr ⟨u, t, hu, ht, hnet⟩) n hn hshares

/-- In every run of requests without force from all tunnels down, none of which is
opposed by what its check leaves out, no route of a client tunnel that is up leads into
the subnet of a local interface or of a server tunnel that is up; and on a machine that
works, two tunnels that are down and come up one after the other, unopposed, come up in the
other order as well. -/
theorem routes_stay_clear (env : AppEnv) (site : Site) (hb : Behaves site env) (w w' : World)
    (hdesc : site.Describes w) (hdown : ∀ name, w.helper.live name = none) (calls : List StateCall)
    (hrun : Transition.steps (stateStep env) calls w = some w')
    (hopp : Transition.Along (stateStep env) site.Unopposed calls w) :
    site.Clear w'.helper.live ∧
      ∀ (a b : TunnelName) (user user' : User), Works site env → a.text ≠ b.text →
        w'.helper.live a.text = none → w'.helper.live b.text = none →
        Transition.Along (stateStep env) site.Unopposed
          [⟨a.text, .activate, user⟩, ⟨b.text, .activate, user'⟩] w' →
        UpTogether env ⟨a.text, .activate, user⟩ ⟨b.text, .activate, user'⟩ w' →
        UpTogether env ⟨b.text, .activate, user'⟩ ⟨a.text, .activate, user⟩ w' := by
  have hstart : site.Clear w.helper.live := by
    rintro n m ⟨c, _, _, hc, -⟩ -
    rw [hdown c] at hc
    cases hc
  have hinv : site.Describes w' ∧ site.Clear w'.helper.live := by
    refine hopp.invariant (I := fun w => site.Describes w ∧ site.Clear w.helper.live) ?_ hrun ⟨hdesc, hstart⟩
    rintro r w₁ w₂ hr hstep ⟨hd, hc⟩
    obtain rfl := Option.some.inj hstep
    exact hb.step hd hc hr
  refine ⟨hinv.2, fun a b user user' hw hab ha hb' halong hup => ?_⟩
  exact hw.swap hinv.1 hab ha hb' ((halong.2 _ rfl).1 rfl) hup

end runs

/-! ## A server and a client with one subnet -/

def homeAddress : Cidr.Interface 32 := ⟨0x0A0A0A01#32, 24, Cidr.length_24⟩
def lanAddress : Cidr.Interface 32 := ⟨0xC0A80105#32, 24, Cidr.length_24⟩
def sydAddress : Cidr.Interface 32 := .host 0x0A140002#32
def melAddress : Cidr.Interface 32 := .host 0x0A1E0002#32
def perAddress : Cidr.Interface 32 := .host 0x0A320002#32
def melRoute : Cidr.Interface 32 := ⟨0x0A280001#32, 24, Cidr.length_24⟩
def perRoute : Cidr.Interface 32 := ⟨0x0A3C0001#32, 24, Cidr.length_24⟩

/-- Syd-Home has a route into the subnet of the server. -/
def homeTunnels : List (String × Tunnel) :=
  [("Bpl-Home", .server (.v4 homeAddress)),
    ("Syd-Home", .client (.v4 sydAddress) [.v4 homeAddress.network]),
    ("Mel-Home", .client (.v4 melAddress) [.v4 melRoute.network]),
    ("Per-Home", .client (.v4 perAddress) [.v4 perRoute.network])]

def homeSite : Site where
  lan := [.v4 lanAddress.network]
  tunnels := fun name => homeTunnels.lookup name

def Tunnel.sampleConf : Tunnel → Text
  | .server address => unlines [interfaceMark, setting addressWord address.str]
  | .client address allowedIps =>
    unlines ([interfaceMark, setting addressWord address.str, [], peerMark] ++
      allowedIps.map (fun n => setting allowedIpsWord n.str) ++ [setting endpointWord ['h', ':', '1']])

def homeAddresses : List (String × Cidr.Interface 32) :=
  [("Bpl-Home", homeAddress), ("Syd-Home", sydAddress), ("Mel-Home", melAddress), ("Per-Home", perAddress)]

/-- `systemctl` does what it is told, and the addresses of what is up are listed. -/
def homeEnv : AppEnv where
  helper := fun _ c _ live =>
    (.exited 0 [] [], match c with
      | .systemctl .enableNow t => Function.update live t (some [])
      | .systemctl .disableNow t => Function.update live t none
      | .systemctl .stop t => Function.update live t none
      | _ => live)
  repr := fun _ => ""
  uid := 0
  link := fun _ => .up
  netIfAddrs := fun live => ifaceAddr "eth0" lanAddress ::
    (homeAddresses.filter fun e => (live e.1).isSome).map fun e => ifaceAddr e.1 e.2
  uuid := fun _ => ""

theorem homeAddresses_tunnels :
    ∀ e ∈ homeAddresses, ∃ t, homeSite.tunnels e.1 = some t ∧ t.address = .v4 e.2 := by
  intro e he
  simp only [homeAddresses, List.mem_cons, List.not_mem_nil, or_false] at he
  obtain rfl | rfl | rfl | rfl := he
  all_goals exact ⟨_, rfl, rfl⟩

theorem homeTunnels_addresses : ∀ e ∈ homeTunnels, ∃ i, (e.1, i) ∈ homeAddresses ∧ e.2.address = .v4 i := by
  intro e he
  simp only [homeTunnels, List.mem_cons, List.not_mem_nil, or_false] at he
  obtain rfl | rfl | rfl | rfl := he
  all_goals exact ⟨_, by simp [homeAddresses], rfl⟩

theorem homeEnv_listed (live : Live) (m : IPNetwork) :
    (∃ a ∈ homeEnv.netIfAddrs live, localNet a = some m) ↔ ∃ x, m = .v4 x ∧ homeSite.Listed live x := by
  constructor
  · rintro ⟨a, ha, hl⟩
    rcases List.mem_cons.mp ha with rfl | ha
    · rw [localNet_ifaceAddr] at hl
      exact ⟨_, (Option.some.inj hl).symm, .inl List.mem_cons_self⟩
    · obtain ⟨e, he, rfl⟩ := List.mem_map.mp ha
      obtain ⟨hmem, hup⟩ := List.mem_filter.mp he
      obtain ⟨t, ht, haddress⟩ := homeAddresses_tunnels e hmem
      rw [localNet_ifaceAddr] at hl
      exact ⟨_, (Option.some.inj hl).symm, .inr ⟨e.1, t, hup, ht, by rw [haddress]; rfl⟩⟩
  · rintro ⟨x, rfl, hx | ⟨u, t, hu, ht, hnet⟩⟩
    · exact ⟨_, List.mem_cons_self, (localNet_ifaceAddr ..).trans (by rw [List.mem_singleton.mp hx])⟩
    · obtain ⟨i, hi, haddress⟩ := homeTunnels_addresses (u, t) (Dict.mem_of_lookup ht)
      simp only [haddress] at hnet
      refine ⟨_, List.mem_cons_of_mem _ (List.mem_map_of_mem (List.mem_filter.mpr ⟨hi, hu⟩)), ?_⟩
      rw [localNet_ifaceAddr]
      exact congrArg some hnet

theorem homeEnv_works : Works homeSite homeEnv where
  dump := fun _ _ _ => rfl
  isActive := fun _ _ _ _ => rfl
  others := by
    intro _ verb t _ live other hne
    cases verb with
    | isActive => rfl
    | enableNow => exact Function.update_of_ne hne _ _
    | disableNow => exact Function.update_of_ne hne _ _
    | stop => exact Function.update_of_ne hne _ _
  stops := by
    intro _ verb t _ live hne h
    cases verb with
    | isActive => exact h
    | enableNow => exact absurd rfl hne
    | disableNow => simp [homeEnv] at h
    | stop => simp [homeEnv] at h
  lists := by
    intro live m hm
    refine (homeEnv_listed live _).mpr ⟨m, rfl, ?_⟩
    rcases hm with hm | ⟨s, address, hs, ht, hm⟩
    · exact .inl hm
    · exact .inr ⟨s, .server address, hs, ht, hm.symm⟩
  starts := fun _ _ _ _ _ h => by cases h
  link := fun _ => rfl
  brings := fun _ t _ live => by simp [homeEnv]
  listed := homeEnv_listed

def homeWorld : World where
  helper :=
    { conf := ⟨homeTunnels.map fun e => (e.1, e.2.sampleConf), by decide⟩
      live := fun _ => none
      psk := none
      log := []
      tick := 0 }
  metadata := .absent
  log := []
  uuids := 0
  sent := []

theorem homeTunnels_parsed : ∀ e ∈ homeTunnels, e.2.ParsedFrom e.2.sampleConf := by
  intro e he
  simp only [homeTunnels, List.mem_cons, List.not_mem_nil, or_false] at he
  unfold Tunnel.ParsedFrom
  obtain rfl | rfl | rfl | rfl := he
  all_goals decide +kernel

theorem homeWorld_described : homeSite.Describes homeWorld := by
  intro name content hc
  obtain ⟨t, ht, rfl⟩ := Option.map_eq_some_iff.mp
    ((Dict.lookup_map homeTunnels (fun _ t => t.sampleConf) name).symm.trans hc)
  exact ⟨t, ht, homeTunnels_parsed _ (Dict.mem_of_lookup ht)⟩

/-- The routes of Syd-Home lead into the subnet of the server, and no others meet. -/
theorem homeTunnels_apart :
    ∀ e ∈ homeTunnels, ∀ e' ∈ homeTunnels, ∀ n ∈ e.2.candidates,
      n.overlaps e'.2.address.network = true → e.1 = e'.1 ∨ e.1 = "Syd-Home" ∧ e'.1 = "Bpl-Home" := by
  decide +kernel

theorem homeTunnels_lan :
    ∀ e ∈ homeTunnels, ∀ n ∈ e.2.candidates, n.overlaps (.v4 lanAddress.network) = false := by
  decide +kernel

theorem homeTunnels_v4 {name : String} {address : IPInterface} {allowedIps : List IPNetwork}
    (h : (name, .client address allowedIps) ∈ homeTunnels) (x : Cidr.Network 128) (scope : Option Scope) :
    .v6 x scope ∉ allowedIps := by
  simp only [homeTunnels, List.mem_cons, List.not_mem_nil, or_false, Prod.mk.injEq, Tunnel.client.injEq,
    reduceCtorEq, and_false, false_or] at h
  rcases h with ⟨-, -, rfl⟩ | ⟨-, -, rfl⟩ | ⟨-, -, rfl⟩ <;> simp

/-- A tunnel passes its check, except Syd-Home beside the server. -/
theorem homeSite_passes {name : String} {t : Tunnel} {live : Live} (ht : homeSite.tunnels name = some t)
    (hdown : live name = none) (hsyd : name = "Syd-Home" → live "Bpl-Home" = none) :
    homeSite.Passes t live := by
  have hmem := Dict.mem_of_lookup ht
  rintro x (hx | ⟨u, t', hu, ht', hnet⟩) n hn hshares
  · have hlan := homeTunnels_lan _ hmem n hn
    rw [← List.mem_singleton.mp hx, shares_iff_overlaps.mp hshares] at hlan
    cases hlan
  · have hmeet := homeTunnels_apart _ hmem _ (Dict.mem_of_lookup ht') n hn
      (shares_iff_overlaps.mp (hnet ▸ hshares))
    rcases hmeet with rfl | ⟨hname, rfl⟩
    · rw [hdown] at hu
      cases hu
    · rw [hsyd hname] at hu
      cases hu

/-- While Syd-Home is down, nothing stands in the way of the others. -/
theorem homeSite_fits (name : String) {live : Live} (hsyd : live "Syd-Home" = none) :
    homeSite.Fits name live where
  server := by
    rintro address ht n ⟨c, _, allowedIps, hc, htc, hn⟩ hshares
    have hmeet := homeTunnels_apart _ (Dict.mem_of_lookup htc) _ (Dict.mem_of_lookup ht) n hn
      (shares_iff_overlaps.mp hshares)
    rcases hmeet with rfl | ⟨rfl, -⟩
    · cases ht.symm.trans htc
    · rw [hsyd] at hc
      cases hc
  client := fun _ _ ht x scope hx => absurd hx (homeTunnels_v4 (Dict.mem_of_lookup ht) x scope)
  bothWays := by
    rintro t ht u t' hne hu ht' ⟨x, hx, n, hn, hshares⟩
    have hmeet := homeTunnels_apart _ (Dict.mem_of_lookup ht') _ (Dict.mem_of_lookup ht) n hn
      (shares_iff_overlaps.mp (hx ▸ hshares))
    rcases hmeet with rfl | ⟨rfl, -⟩
    · exact absurd rfl hne
    · rw [hsyd] at hu
      cases hu

def activate (name : String) : StateCall := ⟨name, .activate, none⟩

def bplHome : TunnelName := ⟨"Bpl-Home", by decide⟩
def sydHome : TunnelName := ⟨"Syd-Home", by decide⟩
def perHome : TunnelName := ⟨"Per-Home", by decide⟩

theorem homeSite_described {w : World} (h : w.helper.conf = homeWorld.helper.conf) : homeSite.Describes w :=
  fun name content hc => homeWorld_described name content (h ▸ hc)

theorem homeEnv_activated {w : World} (hconf : w.helper.conf = homeWorld.helper.conf) {n : TunnelName}
    {t : Tunnel} (ht : homeSite.tunnels n.text = some t) (hdown : w.helper.live n.text = none)
    (hsyd : n.text = "Syd-Home" → w.helper.live "Bpl-Home" = none) :
    ((runApi homeEnv (activate n.text).handler w).2.helper.live (activate n.text).name).isSome := by
  simp only [activate]
  rw [homeEnv_works.up_iff (homeSite_described hconf) hdown none]
  refine ⟨?_, t, ht, ?_⟩
  · have hlookup : w.helper.conf.lookup n.text = (homeSite.tunnels n.text).map Tunnel.sampleConf := by
      rw [hconf]
      exact Dict.lookup_map homeTunnels (fun _ t => t.sampleConf) n.text
    rw [hlookup, ht]
    rfl
  · exact homeSite_passes ht hdown hsyd

theorem homeWorld_after (r : StateCall) {w : World} (hconf : w.helper.conf = homeWorld.helper.conf) :
    (runApi homeEnv r.handler w).2.helper.conf = homeWorld.helper.conf :=
  (homeEnv_works.request_cases r w).1.trans hconf

theorem homeEnv_upTogether {w : World} (hconf : w.helper.conf = homeWorld.helper.conf) {a b : TunnelName}
    (hab : a.text ≠ b.text) {ta tb : Tunnel} (hta : homeSite.tunnels a.text = some ta)
    (htb : homeSite.tunnels b.text = some tb) (ha : w.helper.live a.text = none)
    (hb : w.helper.live b.text = none) (hbpl : w.helper.live "Bpl-Home" = none)
    (hsyd : b.text ≠ "Syd-Home") :
    UpTogether homeEnv (activate a.text) (activate b.text) w := by
  have hbDown := (homeEnv_works.frame (activate a.text) w hab.symm).trans hb
  have hfirst := homeEnv_activated hconf hta ha fun _ => hbpl
  have hsecond := homeEnv_activated (w := (runApi homeEnv (activate a.text).handler w).2) (n := b)
    (homeWorld_after (activate a.text) hconf) htb hbDown fun h => absurd h hsyd
  exact (homeEnv_works.upTogether_iff hab).mpr ⟨hfirst, hsecond⟩

/-- Beside Mel-Home the server and Per-Home come up in either order. -/
theorem server_and_client_in_any_order :
    ∃ w', Transition.steps (stateStep homeEnv) [activate "Mel-Home"] homeWorld = some w' ∧
      homeSite.Clear w'.helper.live ∧
      UpTogether homeEnv (activate "Bpl-Home") (activate "Per-Home") w' ∧
      UpTogether homeEnv (activate "Per-Home") (activate "Bpl-Home") w' := by
  obtain ⟨hclear, hswap⟩ := routes_stay_clear homeEnv homeSite homeEnv_works.toBehaves homeWorld _
    homeWorld_described (fun _ => rfl) [activate "Mel-Home"] rfl
    ⟨fun _ => homeSite_fits "Mel-Home" rfl, fun _ _ => trivial⟩
  have hdown := fun n hn => homeEnv_works.frame (activate "Mel-Home") homeWorld (u := n) hn
  have hconf := homeWorld_after (activate "Mel-Home") (w := homeWorld) rfl
  have hup := homeEnv_upTogether (a := bplHome) (b := perHome) hconf (by decide) rfl rfl
    (hdown _ (by decide)) (hdown _ (by decide)) (hdown _ (by decide)) (by decide)
  refine ⟨_, rfl, hclear, hup, hswap bplHome perHome none none homeEnv_works (by decide)
    (hdown _ (by decide)) (hdown _ (by decide)) ?_ hup⟩
  refine ⟨fun _ => homeSite_fits _ (hdown _ (by decide)), fun w hw => ?_⟩
  refine ⟨fun _ => homeSite_fits _ ?_, fun _ _ => trivial⟩
  obtain rfl := Option.some.inj hw
  exact (homeEnv_works.frame (activate "Bpl-Home") _ (by decide)).trans (hdown _ (by decide))

/-- Syd-Home first: the server comes up beside it, and the routes of the one lead into the subnet
of the other. The server first: Syd-Home is refused. -/
theorem client_first_is_overlapped :
    Works homeSite homeEnv ∧ homeSite.Describes homeWorld ∧ (∀ name, homeWorld.helper.live name = none) ∧
      UpTogether homeEnv (activate "Syd-Home") (activate "Bpl-Home") homeWorld ∧
      (∀ w', Transition.steps (stateStep homeEnv) [activate "Syd-Home", activate "Bpl-Home"] homeWorld =
        some w' → ¬ homeSite.Clear w'.helper.live) ∧
      ¬ UpTogether homeEnv (activate "Bpl-Home") (activate "Syd-Home") homeWorld := by
  have hup := homeEnv_upTogether (a := sydHome) (b := bplHome) (w := homeWorld) rfl (by decide) rfl rfl rfl
    rfl rfl (by decide)
  refine ⟨homeEnv_works, homeWorld_described, fun _ => rfl, hup, ?_, ?_⟩
  · rintro w' hsteps hclear
    obtain ⟨w'', hsteps', hsyd, hbpl⟩ := hup
    obtain rfl := Option.some.inj (hsteps'.symm.trans hsteps)
    apply hclear (.v4 homeAddress.network) (.v4 homeAddress.network)
    · exact ⟨"Syd-Home", _, _, hsyd, rfl, List.mem_singleton_self _⟩
    · exact .inr ⟨"Bpl-Home", _, hbpl, rfl, rfl⟩
    · exact shares_iff_overlaps.mpr (by decide)
  · intro h
    obtain ⟨hbpl, hsyd⟩ := (homeEnv_works.upTogether_iff (by decide)).mp h
    have hdown := homeEnv_works.frame (activate "Bpl-Home") homeWorld (u := "Syd-Home") (by decide)
    obtain ⟨-, t, ht, hpasses⟩ := (homeEnv_works.up_iff (n := sydHome)
      (homeSite_described (homeWorld_after _ rfl)) hdown none).mp hsyd
    obtain rfl := Option.some.inj ht
    exact hpasses homeAddress.network (.inr ⟨"Bpl-Home", _, hbpl, rfl, rfl⟩) (.v4 homeAddress.network)
      (List.mem_singleton_self _) (shares_iff_overlaps.mpr (by decide))

end App
