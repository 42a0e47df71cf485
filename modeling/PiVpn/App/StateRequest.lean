import PiVpn.App.MetadataFrame

/-! The way of a request that switches a tunnel: the status of the tunnel, the check of
an activation that is not forced, and the call of the helper. -/

namespace App
open Text Ipaddress Effect Helper

/-! ## What a call leaves of the helper -/

section calls

variable {env : AppEnv} {w w' : World}

/-- Serving a command changes the helper as the command does, its log apart, or not at all. -/
theorem serve_helper (req : Request) (cmd : String) {f : Request → Cmd Result}
    (hcmd : Json.get req "cmd" = .str cmd) (hf : dispatch cmd = some f) :
    (serve env req w).2.helper = w.helper ∨
      ∃ records, (serve env req w).2.helper =
        { (execute env.helper (f req) w.helper).2 with log := records } := by
  have hreply : ∃ records, (serveConnection env req w.helper).2 =
      { (execute env.helper (f req) w.helper).2 with log := records } := by
    rw [serveConnection_eq hcmd hf]
    rcases execute env.helper (f req) w.helper with ⟨(e | text) | result, s⟩
    · exact ⟨_, rfl⟩
    · exact ⟨_, rfl⟩
    · exact ⟨_, rfl⟩
  unfold serve
  cases env.link w.sent.length with
  | refused e => exact .inl rfl
  | up => exact .inr hreply
  | lost => exact .inr hreply
  | cut => exact .inr hreply

theorem runApi_call_helper (cmd : String) (params : Request) :
    (runApi env (call cmd params) w).2.helper =
      (serve env (("cmd", .str cmd) :: params) w).2.helper := by
  unfold call
  rw [runApi_bind, runApi_askHelper]
  rcases (serve env (("cmd", .str cmd) :: params) w).1 with e | _ | _ | (res | e)
  · rfl
  · rfl
  · rfl
  · rfl
  · rfl

theorem runApi_map {α β : Type} (g : α → β) (p : Api α) :
    (runApi env (do pure (g (← p))) w).2 = (runApi env p w).2 := by
  rw [runApi_bind]
  rcases runApi env p w with ⟨_ | _, _⟩ <;> rfl

theorem runApi_then_log {α β : Type} {p : Api α} (r : LogRecord) (b : β) :
    (runApi env (do let _ ← p; log r; pure b) w).2.helper = (runApi env p w).2.helper := by
  rw [runApi_bind]
  rcases runApi env p w with ⟨_ | _, _⟩ <;> rfl

end calls

/-! ## The status of one tunnel -/

section status

variable {env : Env} {s s' : State} {name : String}

theorem status_reads {ts : List TunnelStatus}
    (h : execute env (cmdTunnelStatus (tunnelStatusRequest (some name))) s = (.ok ts, s')) :
    (∀ t ∈ ts, ∃ content, s.conf.lookup name = some content ∧
      t.conf = parseConfInfo (universalNewlines content)) ∧
    ((s.conf.lookup name).isSome → ts ≠ []) := by
  obtain ⟨only, honly, hall⟩ := status_entries h
  obtain ⟨n, rfl, rfl⟩ := nullable_name honly
  rw [listed_some] at hall
  split at hall
  · next hc =>
    obtain ⟨t, rest, ⟨out, rfl⟩, hrest, rfl⟩ := List.forall₂_cons_left_iff.mp hall
    obtain rfl := List.forall₂_nil_left_iff.mp hrest
    obtain ⟨content, hc⟩ := Option.isSome_iff_exists.mp hc
    refine ⟨fun t ht => ⟨content, hc, ?_⟩, fun _ => List.cons_ne_nil _ _⟩
    rw [List.mem_singleton.mp ht, statusOf, hc]
    rfl
  · next hc =>
    obtain rfl := List.forall₂_nil_left_iff.mp hall
    exact ⟨fun t ht => absurd ht List.not_mem_nil, fun h => absurd h hc⟩

end status

section answered

variable {env : AppEnv} {w w' : World} {name : String}

theorem tunnelStatus_reads {ts : List TunnelStatus}
    (h : runApi env (Client.tunnelStatus (some name)) w = (.ok ts, w')) :
    (∀ t ∈ ts, ∃ content, w.helper.conf.lookup name = some content ∧
      t.conf = parseConfInfo (universalNewlines content)) ∧
    ((w.helper.conf.lookup name).isSome → ts ≠ []) := by
  obtain ⟨res, w₁, hcall, h₁⟩ := Prog.exec_bind_ok h
  obtain ⟨hres, -⟩ := call_ok hcall
  obtain ⟨hrun, -⟩ := serve_ok "tunnel_status" rfl rfl hres
  obtain ⟨ts', s₁, hts, h₂⟩ := Prog.exec_bind_ok (Prod.ext hrun rfl)
  obtain rfl : Result.tunnels ts' = res := Except.ok.inj (congrArg Prod.fst h₂)
  obtain rfl : ts' = ts := Except.ok.inj (congrArg Prod.fst h₁)
  exact status_reads hts

theorem tunnelStatus_answered (h : Succeeds env (tunnelStatusRequest (some name)) w) :
    ∃ ts, runApi env (Client.tunnelStatus (some name)) w =
      (.ok ts, (serve env (tunnelStatusRequest (some name)) w).2) := by
  obtain ⟨res, hres⟩ := h
  have hcall := runApi_call_ok [("name", .str name)] hres
  refine ⟨tunnelsOf res, ?_⟩
  unfold Client.tunnelStatus
  rw [runApi_bind, Option.map_some, Option.getD_some, hcall]
  rfl

end answered

/-! ## Calls that go through -/

section started

variable {env : Env} {s : State}

/-- Every subprocess starts. -/
def Starts (env : Env) : Prop := ∀ n c psk live e, (env n c psk live).1 ≠ .notStarted e

theorem Starts.runCommand (h : Starts env) (c : Command) (s : State) :
    ∃ x, ran (env s.tick c s.psk s.live).1 = .ok x := by
  cases ho : (env s.tick c s.psk s.live).1 with
  | exited rc out err => exact ⟨(rc, out, err), rfl⟩
  | notStarted e => exact (h _ _ _ _ _ ho).elim

theorem forEach_started {α β : Type} {f : α → Cmd β} (hf : ∀ a s, ∃ y s', execute env (f a) s = (.ok y, s'))
    (xs : List α) (s : State) : ∃ ys s', execute env (forEach f xs) s = (.ok ys, s') := by
  induction xs generalizing s with
  | nil => exact ⟨[], s, rfl⟩
  | cons x xs ih =>
    obtain ⟨y, s₁, hy⟩ := hf x s
    obtain ⟨ys, s₂, hys⟩ := ih s₁
    refine ⟨y :: ys, s₂, ?_⟩
    unfold forEach
    rw [execute_bind, hy]
    simp only [execute_bind, hys]
    rfl

theorem Starts.tunnelStatus (h : Starts env) (live : List (Text × LiveStatus)) (tname : String) (s : State) :
    ∃ t s', execute env (Helper.tunnelStatus live tname) s = (.ok t, s') := by
  obtain ⟨x, hx⟩ := h.runCommand (.systemctl .isActive tname) s
  rw [execute_tunnelStatus, hx]
  exact ⟨_, _, rfl⟩

theorem Starts.cmdTunnelStatus (h : Starts env) (name : Option TunnelName) (s : State) :
    ∃ ts s', execute env (Helper.cmdTunnelStatus (tunnelStatusRequest (name.map TunnelName.text))) s =
      (.ok ts, s') := by
  rw [execute_cmdTunnelStatus, nullable_request]
  cases ho : (env s.tick .wgShowAllDump s.psk s.live).1 with
  | notStarted e => exact (h _ _ _ _ _ ho).elim
  | exited rc dump err => exact forEach_started (h.tunnelStatus _) _ _

end started

/-! ## Switching a tunnel -/

/-- The `systemctl` of an action. -/
def Action.verb : Action → Systemctl
  | .activate => .enableNow
  | .deactivate => .disableNow
  | .disconnect => .stop

def setStateRequest (name : String) (action : Action) : Request :=
  [("cmd", .str "set_tunnel_state"), ("name", .str name), ("action", .str action.name)]

theorem readAction_name (action : Action) : readAction (.str action.name) = .ok action.verb := by
  cases action <;> rfl

/-- `systemctl` is run for a tunnel that has a file, and nothing otherwise. -/
theorem execute_setTunnelState (env : Env) (s : State) (name : String) (action : Action) :
    (execute env (cmdSetTunnelState (setStateRequest name action)) s).2 = s ∨
      (execute env (cmdSetTunnelState (setStateRequest name action)) s).2 =
        s.afterRun env (.systemctl action.verb name) := by
  unfold cmdSetTunnelState
  rw [execute_bind, execute_lift]
  cases hn : validateTunnelName (Json.get (setStateRequest name action) "name") with
  | error e => exact .inl rfl
  | ok n =>
    have hname : n.text = name := tunnelName_text hn
    have hverb : readAction (Json.get (setStateRequest name action) "action") = .ok action.verb :=
      readAction_name action
    simp only [hverb, execute_bind, execute_lift, execute_confExists, execute_require]
    cases (s.conf.lookup n.text).isSome with
    | false => exact .inl rfl
    | true =>
      refine .inr ?_
      simp only [if_true, execute_runChecked, hname]
      cases checked (env s.tick (.systemctl action.verb name) s.psk s.live).1 "systemctl" <;> rfl

theorem execute_setTunnelState_present (env : Env) {s : State} {n : TunnelName} (action : Action)
    (hc : (s.conf.lookup n.text).isSome) :
    (execute env (cmdSetTunnelState (setStateRequest n.text action)) s).2 =
      s.afterRun env (.systemctl action.verb n.text) := by
  have hname : validateTunnelName (Json.get (setStateRequest n.text action) "name") = .ok n :=
    validateTunnelName_text n
  have hverb : readAction (Json.get (setStateRequest n.text action) "action") = .ok action.verb :=
    readAction_name action
  unfold cmdSetTunnelState
  rw [execute_bind, execute_lift, hname]
  simp only [hverb, execute_bind, execute_lift, execute_confExists, execute_require, hc, if_true,
    execute_runChecked]
  cases checked (env s.tick (.systemctl action.verb n.text) s.psk s.live).1 "systemctl" <;> rfl

section request

variable {env : AppEnv} {w w' : World}

theorem setTunnelState_helper (name : String) (action : Action) (w : World) :
    (runApi env (Client.setTunnelState name action) w).2.helper =
      (serve env (setStateRequest name action) w).2.helper :=
  (congrArg World.helper (runApi_map (fun _ => ()) _)).trans (runApi_call_helper ..)

theorem execute_unit {c : Cmd Unit} (env : Env) (s : State) :
    (execute env (do c; pure Result.done) s).2 = (execute env c s).2 := by
  rw [execute_bind]
  rcases execute env c s with ⟨_ | _, _⟩ <;> rfl

theorem setTunnelState_cases (name : String) (action : Action) (w : World) :
    (runApi env (Client.setTunnelState name action) w).2.helper.conf = w.helper.conf ∧
      ((runApi env (Client.setTunnelState name action) w).2.helper.live = w.helper.live ∨
        ∃ n psk, (runApi env (Client.setTunnelState name action) w).2.helper.live =
          (env.helper n (.systemctl action.verb name) psk w.helper.live).2) := by
  rw [setTunnelState_helper]
  rcases @serve_helper env w (setStateRequest name action) "set_tunnel_state" _ rfl rfl with h | ⟨records, h⟩
  · rw [h]
    exact ⟨rfl, .inl rfl⟩
  · rw [h, execute_unit]
    rcases execute_setTunnelState env.helper w.helper name action with he | he
    · rw [he]
      exact ⟨rfl, .inl rfl⟩
    · rw [he]
      exact ⟨rfl, .inr ⟨_, _, rfl⟩⟩

/-- Over a connection that works `systemctl` is run for a tunnel that has a file. -/
theorem setTunnelState_runs {n : TunnelName} (action : Action) (hlink : ∀ k, env.link k = .up)
    (hc : (w.helper.conf.lookup n.text).isSome) :
    ∃ k psk, (runApi env (Client.setTunnelState n.text action) w).2.helper.live =
      (env.helper k (.systemctl action.verb n.text) psk w.helper.live).2 := by
  have hserve : (serve env (setStateRequest n.text action) w).2.helper =
      (serveConnection env (setStateRequest n.text action) w.helper).2 := by
    unfold serve
    rw [hlink]
  have hlive : (serveConnection env (setStateRequest n.text action) w.helper).2.live =
      (execute env.helper (do
        cmdSetTunnelState (setStateRequest n.text action)
        pure Result.done) w.helper).2.live := by
    rw [@serveConnection_eq env _ "set_tunnel_state" (fun req => do
      cmdSetTunnelState req
      pure .done) _ rfl rfl]
    rcases execute env.helper _ w.helper with ⟨(e | text) | result, s⟩ <;> rfl
  rw [setTunnelState_helper, hserve, hlive, execute_unit, execute_setTunnelState_present _ _ hc]
  exact ⟨_, _, rfl⟩

theorem serve_status {name : Option String} {ts : List TunnelStatus} {s' : State}
    (hlink : env.link w.sent.length = .up)
    (hts : execute env.helper (cmdTunnelStatus (tunnelStatusRequest name)) w.helper = (.ok ts, s')) :
    (serve env (tunnelStatusRequest name) w).1 = .response (.ok (.tunnels ts)) := by
  unfold serve
  rw [hlink]
  simp only
  rw [@serveConnection_eq env _ "tunnel_status"
    (fun req => do pure (.tunnels (← cmdTunnelStatus req))) _ rfl rfl, execute_bind, hts]
  rfl

theorem status_succeeds (hs : Starts env.helper) (hlink : ∀ k, env.link k = .up) (n : TunnelName)
    (w : World) : Succeeds env (tunnelStatusRequest (some n.text)) w := by
  obtain ⟨ts, s', hts⟩ := hs.cmdTunnelStatus (some n) w.helper
  exact ⟨.tunnels ts, serve_status (hlink _) hts⟩

/-- The check of an activation that was not forced. -/
def checkActivation (action : Action) (conf : ConfInfo) : Api Unit :=
  if action = .activate then do
    let candidates ← candidatesOf conf
    refuseConflicts activateOverlap candidates
  else pure ()

/-- The request once the status has come back. -/
def switchTunnel (name : String) (action : Action) (user : User) : List TunnelStatus → Api HttpResponse
  | [] => httpError 404 "Unknown tunnel"
  | t :: _ => do
    checkActivation action t.conf
    Client.setTunnelState name action
    log (infoLog "tunnel_state_changed" "wireguard.tunnel.state" user
      [("tunnel", .str name), ("action", .str action.name), ("forced", .bool false)])
    pure statusOk

theorem setTunnelState_eq (name : String) (action : Action) (user : User) :
    setTunnelState name ⟨action, false⟩ user =
      Client.tunnelStatus (some name) >>= switchTunnel name action user := by
  unfold setTunnelState
  congr 1
  funext ts
  cases ts with
  | nil => rfl
  | cons t ts =>
    unfold switchTunnel checkActivation
    by_cases ha : action = .activate
    · simp only [ha, and_self, if_true, Prog.bind_assoc]
    · simp only [ha, false_and, if_false]
      rfl

/-- The candidates are found, or an address that cannot be read raises. -/
theorem candidatesOf_cases (conf : ConfInfo) :
    (∃ candidates, candidatesOf conf = .pure candidates) ∨ ∃ e, candidatesOf conf = .raise (.unhandled e) := by
  unfold candidatesOf
  split
  · exact .inl ⟨_, rfl⟩
  · split
    · exact .inl ⟨_, rfl⟩
    · split
      · exact .inl ⟨_, rfl⟩
      · exact .inr ⟨_, rfl⟩

theorem runApi_checkActivation (action : Action) (conf : ConfInfo) (w : World) :
    (runApi env (checkActivation action conf) w).2 = w ∧
      ((runApi env (checkActivation action conf) w).1 = .ok () → action = .activate →
        ∃ candidates, candidatesOf conf = .pure candidates ∧
          ((env.netIfAddrs w.helper.live).flatMap (conflictsWith candidates)) = []) := by
  unfold checkActivation
  split
  · rcases candidatesOf_cases conf with ⟨candidates, hc⟩ | ⟨e, hc⟩
    · rw [hc, Prog.ret_bind, runApi_refuseConflicts]
      split
      · next hfree => exact ⟨rfl, fun _ _ => ⟨candidates, rfl, List.isEmpty_iff.mp hfree⟩⟩
      · exact ⟨rfl, fun h => by cases h⟩
    · rw [hc, Prog.raise_bind]
      exact ⟨rfl, fun h => by cases h⟩
  · exact ⟨rfl, fun _ ha => absurd ha ‹_›⟩

theorem runApi_check_candidates {conf : ConfInfo} {candidates : List IPNetwork}
    (hc : candidatesOf conf = .pure candidates) (w : World) :
    runApi env (checkActivation .activate conf) w =
      if ((env.netIfAddrs w.helper.live).flatMap (conflictsWith candidates)).isEmpty then (.ok (), w)
      else (.error (.http 409 (conflictDetail activateOverlap
        ((env.netIfAddrs w.helper.live).flatMap (conflictsWith candidates)))), w) := by
  unfold checkActivation
  rw [if_pos rfl, hc, Prog.ret_bind, runApi_refuseConflicts]

theorem runApi_check_unread {conf : ConfInfo} {e : Failure} (hc : candidatesOf conf = .raise e) (w : World) :
    runApi env (checkActivation .activate conf) w = (.error e, w) := by
  unfold checkActivation
  rw [if_pos rfl, hc, Prog.raise_bind, runApi_raise]

/-- The request of a tunnel whose status is answered: its check, then the call. -/
theorem runApi_setTunnelState {name : String} {action : Action} {user : User} {content : Text}
    (hstatus : Succeeds env (tunnelStatusRequest (some name)) w)
    (hc : w.helper.conf.lookup name = some content) :
    runApi env (setTunnelState name ⟨action, false⟩ user) w =
      runApi env (do
        checkActivation action (parseConfInfo (universalNewlines content))
        Client.setTunnelState name action
        log (infoLog "tunnel_state_changed" "wireguard.tunnel.state" user
          [("tunnel", .str name), ("action", .str action.name), ("forced", .bool false)])
        pure statusOk) (serve env (tunnelStatusRequest (some name)) w).2 := by
  obtain ⟨ts, hts⟩ := tunnelStatus_answered hstatus
  obtain ⟨hreads, hne⟩ := tunnelStatus_reads hts
  obtain ⟨t, ts, rfl⟩ := List.exists_cons_of_ne_nil (hne (by simp [hc]))
  obtain ⟨content', hc', hparse⟩ := hreads t List.mem_cons_self
  obtain rfl : content = content' := Option.some.inj (hc.symm.trans hc')
  rw [setTunnelState_eq, runApi_bind, hts]
  simp only [switchTunnel, hparse]

end request

/-! ## Conflicts -/

/-- The two networks have an address in common. -/
def Shares (n m : IPNetwork) : Prop := ∃ a, n.contains a = true ∧ m.contains a = true

theorem shares_iff_overlaps {n m : IPNetwork} : Shares n m ↔ n.overlaps m = true :=
  IPNetwork.overlaps_iff_common.symm

theorem not_shares_v4_v6 (n : Cidr.Network 32) (m : Cidr.Network 128) (scope : Option Scope) :
    ¬ Shares (.v4 n) (.v6 m scope) := by
  rw [shares_iff_overlaps]
  exact Bool.false_ne_true

theorem conflicts_eq_nil_iff {candidates : List IPNetwork} {addrs : List IfaceAddr} :
    addrs.flatMap (conflictsWith candidates) = [] ↔
      ∀ a ∈ addrs, ∀ m, localNet a = some m → ∀ n ∈ candidates, ¬ Shares n m := by
  rw [List.flatMap_eq_nil_iff]
  refine forall₂_congr fun a _ => ?_
  unfold conflictsWith
  cases localNet a with
  | none => simp
  | some m =>
    simp only [List.map_eq_nil_iff, List.filter_eq_nil_iff, Option.some.injEq, shares_iff_overlaps]
    constructor
    · rintro h _ rfl n hn
      exact h n hn
    · exact fun h n hn => h m rfl n hn

/-- An address as `psutil` lists it. -/
def ifaceAddr (iface : String) (i : Cidr.Interface 32) : IfaceAddr :=
  ⟨iface, afInet, ipv4Str i.ip, some (ipv4Str (Cidr.mask 32 i.prefixlen))⟩

theorem localNet_ifaceAddr (iface : String) (i : Cidr.Interface 32) :
    localNet (ifaceAddr iface i) = some (.v4 i.network) := by
  have hne : ipv4Str (Cidr.mask 32 i.prefixlen) ≠ [] := by
    intro h
    have hread := makeNetmask4_ipv4Str_mask i.le
    rw [h, show makeNetmask4 [] = none by decide] at hread
    cases hread
  obtain ⟨c, cs, hc⟩ := List.exists_cons_of_ne_nil hne
  have hread := ipInterface_netmask i
  unfold localNet ifaceAddr
  rw [hc] at hread ⊢
  simp [afInet, hread, IPInterface.network]

theorem filterMap_of_mapM {α β : Type} {f : α → Option β} {xs : List α} {ys : List β}
    (h : xs.mapM f = some ys) : xs.filterMap f = ys := by
  induction xs generalizing ys with
  | nil =>
    obtain rfl : [] = ys := Option.some.inj h
    rfl
  | cons x xs ih =>
    rw [List.mapM_cons] at h
    obtain ⟨y, hy, h⟩ := Option.bind_eq_some_iff.mp h
    obtain ⟨zs, hzs, h⟩ := Option.bind_eq_some_iff.mp h
    obtain rfl : y :: zs = ys := Option.some.inj h
    rw [List.filterMap_cons, hy, ih hzs]

end App
