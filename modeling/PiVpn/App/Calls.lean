import PiVpn.App.World
import PiVpn.Helper.ConfStore

/-! What a call of the helper does to the conf files, as the application may rely on it. -/

namespace App
open Text Pattern Ipaddress Effect Helper

/-! ## The requests the client sends -/

def genkeyRequest : Request := [("cmd", .str "genkey")]

def createTunnelRequest (name : String) (address : Text) (listenPort : Int) (privateKey : Text) :
    Request :=
  [("cmd", .str "create_tunnel"), ("name", .str name), ("address", jsonText address),
    ("listen_port", .int listenPort), ("private_key", jsonText privateKey)]

def deleteTunnelRequest (name : String) : Request :=
  [("cmd", .str "delete_tunnel"), ("name", .str name)]

def addPeerRequest (tunnel : String) (publicKey : Text) (allowedIps : List Text)
    (presharedKey : Option Text) (keepalive : Option Int) : Request :=
  [("cmd", .str "add_peer"), ("tunnel", .str tunnel), ("public_key", jsonText publicKey),
    ("allowed_ips", .arr (allowedIps.map jsonText)),
    ("preshared_key", (presharedKey.map jsonText).getD .null),
    ("keepalive", (keepalive.map .int).getD .null)]

def removePeerRequest (tunnel : String) (publicKey : Text) : Request :=
  [("cmd", .str "remove_peer"), ("tunnel", .str tunnel), ("public_key", jsonText publicKey)]

def tunnelStatusRequest (name : Option String) : Request :=
  [("cmd", .str "tunnel_status"), ("name", (name.map .str).getD .null)]

/-- A request that leaves the conf files alone. -/
def Quiet (req : Request) : Prop := req = genkeyRequest ∨ ∃ name, req = tunnelStatusRequest name

/-! ## Commands that leave the conf files alone -/

/-- The command changes no conf file. -/
def Keeps {α : Type} (c : Cmd α) : Prop := ∀ env s, (execute env c s).2.conf = s.conf

section keeps

variable {α β : Type}

theorem Keeps.bind {c : Cmd α} {f : α → Cmd β} (hc : Keeps c) (hf : ∀ a, Keeps (f a)) :
    Keeps (c >>= f) := by
  intro env s
  rw [execute_bind]
  have h := hc env s
  rcases hx : execute env c s with ⟨e | a, s'⟩
  · rwa [hx] at h
  · rw [hx] at h
    exact (hf a env s').trans h

theorem keeps_pure (a : α) : Keeps (pure a : Cmd α) := fun _ _ => rfl

theorem keeps_lift (x : Except Fault α) : Keeps (lift x) := fun _ _ => by rw [execute_lift]

theorem keeps_runCommand (c : Command) : Keeps (runCommand c) := fun _ _ => by
  rw [execute_runCommand]
  rfl

theorem keeps_runChecked (c : Command) (what : String) : Keeps (runChecked c what) := fun _ _ => by
  rw [execute_runChecked]
  rfl

theorem keeps_readText (name : String) : Keeps (readText name) := fun _ _ => rfl

theorem keeps_confNames : Keeps confNames := fun _ _ => rfl

theorem keeps_forEach {f : α → Cmd β} (hf : ∀ a, Keeps (f a)) (xs : List α) :
    Keeps (forEach f xs) := by
  induction xs with
  | nil => exact keeps_pure _
  | cons x xs ih => exact (hf x).bind fun y => ih.bind fun ys => keeps_pure _

theorem keeps_cmdGenkey (req : Request) : Keeps (cmdGenkey req) :=
  (keeps_runChecked _ _).bind fun _ => (keeps_runChecked _ _).bind fun _ => keeps_pure _

theorem keeps_cmdTunnelStatus (req : Request) : Keeps (cmdTunnelStatus req) := by
  refine (keeps_lift _).bind fun name => keeps_confNames.bind fun stems =>
    (keeps_runCommand _).bind fun out => keeps_forEach (fun tname => ?_) _
  exact (keeps_runCommand _).bind fun _ => (keeps_readText _).bind fun _ => keeps_pure _

end keeps

/-! ## Serving a request -/

section serving

variable {env : AppEnv} {w : World} {req : Request}

@[simp] theorem serve_metadata : (serve env req w).2.metadata = w.metadata := by
  unfold serve
  cases env.link w.sent.length <;> rfl

@[simp] theorem serve_log : (serve env req w).2.log = w.log := by
  unfold serve
  cases env.link w.sent.length <;> rfl

@[simp] theorem serve_uuids : (serve env req w).2.uuids = w.uuids := by
  unfold serve
  cases env.link w.sent.length <;> rfl

variable (cmd : String) {f : Request → Cmd Result}

theorem replied_conf (r : Except Fault Result × State) :
    (replied env cmd r).2.conf = r.2.conf := by
  obtain ⟨(e | text) | result, s⟩ := r <;> rfl

theorem serve_conf (hcmd : Json.get req "cmd" = .str cmd) (hf : dispatch cmd = some f) :
    (serve env req w).2.helper.conf = w.helper.conf ∨
      (serve env req w).2.helper.conf = (execute env.helper (f req) w.helper).2.conf := by
  unfold serve
  cases env.link w.sent.length with
  | refused e => exact .inl rfl
  | up => exact .inr (by simp only [serveConnection_eq hcmd hf, replied_conf cmd])
  | lost => exact .inr (by simp only [serveConnection_eq hcmd hf, replied_conf cmd])
  | cut => exact .inr (by simp only [serveConnection_eq hcmd hf, replied_conf cmd])

/-- A call that is answered well ran its command well. -/
theorem serve_ok (hcmd : Json.get req "cmd" = .str cmd) (hf : dispatch cmd = some f) {res : Result}
    (hok : (serve env req w).1 = .response (.ok res)) :
    (execute env.helper (f req) w.helper).1 = .ok res ∧
      (serve env req w).2.helper.conf = (execute env.helper (f req) w.helper).2.conf := by
  unfold serve at hok ⊢
  cases hl : env.link w.sent.length with
  | refused e => simp [hl] at hok
  | lost => simp [hl] at hok
  | cut => simp [hl] at hok
  | up =>
    simp only [hl, serveConnection_eq hcmd hf] at hok ⊢
    refine ⟨?_, replied_conf cmd _⟩
    rcases hx : execute env.helper (f req) w.helper with ⟨(e | text) | result, s⟩ <;>
      simp [hx, replied] at hok
    exact congrArg Except.ok hok

theorem serve_conf_of_keeps (hcmd : Json.get req "cmd" = .str cmd) (hf : dispatch cmd = some f)
    (hk : Keeps (f req)) : (serve env req w).2.helper.conf = w.helper.conf := by
  rcases serve_conf cmd hcmd hf with h | h
  · exact h
  · exact h.trans (hk env.helper w.helper)

theorem Quiet.conf (h : Quiet req) : (serve env req w).2.helper.conf = w.helper.conf := by
  rcases h with rfl | ⟨name, rfl⟩
  · exact serve_conf_of_keeps "genkey" rfl rfl ((keeps_cmdGenkey _).bind fun _ => keeps_pure _)
  · exact serve_conf_of_keeps "tunnel_status" rfl rfl
      ((keeps_cmdTunnelStatus _).bind fun _ => keeps_pure _)

end serving

/-! ## Keys -/

/-- No newline at the end. -/
def Stripped (t : Text) : Prop := t.getLast? ≠ some '\n'

/-- A key in a reply has no newline at its end. -/
def Reply.Clean (r : Reply) : Prop :=
  ∀ k, r = .response (.ok (.keys k)) → Stripped k.privateKey ∧ Stripped k.publicKey

theorem stripped_strip (t : Text) : Stripped (strip t) := by
  intro h
  obtain ⟨ys, hys⟩ := List.getLast?_eq_some_iff.mp h
  have hne : strip t ≠ [] := by simp [hys]
  have hno : ¬ isSpace ((strip t).getLast hne) := List.rdropWhile_last_not isSpace (lstrip t) hne
  simp only [hys, List.getLast_append_singleton] at hno
  exact hno (by decide)

theorem FullKey.of_stripped {k : WgKey} (h : Stripped k.text) : FullKey k.text := by
  rcases wgKeyPattern_iff.mp k.ok with hk | ⟨k', -, hk⟩
  · exact hk
  · exact absurd (by rw [hk, List.getLast?_concat]) h

theorem Reply.Clean.keysOf {res : Result} (h : Reply.Clean (.response (.ok res))) :
    Stripped (keysOf res).privateKey ∧ Stripped (App.keysOf res).publicKey := by
  cases res with
  | keys k => exact h k rfl
  | done => exact ⟨by simp [App.keysOf, Stripped], by simp [App.keysOf, Stripped]⟩
  | tunnels ts => exact ⟨by simp [App.keysOf, Stripped], by simp [App.keysOf, Stripped]⟩

theorem stripped_of_cmdGenkey {env : Env} {s s' : State} {req : Request} {k : KeyPair}
    (h : execute env (cmdGenkey req) s = (.ok k, s')) : Stripped k.privateKey ∧ Stripped k.publicKey := by
  obtain ⟨priv, s₁, -, h₁⟩ := Prog.exec_bind_ok h
  obtain ⟨pub, s₂, -, h₂⟩ := Prog.exec_bind_ok h₁
  obtain rfl : (⟨strip priv, strip pub⟩ : KeyPair) = k := Except.ok.inj (congrArg Prod.fst h₂)
  exact ⟨stripped_strip _, stripped_strip _⟩

theorem Quiet.clean {env : AppEnv} {w : World} {req : Request} (h : Quiet req) :
    (serve env req w).1.Clean := by
  intro k hk
  rcases h with rfl | ⟨name, rfl⟩
  · obtain ⟨hrun, -⟩ := serve_ok "genkey" rfl rfl hk
    obtain ⟨k', s₁, hk', h₁⟩ := Prog.exec_bind_ok (Prod.ext hrun rfl)
    obtain rfl : k' = k := Result.keys.inj (Except.ok.inj (congrArg Prod.fst h₁))
    exact stripped_of_cmdGenkey hk'
  · obtain ⟨hrun, -⟩ := serve_ok "tunnel_status" rfl rfl hk
    obtain ⟨ts, s₁, -, h₁⟩ := Prog.exec_bind_ok (Prod.ext hrun rfl)
    exact nomatch Except.ok.inj (congrArg Prod.fst h₁)

/-! ## The four changes -/

theorem of_bind_ok {ε α β : Type} {x : Except ε α} {f : α → Except ε β} {b : β}
    (h : (x >>= f) = .ok b) : ∃ a, x = .ok a ∧ f a = .ok b := by
  cases x with
  | error e => cases h
  | ok a => exact ⟨a, rfl, h⟩

theorem tunnelName_text {s : String} {n : TunnelName} (h : validateTunnelName (.str s) = .ok n) :
    n.text = s := by
  simp only [validateTunnelName] at h
  split at h
  · exact (congrArg TunnelName.text (Except.ok.inj h)).symm
  · cases h

/-- The name a status asks for, as the helper reads it. -/
theorem nullable_name {name : String} {only : Option TunnelName}
    (h : nullable (.str name) validateTunnelName = .ok only) : ∃ n, only = some n ∧ n.text = name := by
  cases hv : validateTunnelName (.str name) with
  | error e => simp [nullable, hv, Except.map] at h
  | ok n =>
    simp only [nullable, hv, Except.map, Except.ok.injEq] at h
    exact ⟨n, h.symm, tunnelName_text hv⟩

theorem nullable_request (name : Option TunnelName) :
    nullable (Json.get (tunnelStatusRequest (name.map TunnelName.text)) "name") validateTunnelName = .ok name := by
  cases name with
  | none => rfl
  | some n =>
    change nullable (.str n.text) validateTunnelName = _
    rw [nullable, validateTunnelName_text]
    · rfl
    · simp

theorem wgKey_text {t : Text} {field : String} {k : WgKey}
    (h : validateWgKey (jsonText t) field = .ok k) : k.text = t := by
  simp only [validateWgKey, jsonText] at h
  split at h
  · obtain rfl := Except.ok.inj h
    exact String.toList_ofList
  · cases h

theorem nullable_ok {α : Type} {x : Json} {v : Json → Except Fault α} {a : α}
    (h : nullable x v = .ok (some a)) : x ≠ .null ∧ v x = .ok a := by
  cases x <;> simp only [nullable, reduceCtorEq, ne_eq, not_false_eq_true, true_and,
    Except.ok.injEq] at h ⊢
  all_goals
    cases hv : v _ with
    | error e => simp [hv, Except.map] at h
    | ok b => simpa [hv, Except.map] using h

theorem allowedIps_nets {a : Text} {ips : AllowedIps}
    (h : validateAllowedIps (.arr [jsonText a]) = .ok ips) :
    ∃ n, ipNetwork a = some n ∧ ips.nets = [n] := by
  obtain ⟨n, hn, h₁⟩ := of_bind_ok h
  obtain ⟨ns, hns, h₂⟩ := of_bind_ok h₁
  obtain rfl : [] = ns := Except.ok.inj hns
  refine ⟨n, ?_, (congrArg AllowedIps.nets (Except.ok.inj h₂)).symm⟩
  simp only [readNetwork, jsonText, Json.ipNetwork, Json.ipInterface, String.toList_ofList] at hn
  change (ipInterface a).map IPInterface.network = some n
  cases hx : (ipInterface a).map IPInterface.network with
  | none => simp [hx] at hn
  | some n' => simpa [hx] using hn

/-- The request of a peer the application adds, as the helper reads it. -/
structure ReadsPeer (r : AddPeer) (tunnel : String) (key address : Text) : Prop where
  tunnel : r.tunnel.text = tunnel
  key : r.publicKey.text = key
  nets : ∃ n, ipNetwork address = some n ∧ r.allowedIps.nets = [n]
  psk : ∀ k ∈ r.presharedKey, Stripped k.text
  keepalive : ∀ k ∈ r.keepalive, k.value ≠ .bool true

theorem readAddPeer_request {tunnel : String} {key address : Text} {psk : Option Text}
    {keepalive : Option Int} (hpsk : ∀ k ∈ psk, Stripped k) {r : AddPeer}
    (h : readAddPeer (addPeerRequest tunnel key [address] psk keepalive) = .ok r) :
    ReadsPeer r tunnel key address := by
  obtain ⟨name, hname, h⟩ := of_bind_ok h
  obtain ⟨k, hk, h⟩ := of_bind_ok h
  obtain ⟨ips, hips, h⟩ := of_bind_ok h
  obtain ⟨psk', hpsk', h⟩ := of_bind_ok h
  obtain ⟨ka, hka, h⟩ := of_bind_ok h
  obtain rfl := Except.ok.inj h
  refine ⟨tunnelName_text hname, wgKey_text hk, allowedIps_nets hips, ?_, ?_⟩
  · rintro k rfl
    obtain ⟨-, hk⟩ := nullable_ok hpsk'
    cases psk with
    | none => cases hk
    | some t =>
      rw [wgKey_text hk]
      exact hpsk t rfl
  · rintro k rfl hbool
    obtain ⟨-, hk⟩ := nullable_ok hka
    cases keepalive with
    | none => cases hk
    | some n =>
      change (if h : _ then _ else _) = _ at hk
      split at hk
      · obtain rfl := Except.ok.inj hk
        cases hbool
      · cases hk

theorem readRemovePeer_request {tunnel : String} {key : Text} {r : RemovePeer}
    (h : readRemovePeer (removePeerRequest tunnel key) = .ok r) :
    r.tunnel.text = tunnel ∧ r.publicKey.text = key := by
  obtain ⟨name, hname, h⟩ := of_bind_ok h
  obtain ⟨k, hk, h⟩ := of_bind_ok h
  obtain rfl := Except.ok.inj h
  exact ⟨tunnelName_text hname, wgKey_text hk⟩

/-- A peer has been added to the conf file of a tunnel. -/
structure AddedPeer (c c' : ConfDir) (tunnel : String) (key address : Text) : Prop where
  done : ∃ r content, ReadsPeer r tunnel key address ∧ c.lookup tunnel = some content ∧
    hasPeer r.publicKey content = false ∧ c' = c.set tunnel (withPeer r content)

/-- A peer has been removed from the conf file of a tunnel. -/
structure RemovedPeer (c c' : ConfDir) (tunnel : String) (key : Text) : Prop where
  done : ∃ k : WgKey, ∃ content, k.text = key ∧ c.lookup tunnel = some content ∧
    c' = c.set tunnel (withoutPeer k content)

/-- A tunnel's conf file has been created. -/
structure CreatedTunnel (c c' : ConfDir) (tunnel : String) : Prop where
  done : ∃ r, c.lookup tunnel = none ∧ c' = c.set tunnel (tunnelText r)

section changes

variable {env : AppEnv} {w : World} {tunnel : String} {key address : Text} {psk : Option Text}
  {keepalive : Option Int}

theorem serve_unit (env : AppEnv) (w : World) (req : Request) (cmd : String) {c : Request → Cmd Unit}
    (hcmd : Json.get req "cmd" = .str cmd)
    (hf : dispatch cmd = some fun req => do c req; pure .done) :
    ((serve env req w).2.helper.conf = w.helper.conf ∨
      (serve env req w).2.helper.conf = (execute env.helper (c req) w.helper).2.conf) ∧
    ∀ res, (serve env req w).1 = .response (.ok res) →
      (execute env.helper (c req) w.helper).1 = .ok () ∧
      (serve env req w).2.helper.conf = (execute env.helper (c req) w.helper).2.conf := by
  have hstep : (execute env.helper (do c req; pure Result.done) w.helper) =
      ((execute env.helper (c req) w.helper).1.map fun _ => .done,
        (execute env.helper (c req) w.helper).2) := by
    rw [execute_bind]
    rcases execute env.helper (c req) w.helper with ⟨_ | _, _⟩ <;> rfl
  constructor
  · rw [← congrArg (fun r => r.2.conf) hstep]
    exact serve_conf cmd hcmd hf
  · intro res hok
    obtain ⟨hres, hconf⟩ := serve_ok cmd hcmd hf hok
    rw [hstep] at hres hconf
    refine ⟨?_, hconf⟩
    cases hx : (execute env.helper (c req) w.helper).1 with
    | error e => simp [hx, Except.map] at hres
    | ok u => rfl

theorem cmdAddPeer_cases (env : Env) (req : Request) (s : State) :
    (∃ e, execute env (cmdAddPeer req) s = (.error e, s)) ∨
      ∃ r content, readAddPeer req = .ok r ∧ s.conf.lookup r.tunnel.text = some content ∧
        hasPeer r.publicKey content = false ∧
        (execute env (cmdAddPeer req) s).2.conf =
          s.conf.set r.tunnel.text (withPeer r content) := by
  cases hr : readAddPeer req with
  | error e => exact .inl ⟨e, by rw [execute_cmdAddPeer, hr]⟩
  | ok r =>
    cases hc : s.conf.lookup r.tunnel.text with
    | none => exact .inl ⟨_, by rw [execute_cmdAddPeer, hr]; simp only [hc]; rfl⟩
    | some content =>
      cases hp : hasPeer r.publicKey content with
      | true => exact .inl ⟨_, by rw [execute_cmdAddPeer, hr]; simp only [hc, hp, if_true]; rfl⟩
      | false => exact .inr ⟨r, content, rfl, hc, hp, conf_after_addPeer hr hc hp⟩

theorem cmdRemovePeer_cases (env : Env) (req : Request) (s : State) :
    (∃ e, execute env (cmdRemovePeer req) s = (.error e, s)) ∨
      ∃ r content, readRemovePeer req = .ok r ∧ s.conf.lookup r.tunnel.text = some content ∧
        (execute env (cmdRemovePeer req) s).2.conf =
          s.conf.set r.tunnel.text (withoutPeer r.publicKey content) := by
  cases hr : readRemovePeer req with
  | error e => exact .inl ⟨e, by rw [execute_cmdRemovePeer, hr]⟩
  | ok r =>
    cases hc : s.conf.lookup r.tunnel.text with
    | none => exact .inl ⟨_, by rw [execute_cmdRemovePeer, hr]; simp only [hc]; rfl⟩
    | some content => exact .inr ⟨r, content, rfl, hc, conf_after_removePeer hr hc⟩

/-- Adding a peer may change the file and fail all the same. -/
theorem serve_addPeer (hpsk : ∀ k ∈ psk, Stripped k) :
    let req := addPeerRequest tunnel key [address] psk keepalive
    ((serve env req w).2.helper.conf = w.helper.conf ∨
      AddedPeer w.helper.conf (serve env req w).2.helper.conf tunnel key address) ∧
    ∀ res, (serve env req w).1 = .response (.ok res) →
      AddedPeer w.helper.conf (serve env req w).2.helper.conf tunnel key address := by
  intro req
  have hunit := serve_unit env w req "add_peer" rfl rfl
  rcases cmdAddPeer_cases env.helper req w.helper with ⟨e, he⟩ | ⟨r, content, hr, hc, hp, hconf⟩
  · rw [he] at hunit
    exact ⟨.inl (hunit.1.elim id id), fun res hok => nomatch (hunit.2 res hok).1⟩
  · have hreads := readAddPeer_request hpsk hr
    rw [hreads.tunnel] at hc hconf
    have hadded : ∀ {c}, c = (execute env.helper (cmdAddPeer req) w.helper).2.conf →
        AddedPeer w.helper.conf c tunnel key address :=
      fun h => ⟨r, content, hreads, hc, hp, h.trans hconf⟩
    exact ⟨hunit.1.imp id hadded, fun res hok => hadded (hunit.2 res hok).2⟩

theorem serve_removePeer :
    let req := removePeerRequest tunnel key
    ((serve env req w).2.helper.conf = w.helper.conf ∨
      RemovedPeer w.helper.conf (serve env req w).2.helper.conf tunnel key) ∧
    ∀ res, (serve env req w).1 = .response (.ok res) →
      RemovedPeer w.helper.conf (serve env req w).2.helper.conf tunnel key := by
  intro req
  have hunit := serve_unit env w req "remove_peer" rfl rfl
  rcases cmdRemovePeer_cases env.helper req w.helper with ⟨e, he⟩ | ⟨r, content, hr, hc, hconf⟩
  · rw [he] at hunit
    exact ⟨.inl (hunit.1.elim id id), fun res hok => nomatch (hunit.2 res hok).1⟩
  · obtain ⟨htunnel, hkey⟩ := readRemovePeer_request hr
    rw [htunnel] at hc hconf
    have hremoved : ∀ {c}, c = (execute env.helper (cmdRemovePeer req) w.helper).2.conf →
        RemovedPeer w.helper.conf c tunnel key :=
      fun h => ⟨r.publicKey, content, hkey, hc, h.trans hconf⟩
    exact ⟨hunit.1.imp id hremoved, fun res hok => hremoved (hunit.2 res hok).2⟩

theorem serve_createTunnel {listenPort : Int} {res : Result}
    (hok : (serve env (createTunnelRequest tunnel address listenPort key) w).1 = .response (.ok res)) :
    CreatedTunnel w.helper.conf
      (serve env (createTunnelRequest tunnel address listenPort key) w).2.helper.conf tunnel := by
  obtain ⟨hres, hconf⟩ := (serve_unit env w _ "create_tunnel" rfl rfl).2 res hok
  rw [execute_cmdCreateTunnel] at hres hconf
  cases hr : readCreateTunnel (createTunnelRequest tunnel address listenPort key) with
  | error e => simp [hr] at hres
  | ok r =>
    have hname : r.name.text = tunnel := by
      obtain ⟨name, hname, h⟩ := of_bind_ok hr
      obtain ⟨_, _, h⟩ := of_bind_ok h
      obtain ⟨_, _, h⟩ := of_bind_ok h
      obtain ⟨_, _, h⟩ := of_bind_ok h
      obtain rfl := Except.ok.inj h
      exact tunnelName_text hname
    simp only [hr, hname] at hres hconf
    cases hc : w.helper.conf.lookup tunnel with
    | some content => simp [hc] at hres
    | none =>
      simp only [hc, Option.isSome_none, Bool.false_eq_true, if_false] at hconf
      exact ⟨r, hc, hconf⟩

theorem serve_deleteTunnel {res : Result}
    (hok : (serve env (deleteTunnelRequest tunnel) w).1 = .response (.ok res)) :
    (serve env (deleteTunnelRequest tunnel) w).2.helper.conf = w.helper.conf.erase tunnel := by
  obtain ⟨hres, hconf⟩ := (serve_unit env w _ "delete_tunnel" rfl rfl).2 res hok
  rw [execute_cmdDeleteTunnel] at hres hconf
  cases hn : validateTunnelName (Json.get (deleteTunnelRequest tunnel) "name") with
  | error e => simp [hn] at hres
  | ok name =>
    have hname : name.text = tunnel := tunnelName_text hn
    simp only [hn] at hres hconf
    split at hres
    · cases hres
    · rename_i x hx
      rw [hconf, hx]
      simp only [hname]
      rfl

end changes

end App
