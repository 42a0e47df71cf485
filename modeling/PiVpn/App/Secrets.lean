import PiVpn.Helper.Secrets
import PiVpn.App.PeerLink

/-! Two runs of the same requests on systems that differ in their private and preshared
keys alone: what is logged, stored and answered is the same in both. -/

namespace App
open Text Cidr Ipaddress Effect Helper

/-! ## What differs -/

/-- The two systems differ in keys alone. -/
structure SameButSecrets (env env' : AppEnv) : Prop where
  helper : SameButKeys env.helper env'.helper
  repr : env.repr = env'.repr
  uid : env.uid = env'.uid
  link : env.link = env'.link
  uuid : env.uuid = env'.uuid
  netIfAddrs : ∀ live live', Live.masked live = Live.masked live' →
    env.netIfAddrs live = env'.netIfAddrs live'

structure WorldAlike (w w' : World) : Prop where
  helper : StateAlike w.helper w'.helper
  metadata : w.metadata = w'.metadata
  log : w.log = w'.log
  uuids : w.uuids = w'.uuids
  sent : w.sent.length = w'.sent.length

inductive ResultAlike : Result → Result → Prop
  | done : ResultAlike .done .done
  | keys {k k' : KeyPair} (h : k.Alike k') : ResultAlike (.keys k) (.keys k')
  | tunnels (ts : List TunnelStatus) : ResultAlike (.tunnels ts) (.tunnels ts)

inductive ReplyAlike : Reply → Reply → Prop
  | ok {r r' : Result} (h : ResultAlike r r') : ReplyAlike (.response (.ok r)) (.response (.ok r'))
  | error (text : String) : ReplyAlike (.response (.error text)) (.response (.error text))
  | unreachable (e : String) : ReplyAlike (.unreachable e) (.unreachable e)
  | empty : ReplyAlike .empty .empty
  | garbage : ReplyAlike .garbage .garbage

/-- A preshared key on its way to the helper, or none in either run. -/
inductive PresharedAlike : Option Text → Option Text → Prop
  | none : PresharedAlike none none
  | some {k k' : Text} (h : KeyAlike k k') (hk : Stripped k) (hk' : Stripped k') :
    PresharedAlike (some k) (some k')

/-- The requests the application sends in the two runs. -/
inductive SentAlike : Request → Request → Prop
  | genkey : SentAlike genkeyRequest genkeyRequest
  | createTunnel (name : String) (i : Interface 32) (listenPort : Int) {k k' : Text} (h : KeyAlike k k') :
    SentAlike (createTunnelRequest name (IPInterface.v4 i).str listenPort k)
      (createTunnelRequest name (IPInterface.v4 i).str listenPort k')
  | deleteTunnel (name : String) : SentAlike (deleteTunnelRequest name) (deleteTunnelRequest name)
  | addPeer (tunnel : String) {t : TunnelMeta} {key address : Text} {psk psk' : Option Text}
    (keepalive : Option Int) (hkey : Stripped key) (ha : allocatePeerAddress t = .pure address)
    (h : PresharedAlike psk psk') :
    SentAlike (addPeerRequest tunnel key [address] psk keepalive)
      (addPeerRequest tunnel key [address] psk' keepalive)
  | removePeer (tunnel : String) (key : Text) :
    SentAlike (removePeerRequest tunnel key) (removePeerRequest tunnel key)
  | tunnelStatus (name : Option String) :
    SentAlike (tunnelStatusRequest name) (tunnelStatusRequest name)
  | setTunnelState (name : String) (action : Action) :
    SentAlike [("cmd", .str "set_tunnel_state"), ("name", .str name), ("action", .str action.name)]
      [("cmd", .str "set_tunnel_state"), ("name", .str name), ("action", .str action.name)]

/-! ## What the helper makes of a request -/

section helper

variable {env env' : AppEnv} {w w' : World} {req req' : Request}

theorem validateWgKey_full {k : Text} (hk : FullKey k) (field : String) :
    ∃ key : WgKey, validateWgKey (jsonText k) field = .ok key ∧ key.text = k :=
  ⟨⟨k, wgKeyPattern_iff.mpr (.inl hk)⟩, validateWgKey_text ⟨k, _⟩ field, rfl⟩

/-- Different private keys make no difference to what else is read. -/
theorem readCreateTunnel_alike (name : String) (i : Interface 32) (listenPort : Int) {k k' : Text}
    (hk : KeyAlike k k') :
    Prog.SameEnd (fun t t' => t = t' ∨ CreateTunnel.Alike t t')
      (readCreateTunnel (createTunnelRequest name (IPInterface.v4 i).str listenPort k))
      (readCreateTunnel (createTunnelRequest name (IPInterface.v4 i).str listenPort k')) := by
  rcases hk with rfl | ⟨hk, hk'⟩
  · exact (Prog.SameEnd.refl _).mono fun _ _ _ _ h => .inl h
  · obtain ⟨key, hread, -⟩ := validateWgKey_full hk "private_key"
    obtain ⟨key', hread', -⟩ := validateWgKey_full hk' "private_key"
    have haddress : readAddress (jsonText (IPInterface.v4 i).str) = .ok (.v4 i) := by
      simp only [readAddress, jsonText, Json.ipInterface, String.toList_ofList, ipInterface_str]
    have hkeys : Prog.SameEnd (fun _ _ => True) (validateWgKey (jsonText k) "private_key")
        (validateWgKey (jsonText k') "private_key") := by
      rw [hread, hread']
      trivial
    have haddresses : Prog.SameEnd (fun a a' => a = a' ∧ a.scope = none)
        (readAddress (jsonText (IPInterface.v4 i).str)) (readAddress (jsonText (IPInterface.v4 i).str)) := by
      rw [haddress]
      exact ⟨rfl, rfl⟩
    apply (Prog.SameEnd.refl (validateTunnelName (.str name))).bind
    rintro n _ rfl
    apply hkeys.bind
    intro key key' _
    apply haddresses.bind
    rintro a _ ⟨rfl, hscope⟩
    apply (Prog.SameEnd.refl (validateIntIn 1024 65535 (.int listenPort) "listen_port")).bind
    rintro port _ rfl
    exact .inr ⟨rfl, rfl, rfl, hscope⟩

theorem presharedKey_alike {psk psk' : Option Text} (h : PresharedAlike psk psk') :
    Prog.SameEnd (fun k k' => k.isSome = k'.isSome)
      (nullable ((psk.map jsonText).getD .null) fun x => validateWgKey x "preshared_key")
      (nullable ((psk'.map jsonText).getD .null) fun x => validateWgKey x "preshared_key") := by
  rcases h with _ | ⟨rfl | ⟨hk, hk'⟩, -, -⟩
  · exact (Prog.SameEnd.refl _).mono fun _ _ _ _ h => congrArg Option.isSome h
  · exact (Prog.SameEnd.refl _).mono fun _ _ _ _ h => congrArg Option.isSome h
  · obtain ⟨key, hread, -⟩ := validateWgKey_full hk "preshared_key"
    obtain ⟨key', hread', -⟩ := validateWgKey_full hk' "preshared_key"
    simp only [jsonText] at hread hread'
    simp only [Option.map_some, Option.getD_some, jsonText, nullable, hread, hread', Except.map]
    rfl

theorem readAddPeer_alike (tunnel : String) {t : TunnelMeta} {key address : Text} {psk psk' : Option Text}
    (keepalive : Option Int) (hkey : Stripped key) (ha : allocatePeerAddress t = .pure address)
    (h : PresharedAlike psk psk') :
    Prog.SameEnd AddPeer.Alike (readAddPeer (addPeerRequest tunnel key [address] psk keepalive))
      (readAddPeer (addPeerRequest tunnel key [address] psk' keepalive)) := by
  have hstripped : (∀ k ∈ psk, Stripped k) ∧ ∀ k ∈ psk', Stripped k := by
    rcases h with _ | ⟨-, hk, hk'⟩
    · simp
    · simp [hk, hk']
  have hread : Prog.SameEnd (fun r r' : AddPeer => r.tunnel = r'.tunnel ∧ r.publicKey = r'.publicKey ∧
      r.allowedIps = r'.allowedIps ∧ r.keepalive = r'.keepalive ∧
      r.presharedKey.isSome = r'.presharedKey.isSome)
      (readAddPeer (addPeerRequest tunnel key [address] psk keepalive))
      (readAddPeer (addPeerRequest tunnel key [address] psk' keepalive)) := by
    apply (Prog.SameEnd.refl (validateTunnelName (.str tunnel))).bind
    rintro n _ rfl
    apply (Prog.SameEnd.refl (validateWgKey (jsonText key) "public_key")).bind
    rintro k _ rfl
    apply (Prog.SameEnd.refl (validateAllowedIps (.arr [jsonText address]))).bind
    rintro ips _ rfl
    apply (presharedKey_alike h).bind
    intro p p' hp
    apply (Prog.SameEnd.refl (nullable ((keepalive.map .int).getD .null) _)).bind
    rintro ka _ rfl
    exact ⟨rfl, rfl, rfl, rfl, hp⟩
  refine hread.mono fun r r' hr hr' ⟨htunnel, hpublic, hips, hka, hpsk⟩ => ?_
  have hreads := readAddPeer_request hstripped.1 hr
  have hreads' := readAddPeer_request hstripped.2 hr'
  exact ⟨htunnel, hpublic, hips, hka, hpsk, hreads.regular hkey ha, hreads'.regular hkey ha⟩

/-- Every request is one of a command that runs alike in both. -/
theorem SentAlike.command (he : SameButKeys env.helper env'.helper) (hreq : SentAlike req req') :
    ∃ cmd f, Json.get req "cmd" = .str cmd ∧ Json.get req' "cmd" = .str cmd ∧ dispatch cmd = some f ∧
      Twin env.helper env'.helper ResultAlike (f req) (f req') := by
  cases hreq with
  | genkey =>
    refine ⟨"genkey", _, rfl, rfl, rfl, ?_⟩
    apply (twin_cmdGenkey he _ _).bind
    exact fun k k' hk => twin_pure (.keys hk)
  | createTunnel name i listenPort hk =>
    refine ⟨"create_tunnel", _, rfl, rfl, rfl, ?_⟩
    apply (twin_cmdCreateTunnel (readCreateTunnel_alike name i listenPort hk)).bind
    exact fun _ _ _ => twin_pure .done
  | deleteTunnel name =>
    refine ⟨"delete_tunnel", _, rfl, rfl, rfl, ?_⟩
    apply (twin_cmdDeleteTunnel he _).bind
    exact fun _ _ _ => twin_pure .done
  | addPeer tunnel keepalive hkey ha h =>
    refine ⟨"add_peer", _, rfl, rfl, rfl, ?_⟩
    apply (twin_cmdAddPeer he (readAddPeer_alike tunnel keepalive hkey ha h)).bind
    exact fun _ _ _ => twin_pure .done
  | removePeer tunnel key =>
    refine ⟨"remove_peer", _, rfl, rfl, rfl, ?_⟩
    apply (twin_cmdRemovePeer he _).bind
    exact fun _ _ _ => twin_pure .done
  | tunnelStatus name =>
    refine ⟨"tunnel_status", _, rfl, rfl, rfl, ?_⟩
    apply (twin_cmdTunnelStatus he _).bind
    rintro ts _ rfl
    exact twin_pure (.tunnels ts)
  | setTunnelState name action =>
    refine ⟨"set_tunnel_state", _, rfl, rfl, rfl, ?_⟩
    apply (twin_cmdSetTunnelState he _).bind
    exact fun _ _ _ => twin_pure .done

theorem serveConnection_alike (he : SameButSecrets env env') (hreq : SentAlike req req') {s s' : State}
    (hs : StateAlike s s') :
    ReplyAlike (serveConnection env req s).1 (serveConnection env' req' s').1 ∧
      StateAlike (serveConnection env req s).2 (serveConnection env' req' s').2 := by
  obtain ⟨cmd, f, hcmd, hcmd', hf, hrun⟩ := hreq.command he.helper
  obtain ⟨hend, hstate⟩ := (hrun s s' hs).exec
  rw [serveConnection_eq hcmd hf, serveConnection_eq hcmd' hf]
  change Prog.SameEnd ResultAlike (execute env.helper (f req) s).1 (execute env'.helper (f req') s').1 at hend
  change StateAlike (execute env.helper (f req) s).2 (execute env'.helper (f req') s').2 at hstate
  generalize execute env.helper (f req) s = x, execute env'.helper (f req') s' = x' at hend hstate ⊢
  obtain ⟨r, s₁⟩ := x
  obtain ⟨r', s₁'⟩ := x'
  cases r with
  | ok result => cases r' with
    | ok result' => exact ⟨.ok hend, hstate⟩
    | error e => exact hend.elim
  | error e => cases r' with
    | ok result' => exact hend.elim
    | error e' =>
      obtain rfl : e = e' := hend
      -- what is logged is the error, the same in both
      cases e with
      | helper e =>
        simp only [replied, he.repr]
        exact ⟨.error _, { hstate with log := congrArg (· ++ [_]) hstate.log }⟩
      | other text => exact ⟨.error _, { hstate with log := congrArg (· ++ [_]) hstate.log }⟩

theorem serve_alike (he : SameButSecrets env env') (hreq : SentAlike req req') (hw : WorldAlike w w') :
    ReplyAlike (serve env req w).1 (serve env' req' w').1 ∧
      WorldAlike (serve env req w).2 (serve env' req' w').2 := by
  obtain ⟨hreply, hstate⟩ := serveConnection_alike he hreq hw.helper
  have hsent : (w.sent ++ [req]).length = (w'.sent ++ [req']).length := by
    rw [List.length_append, List.length_append, hw.sent]
    rfl
  unfold serve
  rw [← he.link, ← hw.sent]
  cases env.link w.sent.length with
  | refused e => exact ⟨.unreachable e, { hw with sent := hsent }⟩
  | up => exact ⟨hreply, { hw with helper := hstate, sent := hsent }⟩
  | lost => exact ⟨.empty, { hw with helper := hstate, sent := hsent }⟩
  | cut => exact ⟨.garbage, { hw with helper := hstate, sent := hsent }⟩

end helper

/-! ## The handlers, side by side -/

section handlers

variable {env env' : AppEnv} {α β : Type} {V : α → β → Prop}

/-- From like worlds the two programs run abreast. -/
def Both (env env' : AppEnv) (V : α → β → Prop) (p : Api α) (q : Api β) : Prop :=
  Prog.Coupled (webHandler env) (webHandler env') WorldAlike V p q

theorem both_ask (a a' : Ask) {V : a.Answer → a'.Answer → Prop}
    (hstep : ∀ w w', WorldAlike w w' → V (webHandler env a w).1 (webHandler env' a' w').1 ∧
      WorldAlike (webHandler env a w).2 (webHandler env' a' w').2) : Both env env' V (ask a) (ask a') :=
  Prog.Coupled.perform hstep

theorem both_pure {a : α} {b : β} (hab : V a b) : Both env env' V (pure a) (pure b) :=
  Prog.Coupled.pure hab

theorem both_raise (e : Failure) : Both env env' V (.raise e) (.raise e) := Prog.Coupled.raise e

theorem both_log (r : LogRecord) : Both env env' (fun _ _ => True) (log r) (log r) :=
  both_ask (.log r) (.log r) fun _ _ hw => ⟨trivial, { hw with log := congrArg (· ++ [r]) hw.log }⟩

theorem both_readMetadata : Both env env' (· = ·) readMetadata readMetadata :=
  both_ask .readMetadata .readMetadata fun _ _ hw => ⟨hw.metadata, hw⟩

theorem both_writeMetadata (m : Metadata) :
    Both env env' (fun _ _ => True) (writeMetadata m) (writeMetadata m) :=
  Prog.Coupled.bind (both_ask (.writeMetadata m) (.writeMetadata m) (V := fun x x' => x = none ∧ x' = none)
    fun _ _ hw => ⟨⟨rfl, rfl⟩, { hw with metadata := rfl }⟩) fun _ _ hx => by
      obtain ⟨rfl, rfl⟩ := hx
      exact both_pure trivial

theorem both_netIfAddrs (he : SameButSecrets env env') : Both env env' (· = ·) netIfAddrs netIfAddrs :=
  both_ask .netIfAddrs .netIfAddrs fun _ _ hw => ⟨he.netIfAddrs _ _ hw.helper.live, hw⟩

theorem both_uuid4 (he : SameButSecrets env env') : Both env env' (· = ·) uuid4 uuid4 := by
  apply both_ask .uuid4 .uuid4
  intro w w' hw
  have huuid : env.uuid w.uuids = env'.uuid w'.uuids := by rw [he.uuid, hw.uuids]
  exact ⟨huuid, { hw with uuids := congrArg (· + 1) hw.uuids }⟩

/-- Whatever is logged of a failed call does not hold its parameters. -/
theorem both_call (he : SameButSecrets env env') {cmd : String} {params params' : Request}
    (hreq : SentAlike (("cmd", .str cmd) :: params) (("cmd", .str cmd) :: params')) :
    Both env env' ResultAlike (call cmd params) (call cmd params') := by
  have hask : Both env env' ReplyAlike (askHelper (("cmd", .str cmd) :: params))
      (askHelper (("cmd", .str cmd) :: params')) :=
    both_ask (.helper _) (.helper _) fun _ _ hw => serve_alike he hreq hw
  apply hask.bind
  rintro _ _ (h | text | e | _ | _)
  · exact both_pure h
  · exact (both_log _).bind fun _ _ _ => both_raise _
  · exact (both_log _).bind fun _ _ _ => both_raise _
  · exact (both_log _).bind fun _ _ _ => both_raise _
  · exact (both_log _).bind fun _ _ _ => both_raise _

theorem both_genkey (he : SameButSecrets env env') :
    Both env env' KeyPair.Alike Client.genkey Client.genkey := by
  apply (both_call he .genkey).bind
  intro r r' hr
  have hnone : KeyPair.Alike ⟨[], []⟩ ⟨[], []⟩ := ⟨[], [], [], rfl, rfl, .inl rfl⟩
  cases hr with
  | done => exact both_pure hnone
  | keys hk => exact both_pure hk
  | tunnels ts => exact both_pure hnone

theorem both_tunnelStatus (he : SameButSecrets env env') (name : Option String) :
    Both env env' (· = ·) (Client.tunnelStatus name) (Client.tunnelStatus name) := by
  apply (both_call he (.tunnelStatus name)).bind
  intro r r' hr
  cases hr with
  | done => exact both_pure rfl
  | keys _ => exact both_pure rfl
  | tunnels ts => exact both_pure rfl

theorem both_unit (he : SameButSecrets env env') {cmd : String} {params params' : Request}
    (hreq : SentAlike (("cmd", .str cmd) :: params) (("cmd", .str cmd) :: params')) :
    Both env env' (fun _ _ => True) (do
      let _ ← call cmd params
      pure ()) (do
      let _ ← call cmd params'
      pure ()) := by
  apply (both_call he hreq).bind
  exact fun _ _ _ => both_pure trivial

theorem both_loadMetadata : Both env env' (· = ·) loadMetadata loadMetadata := by
  apply both_readMetadata.bind
  rintro file _ rfl
  cases file with
  | absent => exact both_pure rfl
  | unreadable e => exact (both_log _).bind fun _ _ _ => both_pure rfl
  | broken e => exact both_raise _
  | data m => exact both_pure rfl

theorem both_refuseConflicts (he : SameButSecrets env env') (start : String) (candidates : List IPNetwork) :
    Both env env' (fun _ _ => True) (refuseConflicts start candidates) (refuseConflicts start candidates) := by
  apply Prog.Coupled.bind (V := (· = ·))
  · apply (both_netIfAddrs he).bind
    rintro addrs _ rfl
    exact both_pure rfl
  · rintro conflicts _ rfl
    split
    · exact both_pure trivial
    · exact both_raise _

variable (user : User)

theorem both_listTunnels (he : SameButSecrets env env') :
    Both env env' (· = ·) listTunnels listTunnels := by
  apply (both_tunnelStatus he none).bind
  rintro ts _ rfl
  apply both_loadMetadata.bind
  rintro m _ rfl
  exact both_pure rfl

/-- The private key goes into the request alone. -/
theorem both_createTunnel (he : SameButSecrets env env') (payload : TunnelCreateRequest) :
    Both env env' (· = ·) (createTunnel payload user) (createTunnel payload user) := by
  have hrest : Both env env' (· = ·) (do
      let keypair ← Client.genkey
      let address := (IPInterface.v4 payload.address).str
      Client.createTunnel payload.name address payload.listenPort keypair.privateKey
      let metadata ← loadMetadata
      writeMetadata (metadata.put payload.name ⟨address, payload.endpoint, payload.listenPort, []⟩)
      log (infoLog "tunnel_created" "wireguard.tunnel.created" user [("tunnel", .str payload.name)])
      pure (⟨201, .json (.obj [("name", .str payload.name),
        ("public_key", jsonText keypair.publicKey)])⟩ : HttpResponse)) (do
      let keypair ← Client.genkey
      let address := (IPInterface.v4 payload.address).str
      Client.createTunnel payload.name address payload.listenPort keypair.privateKey
      let metadata ← loadMetadata
      writeMetadata (metadata.put payload.name ⟨address, payload.endpoint, payload.listenPort, []⟩)
      log (infoLog "tunnel_created" "wireguard.tunnel.created" user [("tunnel", .str payload.name)])
      pure (⟨201, .json (.obj [("name", .str payload.name),
        ("public_key", jsonText keypair.publicKey)])⟩ : HttpResponse)) := by
    apply (both_genkey he).bind
    rintro _ _ ⟨p, p', pub, rfl, rfl, hp⟩
    apply (both_unit he (.createTunnel payload.name payload.address payload.listenPort hp)).bind
    intro _ _ _
    apply both_loadMetadata.bind
    rintro m _ rfl
    apply (both_writeMetadata _).bind
    intro _ _ _
    exact (both_log _).bind fun _ _ _ => both_pure rfl
  unfold createTunnel
  split
  · exact hrest
  · exact (both_refuseConflicts he _ _).bind fun _ _ _ => hrest

theorem both_deleteTunnel (he : SameButSecrets env env') (name : String) :
    Both env env' (· = ·) (deleteTunnel name user) (deleteTunnel name user) := by
  apply (both_unit he (.deleteTunnel name)).bind
  intro _ _ _
  apply both_loadMetadata.bind
  rintro m _ rfl
  apply (both_writeMetadata _).bind
  intro _ _ _
  exact (both_log _).bind fun _ _ _ => both_pure rfl

theorem both_candidatesOf (conf : ConfInfo) :
    Both env env' (· = ·) (candidatesOf conf) (candidatesOf conf) := by
  unfold candidatesOf
  split
  · exact both_pure rfl
  · split
    · exact both_pure rfl
    · split
      · exact both_pure rfl
      · exact both_raise _

theorem both_setTunnelState (he : SameButSecrets env env') (name : String) (payload : TunnelStateRequest) :
    Both env env' (· = ·) (setTunnelState name payload user) (setTunnelState name payload user) := by
  apply (both_tunnelStatus he (some name)).bind
  rintro ts _ rfl
  cases ts with
  | nil => exact both_raise _
  | cons t ts =>
    have hrest : Both env env' (· = ·) (do
        Client.setTunnelState name payload.action
        log (infoLog "tunnel_state_changed" "wireguard.tunnel.state" user
          [("tunnel", .str name), ("action", .str payload.action.name), ("forced", .bool payload.force)])
        pure statusOk) (do
        Client.setTunnelState name payload.action
        log (infoLog "tunnel_state_changed" "wireguard.tunnel.state" user
          [("tunnel", .str name), ("action", .str payload.action.name), ("forced", .bool payload.force)])
        pure statusOk) := by
      apply (both_unit he (.setTunnelState name payload.action)).bind
      intro _ _ _
      exact (both_log _).bind fun _ _ _ => both_pure rfl
    dsimp only
    split
    · apply (both_candidatesOf t.conf).bind
      rintro candidates _ rfl
      exact (both_refuseConflicts he _ _).bind fun _ _ _ => hrest
    · exact hrest

theorem both_listPeers (he : SameButSecrets env env') (name : String) :
    Both env env' (· = ·) (listPeers name) (listPeers name) := by
  apply both_loadMetadata.bind
  rintro m _ rfl
  cases m.lookup name with
  | none => exact both_raise _
  | some tunnelMeta =>
    apply (both_tunnelStatus he (some name)).bind
    rintro ts _ rfl
    exact both_pure rfl

theorem both_deletePeer (he : SameButSecrets env env') (name peerId : String) :
    Both env env' (· = ·) (deletePeer name peerId user) (deletePeer name peerId user) := by
  apply both_loadMetadata.bind
  rintro m _ rfl
  unfold deletePeerFrom
  cases m.lookup name with
  | none => exact both_raise _
  | some tunnelMeta =>
    dsimp only
    cases tunnelMeta.peers.find? (·.id = peerId) with
    | none => exact both_raise _
    | some peer =>
      apply (both_unit he (.removePeer name peer.publicKey)).bind
      intro _ _ _
      apply (both_writeMetadata _).bind
      intro _ _ _
      exact (both_log _).bind fun _ _ _ => both_pure rfl

/-- The lines of a conf file that differ hold a private or a preshared key. -/
def ConfLineAlike (l l' : String) : Prop :=
  l = l' ∨ ∃ key ∈ ["PrivateKey = ", "PresharedKey = "], ∃ k k', l = key ++ k ∧ l' = key ++ k'

/-- The downloads differ in such lines alone. -/
def DownloadAlike (r r' : HttpResponse) : Prop :=
  ∃ filename lines lines', r = ⟨200, .conf filename lines⟩ ∧ r' = ⟨200, .conf filename lines'⟩ ∧
    List.Forall₂ ConfLineAlike lines lines'

theorem confLines_refl (lines : List String) : List.Forall₂ ConfLineAlike lines lines :=
  List.forall₂_same.mpr fun _ _ => .inl rfl

theorem peerConfLines_alike {k k' : KeyPair} {psk psk' : Option Text} (hpsk : PresharedAlike psk psk')
    (address serverKey : Text) (allowedIps : List Text) (t : TunnelMeta) (keepalive : Option Int) :
    List.Forall₂ ConfLineAlike (peerConfLines k address serverKey psk allowedIps t keepalive)
      (peerConfLines k' address serverKey psk' allowedIps t keepalive) := by
  have hlines : List.Forall₂ ConfLineAlike
      ((nonEmpty psk).map fun k => "PresharedKey = " ++ String.ofList k).toList
      ((nonEmpty psk').map fun k => "PresharedKey = " ++ String.ofList k).toList := by
    rcases hpsk with _ | ⟨rfl | ⟨hk, hk'⟩, -, -⟩
    · exact .nil
    · exact confLines_refl _
    · have hne : ∀ {k : Text}, FullKey k → nonEmpty (some k) = some k := by
        intro k hk
        have hk : k ≠ [] := List.ne_nil_of_length_pos (by rw [hk.length]; decide)
        simp [nonEmpty, Option.filter, hk]
      rw [hne hk, hne hk']
      exact .cons (.inr ⟨"PresharedKey = ", by simp, _, _, rfl, rfl⟩) .nil
  unfold peerConfLines
  apply List.rel_append _ (confLines_refl _)
  apply List.rel_append _ (confLines_refl _)
  apply List.rel_append _ hlines
  exact .cons (.inl rfl) (.cons (.inr ⟨"PrivateKey = ", by simp, _, _, rfl, rfl⟩) (confLines_refl _))

theorem both_storePeer (he : SameButSecrets env env') (m : Metadata) (name : String)
    (payload : PeerCreateRequest) {t : TunnelMeta} (serverKey : Text) {address : Text}
    (ha : allocatePeerAddress t = .pure address) {k k' : KeyPair} (hk : k.Alike k')
    {psk psk' : Option Text} (hpsk : PresharedAlike psk psk') :
    Both env env' DownloadAlike (storePeer m name payload user t serverKey address k psk)
      (storePeer m name payload user t serverKey address k' psk') := by
  obtain ⟨p, p', pub, rfl, rfl, -⟩ := hk
  apply (both_unit he (.addPeer name payload.keepalive (stripped_strip pub) ha hpsk)).bind
  intro _ _ _
  apply (both_uuid4 he).bind
  rintro peerId _ rfl
  apply (both_writeMetadata _).bind
  intro _ _ _
  apply (both_log _).bind
  intro _ _ _
  exact both_pure ⟨_, _, _, rfl, rfl, peerConfLines_alike hpsk ..⟩

theorem both_createPeer (he : SameButSecrets env env') (name : String) (payload : PeerCreateRequest) :
    Both env env' DownloadAlike (createPeer name payload user) (createPeer name payload user) := by
  apply both_loadMetadata.bind
  rintro m _ rfl
  unfold createPeerFrom
  cases m.lookup name with
  | none => exact both_raise _
  | some tunnelMeta =>
    apply (both_tunnelStatus he (some name)).bind
    rintro ts _ rfl
    cases nonEmpty (ts.head?.bind TunnelStatus.publicKey) with
    | none => exact both_raise _
    | some serverKey =>
      dsimp only
      rcases allocatePeerAddress_cases tunnelMeta with ⟨address, ha⟩ | ⟨e, ha⟩
      · rw [ha, Prog.ret_bind]
        apply (both_genkey he).bind
        intro k k' hk
        cases payload.presharedKey with
        | false => exact both_storePeer user he m name payload serverKey ha hk .none
        | true =>
          apply (both_genkey he).bind
          rintro _ _ ⟨p, p', pub, rfl, rfl, hp⟩
          exact both_storePeer user he m name payload serverKey ha hk
            (.some hp (stripped_strip p) (stripped_strip p'))
      · rw [ha]
        exact both_raise _

theorem both_statusSnapshot (he : SameButSecrets env env') :
    Both env env' (· = ·) statusSnapshot statusSnapshot := by
  apply (both_tunnelStatus he none).bind
  rintro ts _ rfl
  exact both_pure rfl

end handlers

/-! ## Runs of requests -/

/-- The requests one after the other, each to its end. -/
def serveAll : List (User × ApiCall) → Api (List (Except Failure HttpResponse))
  | [] => pure []
  | (user, c) :: cs => do
    let r ← (c.handler user).attempt
    let rs ← serveAll cs
    pure (r :: rs)

/-- The answers are the same, but for the keys in the download of a new peer. -/
def AnswerAlike (c : ApiCall) (r r' : Except Failure HttpResponse) : Prop :=
  r = r' ∨ (∃ name payload, c = .createPeer name payload) ∧
    ∃ a a', r = .ok a ∧ r' = .ok a' ∧ DownloadAlike a a'

def AnswersAlike : List (User × ApiCall) → List (Except Failure HttpResponse) →
    List (Except Failure HttpResponse) → Prop
  | [], [], [] => True
  | c :: cs, r :: rs, r' :: rs' => AnswerAlike c.2 r r' ∧ AnswersAlike cs rs rs'
  | _, _, _ => False

/-- What is logged by either process, and the metadata file. -/
def World.seen (w : World) : List LogRecord × List LogRecord × MetadataFile :=
  (w.log, w.helper.log, w.metadata)

section runs

variable {env env' : AppEnv}

theorem WorldAlike.refl (w : World) : WorldAlike w w := ⟨StateAlike.refl _, rfl, rfl, rfl, rfl⟩

theorem WorldAlike.seen {w w' : World} (hw : WorldAlike w w') : w.seen = w'.seen := by
  unfold World.seen
  rw [hw.log, hw.helper.log, hw.metadata]

theorem both_handler (he : SameButSecrets env env') (user : User) (c : ApiCall) :
    Both env env' (fun a a' => a = a' ∨ (∃ name payload, c = .createPeer name payload) ∧ DownloadAlike a a')
      (c.handler user) (c.handler user) := by
  cases c with
  | listTunnels => exact (both_listTunnels he).mono fun _ _ => .inl
  | createTunnel payload => exact (both_createTunnel user he payload).mono fun _ _ => .inl
  | deleteTunnel name => exact (both_deleteTunnel user he name).mono fun _ _ => .inl
  | setTunnelState name payload => exact (both_setTunnelState user he name payload).mono fun _ _ => .inl
  | listPeers name => exact (both_listPeers he name).mono fun _ _ => .inl
  | createPeer name payload =>
    exact (both_createPeer user he name payload).mono fun _ _ h => .inr ⟨⟨name, payload, rfl⟩, h⟩
  | deletePeer name peerId => exact (both_deletePeer user he name peerId).mono fun _ _ => .inl
  | statusSnapshot => exact (both_statusSnapshot he).mono fun _ _ => .inl

theorem both_serveAll (he : SameButSecrets env env') (calls : List (User × ApiCall)) :
    Both env env' (AnswersAlike calls) (serveAll calls) (serveAll calls) := by
  induction calls with
  | nil => exact both_pure trivial
  | cons c cs ih =>
    obtain ⟨user, c⟩ := c
    apply Prog.Coupled.bind (V := AnswerAlike c)
    · apply (both_handler he user c).attempt.mono
      intro r r' hr
      cases r with
      | ok a => cases r' with
        | ok a' =>
          rcases hr with rfl | ⟨hc, hdown⟩
          · exact .inl rfl
          · exact .inr ⟨hc, a, a', rfl, rfl, hdown⟩
        | error e => exact hr.elim
      | error e => cases r' with
        | ok a' => exact hr.elim
        | error e' => exact .inl (congrArg _ hr)
    · intro r r' hr
      apply ih.bind
      intro rs rs' hrs
      exact both_pure ⟨hr, hrs⟩

theorem serveAll_ok (env : AppEnv) (calls : List (User × ApiCall)) (w : World) :
    ∃ rs, (runApi env (serveAll calls) w).1 = .ok rs := by
  induction calls generalizing w with
  | nil => exact ⟨[], rfl⟩
  | cons c cs ih =>
    obtain ⟨rs, hrs⟩ := ih (runApi env (c.2.handler c.1) w).2
    refine ⟨(runApi env (c.2.handler c.1) w).1 :: rs, ?_⟩
    have hattempt : runApi env (c.2.handler c.1).attempt w =
        (.ok (runApi env (c.2.handler c.1) w).1, (runApi env (c.2.handler c.1) w).2) :=
      Prog.exec_attempt _ _
    unfold serveAll
    rw [runApi_bind, hattempt]
    simp only [runApi_bind]
    rcases hrun : runApi env (serveAll cs) (runApi env (c.2.handler c.1) w).2 with ⟨r, w'⟩
    rw [hrun] at hrs
    obtain rfl : r = .ok rs := hrs
    rfl

/-- Two runs of the same requests that differ in keys alone log the same at every point,
hold the same metadata there, and answer the same but for the key lines of the downloads. -/
theorem keys_do_not_show (env env' : AppEnv) (he : SameButSecrets env env') (w : World)
    (calls : List (User × ApiCall)) :
    (∀ n, ((serveAll calls).cutOff (webHandler env) n w).seen =
      ((serveAll calls).cutOff (webHandler env') n w).seen) ∧
    ∃ rs rs', (runApi env (serveAll calls) w).1 = .ok rs ∧ (runApi env' (serveAll calls) w).1 = .ok rs' ∧
      AnswersAlike calls rs rs' := by
  have hrun := both_serveAll he calls w w (WorldAlike.refl w)
  refine ⟨fun n => (hrun.cutOff n).seen, ?_⟩
  obtain ⟨rs, hrs⟩ := serveAll_ok env calls w
  obtain ⟨rs', hrs'⟩ := serveAll_ok env' calls w
  have hend : Prog.SameEnd (AnswersAlike calls) (runApi env (serveAll calls) w).1
      (runApi env' (serveAll calls) w).1 := hrun.exec.1
  rw [hrs, hrs'] at hend
  exact ⟨rs, rs', hrs, hrs', hend⟩

end runs

/-! ## Two keys -/

def keyedDump (c : Char) : Text :=
  ['w', 'g', '0', '\t'] ++ keyOf c ++ ['\t'] ++ keyOf 'S' ++
    ['\t', '5', '1', '8', '2', '0', '\t', 'o', 'f', 'f', '\n']

/-- `wg` yields and shows one private key. -/
def keyedEnv (c : Char) : AppEnv :=
  { sampleEnv with
    helper := fun _ command _ live =>
      match command with
      | .wgGenkey => (.exited 0 (keyOf c) [], live)
      | .wgPubkey _ => (.exited 0 (keyOf 'B') [], live)
      | .wgShowAllDump => (.exited 0 (keyedDump c) [], live)
      | _ => (.exited 0 [] [], live) }

theorem keyOf_full (c : Char) (hc : isKeyChar c = true) (hs : isSpace c = false) : FullKey (strip (keyOf c)) := by
  have hstrip : strip (keyOf c) = keyOf c := by
    have hlast : isSpace '=' = false := by decide
    simp [strip, lstrip, keyOf, List.replicate_succ, hs, hlast]
  rw [hstrip]
  refine ⟨List.replicate 42 c, 'A', rfl, List.length_replicate, fun x hx => ?_, by decide⟩
  rw [List.eq_of_mem_replicate hx]
  exact hc

theorem keyedDump_alike : DumpAlike (keyedDump 'P') (keyedDump 'Q') := by
  have hlines : splitlines (keyedDump 'P') = [(keyedDump 'P').dropLast] ∧
      splitlines (keyedDump 'Q') = [(keyedDump 'Q').dropLast] := by decide +kernel
  have hcols : (keyedDump 'P').dropLast.splitOn '\t' =
        [['w', 'g', '0'], keyOf 'P', keyOf 'S', ['5', '1', '8', '2', '0'], ['o', 'f', 'f']] ∧
      (keyedDump 'Q').dropLast.splitOn '\t' =
        [['w', 'g', '0'], keyOf 'Q', keyOf 'S', ['5', '1', '8', '2', '0'], ['o', 'f', 'f']] := by
    decide +kernel
  unfold DumpAlike
  rw [hlines.1, hlines.2]
  refine .cons ?_ .nil
  unfold LineAlike
  rw [hcols.1, hcols.2]
  refine ⟨rfl, fun i hi => ?_⟩
  match i, hi with
  | 0, _ => rfl
  | 1, hi => exact absurd rfl hi
  | _ + 2, _ => rfl

theorem keyedEnv_alike : SameButSecrets (keyedEnv 'P') (keyedEnv 'Q') where
  helper :=
    { outcome := by
        intro n c c' psk psk' live live' hc _ _
        have hfull : ∀ c, c = 'P' ∨ c = 'Q' → FullKey (strip (keyOf c)) := by
          rintro c (rfl | rfl)
          · exact keyOf_full 'P' (by decide) (by decide)
          · exact keyOf_full 'Q' (by decide) (by decide)
        rcases hc with ⟨rfl, -⟩ | ⟨p, p', rfl, rfl, -⟩
        · cases c with
          | wgGenkey =>
            exact .inr (.inl ⟨_, _, [], rfl, hfull _ (.inl rfl), hfull _ (.inr rfl), rfl, rfl⟩)
          | wgShowAllDump => exact .inr (.inr ⟨0, _, _, [], rfl, keyedDump_alike, rfl, rfl⟩)
          | wgPubkey p => exact .inl rfl
          | wgSetPeer => exact .inl rfl
          | wgRemovePeer => exact .inl rfl
          | systemctl => exact .inl rfl
        · exact .inl rfl
      live := by
        intro n c c' psk psk' live live' _ _ hlive
        have hsame : ∀ k n c psk live, ((keyedEnv k).helper n c psk live).2 = live := by
          intro k n c psk live
          cases c <;> rfl
        rw [hsame, hsame, hlive] }
  repr := rfl
  uid := rfl
  link := rfl
  uuid := rfl
  netIfAddrs := fun _ _ _ => rfl

def peerAndStatus : List (User × ApiCall) :=
  [(none, .createPeer "wg0" { samplePeer with presharedKey := true }), (none, .statusSnapshot)]

theorem sample_keys_do_not_show :
    (∀ n, ((serveAll peerAndStatus).cutOff (webHandler (keyedEnv 'P')) n sampleWorld).seen =
      ((serveAll peerAndStatus).cutOff (webHandler (keyedEnv 'Q')) n sampleWorld).seen) ∧
    ∃ rs rs', (runApi (keyedEnv 'P') (serveAll peerAndStatus) sampleWorld).1 = .ok rs ∧
      (runApi (keyedEnv 'Q') (serveAll peerAndStatus) sampleWorld).1 = .ok rs' ∧
      AnswersAlike peerAndStatus rs rs' :=
  keys_do_not_show (keyedEnv 'P') (keyedEnv 'Q') keyedEnv_alike sampleWorld peerAndStatus

end App
