import PiVpn.App.Models

/-! The WireGuard handlers of the web application, and its client of the helper. -/

namespace App
open Text Cidr Ipaddress Effect Helper

/-! ## The helper client -/

def errorLog (message event : String) (extra : List (String × Json)) : LogRecord :=
  ⟨.error, message, ("event", .str event) :: extra⟩

/-- `_call`. Whatever goes wrong is logged, and answered by one of two fixed texts. -/
def call (cmd : String) (params : Request) : Api Result := do
  match ← askHelper (("cmd", .str cmd) :: params) with
  | .unreachable e =>
    log (errorLog "helper_unreachable" "wireguard.helper.unreachable"
      [("cmd", .str cmd), ("error", .str e)])
    httpError 502 "WireGuard helper unavailable"
  | .empty =>
    log (errorLog "helper_empty_response" "wireguard.helper.empty_response" [("cmd", .str cmd)])
    httpError 502 "WireGuard operation failed"
  | .garbage =>
    log (errorLog "helper_bad_response" "wireguard.helper.bad_response" [("cmd", .str cmd)])
    httpError 502 "WireGuard operation failed"
  | .response (.error e) =>
    log (errorLog "helper_command_failed" "wireguard.helper.failed"
      [("cmd", .str cmd), ("error", .str e)])
    httpError 502 "WireGuard operation failed"
  | .response (.ok result) => pure result

/-- The result has the shape of the command that was called. -/
def keysOf : Result → KeyPair
  | .keys k => k
  | _ => ⟨[], []⟩

def tunnelsOf : Result → List TunnelStatus
  | .tunnels ts => ts
  | _ => []

namespace Client

def genkey : Api KeyPair := do
  pure (keysOf (← call "genkey" []))

def createTunnel (name : String) (address : Text) (listenPort : Int) (privateKey : Text) :
    Api Unit := do
  let _ ← call "create_tunnel" [("name", .str name), ("address", jsonText address),
    ("listen_port", .int listenPort), ("private_key", jsonText privateKey)]
  pure ()

def deleteTunnel (name : String) : Api Unit := do
  let _ ← call "delete_tunnel" [("name", .str name)]
  pure ()

def addPeer (tunnel : String) (publicKey : Text) (allowedIps : List Text)
    (presharedKey : Option Text) (keepalive : Option Int) : Api Unit := do
  let _ ← call "add_peer" [("tunnel", .str tunnel), ("public_key", jsonText publicKey),
    ("allowed_ips", .arr (allowedIps.map jsonText)),
    ("preshared_key", (presharedKey.map jsonText).getD .null),
    ("keepalive", (keepalive.map .int).getD .null)]
  pure ()

def removePeer (tunnel : String) (publicKey : Text) : Api Unit := do
  let _ ← call "remove_peer" [("tunnel", .str tunnel), ("public_key", jsonText publicKey)]
  pure ()

def tunnelStatus (name : Option String) : Api (List TunnelStatus) := do
  pure (tunnelsOf (← call "tunnel_status" [("name", (name.map .str).getD .null)]))

def setTunnelState (name : String) (action : Action) : Api Unit := do
  let _ ← call "set_tunnel_state" [("name", .str name), ("action", .str action.name)]
  pure ()

end Client

/-! ## Metadata -/

/-- `_load_metadata`: a file that cannot be read counts as empty, a broken one raises. -/
def loadMetadata : Api Metadata := do
  match ← readMetadata with
  | .absent => pure []
  | .unreadable e =>
    log (errorLog "metadata_read_failed" "wireguard.metadata.read_failed" [("error", .str e)])
    pure []
  | .broken e => .raise (.unhandled e)
  | .data m => pure m

/-! ## Overlaps -/

def afInet : Int := 2

/-- The connected subnet of an address of an interface, where it has one. -/
def localNet (a : IfaceAddr) : Option IPNetwork :=
  if a.family ≠ afInet then none
  else
    match a.netmask with
    | none => none
    | some [] => none
    | some m => (ipInterface (a.address ++ '/' :: m)).map IPInterface.network

structure Conflict where
  candidate : IPNetwork
  iface : String
  localNet : IPNetwork

def Conflict.text (c : Conflict) : String :=
  String.ofList c.candidate.str ++ " overlaps " ++ c.iface ++ " (" ++
    String.ofList c.localNet.str ++ ")"

def conflictsWith (candidates : List IPNetwork) (a : IfaceAddr) : List Conflict :=
  match localNet a with
  | none => []
  | some m => (candidates.filter (·.overlaps m)).map fun c => ⟨c, a.iface, m⟩

/-- `_overlapping_local_subnets`. -/
def overlappingLocalSubnets (candidates : List IPNetwork) : Api (List Conflict) := do
  let addrs ← netIfAddrs
  pure (addrs.flatMap (conflictsWith candidates))

def conflictDetail (start : String) (conflicts : List Conflict) : String :=
  start ++ String.intercalate "; " (conflicts.map Conflict.text) ++
    ". Confirm you understand the risk to override."

def createOverlap : String :=
  "This tunnel's own address overlaps a network this device is already directly connected to, which can break local network access: "

def activateOverlap : String :=
  "Activating this tunnel would overlap a network this device is already directly connected to, which can break local network access: "

/-- Raise 409 where there are conflicts. -/
def refuseConflicts (start : String) (candidates : List IPNetwork) : Api Unit := do
  let conflicts ← overlappingLocalSubnets candidates
  if conflicts.isEmpty then pure () else httpError 409 (conflictDetail start conflicts)

/-! ## Addresses of peers -/

/-- `_allocate_peer_address`; a stored address that cannot be read raises. -/
def allocatePeerAddress (t : TunnelMeta) : Api Text := do
  match ipInterface t.address, t.peers.mapM fun p => ipInterface p.tunnelAddress with
  | some (.v4 i), some peers =>
    let used := IPInterface.v4 i :: peers
    let free := fun h => !used.any fun u => match u with
      | .v4 u => u.ip == h
      | .v6 _ _ => false
    match (hosts i.network).find? free with
    | some h => pure (ipv4Str h ++ ['/', '3', '2'])
    | none => httpError 409 "No free addresses left in this tunnel's subnet"
  | _, _ => .raise (.unhandled "does not appear to be an IPv4 or IPv6 interface")

/-! ## Handlers -/

inductive Body where
  | json (j : Json)
  | conf (filename : String) (lines : List String)

structure HttpResponse where
  status : Nat
  body : Body

/-- The signed-in user, as `user.get("sub")`. -/
abbrev User := Option String

def optionStr (s : Option String) : Json := (s.map .str).getD .null

def infoLog (message event : String) (user : User) (extra : List (String × Json)) : LogRecord :=
  ⟨.info, message, ("event", .str event) :: ("user", optionStr user) :: extra⟩

def statusOk : HttpResponse := ⟨200, .json (.obj [("status", .str "ok")])⟩

def listEntry (metadata : Metadata) (t : TunnelStatus) : Json :=
  let tunnelMeta := metadata.lookup t.name
  let common := [("name", .str t.name), ("mode", .str (modeName t.conf.mode)),
    ("active", .bool t.active), ("public_key", optionText t.publicKey)]
  match t.conf.mode with
  | .client =>
    let livePeer := t.peers.head?
    .obj (common ++ [("remote_endpoint", optionText t.conf.configuredEndpoint),
      ("remote_allowed_ips", .arr (t.conf.configuredAllowedIps.map jsonText)),
      ("latest_handshake", (livePeer.map fun p => count p.latestHandshake).getD .null),
      ("rx_bytes", (livePeer.map fun p => count p.rxBytes).getD .null),
      ("tx_bytes", (livePeer.map fun p => count p.txBytes).getD .null)])
  | .server =>
    -- an empty stored address gives way to the configured one
    let stored := (tunnelMeta.map TunnelMeta.address).filter (· ≠ [])
    .obj (common ++ [("address", optionText (stored <|> t.conf.configuredAddress)),
      ("endpoint", optionStr (tunnelMeta.bind TunnelMeta.endpoint)),
      ("listen_port", optionText t.listenPort),
      ("peer_count", count ((tunnelMeta.map fun m => m.peers.length).getD 0))])

def listTunnels : Api HttpResponse := do
  let tunnels ← Client.tunnelStatus none
  let metadata ← loadMetadata
  pure ⟨200, .json (.arr (tunnels.map (listEntry metadata)))⟩

def createTunnel (payload : TunnelCreateRequest) (user : User) : Api HttpResponse := do
  if payload.force then pure ()
  else refuseConflicts createOverlap [.v4 payload.address.network]
  let keypair ← Client.genkey
  let address := (IPInterface.v4 payload.address).str
  Client.createTunnel payload.name address payload.listenPort keypair.privateKey
  let metadata ← loadMetadata
  writeMetadata (metadata.put payload.name ⟨address, payload.endpoint, payload.listenPort, []⟩)
  log (infoLog "tunnel_created" "wireguard.tunnel.created" user [("tunnel", .str payload.name)])
  pure ⟨201, .json (.obj [("name", .str payload.name),
    ("public_key", jsonText keypair.publicKey)])⟩

def deleteTunnel (name : String) (user : User) : Api HttpResponse := do
  Client.deleteTunnel name
  let metadata ← loadMetadata
  writeMetadata (metadata.pop name)
  log (infoLog "tunnel_deleted" "wireguard.tunnel.deleted" user [("tunnel", .str name)])
  pure statusOk

/-- The networks a tunnel is checked for, by its role. -/
def candidatesOf (conf : ConfInfo) : Api (List IPNetwork) :=
  match conf.mode with
  | .client => pure (conf.configuredAllowedIps.filterMap ipNetwork)
  | .server =>
    match conf.configuredAddress with
    | none => pure []
    | some a =>
      match ipInterface a with
      | some i => pure [i.network]
      | none => .raise (.unhandled "does not appear to be an IPv4 or IPv6 interface")

def setTunnelState (name : String) (payload : TunnelStateRequest) (user : User) :
    Api HttpResponse := do
  match ← Client.tunnelStatus (some name) with
  | [] => httpError 404 "Unknown tunnel"
  | tunnelInfo :: _ =>
    if payload.action = .activate ∧ payload.force = false then
      let candidates ← candidatesOf tunnelInfo.conf
      refuseConflicts activateOverlap candidates
    else pure ()
    Client.setTunnelState name payload.action
    log (infoLog "tunnel_state_changed" "wireguard.tunnel.state" user
      [("tunnel", .str name), ("action", .str payload.action.name), ("forced", .bool payload.force)])
    pure statusOk

def peerEntry (live : List PeerStatus) (p : PeerMeta) : Json :=
  -- of two live entries with one key the later one counts
  let l := live.reverse.find? (·.publicKey = p.publicKey)
  .obj [("id", .str p.id), ("description", .str p.description),
    ("tunnel_address", jsonText p.tunnelAddress), ("allowed_ips", .arr (p.allowedIps.map jsonText)),
    ("latest_handshake", (l.map fun p => count p.latestHandshake).getD .null),
    ("rx_bytes", (l.map fun p => count p.rxBytes).getD .null),
    ("tx_bytes", (l.map fun p => count p.txBytes).getD .null)]

def listPeers (name : String) : Api HttpResponse := do
  let metadata ← loadMetadata
  match metadata.lookup name with
  | none => httpError 404 "Unknown tunnel"
  | some tunnelMeta =>
    let tunnels ← Client.tunnelStatus (some name)
    pure ⟨200, .json (.arr (tunnelMeta.peers.map (peerEntry (tunnels.flatMap TunnelStatus.peers))))⟩

def nonEmpty (t : Option Text) : Option Text := t.filter (· ≠ [])

/-- The file the new peer downloads. -/
def peerConfLines (keypair : KeyPair) (peerAddress serverKey : Text) (psk : Option Text)
    (allowedIps : List Text) (t : TunnelMeta) (keepalive : Option Int) : List String :=
  ["[Interface]", "PrivateKey = " ++ String.ofList keypair.privateKey,
    "Address = " ++ String.ofList peerAddress, "", "[Peer]",
    "PublicKey = " ++ String.ofList serverKey] ++
  ((nonEmpty psk).map fun k => "PresharedKey = " ++ String.ofList k).toList ++
  ["AllowedIPs = " ++ String.intercalate ", " (allowedIps.map String.ofList),
    match t.endpoint.filter (· ≠ "") with
    | some e => "Endpoint = " ++ e ++ ":" ++ toString t.listenPort
    | none => "# Endpoint = <this server's reachable address>:" ++ toString t.listenPort] ++
  match keepalive with
  | some k => if k = 0 then [] else ["PersistentKeepalive = " ++ toString k]
  | none => []

def safeFilename (description : String) : String :=
  let s := description.map fun c => if isAlnum c || ['.', '_', '-'].contains c then c else '_'
  if s = "" then "peer" else s

/-- The metadata with another list of peers for one tunnel. -/
def Metadata.withPeers (m : Metadata) (name : String) (peers : List PeerMeta) : Metadata :=
  m.map fun e => if e.1 = name then (e.1, { e.2 with peers := peers }) else e

/-- `create_peer`, the metadata loaded. -/
def createPeerFrom (metadata : Metadata) (name : String) (payload : PeerCreateRequest)
    (user : User) : Api HttpResponse :=
  match metadata.lookup name with
  | none => httpError 404 "Unknown tunnel"
  | some tunnelMeta => do
    let tunnels ← Client.tunnelStatus (some name)
    match nonEmpty (tunnels.head?.bind TunnelStatus.publicKey) with
    | none => httpError 409 "Tunnel is not active — start it before adding peers"
    | some serverKey =>
      let peerAddress ← allocatePeerAddress tunnelMeta
      let requested := payload.allowedIps.map fun n => (IPNetwork.v4 n).str
      let keypair ← Client.genkey
      let psk ← if payload.presharedKey then do pure (some (← Client.genkey).privateKey) else pure none
      Client.addPeer name keypair.publicKey [peerAddress] psk payload.keepalive
      let peerId ← uuid4
      let peer : PeerMeta :=
        ⟨peerId, payload.description, peerAddress, requested, keypair.publicKey, user⟩
      writeMetadata (metadata.withPeers name (tunnelMeta.peers ++ [peer]))
      log (infoLog "peer_created" "wireguard.peer.created" user
        [("tunnel", .str name), ("peer_id", .str peerId), ("description", .str payload.description)])
      pure ⟨200, .conf (safeFilename payload.description ++ ".conf")
        (peerConfLines keypair peerAddress serverKey psk requested tunnelMeta payload.keepalive)⟩

def createPeer (name : String) (payload : PeerCreateRequest) (user : User) : Api HttpResponse := do
  let metadata ← loadMetadata
  createPeerFrom metadata name payload user

/-- `delete_peer`, the metadata loaded. -/
def deletePeerFrom (metadata : Metadata) (name peerId : String) (user : User) :
    Api HttpResponse :=
  match metadata.lookup name with
  | none => httpError 404 "Unknown tunnel"
  | some tunnelMeta =>
    match tunnelMeta.peers.find? (·.id = peerId) with
    | none => httpError 404 "Unknown peer"
    | some peer => do
      Client.removePeer name peer.publicKey
      writeMetadata (metadata.withPeers name (tunnelMeta.peers.filter (·.id ≠ peerId)))
      log (infoLog "peer_deleted" "wireguard.peer.deleted" user
        [("tunnel", .str name), ("peer_id", .str peerId)])
      pure statusOk

def deletePeer (name peerId : String) (user : User) : Api HttpResponse := do
  let metadata ← loadMetadata
  deletePeerFrom metadata name peerId user

def statusSnapshot : Api HttpResponse := do
  let tunnels ← Client.tunnelStatus none
  pure ⟨200, .json (.obj [("tunnels", .arr (tunnels.map tunnelStatusJson))])⟩

/-- A request of the WireGuard API. -/
inductive ApiCall where
  | listTunnels
  | createTunnel (payload : TunnelCreateRequest)
  | deleteTunnel (name : String)
  | setTunnelState (name : String) (payload : TunnelStateRequest)
  | listPeers (name : String)
  | createPeer (name : String) (payload : PeerCreateRequest)
  | deletePeer (name peerId : String)
  | statusSnapshot

/-- The handler of a request of a signed-in user. -/
def ApiCall.handler (user : User) : ApiCall → Api HttpResponse
  | .listTunnels => App.listTunnels
  | .createTunnel payload => App.createTunnel payload user
  | .deleteTunnel name => App.deleteTunnel name user
  | .setTunnelState name payload => App.setTunnelState name payload user
  | .listPeers name => App.listPeers name
  | .createPeer name payload => App.createPeer name payload user
  | .deletePeer name peerId => App.deletePeer name peerId user
  | .statusSnapshot => App.statusSnapshot

end App
