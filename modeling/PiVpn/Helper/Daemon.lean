import PiVpn.Helper.Conf
import PiVpn.Lib.Program

/-! The commands of the root helper, as programs over what they ask of the system:
the conf files, the interfaces, the temporary key file, and the subprocesses. -/

namespace Helper
open Text Effect

inductive Systemctl where
  | isActive
  | enableNow
  | disableNow
  | stop
  deriving DecidableEq

/-- The command lines the helper runs. -/
inductive Command where
  | wgGenkey
  | wgPubkey (privateKey : Text)
  | wgShowAllDump
  | wgSetPeer (tunnel : String) (publicKey allowedIps : Text) (keepalive : Option Text)
      (presharedKeyFile : Bool)
  | wgRemovePeer (tunnel : String) (publicKey : Text)
  | systemctl (verb : Systemctl) (tunnel : String)
  deriving DecidableEq

/-- How a subprocess ends; it may also fail to start. -/
inductive Outcome where
  | exited (returncode : Int) (stdout stderr : Text)
  | notStarted (error : String)

inductive Level where
  | info
  | warning
  | error

structure LogRecord where
  level : Level
  message : String
  extra : List (String × Json)

/-- What a command asks of the system. Reading a conf file yields nothing where there
is none; replacing one is atomic. -/
inductive Op where
  | confExists (name : String)
  | readConf (name : String)
  | writeConf (name : String) (content : Text)
  | createConf (name : String) (content : Text)
  | unlinkConf (name : String)
  | confNames
  | interfaceUp (name : String)
  | createPsk (content : Text)
  | unlinkPsk
  | run (c : Command)
  | log (r : LogRecord)

abbrev Op.Answer : Op → Type
  | .confExists _ => Bool
  | .readConf _ => Option Text
  | .writeConf _ _ => Unit
  | .createConf _ _ => Unit
  | .unlinkConf _ => Unit
  | .confNames => List String
  | .interfaceUp _ => Bool
  | .createPsk _ => Unit
  | .unlinkPsk => Unit
  | .run _ => Outcome
  | .log _ => Unit

abbrev Sys : Signature := ⟨Op, Op.Answer⟩

abbrev Cmd (α : Type) := Prog Sys Fault α

def ask (o : Op) : Cmd o.Answer := Prog.perform (S := Sys) o

def confExists (name : String) : Cmd Bool := ask (.confExists name)
def readText (name : String) : Cmd (Option Text) := ask (.readConf name)
/-- `_write_conf`. -/
def writeConf (name : String) (content : Text) : Cmd Unit := ask (.writeConf name content)
def createConf (name : String) (content : Text) : Cmd Unit := ask (.createConf name content)
def unlinkConf (name : String) : Cmd Unit := ask (.unlinkConf name)
def confNames : Cmd (List String) := ask .confNames
/-- `_is_interface_up_sync`. -/
def isInterfaceUp (name : String) : Cmd Bool := ask (.interfaceUp name)
def createPsk (content : Text) : Cmd Unit := ask (.createPsk content)
def unlinkPsk : Cmd Unit := ask .unlinkPsk
def subprocess (c : Command) : Cmd Outcome := ask (.run c)
def logRecord (r : LogRecord) : Cmd Unit := ask (.log r)

def raise {α : Type} (e : HelperError) : Cmd α := .raise (.helper e)

def lift {α : Type} : Except Fault α → Cmd α
  | .ok a => .pure a
  | .error e => .raise e

/-- `if not c: raise e`. -/
def require (c : Bool) (e : HelperError) : Cmd Unit := if c then .pure () else raise e

/-- `_run`: a subprocess that cannot start raises. -/
def runCommand (c : Command) : Cmd (Int × Text × Text) := do
  match ← subprocess c with
  | .exited rc out err => pure (rc, out, err)
  | .notStarted e => .raise (.other e)

/-- `_run`, and an error unless the subprocess succeeds. -/
def runChecked (c : Command) (what : String) : Cmd Text := do
  let (rc, out, err) ← runCommand c
  require (rc = 0) (.failed what err)
  pure out

/-- `_read_conf`. -/
def readConf (name : String) : Cmd Text := do
  match ← readText name with
  | some content => pure content
  | none => raise (.invalid "tunnel not found")

/-! ## Commands -/

structure KeyPair where
  privateKey : Text
  publicKey : Text
  deriving DecidableEq

def cmdGenkey (_req : Request) : Cmd KeyPair := do
  let priv ← runChecked .wgGenkey "wg genkey"
  let pub ← runChecked (.wgPubkey priv) "wg pubkey"
  pure ⟨strip priv, strip pub⟩

def cmdCreateTunnel (req : Request) : Cmd Unit := do
  let r ← lift (readCreateTunnel req)
  let taken ← confExists r.name.text
  require (!taken) (.invalid "tunnel already exists")
  createConf r.name.text (tunnelText r)

/-- The exit code of `systemctl` is not looked at. -/
def cmdDeleteTunnel (req : Request) : Cmd Unit := do
  let name ← lift (validateTunnelName (Json.get req "name"))
  let _ ← runCommand (.systemctl .disableNow name.text)
  unlinkConf name.text

/-- The live half of adding a peer; a preshared key goes through a temporary file. -/
def setPeer (r : AddPeer) : Cmd Unit :=
  Prog.finally_
    (do
      match r.presharedKey with
      | some k => createPsk (k.text ++ ['\n'])
      | none => pure ()
      let _ ← runChecked (.wgSetPeer r.tunnel.text r.publicKey.text r.allowedIps.str
        (keepaliveText r.keepalive) r.presharedKey.isSome) "wg set"
      pure ())
    (if r.presharedKey.isSome then unlinkPsk else pure ())

def cmdAddPeer (req : Request) : Cmd Unit := do
  let r ← lift (readAddPeer req)
  let (header, peerBlocks) := splitConf (← readConf r.tunnel.text)
  require (!peerBlocks.any (mentions r.publicKey)) (.invalid "peer already exists")
  writeConf r.tunnel.text (rebuildConf header (peerBlocks ++ [peerText r]))
  if ← isInterfaceUp r.tunnel.text then setPeer r else pure ()

def cmdRemovePeer (req : Request) : Cmd Unit := do
  let r ← lift (readRemovePeer req)
  let (header, peerBlocks) := splitConf (← readConf r.tunnel.text)
  let kept := peerBlocks.filter fun b => !mentions r.publicKey b
  writeConf r.tunnel.text (rebuildConf header kept)
  if ← isInterfaceUp r.tunnel.text then
    let _ ← runChecked (.wgRemovePeer r.tunnel.text r.publicKey.text) "wg set remove"
    pure ()
  else pure ()

structure PeerStatus where
  publicKey : Text
  endpoint : Option Text
  allowedIps : Text
  latestHandshake : Nat
  rxBytes : Nat
  txBytes : Nat
  deriving DecidableEq

structure LiveStatus where
  publicKey : Option Text
  listenPort : Option Text
  peers : List PeerStatus

structure TunnelStatus where
  name : String
  active : Bool
  listenPort : Option Text
  publicKey : Option Text
  peers : List PeerStatus
  conf : ConfInfo
  deriving DecidableEq

/-! ## The status as JSON -/

def jsonText (t : Text) : Json := .str (String.ofList t)

def optionText (t : Option Text) : Json := (t.map jsonText).getD .null

def count (n : Nat) : Json := .int n

def modeName : Mode → String
  | .client => "client"
  | .server => "server"

def peerStatusJson (p : PeerStatus) : Json :=
  .obj [("public_key", jsonText p.publicKey), ("endpoint", optionText p.endpoint),
    ("allowed_ips", jsonText p.allowedIps), ("latest_handshake", count p.latestHandshake),
    ("rx_bytes", count p.rxBytes), ("tx_bytes", count p.txBytes)]

def tunnelStatusJson (t : TunnelStatus) : Json :=
  .obj [("name", .str t.name), ("active", .bool t.active), ("listen_port", optionText t.listenPort),
    ("public_key", optionText t.publicKey), ("peers", .arr (t.peers.map peerStatusJson)),
    ("mode", .str (modeName t.conf.mode)),
    ("configured_address", optionText t.conf.configuredAddress),
    ("configured_endpoint", optionText t.conf.configuredEndpoint),
    ("configured_allowed_ips", .arr (t.conf.configuredAllowedIps.map jsonText))]

/-! ## Reading the live status -/

/-- `int(col) if col.isdigit() else 0`. -/
def counter (col : Text) : Nat :=
  if col ≠ [] ∧ col.all Char.isDigit then Ipaddress.natOfDigits col else 0

def noneWord : Text := ['(', 'n', 'o', 'n', 'e', ')']
def activeWord : Text := ['a', 'c', 't', 'i', 'v', 'e']

def noStatus : LiveStatus := ⟨none, none, []⟩

/-- One line of the dump. Of the columns of an interface the second holds its private
key, of those of a peer the third its preshared key: neither is kept. -/
def readDumpLine (live : List (Text × LiveStatus)) (line : Text) : List (Text × LiveStatus) :=
  let cols := line.splitOn '\t'
  match cols with
  | [] => live
  | iface :: _ =>
    if iface = [] then live
    else
      let entry := (live.lookup iface).getD noStatus
      let entry := match cols with
        | [_, _, publicKey, listenPort, _] =>
          { entry with publicKey := some publicKey, listenPort := some listenPort }
        | [_, publicKey, _, endpoint, allowedIps, latestHandshake, rx, tx, _] =>
          { entry with peers := entry.peers ++
            [{ publicKey := publicKey
               endpoint := if endpoint = noneWord then none else some endpoint
               allowedIps := allowedIps
               latestHandshake := counter latestHandshake
               rxBytes := counter rx
               txBytes := counter tx }] }
        | _ => entry
      (iface, entry) :: live.filter (·.1 ≠ iface)

def noConf : ConfInfo := ⟨.server, none, none, []⟩

def tunnelStatus (live : List (Text × LiveStatus)) (tname : String) : Cmd TunnelStatus := do
  let (_, out, _) ← runCommand (.systemctl .isActive tname)
  let info := (live.lookup tname.toList).getD noStatus
  let content ← readText tname
  pure
    { name := tname
      active := strip out = activeWord
      listenPort := info.listenPort
      publicKey := info.publicKey
      peers := info.peers
      conf := (content.map parseConfInfo).getD noConf }

def forEach {α β : Type} (f : α → Cmd β) : List α → Cmd (List β)
  | [] => pure []
  | x :: xs => do
    let y ← f x
    let ys ← forEach f xs
    pure (y :: ys)

def cmdTunnelStatus (req : Request) : Cmd (List TunnelStatus) := do
  let name ← lift (nullable (Json.get req "name") validateTunnelName)
  let stems ← confNames
  let stems := match name with
    | some n => stems.filter (· = n.text)
    | none => stems
  let (rc, dump, _) ← runCommand .wgShowAllDump
  let live := if rc = 0 then (splitlines dump).foldl readDumpLine [] else []
  forEach (tunnelStatus live) stems

def readAction : Json → Except Fault Systemctl
  | .str "activate" => .ok .enableNow
  | .str "disconnect" => .ok .stop
  | .str "deactivate" => .ok .disableNow
  | _ => reject "invalid action"

def cmdSetTunnelState (req : Request) : Cmd Unit := do
  let name ← lift (validateTunnelName (Json.get req "name"))
  let verb ← lift (readAction (Json.get req "action"))
  let present ← confExists name.text
  require present (.invalid "tunnel not found")
  let _ ← runChecked (.systemctl verb name.text) "systemctl"
  pure ()

/-! ## Serving a request -/

inductive Result where
  | done
  | keys (k : KeyPair)
  | tunnels (ts : List TunnelStatus)
  deriving DecidableEq

inductive Response where
  | ok (result : Result)
  | error (text : String)
  deriving DecidableEq

def Result.json : Result → Json
  | .done => .obj []
  | .keys k => .obj [("private_key", jsonText k.privateKey), ("public_key", jsonText k.publicKey)]
  | .tunnels ts => .obj [("tunnels", .arr (ts.map tunnelStatusJson))]

/-- The dictionary that is sent back. -/
def Response.json : Response → Json
  | .ok result => .obj [("ok", .bool true), ("result", result.json)]
  | .error text => .obj [("ok", .bool false), ("error", .str text)]

def dispatch : String → Option (Request → Cmd Result)
  | "genkey" => some fun req => do pure (.keys (← cmdGenkey req))
  | "create_tunnel" => some fun req => do cmdCreateTunnel req; pure .done
  | "delete_tunnel" => some fun req => do cmdDeleteTunnel req; pure .done
  | "add_peer" => some fun req => do cmdAddPeer req; pure .done
  | "remove_peer" => some fun req => do cmdRemovePeer req; pure .done
  | "tunnel_status" => some fun req => do pure (.tunnels (← cmdTunnelStatus req))
  | "set_tunnel_state" => some fun req => do cmdSetTunnelState req; pure .done
  | _ => none

/-- The line a client sent: none, no JSON, or a value. -/
inductive Line where
  | eof
  | garbage
  | json (v : Json)

def errorRecord (level : Level) (message event : String) (cmd : Json) (error : String) :
    LogRecord :=
  ⟨level, message, [("event", .str event), ("cmd", cmd), ("error", .str error)]⟩

/-- The reply to a request; every exception of the command is caught here. -/
def reply (repr : Json → String) (cmd : Json) (body : Cmd Result) : Cmd Response := do
  match ← body.attempt with
  | .ok result => pure (.ok result)
  | .error (.helper e) =>
    logRecord (errorRecord .warning "command_rejected" "helper.command.rejected" cmd
      (e.message repr))
    pure (.error (e.message repr))
  | .error (.other text) =>
    logRecord (errorRecord .error "command_failed" "helper.command.failed" cmd text)
    pure (.error "internal error")

/-- `handle_client`; no response where the connection is just closed. -/
def handleClient (repr : Json → String) (allowedUid : Option Nat) (peerUid : Nat) (line : Line) :
    Cmd (Option Response) :=
  match allowedUid with
  | none => do
    logRecord ⟨.error, "caller_user_missing", [("event", .str "helper.startup.caller_user_missing")]⟩
    pure none
  | some uid =>
    if peerUid ≠ uid then do
      logRecord ⟨.warning, "rejected_peer", [("event", .str "helper.auth.rejected")]⟩
      pure none
    else
      match line with
      | .eof => pure none
      | .garbage => pure (some (.error "invalid request"))
      | .json (.obj req) =>
        match Json.get req "cmd" with
        -- a list or an object cannot be looked up: the exception closes the connection
        | .arr _ => pure none
        | .obj _ => pure none
        | .str cmd =>
          match dispatch cmd with
          | some handler => do pure (some (← reply repr (.str cmd) (handler req)))
          | none => pure (some (.error "unknown command"))
        | _ => pure (some (.error "unknown command"))
      | .json _ => pure none

/-! ## What the commands ask -/

section

variable {α β : Type} {N : Op → Prop}

theorem only_lift (x : Except Fault α) : Prog.Only N (lift x) := by
  cases x <;> trivial

theorem only_require (c : Bool) (e : HelperError) : Prog.Only N (require c e) := by
  cases c <;> trivial

theorem only_runCommand {c : Command} (h : N (.run c)) : Prog.Only N (runCommand c) := by
  refine ⟨h, fun o => ?_⟩
  cases o <;> trivial

theorem only_runChecked {c : Command} (what : String) (h : N (.run c)) :
    Prog.Only N (runChecked c what) :=
  (only_runCommand h).bind fun _ => (only_require _ _).bind fun _ => trivial

theorem only_forEach {f : α → Cmd β} (hf : ∀ a, Prog.Only N (f a)) (xs : List α) :
    Prog.Only N (forEach f xs) := by
  induction xs with
  | nil => trivial
  | cons x xs ih => exact (hf x).bind fun _ => ih.bind fun _ => trivial

/-- The questions of the status. -/
def Op.Looks : Op → Prop
  | .confNames => True
  | .readConf _ => True
  | .run .wgShowAllDump => True
  | .run (.systemctl .isActive _) => True
  | _ => False

theorem only_cmdTunnelStatus (req : Request) : Prog.Only Op.Looks (cmdTunnelStatus req) := by
  have htunnel : ∀ live tname, Prog.Only Op.Looks (tunnelStatus live tname) := by
    intro live tname
    apply (only_runCommand (c := .systemctl .isActive tname) trivial).bind
    exact fun _ => ⟨trivial, fun _ => trivial⟩
  apply (only_lift _).bind
  intro name
  refine ⟨trivial, fun stems => ?_⟩
  apply (only_runCommand (c := .wgShowAllDump) trivial).bind
  exact fun _ => only_forEach (htunnel _) _

end

end Helper
