import PiVpn.Helper.Daemon

/-! The data of the web application: its validated requests, the metadata file, and
what its handlers ask of the world around them. -/

namespace App
open Text Cidr Ipaddress Effect Helper

/-! ## Requests -/

/-- The whole text has between `lo` and `hi` characters of one class. -/
def FullMatch (p : Char → Bool) (lo hi : Nat) (s : String) : Prop :=
  lo ≤ s.toList.length ∧ s.toList.length ≤ hi ∧ s.toList.all p = true

def isAlnum (c : Char) : Bool :=
  ('a' ≤ c && c ≤ 'z') || ('A' ≤ c && c ≤ 'Z') || ('0' ≤ c && c ≤ '9')

def isDescriptionChar (c : Char) : Bool := isAlnum c || [' ', '_', '.', '-'].contains c

def isHostChar (c : Char) : Bool := isAlnum c || ['.', '-'].contains c

structure TunnelCreateRequest where
  name : String
  address : Interface 32
  listenPort : Int
  endpoint : Option String
  force : Bool
  nameOk : FullMatch isTunnelNameChar 1 15 name
  portOk : 1024 ≤ listenPort ∧ listenPort ≤ 65535
  endpointOk : ∀ e ∈ endpoint, FullMatch isHostChar 1 255 e

structure PeerCreateRequest where
  description : String
  allowedIps : List (Network 32)
  presharedKey : Bool
  keepalive : Option Int
  descriptionOk : FullMatch isDescriptionChar 1 64 description
  allowedIpsOk : allowedIps ≠ []
  keepaliveOk : ∀ k ∈ keepalive, 0 ≤ k ∧ k ≤ 3600

inductive Action where
  | activate
  | deactivate
  | disconnect
  deriving DecidableEq

def Action.name : Action → String
  | .activate => "activate"
  | .deactivate => "deactivate"
  | .disconnect => "disconnect"

structure TunnelStateRequest where
  action : Action
  force : Bool

/-! ## The metadata file -/

structure PeerMeta where
  id : String
  description : String
  tunnelAddress : Text
  allowedIps : List Text
  publicKey : Text
  createdBy : Option String
  deriving DecidableEq

structure TunnelMeta where
  address : Text
  endpoint : Option String
  listenPort : Int
  peers : List PeerMeta
  deriving DecidableEq

/-- `data["tunnels"]`, in the order of insertion. -/
abbrev Metadata := List (String × TunnelMeta)

/-- `metadata["tunnels"][name] = t`: a present key keeps its place. -/
def Metadata.put (m : Metadata) (name : String) (t : TunnelMeta) : Metadata :=
  if (m.lookup name).isSome then m.map fun e => if e.1 = name then (name, t) else e
  else m ++ [(name, t)]

/-- `metadata["tunnels"].pop(name, None)`. -/
def Metadata.pop (m : Metadata) (name : String) : Metadata := m.filter (·.1 ≠ name)

/-- `peers.json`: absent, holding metadata, or neither. An `OSError` of the read and text that is
no JSON are `unreadable`; what else goes wrong (a directory that may not be searched, text that
is no UTF-8 or nested too deep, JSON that holds no tunnels) is `broken`. -/
inductive MetadataFile where
  | absent
  | unreadable (error : String)
  | broken (error : String)
  | data (m : Metadata)

/-! ## What a handler asks -/

/-- One address of a local interface. -/
structure IfaceAddr where
  iface : String
  family : Int
  address : Text
  netmask : Option Text

/-- What comes back from the helper's socket. -/
inductive Reply where
  | unreachable (error : String)
  | empty
  | garbage
  | response (r : Response)
  deriving DecidableEq

inductive Ask where
  | helper (req : Request)
  | readMetadata
  | writeMetadata (m : Metadata)
  | netIfAddrs
  | uuid4
  | log (r : LogRecord)

abbrev Ask.Answer : Ask → Type
  | .helper _ => Reply
  | .readMetadata => MetadataFile
  | .writeMetadata _ => Option String
  | .netIfAddrs => List IfaceAddr
  | .uuid4 => String
  | .log _ => Unit

abbrev Web : Signature := ⟨Ask, Ask.Answer⟩

/-- How a handler ends otherwise: with an HTTP error, or with an exception of its own. -/
inductive Failure where
  | http (status : Nat) (detail : String)
  | unhandled (error : String)

abbrev Api (α : Type) := Prog Web Failure α

def ask (a : Ask) : Api a.Answer := Prog.perform (S := Web) a

def askHelper (req : Request) : Api Reply := ask (.helper req)
def readMetadata : Api MetadataFile := ask .readMetadata
def netIfAddrs : Api (List IfaceAddr) := ask .netIfAddrs
def uuid4 : Api String := ask .uuid4
def log (r : LogRecord) : Api Unit := ask (.log r)

/-- `_save_metadata`; a save that fails raises. -/
def writeMetadata (m : Metadata) : Api Unit := do
  match ← ask (.writeMetadata m) with
  | none => pure ()
  | some e => .raise (.unhandled e)

def httpError {α : Type} (status : Nat) (detail : String) : Api α := .raise (.http status detail)

end App
