import PiVpn.Helper.Requests

/-! The conf text: the header and peer sections it is made of, the texts the
helper writes, and what it derives from a text it reads. -/

namespace Helper
open Text Pattern Ipaddress

def interfaceMark : Text := ['[', 'I', 'n', 't', 'e', 'r', 'f', 'a', 'c', 'e', ']']
def peerMark : Text := ['[', 'P', 'e', 'e', 'r', ']']

def privateKeyWord : Text := ['P', 'r', 'i', 'v', 'a', 't', 'e', 'K', 'e', 'y']
def addressWord : Text := ['A', 'd', 'd', 'r', 'e', 's', 's']
def listenPortWord : Text := ['L', 'i', 's', 't', 'e', 'n', 'P', 'o', 'r', 't']
def publicKeyWord : Text := ['P', 'u', 'b', 'l', 'i', 'c', 'K', 'e', 'y']
def presharedKeyWord : Text := ['P', 'r', 'e', 's', 'h', 'a', 'r', 'e', 'd', 'K', 'e', 'y']
def allowedIpsWord : Text := ['A', 'l', 'l', 'o', 'w', 'e', 'd', 'I', 'P', 's']
def keepaliveWord : Text :=
  ['P', 'e', 'r', 's', 'i', 's', 't', 'e', 'n', 't', 'K', 'e', 'e', 'p', 'a', 'l', 'i', 'v', 'e']
def endpointWord : Text := ['E', 'n', 'd', 'p', 'o', 'i', 'n', 't']

/-- `re.split(r"\n(?=\[Peer\])", content)`. -/
def splitConf (content : Text) : Text × List Text := Blocks.splitBefore '\n' peerMark content

def rebuildBlock (block : Text) : Text := '\n' :: rstripNl block ++ ['\n']

def rebuildConf (header : Text) (peerBlocks : List Text) : Text :=
  rstripNl header ++ '\n' :: (peerBlocks.map rebuildBlock).flatten


/-- What `cmd_create_tunnel` writes. -/
def tunnelText (r : CreateTunnel) : Text :=
  unlines [interfaceMark, setting privateKeyWord r.privateKey.text,
    setting addressWord r.address.str, setting listenPortWord r.listenPort.value.str]

/-- The block `cmd_add_peer` adds. -/
def peerText (r : AddPeer) : Text :=
  unlines ([peerMark, setting publicKeyWord r.publicKey.text] ++
    (r.presharedKey.map fun k => setting presharedKeyWord k.text).toList ++
    [setting allowedIpsWord r.allowedIps.str] ++
    ((keepaliveText r.keepalive).map (setting keepaliveWord)).toList)

/-- `f"PublicKey = {public_key}" in b`. -/
def mentions (key : WgKey) (block : Text) : Bool :=
  decide (setting publicKeyWord key.text <:+: block)

/-! ## Reading a conf text -/

inductive Mode where
  | client
  | server
  deriving DecidableEq

structure ConfInfo where
  mode : Mode
  configuredAddress : Option Text
  configuredEndpoint : Option Text
  configuredAllowedIps : List Text
  deriving DecidableEq

/-- `part.strip() for part in value.split(",") if part.strip()`. -/
def commaParts (value : Text) : List Text :=
  ((value.splitOn ',').map strip).filter (· ≠ [])

def blockEndpoint (block : Text) : Option Text := (keyLine endpointWord).first block

def blockAllowedIps (block : Text) : List Text :=
  ((keyLine allowedIpsWord).captures block).flatMap commaParts

/-- `_parse_conf_info`. -/
def parseConfInfo (content : Text) : ConfInfo :=
  let (header, peerBlocks) := splitConf content
  let endpoint := peerBlocks.findSome? blockEndpoint
  { mode := if endpoint.isSome then .client else .server
    configuredAddress := (keyLine addressWord).first header
    configuredEndpoint := endpoint
    configuredAllowedIps := peerBlocks.flatMap blockAllowedIps }

theorem endpoint_isKey : IsKey endpointWord := ⟨'E', _, rfl, by decide⟩

theorem parseConfInfo_client_iff {u : Text} :
    (parseConfInfo u).mode = .client ↔ ∃ b ∈ (splitConf u).2, HasSetting endpointWord b := by
  have hmode : (parseConfInfo u).mode = .client ↔ ((splitConf u).2.findSome? blockEndpoint).isSome := by
    rw [parseConfInfo]
    simp only
    split <;> simp_all
  rw [hmode, List.findSome?_isSome_iff]
  simp only [blockEndpoint, first_isSome_iff endpoint_isKey]

end Helper
