import PiVpn.Helper.Conf
import PiVpn.Python.Ipaddress
import PiVpn.Lib.Dict

/-! The guard against a client tunnel that claims the local network: it takes what overlaps
a directly connected network out of the live allowed addresses of every peer. -/

namespace Maintenance
open Text Cidr Ipaddress

/-! ## What `ip` and `wg` show -/

/-- A directly connected network as `ip` prints it. -/
structure LinkNet where
  text : Text
  network : Network 32
  read : ipNetwork text = some (.v4 network)

inductive Dest where
  | default
  | net (n : LinkNet)

def defaultWord : Text := ['d', 'e', 'f', 'a', 'u', 'l', 't']
def devWord : Text := ['d', 'e', 'v']

def Dest.text : Dest → Text
  | .default => defaultWord
  | .net n => n.text

def Dest.network? : Dest → Option (Network 32)
  | .default => none
  | .net n => some n.network

/-- A line of `ip -4 route show scope link`, in words: it names its device once. -/
structure Route where
  dest : Dest
  before : List Text
  device : Text
  after : List Text
  once : devWord ∉ before ∧ device ≠ devWord ∧ devWord ∉ after

def Route.words (r : Route) : List Text := r.dest.text :: (r.before ++ devWord :: r.device :: r.after)

/-- An entry of the allowed addresses. -/
structure AllowedIp where
  text : Text
  network : IPNetwork
  read : ipNetwork text = some network

def AllowedIp.ofText (t : Text) : Option AllowedIp :=
  match h : ipNetwork t with
  | some n => some ⟨t, n, h⟩
  | none => none

@[ext]
structure Peer where
  pub : Text
  allowed : List AllowedIp

@[ext]
structure Tunnel where
  name : Text
  conf : Option Text
  peers : List Peer
  distinct : (peers.map Peer.pub).Nodup

inductive Command where
  | wgSet (tun pub : Text) (keep : List Text)
  | routeDel (net tun : Text)
  deriving DecidableEq

/-- The interfaces of the device, with the commands that have changed them. -/
structure Net where
  routes : List Route
  tunnels : List Tunnel
  issued : List Command
  distinct : (tunnels.map Tunnel.name).Nodup

/-- `wg show interfaces`. -/
def Net.names (net : Net) : List Text := net.tunnels.map Tunnel.name

def Peer.set (pub : Text) (allowed : List AllowedIp) (p : Peer) : Peer :=
  if p.pub = pub then { p with allowed := allowed } else p

theorem Peer.pub_set (pub : Text) (allowed : List AllowedIp) (p : Peer) : (p.set pub allowed).pub = p.pub := by
  rw [Peer.set]
  split <;> rfl

def Tunnel.set (tun pub : Text) (allowed : List AllowedIp) (t : Tunnel) : Tunnel where
  name := t.name
  conf := t.conf
  peers := if t.name = tun then t.peers.map (Peer.set pub allowed) else t.peers
  distinct := by
    split
    · have hpub : Peer.pub ∘ Peer.set pub allowed = Peer.pub := funext (Peer.pub_set pub allowed)
      rw [List.map_map, hpub]
      exact t.distinct
    · exact t.distinct

/-- `wg set <tun> peer <pub> allowed-ips <keep>`. -/
def Net.wgSet (tun pub : Text) (keep : List Text) (net : Net) : Net where
  routes := net.routes
  tunnels := net.tunnels.map (Tunnel.set tun pub (keep.filterMap AllowedIp.ofText))
  issued := net.issued ++ [.wgSet tun pub keep]
  distinct := by
    rw [List.map_map]
    exact net.distinct

/-- `ip route del <net> dev <tun>`, whether there is such a route or not. -/
def Net.routeDel (tun net : Text) (n : Net) : Net :=
  { n with
    routes := n.routes.filter fun r => !(r.dest.text = net && r.device = tun)
    issued := n.issued ++ [.routeDel net tun] }

/-! ## The script -/

/-- The search of `awk` for a device that is no tunnel, from one word to the next. -/
def awkPick (ifs : List Text) (first : Text) : List Text → Option Text
  | word :: next :: rest =>
    if word = devWord ∧ next ∉ ifs then some first else awkPick ifs first (next :: rest)
  | _ => none

/-- `local_nets`. -/
def Net.localNets (net : Net) : List Text :=
  net.routes.filterMap fun r => awkPick net.names r.dest.text r.words

/-- `^[[:space:]]*Endpoint[[:space:]]*=`. -/
def isAsciiSpace (c : Char) : Bool := c ∈ [' ', '\t', '\n', '\x0b', '\x0c', '\r']

def grepLine (line : Text) : Bool :=
  let rest := line.dropWhile isAsciiSpace
  Helper.endpointWord.isPrefixOf rest &&
    ((rest.drop Helper.endpointWord.length).dropWhile isAsciiSpace).head? = some '='

/-- `grep -q` on the conf file; a file that is not there has no such line. -/
def grepEndpoint (conf : Option Text) : Bool :=
  match conf with
  | some text => (text.splitOn '\n').any grepLine
  | none => false

/-- The partition in Python; nothing where a local network cannot be read. An entry that
cannot be read is passed over. -/
def partition (localNets allowed : List Text) : Option (List Text × List Text) :=
  (localNets.mapM ipNetwork).map fun nets =>
    let entries := allowed.filterMap fun arg => (ipNetwork arg).map fun n => (arg, nets.any n.overlaps)
    ((entries.filter fun e => !e.2).map Prod.fst, (entries.filter fun e => e.2).map Prod.fst)

/-- `wg show <tun> allowed-ips`, one peer. -/
def Peer.shown (p : Peer) : List Text :=
  if p.allowed = [] then ["(none)".toList] else p.allowed.map AllowedIp.text

/-- The body of the loop over the peers. -/
def guardPeer (localNets : List Text) (tun : Text) (net : Net) (pub : Text) (allowed : List Text) : Net :=
  match partition localNets allowed with
  | none => net
  | some (keep, drop) =>
    if drop = [] then net
    else drop.foldl (fun net d => net.routeDel tun d) (net.wgSet tun pub keep)

/-- The body of the loop over the tunnels; all peers are shown before the first is changed. -/
def guardTunnel (localNets : List Text) (net : Net) (tun : Text) : Net :=
  match net.tunnels.find? (·.name = tun) with
  | none => net
  | some t =>
    if grepEndpoint t.conf then
      t.peers.foldl (fun net p => guardPeer localNets tun net p.pub p.shown) net
    else net

/-- `cmd_wg_guard`. -/
def cmdWgGuard (net : Net) : Net := net.names.foldl (guardTunnel net.localNets) net

/-! ## The networks the script finds -/

/-- The lines that name a device other than a tunnel. -/
def Net.localRoutes (net : Net) : List Route := net.routes.filter fun r => !(net.names.elem r.device)

/-- The networks these lines name; a default line names none. -/
def Net.linkNets (net : Net) : List (Network 32) := net.localRoutes.filterMap (·.dest.network?)

theorem Dest.text_ne_dev (d : Dest) : d.text ≠ devWord := by
  have hdev : ipNetwork devWord = none := by decide +kernel
  cases d with
  | default => decide
  | net n =>
    intro h
    have hread := n.read
    rw [show n.text = devWord from h, hdev] at hread
    cases hread

theorem awkPick_skip (ifs : List Text) (first : Text) {ws : List Text} (h : devWord ∉ ws) (d : Text)
    (rest : List Text) : awkPick ifs first (ws ++ devWord :: d :: rest) =
      awkPick ifs first (devWord :: d :: rest) := by
  induction ws with
  | nil => rfl
  | cons w ws ih =>
    rw [List.mem_cons, not_or] at h
    cases ws with
    | nil => rw [List.singleton_append, awkPick, if_neg fun hw => h.1 hw.1.symm]
    | cons v ws =>
      rw [List.cons_append, List.cons_append, awkPick, if_neg fun hw => h.1 hw.1.symm, ← List.cons_append]
      exact ih h.2

theorem awkPick_none (ifs : List Text) (first : Text) {ws : List Text} (h : devWord ∉ ws) :
    awkPick ifs first ws = none := by
  induction ws with
  | nil => rfl
  | cons w ws ih =>
    rw [List.mem_cons, not_or] at h
    cases ws with
    | nil => rfl
    | cons v ws =>
      rw [awkPick, if_neg fun hw => h.1 hw.1.symm]
      exact ih h.2

theorem awkPick_words (ifs : List Text) (r : Route) : awkPick ifs r.dest.text r.words =
    if ifs.elem r.device then none else some r.dest.text := by
  have hbefore : devWord ∉ r.dest.text :: r.before := by
    rw [List.mem_cons, not_or]
    exact ⟨Ne.symm r.dest.text_ne_dev, r.once.1⟩
  have hafter : devWord ∉ r.device :: r.after := by
    rw [List.mem_cons, not_or]
    exact ⟨Ne.symm r.once.2.1, r.once.2.2⟩
  rw [Route.words, ← List.cons_append, awkPick_skip ifs _ hbefore, awkPick]
  by_cases hd : r.device ∈ ifs
  · rw [if_neg fun h => h.2 hd, if_pos (List.elem_iff.mpr hd)]
    exact awkPick_none ifs _ hafter
  · rw [if_pos ⟨rfl, hd⟩, if_neg fun h => hd (List.elem_iff.mp h)]

theorem Net.localNets_eq (net : Net) : net.localNets = net.localRoutes.map (·.dest.text) := by
  rw [Net.localNets, Net.localRoutes]
  induction net.routes with
  | nil => rfl
  | cons r rs ih =>
    rw [List.filterMap_cons, awkPick_words, ih]
    by_cases hd : net.names.elem r.device
    · rw [if_pos hd, List.filter_cons_of_neg (by rw [hd]; decide)]
    · rw [if_neg hd, List.filter_cons_of_pos (by rw [Bool.eq_false_iff.mpr hd]; decide), List.map_cons]

/-- A default line on another device than a tunnel. -/
def Net.HasDefault (net : Net) : Prop := ∃ r ∈ net.routes, r.device ∉ net.names ∧ r.dest = .default

theorem Net.mem_localRoutes {net : Net} {r : Route} :
    r ∈ net.localRoutes ↔ r ∈ net.routes ∧ r.device ∉ net.names := by
  simp [Net.localRoutes]

theorem ipNetwork_text (d : Dest) : ipNetwork d.text = d.network?.map .v4 := by
  cases d with
  | default => decide +kernel
  | net n => exact n.read

/-- The partition reads the networks unless one of the lines is a default line. -/
theorem mapM_localRoutes {rs : List Route} (h : ∀ r ∈ rs, r.dest ≠ .default) :
    (rs.map (·.dest.text)).mapM ipNetwork = some ((rs.filterMap (·.dest.network?)).map .v4) := by
  induction rs with
  | nil => rfl
  | cons r rs ih =>
    have hr := h r List.mem_cons_self
    rw [List.map_cons, List.mapM_cons, ipNetwork_text, ih fun r' hr' => h r' (List.mem_cons_of_mem r hr')]
    cases hd : r.dest with
    | default => exact absurd hd hr
    | net n =>
      rw [List.filterMap_cons, hd]
      rfl

theorem mapM_default {rs : List Route} {r : Route} (hr : r ∈ rs) (h : r.dest = .default) :
    (rs.map (·.dest.text)).mapM ipNetwork = none := by
  induction rs with
  | nil => cases hr
  | cons x rs ih =>
    rw [List.map_cons, List.mapM_cons]
    rcases List.mem_cons.mp hr with rfl | hr
    · rw [h, ipNetwork_text]
      rfl
    · rw [ih hr]
      cases ipNetwork x.dest.text <;> rfl

/-! ## What is to be taken out -/

def AllowedIp.clashes (nets : List (Network 32)) (e : AllowedIp) : Bool :=
  nets.any fun n => e.network.overlaps (.v4 n)

/-- The peer with the entries that overlap no local network, in their order. -/
def Peer.trimmed (nets : List (Network 32)) (p : Peer) : Peer :=
  { p with allowed := p.allowed.filter fun e => !e.clashes nets }

def Tunnel.trimmed (nets : List (Network 32)) (t : Tunnel) : Tunnel where
  name := t.name
  conf := t.conf
  peers := t.peers.map (Peer.trimmed nets)
  distinct := by
    rw [List.map_map]
    exact t.distinct

/-- Only a tunnel with an Endpoint is trimmed. -/
def Tunnel.guarded (nets : List (Network 32)) (t : Tunnel) : Tunnel :=
  if grepEndpoint t.conf then t.trimmed nets else t

/-- The guard has done its work on `net`: what it left is `net'`. -/
def Guards (net net' : Net) : Prop := net'.tunnels = net.tunnels.map (Tunnel.guarded net.linkNets)

/-- A run of the guard issues no command. -/
def Quiet (net : Net) : Prop := (cmdWgGuard net).issued = net.issued

/-- An entry of a client tunnel's peer overlaps a local network. -/
def Net.Clashes (net : Net) : Prop :=
  ∃ t ∈ net.tunnels, grepEndpoint t.conf ∧ ∃ p ∈ t.peers, ∃ e ∈ p.allowed, e.clashes net.linkNets

/-! ## One peer -/

theorem AllowedIp.ofText_text (e : AllowedIp) : AllowedIp.ofText e.text = some e := by
  unfold AllowedIp.ofText
  split
  · next n h =>
    obtain rfl : n = e.network := Option.some.inj (h.symm.trans e.read)
    rfl
  · next h => exact absurd (h.symm.trans e.read) (by simp)

theorem filterMap_ofText (es : List AllowedIp) :
    (es.map AllowedIp.text).filterMap AllowedIp.ofText = es := by
  rw [List.filterMap_map, show AllowedIp.ofText ∘ AllowedIp.text = some from funext AllowedIp.ofText_text,
    List.filterMap_some]

theorem clashes_eq (nets : List (Network 32)) (e : AllowedIp) :
    (nets.map IPNetwork.v4).any e.network.overlaps = e.clashes nets := by
  rw [List.any_map]
  rfl

theorem partition_texts {localNets : List Text} {nets : List (Network 32)}
    (h : localNets.mapM ipNetwork = some (nets.map .v4)) (es : List AllowedIp) :
    partition localNets (es.map AllowedIp.text) =
      some ((es.filter fun e => !e.clashes nets).map AllowedIp.text,
        (es.filter fun e => e.clashes nets).map AllowedIp.text) := by
  have hentries : ((es.map AllowedIp.text).filterMap fun arg => (ipNetwork arg).map fun n =>
      (arg, (nets.map IPNetwork.v4).any n.overlaps)) = es.map fun e => (e.text, e.clashes nets) := by
    have hentry : (fun arg => (ipNetwork arg).map fun n => (arg, (nets.map IPNetwork.v4).any n.overlaps)) ∘
        AllowedIp.text = some ∘ fun e => (e.text, e.clashes nets) := by
      funext e
      rw [Function.comp_apply, Function.comp_apply, e.read, Option.map_some, clashes_eq]
    rw [List.filterMap_map, hentry, List.filterMap_eq_map]
  rw [partition, h, Option.map_some]
  simp only [hentries, List.filter_map, List.map_map]
  rfl

/-- A peer without entries is shown as one entry that cannot be read. -/
theorem partition_shown {localNets : List Text} {nets : List (Network 32)}
    (h : localNets.mapM ipNetwork = some (nets.map .v4)) (p : Peer) :
    partition localNets p.shown =
      some ((p.trimmed nets).allowed.map AllowedIp.text,
        (p.allowed.filter fun e => e.clashes nets).map AllowedIp.text) := by
  rw [Peer.shown]
  split
  · next hnil =>
    have hnone : ipNetwork "(none)".toList = none := by decide +kernel
    rw [partition, h, Option.map_some, List.filterMap_cons, hnone, Peer.trimmed, hnil]
    rfl
  · exact partition_texts h p.allowed

theorem Peer.trimmed_eq_self {nets : List (Network 32)} {p : Peer}
    (h : ∀ e ∈ p.allowed, e.clashes nets = false) : p.trimmed nets = p := by
  ext1
  · rfl
  · exact List.filter_eq_self.mpr fun e he => by rw [h e he]; rfl

theorem filter_clashes_eq_nil {nets : List (Network 32)} {es : List AllowedIp} :
    es.filter (fun e => e.clashes nets) = [] ↔ ∀ e ∈ es, e.clashes nets = false := by
  simp [List.filter_eq_nil_iff]

/-- A peer without a clash, or networks that cannot be read, leave all as it is. -/
theorem guardPeer_idle {localNets : List Text} {tun : Text} {net : Net} {pub : Text} {p : Peer}
    (h : localNets.mapM ipNetwork = none ∨ ∃ nets : List (Network 32),
      localNets.mapM ipNetwork = some (nets.map .v4) ∧ ∀ e ∈ p.allowed, e.clashes nets = false) :
    guardPeer localNets tun net pub p.shown = net := by
  rw [guardPeer]
  rcases h with h | ⟨nets, h, hp⟩
  · rw [partition, h]
    rfl
  · rw [partition_shown h, filter_clashes_eq_nil.mpr hp]
    rfl

/-! ## What the commands leave alone -/

/-- The same interfaces and the same lines of other devices. -/
structure SameLinks (net net' : Net) : Prop where
  names : net'.names = net.names
  routes : net'.localRoutes = net.localRoutes

theorem SameLinks.refl (net : Net) : SameLinks net net := ⟨rfl, rfl⟩

theorem SameLinks.trans {a b c : Net} (h : SameLinks a b) (h' : SameLinks b c) : SameLinks a c :=
  ⟨h'.names.trans h.names, h'.routes.trans h.routes⟩

theorem SameLinks.localNets {a b : Net} (h : SameLinks a b) : b.localNets = a.localNets := by
  rw [Net.localNets_eq, Net.localNets_eq, h.routes]

theorem SameLinks.linkNets {a b : Net} (h : SameLinks a b) : b.linkNets = a.linkNets := by
  rw [Net.linkNets, Net.linkNets, h.routes]

theorem wgSet_sameLinks (tun pub : Text) (keep : List Text) (net : Net) :
    SameLinks net (net.wgSet tun pub keep) := by
  have hnames : (net.wgSet tun pub keep).names = net.names := by
    rw [Net.names, Net.wgSet, List.map_map]
    rfl
  exact ⟨hnames, by rw [Net.localRoutes, Net.localRoutes, hnames]; rfl⟩

theorem routeDel_sameLinks {tun : Text} {net : Net} (h : tun ∈ net.names) (d : Text) :
    SameLinks net (net.routeDel tun d) := by
  refine ⟨rfl, ?_⟩
  change ((net.routes.filter fun r => !(r.dest.text = d && r.device = tun)).filter
    fun r => !(net.names.elem r.device)) = _
  rw [List.filter_filter, Net.localRoutes]
  apply List.filter_congr
  intro r _
  by_cases hr : r.device = tun
  · rw [hr, List.elem_iff.mpr h]
    rfl
  · simp [hr]

theorem foldl_routeDel {tun : Text} {net : Net} (h : tun ∈ net.names) (drop : List Text) :
    SameLinks net (drop.foldl (fun net d => net.routeDel tun d) net) ∧
      (drop.foldl (fun net d => net.routeDel tun d) net).tunnels = net.tunnels := by
  induction drop generalizing net with
  | nil => exact ⟨.refl net, rfl⟩
  | cons d drop ih =>
    have h' : tun ∈ (net.routeDel tun d).names := h
    exact ⟨(routeDel_sameLinks h d).trans (ih h').1, (ih h').2⟩

theorem guardPeer_sameLinks {tun : Text} {net : Net} (h : tun ∈ net.names) (localNets : List Text)
    (pub : Text) (allowed : List Text) : SameLinks net (guardPeer localNets tun net pub allowed) := by
  rw [guardPeer]
  rcases partition localNets allowed with _ | ⟨keep, drop⟩
  · exact .refl net
  · have hset := wgSet_sameLinks tun pub keep net
    have hdel := foldl_routeDel (hset.names.symm ▸ h : tun ∈ (net.wgSet tun pub keep).names) drop
    simp only
    split
    · exact .refl net
    · exact hset.trans hdel.1

/-! ## The loop over the peers -/

/-- The tunnel `tun` with the peers `pubs` trimmed. -/
def Tunnel.trimPeers (nets : List (Network 32)) (tun : Text) (pubs : List Text) (t : Tunnel) : Tunnel where
  name := t.name
  conf := t.conf
  peers := if t.name = tun then t.peers.map fun p => if p.pub ∈ pubs then p.trimmed nets else p else t.peers
  distinct := by
    have hpub : (Peer.pub ∘ fun p => if p.pub ∈ pubs then p.trimmed nets else p) = Peer.pub := by
      funext p
      rw [Function.comp_apply]
      split <;> rfl
    split
    · rw [List.map_map, hpub]
      exact t.distinct
    · exact t.distinct

/-- The peers that are about to be guarded are the live ones. -/
def Live (net : Net) (tun : Text) (ps : List Peer) : Prop :=
  ∀ t ∈ net.tunnels, t.name = tun → ∀ q ∈ t.peers, ∀ p ∈ ps, q.pub = p.pub → q = p

theorem guardPeer_tunnels {localNets : List Text} {nets : List (Network 32)} {tun : Text} {net : Net} {p : Peer}
    (h : localNets.mapM ipNetwork = some (nets.map .v4)) (htun : tun ∈ net.names) (hlive : Live net tun [p]) :
    (guardPeer localNets tun net p.pub p.shown).tunnels = net.tunnels.map (Tunnel.trimPeers nets tun [p.pub]) := by
  have hq : ∀ t ∈ net.tunnels, t.name = tun → ∀ q ∈ t.peers, q.pub = p.pub → q = p :=
    fun t ht hn q hq hp => hlive t ht hn q hq p List.mem_cons_self hp
  rw [guardPeer, partition_shown h]
  simp only
  split
  · next hdrop =>
    -- nothing overlaps, so that trimming changes nothing either
    rw [List.map_eq_nil_iff, filter_clashes_eq_nil] at hdrop
    symm
    refine (List.map_congr_left fun t ht => ?_).trans (List.map_id net.tunnels)
    ext1
    · rfl
    · rfl
    · rw [Tunnel.trimPeers, id]
      simp only
      split
      · next hn =>
        refine (List.map_congr_left fun q hqt => ?_).trans (List.map_id t.peers)
        split
        · next hp =>
          rw [hq t ht hn q hqt (List.mem_singleton.mp hp), Peer.trimmed_eq_self hdrop, id]
        · rfl
      · rfl
  · rw [(foldl_routeDel ((wgSet_sameLinks tun p.pub _ net).names.symm ▸ htun) _).2, Net.wgSet]
    refine List.map_congr_left fun t ht => ?_
    rw [filterMap_ofText]
    ext1
    · rfl
    · rfl
    · rw [Tunnel.set, Tunnel.trimPeers]
      simp only
      split
      · next hn =>
        refine List.map_congr_left fun q hqt => ?_
        rw [Peer.set]
        simp only [List.mem_singleton]
        split
        · next hp => rw [hq t ht hn q hqt hp, Peer.trimmed]
        · rfl
      · rfl

theorem trimPeers_cons (nets : List (Network 32)) (tun pub : Text) (pubs : List Text) (t : Tunnel) :
    (t.trimPeers nets tun [pub]).trimPeers nets tun pubs = t.trimPeers nets tun (pub :: pubs) := by
  have htwice : ∀ p : Peer, (p.trimmed nets).trimmed nets = p.trimmed nets := fun p =>
    Peer.trimmed_eq_self fun e he => by simpa using (List.mem_filter.mp he).2
  ext1
  · rfl
  · rfl
  · simp only [Tunnel.trimPeers]
    split
    · rw [List.map_map]
      refine List.map_congr_left fun p _ => ?_
      rw [Function.comp_apply]
      by_cases hp : p.pub = pub
      · rw [if_pos (List.mem_singleton.mpr hp), if_pos (List.mem_cons.mpr (.inl hp))]
        split
        · exact htwice p
        · rfl
      · rw [if_neg fun h => hp (List.mem_singleton.mp h)]
        simp only [List.mem_cons, hp, false_or]
    · rfl

theorem guardPeers {localNets : List Text} {nets : List (Network 32)} {tun : Text} {net : Net} {ps : List Peer}
    (h : localNets.mapM ipNetwork = some (nets.map .v4)) (htun : tun ∈ net.names)
    (hps : (ps.map Peer.pub).Nodup) (hlive : Live net tun ps) :
    let net' := ps.foldl (fun net p => guardPeer localNets tun net p.pub p.shown) net
    SameLinks net net' ∧ net'.tunnels = net.tunnels.map (Tunnel.trimPeers nets tun (ps.map Peer.pub)) := by
  induction ps generalizing net with
  | nil =>
    refine ⟨.refl net, ?_⟩
    symm
    refine (List.map_congr_left fun t _ => ?_).trans (List.map_id net.tunnels)
    ext1
    · rfl
    · rfl
    · simp [Tunnel.trimPeers]
  | cons p ps ih =>
    rw [List.map_cons, List.nodup_cons] at hps
    have hfirst := guardPeer_tunnels h htun fun t ht hn q hq r hr =>
      hlive t ht hn q hq r (List.mem_cons.mpr (.inl (List.mem_singleton.mp hr)))
    have hsame := guardPeer_sameLinks htun localNets p.pub p.shown
    have hlive' : Live (guardPeer localNets tun net p.pub p.shown) tun ps := by
      intro t ht hn q hq r hr hqr
      rw [hfirst] at ht
      obtain ⟨u, hu, rfl⟩ := List.mem_map.mp ht
      simp only [Tunnel.trimPeers] at hn hq
      rw [if_pos hn] at hq
      obtain ⟨q, hq', rfl⟩ := List.mem_map.mp hq
      -- a peer with the key of a later one is not the one just trimmed
      have hne : q.pub ≠ p.pub := by
        intro hqp
        refine hps.1 (List.mem_map.mpr ⟨r, hr, ?_⟩)
        rw [← hqr, ← hqp]
        split <;> rfl
      rw [if_neg (by simpa using hne)] at hqr ⊢
      exact hlive u hu hn q hq' r (List.mem_cons_of_mem p hr) hqr
    obtain ⟨hrest, htunnels⟩ := ih (hsame.names.symm ▸ htun) hps.2 hlive'
    refine ⟨hsame.trans hrest, ?_⟩
    rw [List.foldl_cons, htunnels, hfirst, List.map_map]
    exact List.map_congr_left fun t _ => trimPeers_cons nets tun p.pub (ps.map Peer.pub) t

/-! ## The loop over the tunnels -/

theorem eq_of_name {net : Net} {t u : Tunnel} (ht : t ∈ net.tunnels) (hu : u ∈ net.tunnels)
    (h : t.name = u.name) : t = u := List.inj_on_of_nodup_map net.distinct ht hu h

theorem find_name {net : Net} {t : Tunnel} (ht : t ∈ net.tunnels) :
    net.tunnels.find? (·.name = t.name) = some t :=
  (Dict.find?_key_iff net.distinct).mpr ⟨ht, rfl⟩

theorem live_peers {net : Net} {t : Tunnel} (ht : t ∈ net.tunnels) : Live net t.name t.peers := by
  intro u hu hn q hq p hp hqp
  obtain rfl := eq_of_name hu ht hn
  exact List.inj_on_of_nodup_map u.distinct hq hp hqp

theorem trimPeers_all (nets : List (Network 32)) (t : Tunnel) :
    t.trimPeers nets t.name (t.peers.map Peer.pub) = t.trimmed nets := by
  ext1
  · rfl
  · rfl
  · simp only [Tunnel.trimPeers, Tunnel.trimmed, if_true]
    exact List.map_congr_left fun p hp => if_pos (List.mem_map_of_mem hp)

theorem trimPeers_other {nets : List (Network 32)} {tun : Text} {t : Tunnel} (h : t.name ≠ tun) (pubs : List Text) :
    t.trimPeers nets tun pubs = t := by
  ext1
  · rfl
  · rfl
  · simp only [Tunnel.trimPeers, if_neg h]

theorem guardTunnel_spec {localNets : List Text} {nets : List (Network 32)} {net : Net} {tun : Text}
    (h : localNets.mapM ipNetwork = some (nets.map .v4)) (htun : tun ∈ net.names) :
    SameLinks net (guardTunnel localNets net tun) ∧ (guardTunnel localNets net tun).tunnels =
      net.tunnels.map fun t => if t.name = tun then t.guarded nets else t := by
  obtain ⟨t, ht, rfl⟩ := List.mem_map.mp htun
  rw [guardTunnel, find_name ht]
  simp only
  by_cases hc : grepEndpoint t.conf
  · rw [if_pos hc]
    obtain ⟨hs, htunnels⟩ := guardPeers h htun t.distinct (live_peers ht)
    refine ⟨hs, htunnels.trans (List.map_congr_left fun u hu => ?_)⟩
    split
    · next hn =>
      rw [eq_of_name hu ht hn, Tunnel.guarded, if_pos hc]
      exact trimPeers_all nets t
    · next hn => exact trimPeers_other hn _
  · rw [if_neg hc]
    refine ⟨.refl net, ?_⟩
    symm
    refine (List.map_congr_left fun u hu => ?_).trans (List.map_id net.tunnels)
    split
    · next hn => rw [eq_of_name hu ht hn, Tunnel.guarded, if_neg hc, id]
    · rfl

theorem guarded_name (nets : List (Network 32)) (t : Tunnel) : (t.guarded nets).name = t.name := by
  rw [Tunnel.guarded]
  split <;> rfl

theorem guardTunnels {localNets : List Text} {nets : List (Network 32)} {net : Net} {tuns : List Text}
    (h : localNets.mapM ipNetwork = some (nets.map .v4)) (hsub : ∀ tun ∈ tuns, tun ∈ net.names)
    (hnodup : tuns.Nodup) :
    SameLinks net (tuns.foldl (guardTunnel localNets) net) ∧ (tuns.foldl (guardTunnel localNets) net).tunnels =
      net.tunnels.map fun t => if t.name ∈ tuns then t.guarded nets else t := by
  induction tuns generalizing net with
  | nil =>
    refine ⟨.refl net, ?_⟩
    simp
  | cons tun tuns ih =>
    rw [List.nodup_cons] at hnodup
    obtain ⟨hs, ht⟩ := guardTunnel_spec h (hsub tun List.mem_cons_self)
    obtain ⟨hs', ht'⟩ := ih (fun u hu => hs.names.symm ▸ hsub u (List.mem_cons_of_mem tun hu)) hnodup.2
    refine ⟨hs.trans hs', ?_⟩
    rw [List.foldl_cons, ht', ht, List.map_map]
    refine List.map_congr_left fun t _ => ?_
    rw [Function.comp_apply]
    by_cases hn : t.name = tun
    · have hout : t.name ∉ tuns := fun hin => hnodup.1 (hn ▸ hin)
      rw [if_pos hn, guarded_name, if_neg hout, if_pos (List.mem_cons.mpr (.inl hn))]
    · rw [if_neg hn]
      simp only [List.mem_cons, hn, false_or]

/-! ## The whole run -/

theorem mapM_localNets {net : Net} (h : ¬ net.HasDefault) :
    net.localNets.mapM ipNetwork = some (net.linkNets.map .v4) := by
  rw [Net.localNets_eq]
  apply mapM_localRoutes
  intro r hr hd
  obtain ⟨hin, hdev⟩ := Net.mem_localRoutes.mp hr
  exact h ⟨r, hin, hdev, hd⟩

theorem mapM_localNets_default {net : Net} (h : net.HasDefault) : net.localNets.mapM ipNetwork = none := by
  obtain ⟨r, hin, hdev, hd⟩ := h
  rw [Net.localNets_eq]
  exact mapM_default (Net.mem_localRoutes.mpr ⟨hin, hdev⟩) hd

theorem cmdWgGuard_spec {net : Net} (h : ¬ net.HasDefault) :
    SameLinks net (cmdWgGuard net) ∧ Guards net (cmdWgGuard net) := by
  obtain ⟨hs, ht⟩ := guardTunnels (mapM_localNets h) (fun tun => id) net.distinct
  refine ⟨hs, ht.trans (List.map_congr_left fun t htn => ?_)⟩
  exact if_pos (List.mem_map_of_mem htn)

theorem guardTunnel_idle {net : Net} (h : net.HasDefault ∨ ¬ net.Clashes) (tun : Text) :
    guardTunnel net.localNets net tun = net := by
  rw [guardTunnel]
  rcases hf : net.tunnels.find? (·.name = tun) with _ | t
  · rw [hf]
  · have ht := List.mem_of_find?_eq_some hf
    rw [hf]
    simp only
    split
    · next hc =>
      have hpeers : ∀ ps ⊆ t.peers,
          ps.foldl (fun net' p => guardPeer net.localNets tun net' p.pub p.shown) net = net := by
        intro ps
        induction ps with
        | nil => exact fun _ => rfl
        | cons p ps ih =>
          intro hps
          obtain ⟨hp, hps⟩ := List.cons_subset.mp hps
          rw [List.foldl_cons, guardPeer_idle, ih hps]
          by_cases hd : net.HasDefault
          · exact .inl (mapM_localNets_default hd)
          · refine .inr ⟨net.linkNets, mapM_localNets hd, fun e he => ?_⟩
            rw [Bool.eq_false_iff]
            exact fun hcl => h.elim hd fun hno => hno ⟨t, ht, hc, p, hp, e, he, hcl⟩
      exact hpeers t.peers (List.Subset.refl _)
    · rfl

theorem cmdWgGuard_idle {net : Net} (h : net.HasDefault ∨ ¬ net.Clashes) : cmdWgGuard net = net := by
  rw [cmdWgGuard]
  induction net.names with
  | nil => rfl
  | cons tun tuns ih => rw [List.foldl_cons, guardTunnel_idle h, ih]

/-- What has been trimmed has no clash left. -/
theorem guards_no_clash {net net' : Net} (hs : SameLinks net net') (h : Guards net net') : ¬ net'.Clashes := by
  rintro ⟨t, ht, hc, p, hp, e, he, hclash⟩
  rw [hs.linkNets] at hclash
  rw [h] at ht
  obtain ⟨u, -, rfl⟩ := List.mem_map.mp ht
  rw [Tunnel.guarded] at hc hp
  by_cases hcu : grepEndpoint u.conf
  · rw [if_pos hcu] at hp
    obtain ⟨q, -, rfl⟩ := List.mem_map.mp hp
    have := (List.mem_filter.mp he).2
    rw [hclash] at this
    cases this
  · rw [if_neg hcu] at hc
    exact hcu hc

theorem guards_self {net : Net} (h : ¬ net.Clashes) : Guards net net := by
  rw [Guards]
  symm
  refine (List.map_congr_left fun t ht => ?_).trans (List.map_id net.tunnels)
  rw [Tunnel.guarded]
  split
  · next hc =>
    ext1
    · rfl
    · rfl
    · refine (List.map_congr_left fun p hp => ?_).trans (List.map_id t.peers)
      apply Peer.trimmed_eq_self
      intro e he
      rw [Bool.eq_false_iff]
      exact fun hcl => h ⟨t, ht, hc, p, hp, e, he, hcl⟩
  · rfl

/-- The guard trims every client tunnel, and only these, to what overlaps no local network, and
has nothing to do a second time, exactly when no default line stands among the local networks
or there is nothing to trim. -/
theorem wg_guard_trims_iff (net : Net) :
    Guards net (cmdWgGuard net) ∧ Quiet (cmdWgGuard net) ↔ ¬ net.HasDefault ∨ ¬ net.Clashes := by
  constructor
  · rintro ⟨hg, -⟩
    by_cases hd : net.HasDefault
    · rw [cmdWgGuard_idle (.inl hd)] at hg
      exact .inr (guards_no_clash (.refl net) hg)
    · exact .inl hd
  · intro h
    by_cases hd : net.HasDefault
    · have hno : ¬ net.Clashes := h.resolve_left fun hn => hn hd
      have hidle := cmdWgGuard_idle (.inr hno)
      exact ⟨hidle.symm ▸ guards_self hno, by rw [Quiet, hidle, hidle]⟩
    · obtain ⟨hs, hg⟩ := cmdWgGuard_spec hd
      exact ⟨hg, by rw [Quiet, cmdWgGuard_idle (.inr (guards_no_clash hs hg))]⟩

/-! ## A default line -/

def homeText : Text := "192.168.1.0/24".toList

def homeNetwork : Network 32 := Interface.network ⟨0xc0a80100#32, 24, Cidr.length_24⟩

theorem homeText_read : ipNetwork homeText = some (.v4 homeNetwork) := by decide +kernel

def clientConf : Text := "[Peer]\nEndpoint = vpn.example.com:51820\n".toList

/-- A point-to-point uplink with the default route, and the local network. -/
def uplinkNet : Net where
  routes := [⟨.default, [], "ppp0".toList, ["scope".toList, "link".toList], by decide⟩,
    ⟨.net ⟨homeText, homeNetwork, homeText_read⟩, [], "wlan0".toList, ["scope".toList, "link".toList], by decide⟩]
  tunnels := [⟨"wg0".toList, some clientConf,
    [⟨"key".toList, [⟨homeText, .v4 homeNetwork, homeText_read⟩]⟩], by decide⟩]
  issued := []
  distinct := by decide

/-- The default line stops the guard: the local network stays with the tunnel. -/
theorem default_line_stops_guard :
    (cmdWgGuard uplinkNet).issued = [] ∧ ¬ (Guards uplinkNet (cmdWgGuard uplinkNet) ∧ Quiet (cmdWgGuard uplinkNet)) := by
  have hidle : cmdWgGuard uplinkNet = uplinkNet :=
    cmdWgGuard_idle (.inl ⟨_, List.mem_cons_self, by decide, rfl⟩)
  have hclash : uplinkNet.Clashes :=
    ⟨_, List.mem_cons_self, by decide +kernel, _, List.mem_cons_self, _, List.mem_cons_self, by decide +kernel⟩
  rw [hidle]
  exact ⟨rfl, fun h => guards_no_clash (.refl _) h.1 hclash⟩

end Maintenance
