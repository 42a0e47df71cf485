import PiVpn.Lib.Pause
import PiVpn.Lib.Transition
import PiVpn.Helper.PeerSections

/-! Commands on one tunnel under way at once. A command runs alone up to a subprocess;
while it waits, others go on, and a start of the interface that has read the conf may
still have the interface ahead of it. -/

namespace Helper
open Text Effect Sections

/-! ## The tunnel and its commands -/

/-- The interface: a start under way holds the conf text it read, an interface that is
up the keys of its peers. -/
inductive Link where
  | down
  | starting (read : Text)
  | up (peers : List Text)
  deriving DecidableEq

def Link.isUp : Link → Bool
  | .up _ => true
  | _ => false

structure Shared where
  conf : ConfDir
  link : Link

/-- What a command asks before and between its subprocesses. -/
def answer : Prog.Handler Sys Shared
  | .confExists name, s => ((s.conf.lookup name).isSome, s)
  | .readConf name, s => ((s.conf.lookup name).map universalNewlines, s)
  | .writeConf name content, s => ((), { s with conf := s.conf.set name content })
  | .createConf name content, s => ((), { s with conf := s.conf.set name content })
  | .unlinkConf name, s => ((), { s with conf := s.conf.erase name })
  | .confNames, s => (s.conf.names, s)
  | .interfaceUp _, s => (s.link.isUp, s)
  | .createPsk _, s => ((), s)
  | .unlinkPsk, s => ((), s)
  | .run _, s => (.exited 0 [] [], s)
  | .log _, s => ((), s)

def awaits : Op → Bool
  | .run _ => true
  | _ => false

def goOn {α : Type} (p : Cmd α) (s : Shared) : Cmd α × Shared := p.runUntil awaits answer s

inductive TunnelCommand where
  | addPeer (req : Request)
  | removePeer (req : Request)
  | setTunnelState (req : Request)

namespace TunnelCommand

def body : TunnelCommand → Cmd Unit
  | .addPeer req => cmdAddPeer req
  | .removePeer req => cmdRemovePeer req
  | .setTunnelState req => cmdSetTunnelState req

/-- The tunnel the request names, where the request is accepted. -/
def tunnel : TunnelCommand → Option String
  | .addPeer req => (readAddPeer req).toOption.map (·.tunnel.text)
  | .removePeer req => (readRemovePeer req).toOption.map (·.tunnel.text)
  | .setTunnelState req => (validateTunnelName (Json.get req "name")).toOption.map (·.text)

def adds : TunnelCommand → Option Text
  | .addPeer req => (readAddPeer req).toOption.map (·.publicKey.text)
  | _ => none

def removes : TunnelCommand → Option Text
  | .removePeer req => (readRemovePeer req).toOption.map (·.publicKey.text)
  | _ => none

end TunnelCommand

/-- A command under way: what is left of it, and whether the subprocess it waits for
has had its effect. -/
structure Session where
  command : TunnelCommand
  rest : Cmd Unit
  done : Bool

structure System where
  shared : Shared
  sessions : List Session

def peerKey (x : ConfSection) : Option Text :=
  if x.header = lower peerMark then publicKeyOf x else none

/-- The peers of a conf text as `wg` reads it. -/
def peerKeys (content : Text) : List Text := (wgRead content).filterMap peerKey

/-- What a subprocess that succeeds does to the interface, and when it can: `wg set`
needs the interface, a start is done where it is up, a stop where it is down. -/
def effect : Command → Link → Option Link
  | .wgSetPeer _ key _ _ _, .up peers => some (.up (key :: peers))
  | .wgRemovePeer _ key, .up peers => some (.up (peers.filter (· ≠ key)))
  | .systemctl .enableNow _, .up peers => some (.up peers)
  | .systemctl .stop _, .up _ => some .down
  | .systemctl .stop _, .down => some .down
  | .systemctl .disableNow _, .up _ => some .down
  | .systemctl .disableNow _, .down => some .down
  | _, _ => none

/-- A command comes in; the subprocess of one takes effect; a start reads the conf; the
interface appears; a subprocess returns. -/
inductive Event where
  | launch (c : TunnelCommand)
  | effect (i : Nat)
  | reads (i : Nat)
  | appears
  | returns (i : Nat)

def step (name : String) : Event → System → Option System
  | .launch c, s =>
    if ∀ n ∈ c.tunnel, n = name then
      let next := goOn c.body s.shared
      some ⟨next.2, s.sessions ++ [⟨c, next.1, false⟩]⟩
    else none
  | .effect i, s =>
    match s.sessions[i]? with
    | some ⟨c, .op (.run cmd) k, false⟩ =>
      (Helper.effect cmd s.shared.link).map fun link =>
        ⟨{ s.shared with link := link }, s.sessions.set i ⟨c, .op (.run cmd) k, true⟩⟩
    | _ => none
  | .reads i, s =>
    match s.sessions[i]?, s.shared.link with
    | some ⟨_, .op (.run (.systemctl .enableNow _)) _, false⟩, .down =>
      (s.shared.conf.lookup name).map fun content =>
        ⟨{ s.shared with link := .starting content }, s.sessions⟩
    | _, _ => none
  | .appears, s =>
    match s.shared.link with
    | .starting read => some ⟨{ s.shared with link := .up (peerKeys read) }, s.sessions⟩
    | _ => none
  | .returns i, s =>
    match s.sessions[i]? with
    | some ⟨c, .op (.run _) k, true⟩ =>
      let next := goOn (k (.exited 0 [] [])) s.shared
      some ⟨next.2, s.sessions.set i ⟨c, next.1, false⟩⟩
    | _ => none

/-! ## What is claimed of the runs, and when it holds -/

def System.finished (s : System) : Bool := s.sessions.all fun x => x.rest.ended

/-- The live peers are those of the conf. -/
def InStep (name : String) (s : Shared) : Prop :=
  ∀ peers content, s.link = .up peers → s.conf.lookup name = some content →
    ∀ k, k ∈ peers ↔ k ∈ peerKeys content

/-- A key is added once, and removed only after its add returned. -/
def Once : Event → System → Prop
  | .launch c, s =>
    (∀ key ∈ c.adds, ∀ x ∈ s.sessions, x.command.adds ≠ some key ∧ x.command.removes ≠ some key) ∧
      ∀ key ∈ c.removes, ∀ x ∈ s.sessions, x.command.adds = some key → x.rest.ended = true
  | _, _ => True

def Link.isStarting : Link → Bool
  | .starting _ => true
  | _ => false

/-- No peer is added, and none that is there removed, while a start has read the conf
and its interface has not appeared; and the text lets each of the two do its part: an
added section reads as one peer of its key, a removed key is spelled out. -/
def OutsideStarts (name : String) : Event → System → Prop
  | .launch (.addPeer req), s =>
    ∀ r ∈ (readAddPeer req).toOption, ∀ content ∈ s.shared.conf.lookup name,
      hasPeer r.publicKey content = false →
        s.shared.link.isStarting = false ∧ peerKeys (peerText r) = [r.publicKey.text]
  | .launch (.removePeer req), s =>
    ∀ r ∈ (readRemovePeer req).toOption, ∀ content ∈ s.shared.conf.lookup name,
      SpelledOut content r.publicKey ∧
        (s.shared.link.isStarting = true → r.publicKey.text ∉ peerKeys content)
  | _, _ => True

instance : ∀ e s, Decidable (Once e s)
  | .launch _, _ => inferInstanceAs (Decidable (_ ∧ _))
  | .effect _, _ => .isTrue trivial
  | .reads _, _ => .isTrue trivial
  | .appears, _ => .isTrue trivial
  | .returns _, _ => .isTrue trivial

instance (name : String) : ∀ e s, Decidable (OutsideStarts name e s)
  | .launch (.addPeer req), s => inferInstanceAs (Decidable
      (∀ r ∈ (readAddPeer req).toOption, ∀ content ∈ s.shared.conf.lookup name,
        hasPeer r.publicKey content = false → _ ∧ _))
  | .launch (.removePeer req), s => inferInstanceAs (Decidable
      (∀ r ∈ (readRemovePeer req).toOption, ∀ content ∈ s.shared.conf.lookup name, _ ∧ (_ → _)))
  | .launch (.setTunnelState _), _ => .isTrue trivial
  | .effect _, _ => .isTrue trivial
  | .reads _, _ => .isTrue trivial
  | .appears, _ => .isTrue trivial
  | .returns _, _ => .isTrue trivial

/-! ## The peers of a text that was added to, or removed from -/

variable {name : String} {content : Text} {s : Shared}

theorem mem_peerKeys {k : Text} :
    k ∈ peerKeys content ↔ ∃ x ∈ wgRead content, x.header = lower peerMark ∧ publicKeyOf x = some k := by
  simp only [peerKeys, List.mem_filterMap, peerKey, Option.ite_none_right_eq_some]

theorem mem_peerKeys_withPeer {r : AddPeer} (hr : peerKeys (peerText r) = [r.publicKey.text]) {k : Text} :
    k ∈ peerKeys (withPeer r content) ↔ k ∈ peerKeys content ∨ k = r.publicKey.text := by
  have hkeys : peerKeys (withPeer r content) = peerKeys content ++ peerKeys (peerText r) := by
    rw [peerKeys, wgRead_withPeer, List.filterMap_append]
    rfl
  rw [hkeys, hr, List.mem_append, List.mem_singleton]

theorem mem_peerKeys_withoutPeer {key : WgKey} (h : SpelledOut content key) {k : Text} :
    k ∈ peerKeys (withoutPeer key content) ↔ k ∈ peerKeys content ∧ k ≠ key.text := by
  rw [mem_peerKeys, mem_peerKeys, wgRead_withoutPeer_iff.mpr h]
  constructor
  · rintro ⟨x, hx, hheader, hkey⟩
    obtain ⟨hx, hno⟩ := List.mem_filter.mp hx
    refine ⟨⟨x, hx, hheader, hkey⟩, fun hk => ?_⟩
    exact of_decide_eq_true hno ⟨hheader, hk ▸ hkey⟩
  · rintro ⟨⟨x, hx, hheader, hkey⟩, hne⟩
    refine ⟨x, List.mem_filter.mpr ⟨hx, decide_eq_true fun hp => ?_⟩, hheader, hkey⟩
    exact hne (Option.some.inj (hkey.symm.trans hp.2))

/-! ## What each command does up to its subprocess -/

section goOn

variable {α β : Type}

theorem goOn_bind (p : Cmd α) (f : α → Cmd β) (s : Shared) :
    goOn (p >>= f) s = Prog.goOnBehind awaits answer f (goOn p s) := Prog.runUntil_bind p f s

@[simp] theorem goOnBehind_pure (f : α → Cmd β) (a : α) (s : Shared) :
    Prog.goOnBehind awaits answer f (.pure a, s) = goOn (f a) s := rfl

@[simp] theorem goOnBehind_raise (f : α → Cmd β) (e : Fault) (s : Shared) :
    Prog.goOnBehind awaits answer f (.raise e, s) = (.raise e, s) := rfl

@[simp] theorem goOn_ret (a : α) (s : Shared) : goOn (.pure a) s = (.pure a, s) := rfl

@[simp] theorem goOn_pure (a : α) (s : Shared) : goOn (pure a) s = (.pure a, s) := rfl

@[simp] theorem goOn_raise (e : Fault) (s : Shared) : goOn (.raise e : Cmd α) s = (.raise e, s) := rfl

@[simp] theorem goOn_lift_ok (a : α) (s : Shared) : goOn (lift (.ok a)) s = (.pure a, s) := rfl

@[simp] theorem goOn_lift_error (e : Fault) (s : Shared) :
    goOn (lift (.error e : Except Fault α)) s = (.raise e, s) := rfl

@[simp] theorem goOn_require (c : Bool) (e : HelperError) (s : Shared) :
    goOn (require c e) s = (if c then .pure () else .raise (.helper e), s) := by
  cases c <;> rfl

@[simp] theorem goOn_readConf (n : String) (s : Shared) :
    goOn (readConf n) s =
      (match s.conf.lookup n with
        | some content => .pure (universalNewlines content)
        | none => .raise (.helper (.invalid "tunnel not found")), s) := by
  rw [readConf, goOn_bind]
  change (goOn (match (s.conf.lookup n).map universalNewlines with
    | some content => pure content
    | none => raise (.invalid "tunnel not found")) s) = _
  cases s.conf.lookup n <;> rfl

@[simp] theorem goOn_confExists (n : String) (s : Shared) :
    goOn (confExists n) s = (.pure (s.conf.lookup n).isSome, s) := rfl

@[simp] theorem goOn_writeConf (n : String) (t : Text) (s : Shared) :
    goOn (writeConf n t) s = (.pure (), { s with conf := s.conf.set n t }) := rfl

@[simp] theorem goOn_isInterfaceUp (n : String) (s : Shared) :
    goOn (isInterfaceUp n) s = (.pure s.link.isUp, s) := rfl

end goOn

/-- Once the subprocess has succeeded the command is over. -/
def Ends (k : Outcome → Cmd Unit) : Prop := ∀ s, goOn (k (.exited 0 [] [])) s = (.pure (), s)

theorem goOn_setPeer (r : AddPeer) (s : Shared) :
    ∃ k, Ends k ∧ goOn (setPeer r) s = (.op (.run (setPeerCommand r)) k, s) := by
  unfold setPeer setPeerCommand
  cases r.presharedKey with
  | none => exact ⟨_, fun _ => rfl, rfl⟩
  | some key => exact ⟨_, fun _ => rfl, rfl⟩

theorem goOn_addPeer (req : Request) (s : Shared) :
    (∃ e, goOn (cmdAddPeer req) s = (.raise e, s)) ∨
      ∃ r content, readAddPeer req = .ok r ∧ s.conf.lookup r.tunnel.text = some content ∧
        hasPeer r.publicKey content = false ∧
        let s' : Shared := { s with conf := s.conf.set r.tunnel.text (withPeer r content) }
        (s.link.isUp = false ∧ goOn (cmdAddPeer req) s = (.pure (), s') ∨
          s.link.isUp = true ∧ ∃ k, Ends k ∧
            goOn (cmdAddPeer req) s = (.op (.run (setPeerCommand r)) k, s')) := by
  rw [cmdAddPeer, goOn_bind]
  rcases hr : readAddPeer req with e | r
  · exact .inl ⟨e, rfl⟩
  simp only [goOn_lift_ok, goOnBehind_pure, goOn_bind, goOn_readConf]
  rcases hc : s.conf.lookup r.tunnel.text with _ | content
  · exact .inl ⟨_, rfl⟩
  simp only [goOnBehind_pure, goOn_bind, goOn_require]
  cases hp : hasPeer r.publicKey content with
  | true =>
    have hany : (splitConf (universalNewlines content)).2.any (mentions r.publicKey) = true := hp
    exact .inl ⟨.helper (.invalid "peer already exists"), by simp [hany]⟩
  | false =>
    have hany : (splitConf (universalNewlines content)).2.any (mentions r.publicKey) = false := hp
    refine .inr ⟨r, content, rfl, hc, hp, ?_⟩
    simp only [hany, Bool.not_false, if_true, goOnBehind_pure, goOn_bind, goOn_writeConf,
      goOn_isInterfaceUp]
    cases hup : s.link.isUp with
    | false => exact .inl ⟨rfl, rfl⟩
    | true =>
      obtain ⟨k, hk, hgo⟩ := goOn_setPeer r
        { s with conf := s.conf.set r.tunnel.text (withPeer r content) }
      exact .inr ⟨rfl, k, hk, hgo⟩

theorem goOn_removePeer (req : Request) (s : Shared) :
    (∃ e, goOn (cmdRemovePeer req) s = (.raise e, s)) ∨
      ∃ r content, readRemovePeer req = .ok r ∧ s.conf.lookup r.tunnel.text = some content ∧
        let s' : Shared := { s with conf := s.conf.set r.tunnel.text (withoutPeer r.publicKey content) }
        (s.link.isUp = false ∧ goOn (cmdRemovePeer req) s = (.pure (), s') ∨
          s.link.isUp = true ∧ ∃ k, Ends k ∧
            goOn (cmdRemovePeer req) s = (.op (.run (removePeerCommand r)) k, s')) := by
  rw [cmdRemovePeer, goOn_bind]
  rcases hr : readRemovePeer req with e | r
  · exact .inl ⟨e, rfl⟩
  simp only [goOn_lift_ok, goOnBehind_pure, goOn_bind, goOn_readConf]
  rcases hc : s.conf.lookup r.tunnel.text with _ | content
  · exact .inl ⟨_, rfl⟩
  refine .inr ⟨r, content, rfl, hc, ?_⟩
  simp only [goOnBehind_pure, goOn_bind, goOn_writeConf, goOn_isInterfaceUp]
  cases hup : s.link.isUp with
  | false => exact .inl ⟨rfl, rfl⟩
  | true => exact .inr ⟨rfl, _, fun _ => rfl, rfl⟩

theorem goOn_setTunnelState (req : Request) (s : Shared) :
    (∃ e, goOn (cmdSetTunnelState req) s = (.raise e, s)) ∨
      ∃ verb n k, Ends k ∧
        goOn (cmdSetTunnelState req) s = (.op (.run (.systemctl verb n)) k, s) := by
  rw [cmdSetTunnelState, goOn_bind]
  rcases validateTunnelName (Json.get req "name") with e | n
  · exact .inl ⟨e, rfl⟩
  simp only [goOn_lift_ok, goOnBehind_pure, goOn_bind]
  rcases readAction (Json.get req "action") with e | verb
  · exact .inl ⟨e, rfl⟩
  simp only [goOn_lift_ok, goOnBehind_pure, goOn_bind, goOn_confExists, goOn_require]
  rcases s.conf.lookup n.text with _ | content
  · exact .inl ⟨_, rfl⟩
  · exact .inr ⟨verb, n.text, _, fun _ => rfl, rfl⟩

/-! ## The invariant -/

/-- The subprocess a command waits for is its own. -/
def Waits : TunnelCommand → Command → Prop
  | .addPeer req, cmd => ∃ r, readAddPeer req = .ok r ∧ cmd = setPeerCommand r
  | .removePeer req, cmd => ∃ r, readRemovePeer req = .ok r ∧ cmd = removePeerCommand r
  | .setTunnelState _, cmd => ∃ verb n, cmd = .systemctl verb n

namespace Session

def Sound (x : Session) : Prop :=
  x.rest.ended = true ∨ ∃ cmd k, x.rest = .op (.run cmd) k ∧ Ends k ∧ Waits x.command cmd

/-- The `wg set` of the key is still to come. -/
def Adding (key : Text) (x : Session) : Prop :=
  x.command.adds = some key ∧ x.rest.ended = false ∧ x.done = false

def Removing (key : Text) (x : Session) : Prop :=
  x.command.removes = some key ∧ x.rest.ended = false ∧ x.done = false

end Session

/-- A peer is missing on the interface, or left over, only until its `wg set`. -/
def LinkFits (xs : List Session) (keys : List Text) : Link → Prop
  | .down => True
  | .starting read => ∀ k, k ∈ peerKeys read ↔ k ∈ keys
  | .up peers => (∀ k ∈ peers, k ∉ keys → ∃ x ∈ xs, x.Removing k) ∧
      ∀ k ∈ keys, k ∉ peers → ∃ x ∈ xs, x.Adding k

/-- The commands under way and the interface fit the keys of the conf. -/
structure Fits (xs : List Session) (keys : List Text) (link : Link) : Prop where
  added : ∀ x ∈ xs, ∀ key, x.command.adds = some key → x.rest.ended = false → key ∈ keys
  removed : ∀ x ∈ xs, ∀ key, x.command.removes = some key → x.rest.ended = false → key ∉ keys
  link : LinkFits xs keys link

structure Inv (name : String) (s : System) : Prop where
  sound : ∀ x ∈ s.sessions, x.Sound
  fits : ∀ content, s.shared.conf.lookup name = some content →
    Fits s.sessions (peerKeys content) s.shared.link

variable {xs ys : List Session} {x y : Session} {keys keys' : List Text} {link : Link} {i : Nat}

theorem LinkFits.mono (h : LinkFits xs keys link) (hsub : ∀ y ∈ xs, y.done = false →
    y.rest.ended = false → y ∈ ys) : LinkFits ys keys link := by
  cases link with
  | down => trivial
  | starting read => exact h
  | up peers =>
    obtain ⟨hextra, hmissing⟩ := h
    constructor
    · intro k hk hno
      obtain ⟨y, hy, hr⟩ := hextra k hk hno
      exact ⟨y, hsub y hy hr.2.2 hr.2.1, hr⟩
    · intro k hk hno
      obtain ⟨y, hy, ha⟩ := hmissing k hk hno
      exact ⟨y, hsub y hy ha.2.2 ha.2.1, ha⟩

theorem Fits.push (h : Fits xs keys link)
    (hx : x.rest.ended = true ∨ x.command.adds = none ∧ x.command.removes = none) :
    Fits (xs ++ [x]) keys link where
  added := by
    intro y hy key ha he
    rcases List.mem_append.mp hy with hy | hy
    · exact h.added y hy key ha he
    · obtain rfl := List.mem_singleton.mp hy
      rcases hx with hx | ⟨hx, -⟩
      · rw [hx] at he
        cases he
      · rw [hx] at ha
        cases ha
  removed := by
    intro y hy key hr he
    rcases List.mem_append.mp hy with hy | hy
    · exact h.removed y hy key hr he
    · obtain rfl := List.mem_singleton.mp hy
      rcases hx with hx | ⟨-, hx⟩
      · rw [hx] at he
        cases he
      · rw [hx] at hr
        cases hr
  link := h.link.mono fun y hy _ _ => List.mem_append_left _ hy

/-- A new peer is in the conf; on an interface that is up its `wg set` is to come. -/
theorem Fits.add {key : Text} (h : Fits xs keys link) (hkeys : ∀ k, k ∈ keys' ↔ k ∈ keys ∨ k = key)
    (hadds : x.command.adds = some key) (hremoves : x.command.removes = none)
    (honce : ∀ y ∈ xs, y.command.removes ≠ some key) (hstart : link.isStarting = false)
    (hx : link.isUp = true → x.Adding key) : Fits (xs ++ [x]) keys' link where
  added := by
    intro y hy k ha he
    rcases List.mem_append.mp hy with hy | hy
    · exact (hkeys k).mpr (.inl (h.added y hy k ha he))
    · obtain rfl := List.mem_singleton.mp hy
      exact (hkeys k).mpr (.inr (Option.some.inj (ha.symm.trans hadds)))
  removed := by
    intro y hy k hr he hk
    rcases List.mem_append.mp hy with hy | hy
    · rcases (hkeys k).mp hk with hk | rfl
      · exact h.removed y hy k hr he hk
      · exact honce y hy hr
    · obtain rfl := List.mem_singleton.mp hy
      rw [hremoves] at hr
      cases hr
  link := by
    cases link with
    | down => trivial
    | starting read => cases hstart
    | up peers =>
      obtain ⟨hextra, hmissing⟩ := h.link
      constructor
      · intro k hk hno
        obtain ⟨y, hy, hr⟩ := hextra k hk fun hin => hno ((hkeys k).mpr (.inl hin))
        exact ⟨y, List.mem_append_left _ hy, hr⟩
      · intro k hk hno
        rcases (hkeys k).mp hk with hk | rfl
        · obtain ⟨y, hy, ha⟩ := hmissing k hk hno
          exact ⟨y, List.mem_append_left _ hy, ha⟩
        -- the new peer itself is missing on the interface as long as its session goes on
        · exact ⟨x, by simp, hx rfl⟩

theorem Fits.remove {key : Text} (h : Fits xs keys link) (hkeys : ∀ k, k ∈ keys' ↔ k ∈ keys ∧ k ≠ key)
    (hremoves : x.command.removes = some key) (hadds : x.command.adds = none)
    (honce : ∀ y ∈ xs, y.command.adds = some key → y.rest.ended = true)
    (hstart : link.isStarting = true → key ∉ keys) (hx : link.isUp = true → x.Removing key) :
    Fits (xs ++ [x]) keys' link where
  added := by
    intro y hy k ha he
    rcases List.mem_append.mp hy with hy | hy
    · refine (hkeys k).mpr ⟨h.added y hy k ha he, ?_⟩
      rintro rfl
      rw [honce y hy ha] at he
      cases he
    · obtain rfl := List.mem_singleton.mp hy
      rw [hadds] at ha
      cases ha
  removed := by
    intro y hy k hr he hk
    obtain ⟨hk, hne⟩ := (hkeys k).mp hk
    rcases List.mem_append.mp hy with hy | hy
    · exact h.removed y hy k hr he hk
    · obtain rfl := List.mem_singleton.mp hy
      exact hne (Option.some.inj (hr.symm.trans hremoves))
  link := by
    cases link with
    | down => trivial
    | starting read =>
      intro k
      have hsame : k ∈ keys' ↔ k ∈ keys := by
        refine (hkeys k).trans (and_iff_left_of_imp ?_)
        rintro hk rfl
        exact hstart rfl hk
      exact (h.link k).trans hsame.symm
    | up peers =>
      obtain ⟨hextra, hmissing⟩ := h.link
      constructor
      · intro k hk hno
        by_cases hkey : k = key
        -- the peer is still on the interface as long as its session goes on
        · exact ⟨x, by simp, hkey ▸ hx rfl⟩
        · obtain ⟨y, hy, hr⟩ := hextra k hk fun hin => hno ((hkeys k).mpr ⟨hin, hkey⟩)
          exact ⟨y, List.mem_append_left _ hy, hr⟩
      · intro k hk hno
        obtain ⟨y, hy, ha⟩ := hmissing k ((hkeys k).mp hk).1 hno
        exact ⟨y, List.mem_append_left _ hy, ha⟩

theorem mem_set_of_ne (hi : xs[i]? = some x) (hy : y ∈ xs) (hne : y ≠ x) (z : Session) :
    y ∈ xs.set i z := by
  obtain ⟨j, hj⟩ := List.mem_iff_getElem?.mp hy
  have hji : i ≠ j := by
    rintro rfl
    exact hne (Option.some.inj (hj.symm.trans hi))
  apply List.mem_iff_getElem?.mpr
  exact ⟨j, by rw [List.getElem?_set_ne hji, hj]⟩

theorem forall_set {P : Session → Prop} (h : ∀ y ∈ xs, P y) {z : Session} (hz : P z) :
    ∀ y ∈ xs.set i z, P y := by
  intro y hy
  rcases List.mem_or_eq_of_mem_set hy with hy | rfl
  · exact h y hy
  · exact hz

theorem Fits.effect {c : TunnelCommand} {cmd : Command} {k : Outcome → Cmd Unit} {link' : Link}
    (h : Fits xs keys link) (hi : xs[i]? = some ⟨c, .op (.run cmd) k, false⟩) (hw : Waits c cmd)
    (he : Helper.effect cmd link = some link') :
    Fits (xs.set i ⟨c, .op (.run cmd) k, true⟩) keys link' := by
  have hmem := List.mem_of_getElem? hi
  refine ⟨?_, ?_, ?_⟩
  · exact forall_set h.added fun key ha _ => h.added _ hmem key ha rfl
  · exact forall_set h.removed fun key hr _ => h.removed _ hmem key hr rfl
  -- what another command still has to do is still to be done
  have hother : ∀ {P : Text → Session → Prop} {key : Text}, (∃ y ∈ xs, P key y) →
      ¬ P key ⟨c, .op (.run cmd) k, false⟩ → ∃ y ∈ xs.set i ⟨c, .op (.run cmd) k, true⟩, P key y := by
    rintro P key ⟨y, hy, hP⟩ hno
    refine ⟨y, mem_set_of_ne hi hy ?_ _, hP⟩
    rintro rfl
    exact hno hP
  cases link with
  | starting read =>
    cases cmd with
    | systemctl verb n => cases verb <;> cases he
    | _ => cases he
  | down =>
    cases cmd with
    | systemctl verb n =>
      cases verb <;> cases he <;> trivial
    | _ => cases he
  | up peers =>
    obtain ⟨hextra, hmissing⟩ := h.link
    cases c with
    | addPeer req =>
      obtain ⟨r, hr, rfl⟩ := hw
      have hadds : (TunnelCommand.addPeer req).adds = some r.publicKey.text := by
        simp [TunnelCommand.adds, hr, Except.toOption]
      obtain rfl : Link.up (r.publicKey.text :: peers) = link' := Option.some.inj he
      constructor
      · intro key hkey hno
        rcases List.mem_cons.mp hkey with rfl | hkey
        · exact absurd (h.added _ hmem _ hadds rfl) hno
        · exact hother (hextra key hkey hno) fun hrem => by cases hrem.1
      · intro key hkey hno
        rw [List.mem_cons, not_or] at hno
        refine hother (hmissing key hkey hno.2) fun hadd => ?_
        exact hno.1 (Option.some.inj (hadd.1.symm.trans hadds))
    | removePeer req =>
      obtain ⟨r, hr, rfl⟩ := hw
      have hrems : (TunnelCommand.removePeer req).removes = some r.publicKey.text := by
        simp [TunnelCommand.removes, hr, Except.toOption]
      obtain rfl : Link.up (peers.filter (· ≠ r.publicKey.text)) = link' := Option.some.inj he
      constructor
      · intro key hkey hno
        obtain ⟨hkey, hne⟩ := List.mem_filter.mp hkey
        refine hother (hextra key hkey hno) fun hrem => ?_
        exact of_decide_eq_true hne (Option.some.inj (hrem.1.symm.trans hrems))
      · intro key hkey hno
        have hne : key ≠ r.publicKey.text := by
          rintro rfl
          exact h.removed _ hmem _ hrems rfl hkey
        have hno' : key ∉ peers := fun hin => hno (List.mem_filter.mpr ⟨hin, by simpa using hne⟩)
        exact hother (hmissing key hkey hno') fun hadd => by cases hadd.1
    | setTunnelState req =>
      obtain ⟨verb, n, rfl⟩ := hw
      cases verb with
      | isActive => cases he
      | enableNow =>
        obtain rfl : Link.up peers = link' := Option.some.inj he
        constructor
        · intro key hkey hno
          exact hother (hextra key hkey hno) fun hrem => by cases hrem.1
        · intro key hkey hno
          exact hother (hmissing key hkey hno) fun hadd => by cases hadd.1
      | disableNow =>
        obtain rfl : Link.down = link' := Option.some.inj he
        trivial
      | stop =>
        obtain rfl : Link.down = link' := Option.some.inj he
        trivial

theorem Fits.return {c : TunnelCommand} {p p' : Cmd Unit} (h : Fits xs keys link)
    (hi : xs[i]? = some ⟨c, p, true⟩) (hp : p'.ended = true) :
    Fits (xs.set i ⟨c, p', false⟩) keys link := by
  refine ⟨?_, ?_, ?_⟩
  · exact forall_set h.added fun key _ he => absurd hp (by simp [he])
  · exact forall_set h.removed fun key _ he => absurd hp (by simp [he])
  · apply h.link.mono
    intro y hy hd _
    refine mem_set_of_ne hi hy ?_ _
    rintro rfl
    cases hd

/-! ## Steps and runs -/

theorem Inv.launch_add {s : System} {req : Request} (h : Inv name s)
    (hguard : ∀ n ∈ (TunnelCommand.addPeer req).tunnel, n = name)
    (honce : Once (.launch (.addPeer req)) s) (hout : OutsideStarts name (.launch (.addPeer req)) s) :
    Inv name ⟨(goOn (cmdAddPeer req) s.shared).2,
      s.sessions ++ [⟨.addPeer req, (goOn (cmdAddPeer req) s.shared).1, false⟩]⟩ := by
  rcases goOn_addPeer req s.shared with ⟨e, hgo⟩ | ⟨r, content, hr, hc, hp, hgo⟩
  · rw [hgo]
    refine ⟨?_, fun content hc => (h.fits content hc).push (.inl rfl)⟩
    exact List.forall_mem_append.mpr ⟨h.sound, by simp [Session.Sound, Prog.ended]⟩
  · have hadds : (TunnelCommand.addPeer req).adds = some r.publicKey.text := by
      simp [TunnelCommand.adds, hr, Except.toOption]
    obtain rfl : r.tunnel.text = name := hguard _ (by simp [TunnelCommand.tunnel, hr, Except.toOption])
    obtain ⟨hstart, hreads⟩ := hout r (by simp [hr, Except.toOption]) content hc hp
    have hfree := fun y hy => (honce.1 _ hadds y hy).2
    have hkeys := fun k => @mem_peerKeys_withPeer content _ hreads k
    rcases hgo with ⟨hup, hgo⟩ | ⟨hup, k, hk, hgo⟩
    · rw [hgo]
      refine ⟨List.forall_mem_append.mpr ⟨h.sound, by simp [Session.Sound, Prog.ended]⟩, ?_⟩
      intro content' hc'
      obtain rfl := Option.some.inj ((ConfDir.lookup_set_self ..).symm.trans hc')
      refine (h.fits content hc).add hkeys hadds rfl hfree hstart fun hl => ?_
      rw [hup] at hl
      cases hl
    · rw [hgo]
      refine ⟨List.forall_mem_append.mpr ⟨h.sound, ?_⟩, ?_⟩
      · simp only [List.mem_singleton, forall_eq]
        exact .inr ⟨_, k, rfl, hk, r, hr, rfl⟩
      · intro content' hc'
        obtain rfl := Option.some.inj ((ConfDir.lookup_set_self ..).symm.trans hc')
        exact (h.fits content hc).add hkeys hadds rfl hfree hstart fun _ => ⟨hadds, rfl, rfl⟩

theorem Inv.launch_remove {s : System} {req : Request} (h : Inv name s)
    (hguard : ∀ n ∈ (TunnelCommand.removePeer req).tunnel, n = name)
    (honce : Once (.launch (.removePeer req)) s)
    (hout : OutsideStarts name (.launch (.removePeer req)) s) :
    Inv name ⟨(goOn (cmdRemovePeer req) s.shared).2,
      s.sessions ++ [⟨.removePeer req, (goOn (cmdRemovePeer req) s.shared).1, false⟩]⟩ := by
  rcases goOn_removePeer req s.shared with ⟨e, hgo⟩ | ⟨r, content, hr, hc, hgo⟩
  · rw [hgo]
    refine ⟨?_, fun content hc => (h.fits content hc).push (.inl rfl)⟩
    exact List.forall_mem_append.mpr ⟨h.sound, by simp [Session.Sound, Prog.ended]⟩
  · have hrems : (TunnelCommand.removePeer req).removes = some r.publicKey.text := by
      simp [TunnelCommand.removes, hr, Except.toOption]
    obtain rfl : r.tunnel.text = name := hguard _ (by simp [TunnelCommand.tunnel, hr, Except.toOption])
    obtain ⟨hspelled, hstart⟩ := hout r (by simp [hr, Except.toOption]) content hc
    have hdone := honce.2 _ hrems
    have hkeys := fun k => mem_peerKeys_withoutPeer hspelled (k := k)
    rcases hgo with ⟨hup, hgo⟩ | ⟨hup, k, hk, hgo⟩
    · rw [hgo]
      refine ⟨List.forall_mem_append.mpr ⟨h.sound, by simp [Session.Sound, Prog.ended]⟩, ?_⟩
      intro content' hc'
      obtain rfl := Option.some.inj ((ConfDir.lookup_set_self ..).symm.trans hc')
      refine (h.fits content hc).remove hkeys hrems rfl hdone hstart fun hl => ?_
      rw [hup] at hl
      cases hl
    · rw [hgo]
      refine ⟨List.forall_mem_append.mpr ⟨h.sound, ?_⟩, ?_⟩
      · simp only [List.mem_singleton, forall_eq]
        exact .inr ⟨_, k, rfl, hk, r, hr, rfl⟩
      · intro content' hc'
        obtain rfl := Option.some.inj ((ConfDir.lookup_set_self ..).symm.trans hc')
        exact (h.fits content hc).remove hkeys hrems rfl hdone hstart fun _ => ⟨hrems, rfl, rfl⟩

theorem Inv.launch_switch {s : System} {req : Request} (h : Inv name s) :
    Inv name ⟨(goOn (cmdSetTunnelState req) s.shared).2,
      s.sessions ++ [⟨.setTunnelState req, (goOn (cmdSetTunnelState req) s.shared).1, false⟩]⟩ := by
  rcases goOn_setTunnelState req s.shared with ⟨e, hgo⟩ | ⟨verb, n, k, hk, hgo⟩
  · rw [hgo]
    refine ⟨?_, fun content hc => (h.fits content hc).push (.inl rfl)⟩
    exact List.forall_mem_append.mpr ⟨h.sound, by simp [Session.Sound, Prog.ended]⟩
  · rw [hgo]
    refine ⟨List.forall_mem_append.mpr ⟨h.sound, ?_⟩, ?_⟩
    · simp only [List.mem_singleton, forall_eq]
      exact .inr ⟨_, k, rfl, hk, verb, n, rfl⟩
    · exact fun content hc => (h.fits content hc).push (.inr ⟨rfl, rfl⟩)

theorem Inv.effect {s s' : System} {i : Nat} (h : Inv name s) (hs : step name (.effect i) s = some s') :
    Inv name s' := by
  simp only [step] at hs
  split at hs
  · rename_i c cmd k hi
    obtain ⟨link, he, rfl⟩ := Option.map_eq_some_iff.mp hs
    have hsound := h.sound _ (List.mem_of_getElem? hi)
    rcases hsound with hended | ⟨cmd', k', hrest, hk, hw⟩
    · cases hended
    · cases hrest
      refine ⟨forall_set h.sound (.inr ⟨cmd, k, rfl, hk, hw⟩), ?_⟩
      exact fun content hc => (h.fits content hc).effect hi hw he
  · cases hs

theorem Inv.reads {s s' : System} {i : Nat} (h : Inv name s) (hs : step name (.reads i) s = some s') :
    Inv name s' := by
  simp only [step] at hs
  split at hs
  · obtain ⟨content, hc, rfl⟩ := Option.map_eq_some_iff.mp hs
    refine ⟨h.sound, fun content' hc' => ?_⟩
    obtain rfl : content = content' := Option.some.inj (hc.symm.trans hc')
    have hfits := h.fits content hc
    exact ⟨hfits.added, hfits.removed, fun k => Iff.rfl⟩
  · cases hs

theorem Inv.appears {s s' : System} (h : Inv name s) (hs : step name .appears s = some s') :
    Inv name s' := by
  simp only [step] at hs
  split at hs
  · rename_i read hlink
    obtain rfl := Option.some.inj hs
    refine ⟨h.sound, fun content hc => ?_⟩
    have hfits := h.fits content hc
    have hread : ∀ k, k ∈ peerKeys read ↔ k ∈ peerKeys content := by
      have hl := hfits.link
      rw [hlink] at hl
      exact hl
    refine ⟨hfits.added, hfits.removed, fun k hk hno => ?_, fun k hk hno => ?_⟩
    · exact absurd ((hread k).mp hk) hno
    · exact absurd ((hread k).mpr hk) hno
  · cases hs

theorem Inv.returns {s s' : System} {i : Nat} (h : Inv name s) (hs : step name (.returns i) s = some s') :
    Inv name s' := by
  simp only [step] at hs
  split at hs
  · rename_i c cmd k hi
    rcases h.sound _ (List.mem_of_getElem? hi) with hended | ⟨cmd', k', hrest, hk, -⟩
    · cases hended
    · cases hrest
      rw [hk s.shared] at hs
      obtain rfl := Option.some.inj hs
      exact ⟨forall_set h.sound (.inl rfl), fun content hc => (h.fits content hc).return hi rfl⟩
  · cases hs

theorem Inv.step {s s' : System} {e : Event} (h : Inv name s)
    (he : Once e s ∧ OutsideStarts name e s) (hs : Helper.step name e s = some s') : Inv name s' := by
  cases e with
  | launch c =>
    obtain ⟨honce, hout⟩ := he
    simp only [Helper.step] at hs
    split at hs
    · rename_i hguard
      obtain rfl := Option.some.inj hs
      cases c with
      | addPeer req => exact h.launch_add hguard honce hout
      | removePeer req => exact h.launch_remove hguard honce hout
      | setTunnelState req => exact h.launch_switch
    · cases hs
  | effect i => exact h.effect hs
  | reads i => exact h.reads hs
  | appears => exact h.appears hs
  | returns i => exact h.returns hs

/-- With nothing under way the interface is down, or its peers are those of the conf. -/
structure Settled (name : String) (s : System) : Prop where
  idle : s.sessions = []
  link : s.shared.link.isStarting = false
  inStep : InStep name s.shared

theorem Settled.inv {s : System} (h : Settled name s) : Inv name s := by
  refine ⟨by simp [h.idle], fun content hc => ⟨by simp [h.idle], by simp [h.idle], ?_⟩⟩
  have hlink := h.link
  have hin := h.inStep
  unfold InStep at hin
  cases hl : s.shared.link with
  | down => trivial
  | starting read =>
    rw [hl] at hlink
    cases hlink
  | up peers =>
    have hiff := hin peers content hl hc
    exact ⟨fun k hk hno => absurd ((hiff k).mp hk) hno, fun k hk hno => absurd ((hiff k).mpr hk) hno⟩

theorem Inv.inStep {s : System} (h : Inv name s) (hfin : s.finished = true) : InStep name s.shared := by
  have hended : ∀ x ∈ s.sessions, x.rest.ended = true := List.all_eq_true.mp hfin
  intro peers content hl hc k
  obtain ⟨hextra, hmissing⟩ : LinkFits s.sessions (peerKeys content) (.up peers) :=
    hl ▸ (h.fits content hc).link
  constructor
  · intro hk
    by_contra hno
    obtain ⟨x, hx, hr⟩ := hextra k hk hno
    exact absurd (hended x hx) (by simp [hr.2.1])
  · intro hk
    by_contra hno
    obtain ⟨x, hx, ha⟩ := hmissing k hk hno
    exact absurd (hended x hx) (by simp [ha.2.1])

/-- On every run from a settled tunnel whose commands write outside the starts, the
live peers are those of the conf whenever all commands are over and the interface is up. -/
theorem live_peers_follow_conf (name : String) (s s' : System) (events : List Event)
    (hstart : Settled name s) (hrun : Transition.steps (step name) events s = some s')
    (honce : Transition.Along (step name) Once events s)
    (hout : Transition.Along (step name) (OutsideStarts name) events s) (hfin : s'.finished = true) :
    InStep name s'.shared :=
  ((honce.and hout).invariant (fun _ _ _ hP hs hI => hI.step hP hs) hrun hstart.inv).inStep hfin

/-! ## Two runs -/

def activateRequest : Request :=
  [("cmd", .str "set_tunnel_state"), ("name", .str "wg0"), ("action", .str "activate")]

/-- A tunnel without peers, its interface down. -/
def idleTunnel : System := ⟨⟨sampleState.conf, .down⟩, []⟩

theorem idleTunnel_settled : Settled "wg0" idleTunnel :=
  ⟨rfl, rfl, fun _ _ h => by cases h⟩

/-- The interface comes up, two peers are added at once, and the first is removed while a
third is added. -/
def quietRun : List Event :=
  [.launch (.setTunnelState activateRequest), .reads 0, .appears, .effect 0, .returns 0,
    .launch (.addPeer (addRequest plainAddress)), .launch (.addPeer (addRequestOf keyB plainAddress)),
    .effect 2, .effect 1, .returns 1, .returns 2,
    .launch (.removePeer (removeRequest sampleWgKey)), .launch (.addPeer (addRequestOf keyC plainAddress)),
    .effect 4, .returns 4, .effect 3, .returns 3]

theorem quiet_run_in_step : ∃ s', Transition.steps (step "wg0") quietRun idleTunnel = some s' ∧
    s'.shared.link = .up [keyC.text, keyB.text] ∧ InStep "wg0" s'.shared := by
  have hend : (Transition.steps (step "wg0") quietRun idleTunnel).map (fun s =>
      (s.finished, s.shared.link)) = some (true, .up [keyC.text, keyB.text]) := by decide +kernel
  obtain ⟨s', hrun, hs'⟩ := Option.map_eq_some_iff.mp hend
  obtain ⟨hfin, hlink⟩ := Prod.mk.inj hs'
  have honce : Transition.Along (step "wg0") Once quietRun idleTunnel := by decide +kernel
  have hout : Transition.Along (step "wg0") (OutsideStarts "wg0") quietRun idleTunnel := by
    decide +kernel
  exact ⟨s', hrun, hlink,
    live_peers_follow_conf "wg0" idleTunnel s' quietRun idleTunnel_settled hrun honce hout hfin⟩

/-- The key stands in the conf and is missing on the interface. -/
def missing (key : Text) (s : Shared) : Bool :=
  match s.link, s.conf.lookup "wg0" with
  | .up peers, some content => decide (key ∈ peerKeys content ∧ key ∉ peers)
  | _, _ => false

theorem not_inStep_of_missing {key : Text} (h : missing key s = true) : ¬ InStep "wg0" s := by
  intro hin
  unfold missing at h
  split at h
  · rename_i peers content hl hc
    obtain ⟨hk, hno⟩ := of_decide_eq_true h
    exact hno ((hin peers content hl hc key).mpr hk)
  · cases h

/-- The peer is added between the reading of the conf and the interface. -/
def lateRun : List Event :=
  [.launch (.setTunnelState activateRequest), .reads 0, .launch (.addPeer (addRequest plainAddress)),
    .appears, .effect 0, .returns 0]

theorem late_peer_is_missing : ∃ s', Settled "wg0" idleTunnel ∧
    Transition.steps (step "wg0") lateRun idleTunnel = some s' ∧
      Transition.Along (step "wg0") Once lateRun idleTunnel ∧ s'.finished = true ∧
        ¬ InStep "wg0" s'.shared := by
  have hrun : (Transition.steps (step "wg0") lateRun idleTunnel).any
      (fun s => s.finished && missing sampleKey s.shared) = true := by decide +kernel
  obtain ⟨s', hs', hend⟩ := (Option.any_eq_true _ _).mp hrun
  obtain ⟨hfin, hmiss⟩ := (Bool.and_eq_true _ _).mp hend
  exact ⟨s', idleTunnel_settled, hs', by decide +kernel, hfin, not_inStep_of_missing hmiss⟩

end Helper
