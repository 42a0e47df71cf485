import PiVpn.Lib.Pool
import PiVpn.Helper.ConfParts

/-! The helper as a service: any number of connections at once, each of which runs alone up to
a subprocess. What they leave in the conf files is what single edits make one after another, and
every edit was asked for by the one caller that may. -/

namespace Helper.Service
open Text Effect

/-! ## The service -/

/-- The conf files, the interfaces that are up, and the key file of each connection. -/
structure Shared where
  conf : ConfDir
  up : String → Bool
  psk : Nat → Option Text

def Shared.setPsk (s : Shared) (i : Nat) (file : Option Text) : Shared :=
  { s with psk := Function.update s.psk i file }

/-- What the `i`-th connection asks before and between its subprocesses. -/
def answer (i : Nat) : Prog.Handler Sys Shared
  | .confExists name, s => ((s.conf.lookup name).isSome, s)
  | .readConf name, s => ((s.conf.lookup name).map universalNewlines, s)
  | .writeConf name content, s => ((), { s with conf := s.conf.set name content })
  | .createConf name content, s => ((), { s with conf := s.conf.set name content })
  | .unlinkConf name, s => ((), { s with conf := s.conf.erase name })
  | .confNames, s => (s.conf.names, s)
  | .interfaceUp name, s => (s.up name, s)
  | .createPsk content, s => ((), s.setPsk i (some content))
  | .unlinkPsk, s => ((), s.setPsk i none)
  | .run _, s => (.exited 0 [] [], s)
  | .log _, s => ((), s)

def awaits : Op → Bool
  | .run _ => true
  | _ => false

/-- What is left of a question that the `i`-th connection has put when the helper is killed: a new
file is opened first and then written, and may have no more than the first characters of its
text; one that is there is replaced as a whole. -/
def half (i done : Nat) : Op → Shared → Shared
  | .createConf name content, s => { s with conf := s.conf.set name (content.take done) }
  | .createPsk content, s => s.setPsk i (some (content.take done))
  | _, s => s

/-- Who has connected, as the kernel says, while which account may; and the line that came. -/
structure Caller where
  allowedUid : Option Nat
  uid : Nat
  line : Line

variable (repr : Json → String)

def serve (c : Caller) : Cmd (Option Response) := handleClient repr c.allowedUid c.uid c.line

abbrev Process := Pool.Process Sys Fault (Option Response) Caller Shared
abbrev Event := Pool.Event Sys Caller Shared

def step : Event → Process → Option Process := Pool.step awaits answer half (serve repr)

/-! ## Edits of the conf files -/

inductive Edit where
  | create (r : CreateTunnel)
  | begin (r : CreateTunnel) (done : Nat)
  | delete (name : TunnelName)
  | add (r : AddPeer)
  | remove (r : RemovePeer)

namespace Edit

def tunnel : Edit → String
  | .create r => r.name.text
  | .begin r _ => r.name.text
  | .delete name => name.text
  | .add r => r.tunnel.text
  | .remove r => r.tunnel.text

/-- The text of the tunnel afterwards, if it has one. -/
def text : Edit → Option Text → Option Text
  | .create r, none => some (tunnelText r)
  | .create _, some content => some content
  | .begin r done, none => some ((tunnelText r).take done)
  | .begin _ _, some content => some content
  | .delete _, _ => none
  | .add _, none => none
  | .add r, some content => some (if hasPeer r.publicKey content then content else withPeer r content)
  | .remove _, none => none
  | .remove r, some content => some (withoutPeer r.publicKey content)

end Edit

def createEdits (req : Request) : List Edit := ((readCreateTunnel req).toOption.map Edit.create).toList
def deleteEdits (req : Request) : List Edit :=
  ((validateTunnelName (Json.get req "name")).toOption.map Edit.delete).toList
def addEdits (req : Request) : List Edit := ((readAddPeer req).toOption.map Edit.add).toList
def removeEdits (req : Request) : List Edit := ((readRemovePeer req).toOption.map Edit.remove).toList

/-- What a command may edit. -/
def editsOf : String → Request → List Edit
  | "create_tunnel" => createEdits
  | "delete_tunnel" => deleteEdits
  | "add_peer" => addEdits
  | "remove_peer" => removeEdits
  | _ => fun _ => []

/-- What a command may edit instead when the helper is killed. -/
def tornOf : String → Request → Nat → List Edit
  | "create_tunnel", req, done => ((readCreateTunnel req).toOption.map fun r => Edit.begin r done).toList
  | _, _, _ => []

namespace Caller

/-- The request, if the caller is the one that may and its line is one. -/
def request (c : Caller) : Option (String × Request) :=
  if c.allowedUid = some c.uid then
    match c.line with
    | .json (.obj req) =>
      match Json.get req "cmd" with
      | .str cmd => some (cmd, req)
      | _ => none
    | _ => none
  else none

def edits (c : Caller) : List Edit := c.request.elim [] fun (cmd, req) => editsOf cmd req

def torn (c : Caller) (done : Nat) : List Edit := c.request.elim [] fun (cmd, req) => tornOf cmd req done

end Caller

/-! ## What a turn leaves -/

abbrev Confs := String → Option Text

def Shared.confs (s : Shared) : Confs := s.conf.lookup

def Edit.apply (e : Edit) (v : Confs) : Confs := Function.update v e.tunnel (e.text (v e.tunnel))

def Op.SparesConf : Op → Prop
  | .writeConf _ _ => False
  | .createConf _ _ => False
  | .unlinkConf _ => False
  | _ => True

def takesKeyFile : Command → Bool
  | .wgSetPeer _ _ _ _ withFile => withFile
  | _ => false

/-- A question that changes no file, nor needs a key file. -/
def Op.Calm : Op → Prop
  | .writeConf _ _ => False
  | .createConf _ _ => False
  | .unlinkConf _ => False
  | .createPsk _ => False
  | .unlinkPsk => False
  | .run c => takesKeyFile c = false
  | _ => True

theorem Op.Calm.sparesConf {o : Op} (h : Op.Calm o) : Op.SparesConf o := by
  cases o with
  | writeConf | createConf | unlinkConf => exact h.elim
  | _ => trivial

theorem Op.Looks.calm {o : Op} (h : Op.Looks o) : Op.Calm o := by
  unfold Op.Looks at h
  split at h
  · trivial
  · trivial
  · rfl
  · rfl
  · exact h.elim

/-- The conf files after the turn; what is left of the program leaves them alone. -/
def Turned {α : Type} (i : Nat) (s : Shared) (p : Cmd α) (v : Confs) : Prop :=
  (Pool.turn awaits answer i p s).2.confs = v ∧ Prog.Only Op.SparesConf (Pool.turn awaits answer i p s).1

section
variable {α β : Type} {i : Nat} {s s' : Shared} {v : Confs}

theorem confs_set (d : ConfDir) (name : String) (content : Text) :
    (d.set name content).lookup = Function.update d.lookup name (some content) := by
  funext n
  by_cases hn : n = name
  · rw [hn, Function.update_self]
    exact d.lookup_set_self name content
  · rw [Function.update_of_ne hn]
    exact ConfDir.lookup_set_ne hn content

theorem confs_erase (d : ConfDir) (name : String) :
    (d.erase name).lookup = Function.update d.lookup name none := by
  funext n
  by_cases hn : n = name
  · rw [hn, Function.update_self]
    exact d.lookup_erase_self name
  · rw [Function.update_of_ne hn]
    exact ConfDir.lookup_erase_ne hn

theorem confs_answer {o : Op} (h : Op.SparesConf o) : (answer i o s).2.confs = s.confs := by
  cases o with
  | writeConf | createConf | unlinkConf => exact h.elim
  | _ => rfl

theorem turned_of_only {p : Cmd α} (hp : Prog.Only Op.SparesConf p) : Turned i s p s.confs :=
  ⟨hp.runUntil_view Shared.confs (fun _ _ ho => confs_answer ho) s, hp.runUntil s⟩

theorem Turned.bind {p : Cmd α} {f : α → Cmd β} (hp : Turned i s p v)
    (hf : ∀ a, Prog.Only Op.SparesConf (f a)) :
    Turned i s (p >>= f) v := by
  have hbind : Pool.turn awaits answer i (p >>= f) s =
      Prog.goOnBehind awaits (answer i) f (Pool.turn awaits answer i p s) := Prog.runUntil_bind p f s
  obtain ⟨hconfs, honly⟩ := hp
  rw [Turned, hbind]
  generalize Pool.turn awaits answer i p s = next at hconfs honly
  obtain ⟨a | e | ⟨o, k⟩, s'⟩ := next
  · obtain ⟨hsame, hrest⟩ := turned_of_only (hf a)
    exact ⟨hsame.trans hconfs, hrest⟩
  · exact ⟨hconfs, trivial⟩
  · exact ⟨hconfs, honly.1, fun x => (honly.2 x).bind hf⟩

theorem Turned.attempt {p : Cmd α} (hp : Turned i s p v) : Turned i s (p.attempt : Cmd (Except Fault α)) v := by
  have hattempt : Pool.turn awaits answer i (p.attempt : Cmd (Except Fault α)) s =
      Prog.attemptBehind (Pool.turn awaits answer i p s) := Prog.runUntil_attempt p s
  rw [Turned, hattempt]
  exact ⟨hp.1, hp.2.attempt⟩

theorem Turned.after {p : Cmd α} {f : α → Cmd β} {a : α} (hp : Pool.turn awaits answer i p s = (.pure a, s'))
    (hf : Turned i s' (f a) v) : Turned i s (p >>= f) v := by
  have hbind : Pool.turn awaits answer i (p >>= f) s = Pool.turn awaits answer i (f a) s' := by
    rw [Pool.turn, Prog.runUntil_bind]
    exact congrArg (Prog.goOnBehind awaits (answer i) f) hp
  rw [Turned, hbind]
  exact hf

theorem Turned.raised {p : Cmd α} {f : α → Cmd β} {e : Fault}
    (hp : Pool.turn awaits answer i p s = (.raise e, s')) (hv : s'.confs = v) : Turned i s (p >>= f) v := by
  have hbind : Pool.turn awaits answer i (p >>= f) s = (.raise e, s') := by
    rw [Pool.turn, Prog.runUntil_bind]
    exact congrArg (Prog.goOnBehind awaits (answer i) f) hp
  rw [Turned, hbind]
  exact ⟨hv, trivial⟩

theorem turned_raise (e : Fault) : Turned i s (.raise e : Cmd α) s.confs := ⟨rfl, trivial⟩

theorem turn_require_true {c : Bool} {e : HelperError} (h : c = false) :
    Pool.turn awaits answer i (require (!c) e) s = (.pure (), s) := by rw [h]; rfl

theorem turn_require_false {c : Bool} {e : HelperError} (h : c = true) :
    Pool.turn awaits answer i (require (!c) e) s = (.raise (.helper e), s) := by rw [h]; rfl

theorem turn_readConf {name : String} {content : Text} (h : s.conf.lookup name = some content) :
    Pool.turn awaits answer i (readConf name) s = (.pure (universalNewlines content), s) := by
  have hread : Prog.runUntil awaits (answer i) (readText name) s =
      (.pure ((s.conf.lookup name).map universalNewlines), s) := rfl
  rw [readConf, Pool.turn, Prog.runUntil_bind, hread, h]
  rfl

theorem turn_readConf_none {name : String} (h : s.conf.lookup name = none) :
    Pool.turn awaits answer i (readConf name) s = (.raise (.helper (.invalid "tunnel not found")), s) := by
  have hread : Prog.runUntil awaits (answer i) (readText name) s =
      (.pure ((s.conf.lookup name).map universalNewlines), s) := rfl
  rw [readConf, Pool.turn, Prog.runUntil_bind, hread, h]
  rfl

theorem only_setPeer (r : AddPeer) : Prog.Only Op.SparesConf (setPeer r) := by
  unfold setPeer
  refine Prog.Only.finally_ ?_ ?_
  · cases r.presharedKey with
    | none => exact (only_runChecked _ trivial).bind fun _ => trivial
    | some key => exact ⟨trivial, fun _ => (only_runChecked _ trivial).bind fun _ => trivial⟩
  · split
    · exact ⟨trivial, fun _ => trivial⟩
    · trivial

theorem Edit.apply_same {e : Edit} (h : e.text (v e.tunnel) = v e.tunnel) : e.apply v = v := by
  rw [Edit.apply, h, Function.update_eq_self]

/-- Some of the edits are made. -/
def Made (es : List Edit) (v v' : Confs) : Prop :=
  ∃ made, made.Sublist es ∧ v' = Pool.applyAll Edit.apply made v

theorem made_nothing (es : List Edit) (v : Confs) : Made es v v := ⟨[], List.nil_sublist _, rfl⟩

theorem made_one {e : Edit} {es : List Edit} (he : e ∈ es) (v : Confs) : Made es v (e.apply v) :=
  ⟨[e], List.singleton_sublist.mpr he, rfl⟩

/-- Wherever the turn is broken off, the conf files are such. -/
def Amid {α : Type} (i done : Nat) (s : Shared) (p : Cmd α) (P : Confs → Prop) : Prop :=
  ∀ n, P (Pool.broken awaits answer half i n done p s).confs

theorem confs_half {i done : Nat} {o : Op} (h : Op.SparesConf o) : (half i done o s).confs = s.confs := by
  cases o with
  | writeConf | createConf | unlinkConf => exact h.elim
  | _ => rfl

section amid
variable {done : Nat} {P : Confs → Prop}

theorem amid_of_only {p : Cmd α} (hp : Prog.Only Op.SparesConf p) (hs : P s.confs) : Amid i done s p P := by
  intro n
  have hsame : (Pool.broken awaits answer half i n done p s).confs = s.confs :=
    hp.brokenOff_view Shared.confs (fun _ _ ho => confs_answer ho) (fun _ _ ho => confs_half ho) n s
  rwa [hsame]

theorem Amid.bind {p : Cmd α} {f : α → Cmd β} (hp : Amid i done s p P)
    (hf : ∀ a t, Pool.turn awaits answer i p s = (.pure a, t) → Amid i done t (f a) P) :
    Amid i done s (p >>= f) P :=
  fun n => Prog.brokenOff_bind (P := fun t : Shared => P t.confs) hp (fun a t ht n => hf a t ht n) n

theorem Amid.attempt {p : Cmd α} (hp : Amid i done s p P) : Amid i done s (p.attempt : Cmd (Except Fault α)) P := by
  intro n
  rw [Pool.broken, Prog.brokenOff_attempt]
  exact hp n

theorem Amid.ended {p : Cmd α} {a : α} (hp : Amid i done s p P)
    (ht : Pool.turn awaits answer i p s = (.pure a, s')) : P s'.confs := by
  have hend : ∃ n, Pool.broken awaits answer half i n done p s = s' := Prog.exists_brokenOff_end ht
  obtain ⟨n, hn⟩ := hend
  exact hn ▸ hp n

theorem Amid.bind_only {p : Cmd α} {f : α → Cmd β} (hp : Amid i done s p P)
    (hf : ∀ a, Prog.Only Op.SparesConf (f a)) : Amid i done s (p >>= f) P :=
  hp.bind fun a _ ht => amid_of_only (hf a) (hp.ended ht)

theorem Amid.after {p : Cmd α} {f : α → Cmd β} {a : α} (honly : Prog.Only Op.SparesConf p)
    (hp : Pool.turn awaits answer i p s = (.pure a, s')) (hs : P s.confs) (hf : Amid i done s' (f a) P) :
    Amid i done s (p >>= f) P := by
  refine (amid_of_only honly hs).bind fun a' t ht => ?_
  obtain ⟨ha, rfl⟩ := Prod.mk.inj (hp.symm.trans ht)
  obtain rfl := Prog.pure.inj ha
  exact hf

theorem Amid.raised {p : Cmd α} {f : α → Cmd β} {e : Fault} (honly : Prog.Only Op.SparesConf p)
    (hp : Pool.turn awaits answer i p s = (.raise e, s')) (hs : P s.confs) : Amid i done s (p >>= f) P :=
  (amid_of_only honly hs).bind fun _ _ ht => nomatch hp.symm.trans ht

theorem amid_op {o : Op} {k : o.Answer → Cmd α} (ho : awaits o = false) (hhalf : P (half i done o s).confs)
    (hdone : P (answer i o s).2.confs) (hk : ∀ x, Prog.Only Op.SparesConf (k x)) :
    Amid i done s (.op o k) P := by
  rintro (_ | n)
  · rwa [Pool.broken, Prog.brokenOff, if_neg (ne_true_of_eq_false ho)]
  · rw [Pool.broken, Prog.brokenOff, if_neg (ne_true_of_eq_false ho)]
    exact amid_of_only (hk _) hdone n

end amid

theorem only_readConf {N : Op → Prop} {name : String} (h : N (.readConf name)) : Prog.Only N (readConf name) := by
  refine ⟨h, fun content => ?_⟩
  cases content <;> trivial

section
variable {content : Text}

theorem confs_created {r : CreateTunnel} (hl : s.conf.lookup r.name.text = none) {e : Edit} {text : Text}
    (htunnel : e.tunnel = r.name.text) (htext : e.text none = some text) :
    (s.conf.set r.name.text text).lookup = e.apply s.confs := by
  rw [confs_set, Edit.apply, htunnel, Shared.confs, hl, htext]

theorem confs_added {r : AddPeer} (hl : s.conf.lookup r.tunnel.text = some content)
    (hp : hasPeer r.publicKey content = false) :
    (s.conf.set r.tunnel.text (withPeer r content)).lookup = (Edit.add r).apply s.confs := by
  rw [confs_set, Edit.apply, Edit.tunnel, Shared.confs, hl, Edit.text, hp]
  rfl

theorem confs_removed {r : RemovePeer} (hl : s.conf.lookup r.tunnel.text = some content) :
    (s.conf.set r.tunnel.text (withoutPeer r.publicKey content)).lookup = (Edit.remove r).apply s.confs := by
  rw [confs_set, Edit.apply, Edit.tunnel, Shared.confs, hl]
  rfl

end

theorem turned_createTunnel (req : Request) :
    Turned i s (cmdCreateTunnel req) (Pool.applyAll Edit.apply (createEdits req) s.confs) := by
  rw [cmdCreateTunnel, createEdits]
  cases hr : readCreateTunnel req with
  | error e => exact turned_raise e
  | ok r =>
    have hexists : Pool.turn awaits answer i (confExists r.name.text) s =
        (.pure (s.conf.lookup r.name.text).isSome, s) := rfl
    refine Turned.after rfl (Turned.after hexists ?_)
    cases hl : s.conf.lookup r.name.text with
    | none => exact ⟨confs_created hl rfl rfl, trivial⟩
    | some content =>
      have hkept : (Edit.create r).apply s.confs = s.confs := Edit.apply_same (by
        rw [Edit.tunnel, Shared.confs, hl]
        rfl)
      exact ⟨hkept.symm, trivial⟩

theorem amid_createTunnel (req : Request) (done : Nat) :
    Amid i done s (cmdCreateTunnel req)
      (Made (tornOf "create_tunnel" req done ++ createEdits req) s.confs) := by
  rw [cmdCreateTunnel]
  change Amid i done s _ (Made (((readCreateTunnel req).toOption.map fun r => Edit.begin r done).toList ++
    createEdits req) s.confs)
  rw [createEdits]
  have hnothing := fun es => made_nothing es s.confs
  cases hr : readCreateTunnel req with
  | error e => exact amid_of_only trivial (hnothing _)
  | ok r =>
    refine Amid.after trivial rfl (hnothing _) ?_
    have hexists : Pool.turn awaits answer i (confExists r.name.text) s =
        (.pure (s.conf.lookup r.name.text).isSome, s) := rfl
    refine Amid.after ⟨trivial, fun _ => trivial⟩ hexists (hnothing _) ?_
    cases hl : s.conf.lookup r.name.text with
    | none =>
      refine amid_op (o := .createConf r.name.text (tunnelText r)) rfl ?_ ?_ fun _ => trivial
      · change Made _ _ (s.conf.set r.name.text ((tunnelText r).take done)).lookup
        rw [confs_created (e := .begin r done) hl rfl rfl]
        exact made_one List.mem_cons_self _
      · change Made _ _ (s.conf.set r.name.text (tunnelText r)).lookup
        rw [confs_created (e := .create r) hl rfl rfl]
        exact made_one (List.mem_cons_of_mem _ List.mem_cons_self) _
    | some content => exact amid_of_only trivial (hnothing _)

theorem only_addLive (r : AddPeer) : Prog.Only Op.SparesConf (do
    if ← isInterfaceUp r.tunnel.text then setPeer r else pure () : Cmd Unit) := by
  refine ⟨trivial, fun up => ?_⟩
  cases up with
  | true => exact only_setPeer r
  | false => trivial

theorem only_removeLive (r : RemovePeer) : Prog.Only Op.SparesConf (do
    if ← isInterfaceUp r.tunnel.text then
      let _ ← runChecked (.wgRemovePeer r.tunnel.text r.publicKey.text) "wg set remove"
      pure ()
    else pure () : Cmd Unit) := by
  refine ⟨trivial, fun up => ?_⟩
  cases up with
  | true => exact (only_runChecked _ trivial).bind fun _ => trivial
  | false => trivial

theorem turned_addPeer (req : Request) :
    Turned i s (cmdAddPeer req) (Pool.applyAll Edit.apply (addEdits req) s.confs) := by
  rw [cmdAddPeer, addEdits]
  cases hr : readAddPeer req with
  | error e => exact turned_raise e
  | ok r =>
    refine Turned.after rfl ?_
    cases hl : s.conf.lookup r.tunnel.text with
    | none =>
      have hkept : (Edit.add r).apply s.confs = s.confs := Edit.apply_same (by
        rw [Edit.tunnel, Shared.confs, hl]
        rfl)
      exact Turned.raised (turn_readConf_none hl) hkept.symm
    | some content =>
      refine Turned.after (turn_readConf hl) ?_
      cases hp : hasPeer r.publicKey content with
      | true =>
        have hkept : (Edit.add r).apply s.confs = s.confs := Edit.apply_same (by
          rw [Edit.tunnel, Shared.confs, hl, Edit.text, hp]
          rfl)
        exact Turned.raised (turn_require_false hp) hkept.symm
      | false =>
        refine Turned.after (turn_require_true hp) (Turned.after (a := ()) rfl ?_)
        change Turned i _ _ ((Edit.add r).apply s.confs)
        rw [← confs_added hl hp]
        exact turned_of_only (only_addLive r)

theorem amid_addPeer (req : Request) (done : Nat) :
    Amid i done s (cmdAddPeer req) (Made (addEdits req) s.confs) := by
  rw [cmdAddPeer, addEdits]
  have hnothing := fun es => made_nothing es s.confs
  cases hr : readAddPeer req with
  | error e => exact amid_of_only trivial (hnothing _)
  | ok r =>
    refine Amid.after trivial rfl (hnothing _) ?_
    cases hl : s.conf.lookup r.tunnel.text with
    | none => exact Amid.raised (only_readConf trivial) (turn_readConf_none hl) (hnothing _)
    | some content =>
      refine Amid.after (only_readConf trivial) (turn_readConf hl) (hnothing _) ?_
      cases hp : hasPeer r.publicKey content with
      | true => exact Amid.raised (only_require _ _) (turn_require_false hp) (hnothing _)
      | false =>
        refine Amid.after (only_require _ _) (turn_require_true hp) (hnothing _) ?_
        refine amid_op (o := .writeConf r.tunnel.text (withPeer r content)) rfl (hnothing _) ?_
          fun _ => only_addLive r
        change Made _ _ (s.conf.set r.tunnel.text (withPeer r content)).lookup
        rw [confs_added hl hp]
        exact made_one List.mem_cons_self _

theorem turned_removePeer (req : Request) :
    Turned i s (cmdRemovePeer req) (Pool.applyAll Edit.apply (removeEdits req) s.confs) := by
  rw [cmdRemovePeer, removeEdits]
  cases hr : readRemovePeer req with
  | error e => exact turned_raise e
  | ok r =>
    refine Turned.after rfl ?_
    cases hl : s.conf.lookup r.tunnel.text with
    | none =>
      have hkept : (Edit.remove r).apply s.confs = s.confs := Edit.apply_same (by
        rw [Edit.tunnel, Shared.confs, hl]
        rfl)
      exact Turned.raised (turn_readConf_none hl) hkept.symm
    | some content =>
      refine Turned.after (turn_readConf hl) (Turned.after (a := ()) rfl ?_)
      change Turned i _ _ ((Edit.remove r).apply s.confs)
      rw [← confs_removed hl]
      exact turned_of_only (only_removeLive r)

theorem amid_removePeer (req : Request) (done : Nat) :
    Amid i done s (cmdRemovePeer req) (Made (removeEdits req) s.confs) := by
  rw [cmdRemovePeer, removeEdits]
  have hnothing := fun es => made_nothing es s.confs
  cases hr : readRemovePeer req with
  | error e => exact amid_of_only trivial (hnothing _)
  | ok r =>
    refine Amid.after trivial rfl (hnothing _) ?_
    cases hl : s.conf.lookup r.tunnel.text with
    | none => exact Amid.raised (only_readConf trivial) (turn_readConf_none hl) (hnothing _)
    | some content =>
      refine Amid.after (only_readConf trivial) (turn_readConf hl) (hnothing _) ?_
      refine amid_op (o := .writeConf r.tunnel.text (withoutPeer r.publicKey content)) rfl (hnothing _) ?_
        fun _ => only_removeLive r
      change Made _ _ (s.conf.set r.tunnel.text (withoutPeer r.publicKey content)).lookup
      rw [confs_removed hl]
      exact made_one List.mem_cons_self _

/-- Before its subprocess has run a deletion leaves the conf files alone, and after it there is
nothing else for it to edit. -/
def Deletes {α : Type} (name : TunnelName) (p : Cmd α) : Prop :=
  ∃ c k, p = .op (.run c) k ∧ ∀ x, Prog.Only Op.SparesConf (k x) ∨
    ∃ k', k x = .op (.unlinkConf name.text) k' ∧ Prog.Only Op.SparesConf (k' ())

theorem Deletes.turn {name : TunnelName} {p : Cmd α} (hp : Deletes name p) (i : Nat) (s : Shared) :
    Pool.turn awaits answer i p s = (p, s) := by
  obtain ⟨c, k, rfl, -⟩ := hp
  rfl

theorem Deletes.bind {name : TunnelName} {p : Cmd α} {f : α → Cmd β} (hp : Deletes name p)
    (hf : ∀ a, Prog.Only Op.SparesConf (f a)) : Deletes name (p >>= f) := by
  obtain ⟨c, k, rfl, hk⟩ := hp
  refine ⟨c, fun x => k x >>= f, rfl, fun x => ?_⟩
  rcases hk x with honly | ⟨k', hx, honly⟩
  · exact .inl (honly.bind hf)
  · refine .inr ⟨fun y => k' y >>= f, ?_, honly.bind hf⟩
    change k x >>= f = _
    rw [hx]
    rfl

theorem Deletes.attempt {name : TunnelName} {p : Cmd α} (hp : Deletes name p) :
    Deletes name (p.attempt : Cmd (Except Fault α)) := by
  obtain ⟨c, k, rfl, hk⟩ := hp
  refine ⟨c, fun x => (k x).attempt, rfl, fun x => ?_⟩
  rcases hk x with honly | ⟨k', hx, honly⟩
  · exact .inl honly.attempt
  · refine .inr ⟨fun y => (k' y).attempt, ?_, honly.attempt⟩
    change (k x).attempt = _
    rw [hx]
    rfl

theorem deletes_cmdDeleteTunnel {req : Request} {name : TunnelName}
    (h : validateTunnelName (Json.get req "name") = .ok name) : Deletes name (cmdDeleteTunnel req) := by
  rw [cmdDeleteTunnel, h]
  refine ⟨_, _, rfl, fun x => ?_⟩
  cases x with
  | exited => exact .inr ⟨_, rfl, trivial⟩
  | notStarted => exact .inl trivial

/-- What a connection may still edit. -/
def Owes (es : List Edit) (p : Cmd (Option Response)) : Prop :=
  Prog.Only Op.SparesConf p ∨ ∃ name, es = [.delete name] ∧ Deletes name p

theorem only_cmdGenkey (req : Request) : Prog.Only Op.Calm (cmdGenkey req) := by
  have hchecked : ∀ c what, takesKeyFile c = false → Prog.Only Op.Calm (runChecked c what) :=
    fun c what hc => only_runChecked what hc
  exact (hchecked .wgGenkey _ rfl).bind fun priv => (hchecked (.wgPubkey priv) _ rfl).bind fun _ => trivial

theorem only_cmdSetTunnelState (req : Request) : Prog.Only Op.Calm (cmdSetTunnelState req) := by
  have hchecked : ∀ verb name what, Prog.Only Op.Calm (runChecked (.systemctl verb name) what) :=
    fun verb name what => only_runChecked what rfl
  exact (only_lift _).bind fun _ => (only_lift _).bind fun _ => ⟨trivial, fun _ =>
    (only_require _ _).bind fun _ => (hchecked _ _ _).bind fun _ => trivial⟩

theorem turned_of_calm {p : Cmd α} (hp : Prog.Only Op.Calm p) : Turned i s p s.confs :=
  turned_of_only (hp.mono fun _ h => h.sparesConf)

/-- A command makes its edits at once, or is a deletion that waits first. -/
theorem turned_dispatch {cmd : String} {handler : Request → Cmd Result} (h : dispatch cmd = some handler)
    (req : Request) (i : Nat) (s : Shared) :
    Turned i s (handler req) (Pool.applyAll Edit.apply (editsOf cmd req) s.confs) ∨
      ∃ name, editsOf cmd req = [.delete name] ∧ Deletes name (handler req) := by
  unfold dispatch at h
  split at h
  · obtain rfl := Option.some.inj h
    exact .inl (turned_of_calm ((only_cmdGenkey req).bind fun _ => trivial))
  · obtain rfl := Option.some.inj h
    exact .inl ((turned_createTunnel req).bind fun _ => trivial)
  · obtain rfl := Option.some.inj h
    cases hname : validateTunnelName (Json.get req "name") with
    | error e =>
      have hnone : editsOf "delete_tunnel" req = [] := by
        change deleteEdits req = []
        rw [deleteEdits, hname]
        rfl
      have honly : Prog.Only Op.SparesConf (cmdDeleteTunnel req) := by
        rw [cmdDeleteTunnel, hname]
        trivial
      rw [hnone]
      exact .inl (turned_of_only (honly.bind fun _ => trivial))
    | ok name =>
      have hone : editsOf "delete_tunnel" req = [.delete name] := by
        change deleteEdits req = [.delete name]
        rw [deleteEdits, hname]
        rfl
      exact .inr ⟨name, hone, (deletes_cmdDeleteTunnel hname).bind fun _ => trivial⟩
  · obtain rfl := Option.some.inj h
    exact .inl ((turned_addPeer req).bind fun _ => trivial)
  · obtain rfl := Option.some.inj h
    exact .inl ((turned_removePeer req).bind fun _ => trivial)
  · obtain rfl := Option.some.inj h
    exact .inl (turned_of_calm (((only_cmdTunnelStatus req).mono fun _ => Op.Looks.calm).bind fun _ => trivial))
  · obtain rfl := Option.some.inj h
    exact .inl (turned_of_calm ((only_cmdSetTunnelState req).bind fun _ => trivial))
  · cases h

theorem amid_of_calm {P : Confs → Prop} {p : Cmd α} (hp : Prog.Only Op.Calm p) {done : Nat} (hs : P s.confs) :
    Amid i done s p P :=
  amid_of_only (hp.mono fun _ h => h.sparesConf) hs

/-- A command that is broken off in its first turn has made some of its edits, or begun a file. -/
theorem amid_dispatch {cmd : String} {handler : Request → Cmd Result} (h : dispatch cmd = some handler)
    (req : Request) (i done : Nat) (s : Shared) :
    Amid i done s (handler req) (Made (tornOf cmd req done ++ editsOf cmd req) s.confs) := by
  have hnothing := fun es => made_nothing es s.confs
  unfold dispatch at h
  split at h
  · obtain rfl := Option.some.inj h
    refine amid_of_calm ?_ (hnothing _)
    exact (only_cmdGenkey req).bind fun _ => trivial
  · obtain rfl := Option.some.inj h
    exact (amid_createTunnel req done).bind_only fun _ => trivial
  · obtain rfl := Option.some.inj h
    have hwaits : Amid i done s (cmdDeleteTunnel req) (· = s.confs) := by
      intro n
      rw [cmdDeleteTunnel]
      cases validateTunnelName (Json.get req "name") with
      | error e => cases n <;> rfl
      | ok name => cases n <;> rfl
    exact Amid.bind_only (fun n => (hwaits n).symm ▸ hnothing _) fun _ => trivial
  · obtain rfl := Option.some.inj h
    exact (amid_addPeer req done).bind_only fun _ => trivial
  · obtain rfl := Option.some.inj h
    exact (amid_removePeer req done).bind_only fun _ => trivial
  · obtain rfl := Option.some.inj h
    refine amid_of_calm ?_ (hnothing _)
    exact ((only_cmdTunnelStatus req).mono fun _ => Op.Looks.calm).bind fun _ => trivial
  · obtain rfl := Option.some.inj h
    refine amid_of_calm ?_ (hnothing _)
    exact (only_cmdSetTunnelState req).bind fun _ => trivial
  · cases h

end

/-! ## One edit after another -/

section
variable {repr : Json → String}

/-- Only a request of the caller that may is dispatched. -/
theorem serve_cases (repr : Json → String) (c : Caller) : Prog.Only Op.Calm (serve repr c) ∨
    ∃ cmd req handler, c.request = some (cmd, req) ∧ dispatch cmd = some handler ∧
      serve repr c = (do pure (some (← reply repr (.str cmd) (handler req)))) := by
  unfold serve handleClient Caller.request
  cases c.allowedUid with
  | none => exact .inl ⟨trivial, fun _ => trivial⟩
  | some uid =>
    dsimp only
    by_cases huid : c.uid = uid
    · rw [if_neg (not_not.mpr huid), if_pos (congrArg some huid.symm)]
      cases c.line with
      | eof | garbage => exact .inl trivial
      | json v =>
        cases v with
        | obj req =>
          dsimp only
          cases Json.get req "cmd" with
          | str cmd =>
            dsimp only
            cases hcmd : dispatch cmd with
            | none => exact .inl trivial
            | some handler => exact .inr ⟨cmd, req, handler, rfl, hcmd, rfl⟩
          | _ => exact .inl trivial
        | _ => exact .inl trivial
    · rw [if_pos huid]
      exact .inl ⟨trivial, fun _ => trivial⟩

theorem only_answered (cmd : Json) (r : Except Fault Result) : Prog.Only Op.Calm
    (match r with
      | .ok result => pure (.ok result)
      | .error (.helper e) => do
        logRecord (errorRecord .warning "command_rejected" "helper.command.rejected" cmd (e.message repr))
        pure (.error (e.message repr))
      | .error (.other text) => do
        logRecord (errorRecord .error "command_failed" "helper.command.failed" cmd text)
        pure (.error "internal error") : Cmd Response) := by
  rcases r with (e | text) | result
  · exact ⟨trivial, fun _ => trivial⟩
  · exact ⟨trivial, fun _ => trivial⟩
  · trivial

theorem Turned.reply {i : Nat} {s : Shared} {v : Confs} {p : Cmd Result} (hp : Turned i s p v)
    (repr : Json → String) (cmd : Json) :
    Turned i s (do pure (some (← Helper.reply repr cmd p))) v := by
  have hreply : Turned i s (Helper.reply repr cmd p) v := hp.attempt.bind fun r =>
    (only_answered cmd r).mono fun _ h => h.sparesConf
  exact hreply.bind fun _ => trivial

theorem Deletes.reply {name : TunnelName} {p : Cmd Result} (hp : Deletes name p) (repr : Json → String)
    (cmd : Json) :
    Deletes name (do pure (some (← Helper.reply repr cmd p))) := by
  have hreply : Deletes name (Helper.reply repr cmd p) := hp.attempt.bind fun r =>
    (only_answered cmd r).mono fun _ h => h.sparesConf
  exact hreply.bind fun _ => trivial

theorem Amid.reply {i done : Nat} {s : Shared} {P : Confs → Prop} {p : Cmd Result} (hp : Amid i done s p P)
    (repr : Json → String) (cmd : Json) : Amid i done s (do pure (some (← Helper.reply repr cmd p))) P := by
  have hreply : Amid i done s (Helper.reply repr cmd p) P := hp.attempt.bind_only fun r =>
    (only_answered cmd r).mono fun _ h => h.sparesConf
  exact hreply.bind_only fun _ => trivial

abbrev Pays := Pool.Pays awaits answer Shared.confs Edit.apply Owes

theorem pays_of_only {es : List Edit} {p : Cmd (Option Response)} (h : Prog.Only Op.SparesConf p) (i : Nat)
    (s : Shared) :
    Pays es p i s :=
  have hturned := turned_of_only (i := i) (s := s) h
  ⟨[], [], List.nil_sublist _, hturned.1, .inl hturned.2⟩

/-- A deletion is paid for when its subprocess has run. -/
theorem Deletes.pays {name : TunnelName} {p : Cmd (Option Response)} {o : Op}
    {k : o.Answer → Cmd (Option Response)} (hp : Deletes name p) (hpo : p = .op o k)
    (x : o.Answer) (i : Nat) (s : Shared) :
    Pays [.delete name] (k x) i s := by
  obtain ⟨c, k', rfl, hk⟩ := hp
  obtain ⟨rfl, rfl⟩ := hpo
  rcases hk x with honly | ⟨k'', hx, honly⟩
  · exact pays_of_only honly i s
  · have hturned := turned_of_only (i := i) (s := { s with conf := s.conf.erase name.text }) honly
    have herased : (Edit.delete name).apply s.confs = (s.conf.erase name.text).lookup := (confs_erase _ _).symm
    rw [hx]
    exact ⟨[.delete name], [], List.Sublist.refl _, hturned.1.trans herased.symm, .inl hturned.2⟩

theorem Deletes.amid {name : TunnelName} {p : Cmd (Option Response)} {o : Op}
    {k : o.Answer → Cmd (Option Response)} (hp : Deletes name p) (hpo : p = .op o k)
    (x : o.Answer) (i done : Nat) (s : Shared) : Amid i done s (k x) (Made [.delete name] s.confs) := by
  obtain ⟨c, k', rfl, hk⟩ := hp
  obtain ⟨rfl, rfl⟩ := hpo
  rcases hk x with honly | ⟨k'', hx, honly⟩
  · exact amid_of_only honly (made_nothing _ _)
  · have herased : (Edit.delete name).apply s.confs = (s.conf.erase name.text).lookup := (confs_erase _ _).symm
    rw [hx]
    refine amid_op (o := .unlinkConf name.text) rfl (made_nothing _ _) ?_ fun _ => honly
    change Made _ _ (s.conf.erase name.text).lookup
    rw [← herased]
    exact made_one List.mem_cons_self _

abbrev Leaves (es : List Edit) (p : Cmd (Option Response)) (i n done : Nat) (s : Shared) : Prop :=
  Pool.Leaves awaits answer half Shared.confs Edit.apply es p i n done s

theorem leaves_of_amid {es : List Edit} {p : Cmd (Option Response)} {i done : Nat} {s : Shared}
    (h : Amid i done s p (Made es s.confs)) (n : Nat) : Leaves es p i n done s := h n

theorem contract_serve :
    Pool.Contract awaits answer half Shared.confs Edit.apply (serve repr) Caller.edits Caller.torn Owes where
  enter c i s := by
    rcases serve_cases repr c with honly | ⟨cmd, req, handler, hreq, hcmd, hserve⟩
    · exact pays_of_only (honly.mono fun _ h => h.sparesConf) i s
    · have hedits : c.edits = editsOf cmd req := by rw [Caller.edits, hreq, Option.elim_some]
      rw [hserve, hedits]
      rcases turned_dispatch hcmd req i s with hturned | ⟨name, hname, hdeletes⟩
      · have hdone := hturned.reply repr (.str cmd)
        exact ⟨editsOf cmd req, [], by rw [List.append_nil], hdone.1, .inl hdone.2⟩
      · have hwaits := hdeletes.reply repr (.str cmd)
        have hturn : Pool.turn awaits answer i _ s = (_, s) := hwaits.turn i s
        refine ⟨[], [.delete name], by rw [hname, List.nil_append], ?_, .inr ⟨name, rfl, ?_⟩⟩
        · rw [hturn]
          rfl
        · rw [hturn]
          exact hwaits
  resume es o k howes x i s := by
    rcases howes with honly | ⟨name, rfl, hdeletes⟩
    · exact pays_of_only (honly.2 x) i s
    · exact hdeletes.pays rfl x i s
  entering c i n done s := by
    rcases serve_cases repr c with honly | ⟨cmd, req, handler, hreq, hcmd, hserve⟩
    · exact leaves_of_amid (amid_of_calm honly (made_nothing _ _)) n
    · have hedits : c.torn done ++ c.edits = tornOf cmd req done ++ editsOf cmd req := by
        rw [Caller.torn, Caller.edits, hreq, Option.elim_some, Option.elim_some]
      rw [hserve, hedits]
      exact leaves_of_amid ((amid_dispatch hcmd req i done s).reply repr (.str cmd)) n
  resuming es o k howes x i n done s := by
    rcases howes with honly | ⟨name, rfl, hdeletes⟩
    · exact leaves_of_amid (amid_of_only (honly.2 x) (made_nothing _ _)) n
    · exact leaves_of_amid (hdeletes.amid rfl x i done s) n

/-- However the connections overlap, whoever calls, whatever the subprocesses do and wherever the
helper is killed: step by step the conf files change by edits that the connection taking the step
may make, and in all its turns together none makes an edit of its request twice. -/
theorem conf_files_change_by_edits {events : List Event} {p p' : Process}
    (hrun : Transition.steps (step repr) events p = some p') (hspares : ∀ e ∈ events, e.Spares Shared.confs)
    (hidle : p.sessions = []) :
    ∃ made, Pool.Changes awaits answer half Shared.confs Edit.apply (serve repr) Caller.edits Caller.torn events
        p [] made ∧
      made.flatten.Subperm (Pool.changesOf Caller.edits Caller.torn events) :=
  Pool.changes_of_run contract_serve hrun hspares hidle

/-- A subprocess ends; nothing else is asked of it. -/
def ends (r : Outcome) : Prog.Handler Sys Shared
  | .run _, s => (r, s)
  | o, s => ((answer 0 o s).1, s)

theorem ends_spares (r : Outcome) (o : Op) (s : Shared) : (ends r o s).2 = s := by
  cases o <;> rfl

/-- A tunnel that is up. -/
def sampleService : Process := ⟨⟨emptyState.conf.set "wg0" interfaceMark, fun _ => true, fun _ => none⟩, []⟩

def sampleCaller (uid : Nat) (req : Request) : Caller := ⟨some 990, uid, .json (.obj req)⟩

def secondTunnel : Request := ("name", .str "wg1") :: createRequest plainAddress

/-- The application adds a peer, and `wg set` fails; meanwhile somebody else tries to delete the
tunnel. Then the helper is killed when it has written a part of a second tunnel's file. -/
def sampleCalls : List Event :=
  [.enter (sampleCaller 990 (addRequest plainAddress)),
    .enter (sampleCaller 1000 [("cmd", .str "delete_tunnel"), ("name", .str "wg0")]),
    .resume 0 (ends (.exited 1 [] [])), .killEntering (sampleCaller 990 secondTunnel) 1 11]

theorem sampleCalls_spare : ∀ e ∈ sampleCalls, e.Spares Shared.confs := by
  intro e he
  simp only [sampleCalls, List.mem_cons, List.not_mem_nil, or_false] at he
  rcases he with rfl | rfl | rfl | rfl
  · trivial
  · trivial
  · exact fun o s => congrArg Shared.confs (ends_spares _ o s)
  · trivial

theorem sample_calls_edit_once :
    (Transition.steps (step fun _ => "") sampleCalls sampleService).map (fun p => p.shared.confs "wg1") =
        some (some interfaceMark) ∧
      ∀ p', Transition.steps (step fun _ => "") sampleCalls sampleService = some p' →
        ∃ made, Pool.Changes awaits answer half Shared.confs Edit.apply (serve fun _ => "") Caller.edits
            Caller.torn sampleCalls sampleService [] made ∧
          made.flatten.Subperm (Pool.changesOf Caller.edits Caller.torn sampleCalls) :=
  ⟨by decide +kernel, fun _ hrun => conf_files_change_by_edits hrun sampleCalls_spare rfl⟩

end

end Helper.Service
