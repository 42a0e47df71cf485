import PiVpn.Helper.Service

/-! The temporary files with preshared keys: each is there while the `wg set` that reads it runs,
and at no other time. -/

namespace Helper.Service
open Text Effect

/-! ## The file a connection needs -/

/-- What a request to add a peer puts into its key file. -/
def keyFileOf : String → Request → Option Text
  | "add_peer", req => (readAddPeer req).toOption.bind fun r => r.presharedKey.map fun k => k.text ++ ['\n']
  | _, _ => none

def Caller.keyFile (c : Caller) : Option Text := c.request.bind fun (cmd, req) => keyFileOf cmd req

/-- What is there when the question is asked. -/
def fileAt (file : Option Text) : Op → Option Text
  | .run c => if takesKeyFile c then file else none
  | .unlinkPsk => file
  | _ => none

/-- The file after the question. -/
def nextFile : Op → Option Text → Option Text
  | .createPsk content, _ => some content
  | .unlinkPsk, _ => none
  | _, w => w

abbrev HoldsFile {α : Type} (file : Option Text) (p : Cmd α) (w : Option Text) : Prop :=
  Prog.Holds nextFile (fun o w => w = fileAt file o) (fun _ w => w = none) p w

def Op.Keyless : Op → Prop
  | .createPsk _ => False
  | .unlinkPsk => False
  | .run c => takesKeyFile c = false
  | _ => True

theorem Op.Calm.keyless {o : Op} (h : Op.Calm o) : Op.Keyless o := by
  cases o with
  | writeConf | createConf | unlinkConf | createPsk | unlinkPsk => exact h.elim
  | run => exact h
  | _ => trivial

section
variable {α β : Type} {file : Option Text}

theorem holdsFile_of_only {p : Cmd α} (hp : Prog.Only Op.Keyless p) : HoldsFile file p none := by
  refine Prog.Holds.of_only hp (fun o ho => ?_) fun o ho => ?_
  · cases o with
    | createPsk | unlinkPsk => exact ho.elim
    | run c => exact (if_neg (ne_true_of_eq_false ho)).symm
    | _ => rfl
  · cases o with
    | createPsk | unlinkPsk => exact ho.elim
    | _ => rfl

theorem HoldsFile.bind {p : Cmd α} {f : α → Cmd β} {w : Option Text} (hp : HoldsFile file p w)
    (hf : ∀ a, HoldsFile file (f a) none) : HoldsFile file (p >>= f) w := by
  refine Prog.Holds.bind (Prog.Holds.mono hp fun r w hw => ?_)
  subst hw
  cases r with
  | ok a => exact hf a
  | error e => rfl

/-- The key file is written before `wg set` reads it, and removed however that ends. -/
theorem holdsFile_setPeer (r : AddPeer) :
    HoldsFile (r.presharedKey.map fun k => k.text ++ ['\n']) (setPeer r) none := by
  unfold setPeer
  cases r.presharedKey with
  | none =>
    have hcalm : Prog.Only Op.Keyless (runChecked (.wgSetPeer r.tunnel.text r.publicKey.text r.allowedIps.str
        (keepaliveText r.keepalive) false) "wg set") := only_runChecked _ rfl
    exact holdsFile_of_only (Prog.Only.finally_ (hcalm.bind fun _ => trivial) trivial)
  | some k =>
    have honly := only_runChecked (N := fun o => o = Op.run (.wgSetPeer r.tunnel.text r.publicKey.text
      r.allowedIps.str (keepaliveText r.keepalive) true)) "wg set" rfl
    have hbody := honly.bind (f := fun _ => (pure () : Cmd Unit)) fun _ => trivial
    refine Prog.Holds.finally_ ⟨rfl, fun _ => (Prog.Holds.of_only hbody ?_ ?_).mono ?_⟩
    · rintro _ rfl
      rfl
    · rintro _ rfl
      rfl
    · rintro _ _ rfl
      exact ⟨rfl, fun _ => rfl⟩

theorem holdsFile_cmdAddPeer (req : Request) : HoldsFile (keyFileOf "add_peer" req) (cmdAddPeer req) none := by
  change HoldsFile ((readAddPeer req).toOption.bind fun r => r.presharedKey.map fun k => k.text ++ ['\n'])
    _ none
  rw [cmdAddPeer]
  cases readAddPeer req with
  | error e => rfl
  | ok r =>
    have hread : HoldsFile (r.presharedKey.map fun k => k.text ++ ['\n']) (readConf r.tunnel.text) none :=
      holdsFile_of_only (only_readConf trivial)
    refine hread.bind fun content => HoldsFile.bind (holdsFile_of_only (only_require _ _)) fun _ => ?_
    refine ⟨rfl, fun _ => ⟨rfl, fun up => ?_⟩⟩
    cases up with
    | true => exact holdsFile_setPeer r
    | false => rfl

theorem only_cmdCreateTunnel (req : Request) : Prog.Only Op.Keyless (cmdCreateTunnel req) :=
  (only_lift _).bind fun _ => ⟨trivial, fun _ => (only_require _ _).bind fun _ => ⟨trivial, fun _ => trivial⟩⟩

theorem only_cmdDeleteTunnel (req : Request) : Prog.Only Op.Keyless (cmdDeleteTunnel req) := by
  have hcommand : ∀ verb name, Prog.Only Op.Keyless (runCommand (.systemctl verb name)) :=
    fun _ _ => only_runCommand rfl
  exact (only_lift _).bind fun _ => (hcommand _ _).bind fun _ => ⟨trivial, fun _ => trivial⟩

theorem only_cmdRemovePeer (req : Request) : Prog.Only Op.Keyless (cmdRemovePeer req) := by
  have hremove : ∀ tunnel key, Prog.Only Op.Keyless (runChecked (.wgRemovePeer tunnel key) "wg set remove") :=
    fun _ _ => only_runChecked _ rfl
  refine (only_lift _).bind fun r => (only_readConf trivial).bind fun content =>
    ⟨trivial, fun _ => ⟨trivial, fun up => ?_⟩⟩
  cases up with
  | true => exact (hremove _ _).bind fun _ => trivial
  | false => trivial

theorem holdsFile_dispatch {cmd : String} {handler : Request → Cmd Result} (h : dispatch cmd = some handler)
    (req : Request) : HoldsFile (keyFileOf cmd req) (handler req) none := by
  unfold dispatch at h
  split at h
  · obtain rfl := Option.some.inj h
    exact holdsFile_of_only (((only_cmdGenkey req).mono fun _ ho => ho.keyless).bind fun _ => trivial)
  · obtain rfl := Option.some.inj h
    exact holdsFile_of_only ((only_cmdCreateTunnel req).bind fun _ => trivial)
  · obtain rfl := Option.some.inj h
    exact holdsFile_of_only ((only_cmdDeleteTunnel req).bind fun _ => trivial)
  · obtain rfl := Option.some.inj h
    exact (holdsFile_cmdAddPeer req).bind fun _ => rfl
  · obtain rfl := Option.some.inj h
    exact holdsFile_of_only ((only_cmdRemovePeer req).bind fun _ => trivial)
  · obtain rfl := Option.some.inj h
    have hstatus : Prog.Only Op.Keyless (cmdTunnelStatus req) :=
      (only_cmdTunnelStatus req).mono fun _ ho => (Op.Looks.calm ho).keyless
    exact holdsFile_of_only (hstatus.bind fun _ => trivial)
  · obtain rfl := Option.some.inj h
    exact holdsFile_of_only (((only_cmdSetTunnelState req).mono fun _ ho => ho.keyless).bind fun _ => trivial)
  · cases h

/-- A connection holds no key file at first, and none at the end. -/
theorem holdsFile_serve (repr : Json → String) (c : Caller) : HoldsFile c.keyFile (serve repr c) none := by
  rcases serve_cases repr c with honly | ⟨cmd, req, handler, hreq, hcmd, hserve⟩
  · exact holdsFile_of_only (honly.mono fun _ ho => ho.keyless)
  · have hfile : c.keyFile = keyFileOf cmd req := by rw [Caller.keyFile, hreq, Option.bind_some]
    have hattempt : HoldsFile (keyFileOf cmd req) (handler req).attempt none :=
      Prog.Holds.attempt (holdsFile_dispatch hcmd req)
    have hreply : HoldsFile (keyFileOf cmd req) (reply repr (.str cmd) (handler req)) none :=
      hattempt.bind fun r => holdsFile_of_only ((only_answered (.str cmd) r).mono fun _ ho => ho.keyless)
    rw [hserve, hfile]
    exact hreply.bind fun _ => rfl

end

/-! ## While the helper serves -/

/-- The key file of the `i`-th connection. -/
def pskFile (i : Nat) (s : Shared) : Option Text := s.psk i

theorem apart_pskFile : Pool.Apart awaits answer pskFile nextFile where
  mine i o s := by
    cases o with
    | createPsk | unlinkPsk => exact Function.update_self _ _ _
    | _ => rfl
  others i j o s hne := by
    cases o with
    | createPsk | unlinkPsk => exact Function.update_of_ne hne _ _
    | _ => rfl
  waiting o w h := by
    cases o with
    | run => rfl
    | _ => cases h

/-- The key file of a connection that waits for `wg set`. -/
def fileInUse (x : Pool.Session Sys Fault (Option Response) Caller) : Option Text :=
  match x.rest with
  | .op (.run c) _ => if takesKeyFile c then x.tag.keyFile else none
  | _ => none

/-- As long as the helper is not killed, there is a key file for each `wg set` under way that
needs one, with the key of its request, and no other. -/
theorem key_files_are_in_use {repr : Json → String} {events : List Event} {p p' : Process}
    (hrun : Transition.steps (step repr) events p = some p') (hleaves : ∀ e ∈ events, e.Leaves pskFile)
    (hidle : p.sessions = []) (hempty : ∀ i, p.shared.psk i = none) (i : Nat) :
    p'.shared.psk i = (p'.sessions[i]?).bind fileInUse := by
  have hstart : Pool.Held awaits pskFile nextFile (fun c o w => w = fileAt (Caller.keyFile c) o)
      (fun _ _ w => w = none) none p := by
    refine ⟨fun i x hi => ?_, fun i _ => hempty i⟩
    rw [hidle] at hi
    cases hi
  have hheld := Pool.held_of_run apart_pskFile (fun c => holdsFile_serve repr c) hstart hleaves hrun
  cases hi : p'.sessions[i]? with
  | none => exact hheld.later i (List.getElem?_eq_none_iff.mp hi)
  | some x =>
    obtain ⟨hpaused, hholds⟩ := hheld.session i x hi
    rw [Option.bind_some, fileInUse]
    obtain ⟨c, rest⟩ := x
    cases rest with
    | pure a => exact hholds
    | raise e => exact hholds
    | op o k =>
      cases o with
      | run cmd => exact hholds.1
      | _ => cases hpaused

/-- A peer with a preshared key is being added; a status request comes and goes. -/
def keyedCalls : List Event :=
  [.enter (sampleCaller 990 (("preshared_key", .str (String.ofList sampleKey)) :: addRequest plainAddress)),
    .enter (sampleCaller 990 [("cmd", .str "tunnel_status")]), .resume 1 (ends (.notStarted "wg"))]

theorem keyed_calls_use_files : (Transition.steps (step fun _ => "") keyedCalls sampleService).isSome ∧
    ∀ p', Transition.steps (step fun _ => "") keyedCalls sampleService = some p' →
      ∀ i, p'.shared.psk i = (p'.sessions[i]?).bind fileInUse := by
  have hleaves : ∀ e ∈ keyedCalls, e.Leaves pskFile := by
    intro e he
    simp only [keyedCalls, List.mem_cons, List.not_mem_nil, or_false] at he
    rcases he with rfl | rfl | rfl
    · trivial
    · trivial
    · exact fun o s i => congrArg (pskFile i) (ends_spares _ o s)
  exact ⟨by decide +kernel, fun _ hrun i => key_files_are_in_use hrun hleaves rfl (fun _ => rfl) i⟩

end Helper.Service
