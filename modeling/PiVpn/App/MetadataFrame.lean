import PiVpn.App.Consistency

/-! What creating or deleting one tunnel does to the metadata of the others. A file that
cannot be read is loaded as an empty store, and the save at the end puts that store in
its place; a broken file ends the request before its save. -/

namespace App
open Text Cidr Ipaddress Effect Helper

/-! ## Calls and the metadata file -/

section calls
variable {env : AppEnv} {w : World}

/-- The helper runs the request and answers with a result. -/
def Succeeds (env : AppEnv) (req : Request) (w : World) : Prop :=
  ∃ res, (serve env req w).1 = .response (.ok res)

theorem runApi_call_ok {cmd : String} (params : Request) {res : Result}
    (h : (serve env (("cmd", .str cmd) :: params) w).1 = .response (.ok res)) :
    runApi env (call cmd params) w =
      (.ok res, (serve env (("cmd", .str cmd) :: params) w).2) := by
  unfold call
  rw [runApi_bind, runApi_askHelper]
  simp only [h]
  rfl

/-- A call that does not succeed ends the request, which has then saved nothing. -/
theorem runApi_call_failed {cmd : String} (params : Request)
    (h : ¬ Succeeds env (("cmd", .str cmd) :: params) w) :
    ∃ e w', runApi env (call cmd params) w = (.error e, w') ∧ w'.metadata = w.metadata := by
  have hmeta : (serve env (("cmd", .str cmd) :: params) w).2.metadata = w.metadata := serve_metadata
  unfold call
  rw [runApi_bind, runApi_askHelper]
  cases hreply : (serve env (("cmd", .str cmd) :: params) w).1 with
  | unreachable e => exact ⟨_, _, rfl, hmeta⟩
  | empty => exact ⟨_, _, rfl, hmeta⟩
  | garbage => exact ⟨_, _, rfl, hmeta⟩
  | response r =>
    cases r with
    | error e => exact ⟨_, _, rfl, hmeta⟩
    | ok res => exact absurd ⟨res, hreply⟩ h

theorem call_ok {cmd : String} {params : Request} {res : Result} {w' : World}
    (h : runApi env (call cmd params) w = (.ok res, w')) :
    (serve env (("cmd", .str cmd) :: params) w).1 = .response (.ok res) ∧
      w' = (serve env (("cmd", .str cmd) :: params) w).2 := by
  by_cases hs : Succeeds env (("cmd", .str cmd) :: params) w
  · obtain ⟨res', hres⟩ := hs
    have hcall := (runApi_call_ok params hres).symm.trans h
    obtain rfl : res' = res := Except.ok.inj (congrArg Prod.fst hcall)
    exact ⟨hres, (congrArg Prod.snd hcall).symm⟩
  · obtain ⟨e, w'', hfail, -⟩ := runApi_call_failed params hs
    exact nomatch hfail.symm.trans h

theorem runApi_refuseConflicts (start : String) (candidates : List IPNetwork) :
    runApi env (refuseConflicts start candidates) w =
      if ((env.netIfAddrs w.helper.live).flatMap (conflictsWith candidates)).isEmpty then (.ok (), w)
      else (.error (.http 409 (conflictDetail start
        ((env.netIfAddrs w.helper.live).flatMap (conflictsWith candidates)))), w) := by
  unfold refuseConflicts overlappingLocalSubnets
  rw [runApi_bind, runApi_bind, runApi_netIfAddrs]
  simp only [runApi_pure]
  split <;> rfl

end calls

/-! ## The frame of a request -/

/-- The entries of all tunnels but one are the same, and a file that could not be read
is left alone. -/
structure KeepsOthers (name : String) (f f' : MetadataFile) : Prop where
  unread : ∀ e, f = .unreadable e ∨ f = .broken e → f' = f
  others : ∀ other, other ≠ name → f'.loaded.lookup other = f.loaded.lookup other

/-- The read fails, and `_load_metadata` catches what it raises. -/
def MetadataFile.Swallowed (f : MetadataFile) : Prop := ∃ e, f = .unreadable e

/-- The file after a store that was loaded from it is changed and saved. -/
def MetadataFile.saved (change : Metadata → Metadata) : MetadataFile → MetadataFile
  | .broken e => .broken e
  | f => .data (change f.loaded)

theorem KeepsOthers.refl (name : String) (f : MetadataFile) : KeepsOthers name f f :=
  ⟨fun _ _ => rfl, fun _ _ => rfl⟩

/-- A save is right exactly where no error of the read was swallowed. -/
theorem keepsOthers_saved {name : String} {change : Metadata → Metadata} (f : MetadataFile)
    (h : ∀ m other, other ≠ name → List.lookup other (change m) = m.lookup other) :
    KeepsOthers name f (f.saved change) ↔ ¬ f.Swallowed := by
  constructor
  · rintro hkeep ⟨e, rfl⟩
    cases hkeep.unread e (.inl rfl)
  · intro hread
    cases f with
    | absent => exact ⟨fun e he => by simp at he, h _⟩
    | unreadable e => exact absurd ⟨e, rfl⟩ hread
    | broken e => exact .refl name _
    | data m => exact ⟨fun e he => by simp at he, h m⟩

/-- Load, change, save: how both requests end. -/
theorem runApi_saved {env : AppEnv} {w : World} (change : Metadata → Metadata) (r : LogRecord)
    (response : HttpResponse) :
    (runApi env (do
      let metadata ← loadMetadata
      writeMetadata (change metadata)
      log r
      pure response) w).2.metadata = w.metadata.saved change := by
  by_cases hload : w.metadata.Loads
  · simp only [runApi_bind, runApi_loadMetadata hload, runApi_writeMetadata, runApi_log, runApi_pure]
    cases hf : w.metadata with
    | broken e => exact absurd hf (hload e)
    | absent => rfl
    | unreadable e => rfl
    | data m => rfl
  · obtain ⟨e, he⟩ := not_forall_not.mp hload
    rw [runApi_bind, runApi_loadMetadata_broken he, he]
    rfl

/-! ## Saves that fail -/

/-- Where a save raises, the file stays as it is. -/
def savingHandler (env : AppEnv) (save : Option String) : Prog.Handler Web World
  | .writeMetadata m, w => (save, if save.isSome then w else { w with metadata := .data m })
  | a, w => webHandler env a w

/-- A request whose save may raise. -/
def runSaving {α : Type} (env : AppEnv) (save : Option String) (p : Api α) (w : World) : Except Failure α × World :=
  p.exec (savingHandler env save) w

theorem runSaving_none {α : Type} (env : AppEnv) (p : Api α) (w : World) :
    runSaving env none p w = runApi env p w := by
  have hhandler : savingHandler env none = webHandler env := by
    funext a w
    cases a <;> rfl
  rw [runSaving, runApi, hhandler]

theorem runSaving_raises {α : Type} (env : AppEnv) (e : String) (p : Api α) (w : World) :
    (runSaving env (some e) p w).2.metadata = w.metadata := by
  induction p generalizing w with
  | pure a => rfl
  | raise e => rfl
  | op o k ih =>
    refine (ih _ _).trans ?_
    cases o with
    | helper req => exact serve_metadata
    | readMetadata => rfl
    | writeMetadata m => rfl
    | netIfAddrs => rfl
    | uuid4 => rfl
    | log r => rfl

/-! ## Deleting a tunnel -/

/-- The request that `delete_tunnel` sends is answered, so it gets to load and save. -/
def DeleteSaves (env : AppEnv) (name : String) (w : World) : Prop :=
  Succeeds env (deleteTunnelRequest name) w

theorem deleteTunnel_saves {env : AppEnv} {name : String} {w : World} (user : User)
    (h : DeleteSaves env name w) :
    (runApi env (deleteTunnel name user) w).2.metadata = w.metadata.saved (·.pop name) := by
  obtain ⟨res, hres⟩ := h
  have hcall := runApi_call_ok [("name", .str name)] hres
  unfold deleteTunnel Client.deleteTunnel
  rw [runApi_bind, runApi_bind, hcall]
  simp only [runApi_pure]
  exact (runApi_saved (·.pop name) _ _).trans (by rw [serve_metadata])

theorem deleteTunnel_stopped {env : AppEnv} {name : String} {w : World} (user : User)
    (h : ¬ DeleteSaves env name w) :
    (runApi env (deleteTunnel name user) w).2.metadata = w.metadata := by
  obtain ⟨e, w', hcall, hmeta⟩ := runApi_call_failed [("name", .str name)] h
  unfold deleteTunnel Client.deleteTunnel
  rw [runApi_bind, runApi_bind, hcall]
  exact hmeta

/-! ## Creating a tunnel -/

/-- `create_tunnel` once no overlap is in its way. -/
def createTunnelChecked (payload : TunnelCreateRequest) (user : User) : Api HttpResponse := do
  let keypair ← Client.genkey
  let address := (IPInterface.v4 payload.address).str
  Client.createTunnel payload.name address payload.listenPort keypair.privateKey
  let metadata ← loadMetadata
  writeMetadata (metadata.put payload.name ⟨address, payload.endpoint, payload.listenPort, []⟩)
  log (infoLog "tunnel_created" "wireguard.tunnel.created" user [("tunnel", .str payload.name)])
  pure ⟨201, .json (.obj [("name", .str payload.name),
    ("public_key", jsonText keypair.publicKey)])⟩

/-- The overlap check lets the request through. -/
def CreateAllowed (env : AppEnv) (payload : TunnelCreateRequest) (w : World) : Prop :=
  payload.force = true ∨ ((env.netIfAddrs w.helper.live).flatMap
    (conflictsWith [.v4 payload.address.network])).isEmpty = true

/-- `create_tunnel` is let through and both of its calls are answered, so it gets to load
and save. -/
def CreateSaves (env : AppEnv) (payload : TunnelCreateRequest) (w : World) : Prop :=
  CreateAllowed env payload w ∧
  ∃ keys, (serve env genkeyRequest w).1 = .response (.ok keys) ∧
    Succeeds env (createTunnelRequest payload.name (IPInterface.v4 payload.address).str
      payload.listenPort (keysOf keys).privateKey) (serve env genkeyRequest w).2

section create
variable {env : AppEnv} {payload : TunnelCreateRequest} {w : World} (user : User)

theorem createTunnel_allowed (h : CreateAllowed env payload w) :
    runApi env (createTunnel payload user) w = runApi env (createTunnelChecked payload user) w := by
  unfold createTunnel
  split
  · rfl
  · next hforce =>
    have hfree := h.resolve_left hforce
    rw [runApi_bind, runApi_refuseConflicts, if_pos hfree]
    rfl

theorem createTunnel_refused (h : ¬ CreateAllowed env payload w) :
    (runApi env (createTunnel payload user) w).2 = w := by
  have hforce : payload.force ≠ true := fun hf => h (.inl hf)
  have hfull := fun hf => h (.inr hf)
  unfold createTunnel
  rw [if_neg hforce, runApi_bind, runApi_refuseConflicts, if_neg hfull]

theorem createTunnelChecked_saves {keys : Result}
    (hkeys : (serve env genkeyRequest w).1 = .response (.ok keys))
    (hsent : Succeeds env (createTunnelRequest payload.name (IPInterface.v4 payload.address).str
      payload.listenPort (keysOf keys).privateKey) (serve env genkeyRequest w).2) :
    (runApi env (createTunnelChecked payload user) w).2.metadata = w.metadata.saved fun m => m.put payload.name
      ⟨(IPInterface.v4 payload.address).str, payload.endpoint, payload.listenPort, []⟩ := by
  obtain ⟨res, hres⟩ := hsent
  have hgenkey := runApi_call_ok [] hkeys
  have hcreate := runApi_call_ok [("name", .str payload.name),
    ("address", jsonText (IPInterface.v4 payload.address).str),
    ("listen_port", .int payload.listenPort), ("private_key", jsonText (keysOf keys).privateKey)] hres
  unfold createTunnelChecked Client.genkey Client.createTunnel
  rw [runApi_bind, runApi_bind, hgenkey]
  simp only [runApi_pure]
  rw [runApi_bind, runApi_bind]
  simp only [genkeyRequest] at hcreate
  rw [hcreate]
  simp only [runApi_pure]
  exact (runApi_saved _ _ _).trans (by rw [serve_metadata, serve_metadata])

theorem createTunnelChecked_stopped
    (h : ¬ ∃ keys, (serve env genkeyRequest w).1 = .response (.ok keys) ∧
      Succeeds env (createTunnelRequest payload.name (IPInterface.v4 payload.address).str
        payload.listenPort (keysOf keys).privateKey) (serve env genkeyRequest w).2) :
    (runApi env (createTunnelChecked payload user) w).2.metadata = w.metadata := by
  unfold createTunnelChecked Client.genkey Client.createTunnel
  by_cases hgenkey : Succeeds env genkeyRequest w
  · obtain ⟨keys, hkeys⟩ := hgenkey
    have hcreate : ¬ Succeeds env (createTunnelRequest payload.name
        (IPInterface.v4 payload.address).str payload.listenPort (keysOf keys).privateKey)
        (serve env genkeyRequest w).2 := fun hs => h ⟨keys, hkeys, hs⟩
    obtain ⟨e, w', hcall, hmeta⟩ := runApi_call_failed [("name", .str payload.name),
      ("address", jsonText (IPInterface.v4 payload.address).str),
      ("listen_port", .int payload.listenPort), ("private_key", jsonText (keysOf keys).privateKey)]
      hcreate
    rw [runApi_bind, runApi_bind, runApi_call_ok [] hkeys]
    simp only [runApi_pure]
    rw [runApi_bind, runApi_bind]
    simp only [genkeyRequest] at hcall
    rw [hcall]
    exact hmeta.trans serve_metadata
  · obtain ⟨e, w', hcall, hmeta⟩ := runApi_call_failed [] hgenkey
    rw [runApi_bind, runApi_bind, hcall]
    exact hmeta

theorem createTunnel_saves (h : CreateSaves env payload w) :
    (runApi env (createTunnel payload user) w).2.metadata = w.metadata.saved fun m => m.put payload.name
      ⟨(IPInterface.v4 payload.address).str, payload.endpoint, payload.listenPort, []⟩ := by
  obtain ⟨hallowed, keys, hkeys, hsent⟩ := h
  rw [createTunnel_allowed user hallowed]
  exact createTunnelChecked_saves user hkeys hsent

theorem createTunnel_stopped (h : ¬ CreateSaves env payload w) :
    (runApi env (createTunnel payload user) w).2.metadata = w.metadata := by
  by_cases hallowed : CreateAllowed env payload w
  · rw [createTunnel_allowed user hallowed]
    exact createTunnelChecked_stopped user fun hsent => h ⟨hallowed, hsent⟩
  · rw [createTunnel_refused user hallowed]

end create

/-! ## The frame -/

/-- A request keeps the metadata of the other tunnels exactly where no error of the read was
swallowed, or the save raised, or the request did not get to it. -/
theorem tunnel_requests_keep_others_iff (env : AppEnv) (user : User) (save : Option String) (w : World) :
    (∀ payload : TunnelCreateRequest,
      KeepsOthers payload.name w.metadata (runSaving env save (createTunnel payload user) w).2.metadata ↔
        ¬ w.metadata.Swallowed ∨ save.isSome = true ∨ ¬ CreateSaves env payload w) ∧
    ∀ name,
      KeepsOthers name w.metadata (runSaving env save (deleteTunnel name user) w).2.metadata ↔
        ¬ w.metadata.Swallowed ∨ save.isSome = true ∨ ¬ DeleteSaves env name w := by
  cases save with
  | some e => simp [runSaving_raises, KeepsOthers.refl]
  | none =>
    simp only [runSaving_none]
    constructor
    · intro payload
      by_cases hsaves : CreateSaves env payload w
      · rw [createTunnel_saves user hsaves, keepsOthers_saved _ fun m other h => lookup_put_ne h]
        simp [hsaves]
      · rw [createTunnel_stopped user hsaves]
        simp [hsaves, KeepsOthers.refl]
    · intro name
      by_cases hsaves : DeleteSaves env name w
      · rw [deleteTunnel_saves user hsaves, keepsOthers_saved _ fun m other h => lookup_pop_ne h]
        simp [hsaves]
      · rw [deleteTunnel_stopped user hsaves]
        simp [hsaves, KeepsOthers.refl]

/-- The sample world once its metadata file cannot be read. -/
def unreadableWorld : World := { sampleWorld with metadata := .unreadable "permission denied" }

/-- Deleting a tunnel replaces the file that could not be read by an empty one: what it
held of other tunnels is gone. -/
theorem unreadable_metadata_is_replaced :
    (runSaving sampleEnv none (deleteTunnel "wg0" none) unreadableWorld).2.metadata = .data [] ∧
      ¬ KeepsOthers "wg0" unreadableWorld.metadata
        (runSaving sampleEnv none (deleteTunnel "wg0" none) unreadableWorld).2.metadata := by
  have hdone : (serve sampleEnv (deleteTunnelRequest "wg0") unreadableWorld).1 =
      .response (.ok .done) := by decide +kernel
  have hsaves : DeleteSaves sampleEnv "wg0" unreadableWorld := ⟨_, hdone⟩
  have hfile := deleteTunnel_saves none hsaves
  rw [runSaving_none]
  refine ⟨hfile, fun hkeep => ?_⟩
  have hsame := hkeep.unread "permission denied" (.inl rfl)
  rw [hfile] at hsame
  cases hsame

end App
