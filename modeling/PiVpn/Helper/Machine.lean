import PiVpn.Helper.Daemon

/-! The system the helper runs on, and what each command does to it. -/

namespace Helper
open Text Effect

/-! ## The directory of conf files -/

structure ConfDir where
  entries : List (String × Text)
  nodup : (entries.map Prod.fst).Nodup

namespace ConfDir

def lookup (d : ConfDir) (name : String) : Option Text := d.entries.lookup name

def erase (d : ConfDir) (name : String) : ConfDir :=
  ⟨d.entries.filter (·.1 ≠ name), d.nodup.sublist (List.filter_sublist.map _)⟩

theorem fst_ne_of_mem_erase {d : ConfDir} {name : String} {e : String × Text}
    (h : e ∈ (d.erase name).entries) : e.1 ≠ name := by
  simpa using (List.mem_filter.mp h).2

def set (d : ConfDir) (name : String) (content : Text) : ConfDir where
  entries := (name, content) :: (d.erase name).entries
  nodup := by
    refine List.nodup_cons.mpr ⟨fun h => ?_, (d.erase name).nodup⟩
    obtain ⟨e, he, hn⟩ := List.mem_map.mp h
    exact fst_ne_of_mem_erase he hn

/-- `sorted(p.stem for p in WIREGUARD_DIR.glob("*.conf"))`. -/
def names (d : ConfDir) : List String := (d.entries.map Prod.fst).mergeSort fun a b => a ≤ b

@[simp] theorem lookup_set_self (d : ConfDir) (name : String) (content : Text) :
    (d.set name content).lookup name = some content := by
  simp [lookup, set]

theorem lookup_filter_ne {α : Type} {es : List (String × α)} {name n : String} (h : n ≠ name) :
    (es.filter (·.1 ≠ name)).lookup n = es.lookup n := by
  induction es with
  | nil => rfl
  | cons e es ih =>
    obtain ⟨k, v⟩ := e
    by_cases hk : k = name
    · have hn : (n == k) = false := by simpa [hk] using h
      simp only [ne_eq, decide_not] at ih
      rw [List.lookup_cons, hn, ← ih]
      simp [hk]
    · simp only [ne_eq, decide_not] at ih
      simp [hk, List.lookup_cons, ih]

@[simp] theorem lookup_erase_self (d : ConfDir) (name : String) :
    (d.erase name).lookup name = none := by
  rw [lookup, List.lookup_eq_none_iff]
  intro e he
  simpa using (fst_ne_of_mem_erase he).symm

theorem lookup_erase_ne {d : ConfDir} {name n : String} (h : n ≠ name) :
    (d.erase name).lookup n = d.lookup n := lookup_filter_ne h

theorem lookup_set_ne {d : ConfDir} {name n : String} (h : n ≠ name) (content : Text) :
    (d.set name content).lookup n = d.lookup n := by
  rw [lookup, set, List.lookup_cons, beq_eq_false_iff_ne.mpr h]
  exact lookup_erase_ne h

theorem mem_names {d : ConfDir} {name : String} :
    name ∈ d.names ↔ ∃ content, d.lookup name = some content := by
  simp only [names, List.mem_mergeSort, lookup]
  induction d.entries with
  | nil => simp
  | cons e es ih =>
    obtain ⟨k, v⟩ := e
    by_cases hk : name = k
    · simp [hk]
    · simp [List.lookup_cons, hk, beq_eq_false_iff_ne.mpr hk, ← ih]

end ConfDir

/-! ## The system -/

/-- A peer of a live interface, as `wg set` describes it. -/
structure LivePeer where
  publicKey : Text
  allowedIps : Text
  keepalive : Option Text
  presharedKey : Option Text
  deriving DecidableEq

/-- The interfaces that are up, with their peers. -/
abbrev Live := String → Option (List LivePeer)

structure State where
  conf : ConfDir
  live : Live
  psk : Option Text
  log : List LogRecord
  tick : Nat

/-- What the subprocesses answer and do: they see the temporary key file and the live
interfaces, and the `n`-th one may behave in any way. -/
abbrev Env := Nat → Command → Option Text → Live → Outcome × Live

def State.afterRun (env : Env) (c : Command) (s : State) : State :=
  { s with live := (env s.tick c s.psk s.live).2, tick := s.tick + 1 }

def handler (env : Env) : Prog.Handler Sys State
  | .confExists name, s => ((s.conf.lookup name).isSome, s)
  | .readConf name, s => ((s.conf.lookup name).map universalNewlines, s)
  | .writeConf name content, s => ((), { s with conf := s.conf.set name content })
  | .createConf name content, s => ((), { s with conf := s.conf.set name content })
  | .unlinkConf name, s => ((), { s with conf := s.conf.erase name })
  | .confNames, s => (s.conf.names, s)
  | .interfaceUp name, s => ((s.live name).isSome, s)
  | .createPsk content, s => ((), { s with psk := some content })
  | .unlinkPsk, s => ((), { s with psk := none })
  | .run c, s => ((env s.tick c s.psk s.live).1, s.afterRun env c)
  | .log r, s => ((), { s with log := s.log ++ [r] })

/-- Run a command to its end. -/
def execute {α : Type} (env : Env) (c : Cmd α) (s : State) : Except Fault α × State :=
  c.exec (handler env) s

variable {env : Env} {s : State} {α β : Type}

@[simp] theorem execute_pure (a : α) : execute env (pure a) s = (.ok a, s) := rfl

@[simp] theorem execute_ret (a : α) : execute env (.pure a) s = (.ok a, s) := rfl

section asking

variable (name : String) (content : Text)

@[simp] theorem execute_confExists :
    execute env (confExists name) s = (.ok (s.conf.lookup name).isSome, s) := rfl

@[simp] theorem execute_readText :
    execute env (readText name) s = (.ok ((s.conf.lookup name).map universalNewlines), s) := rfl

@[simp] theorem execute_writeConf :
    execute env (writeConf name content) s =
      (.ok (), { s with conf := s.conf.set name content }) := rfl

@[simp] theorem execute_createConf :
    execute env (createConf name content) s =
      (.ok (), { s with conf := s.conf.set name content }) := rfl

@[simp] theorem execute_unlinkConf :
    execute env (unlinkConf name) s = (.ok (), { s with conf := s.conf.erase name }) := rfl

@[simp] theorem execute_confNames : execute env confNames s = (.ok s.conf.names, s) := rfl

@[simp] theorem execute_isInterfaceUp :
    execute env (isInterfaceUp name) s = (.ok (s.live name).isSome, s) := rfl

@[simp] theorem execute_createPsk :
    execute env (createPsk content) s = (.ok (), { s with psk := some content }) := rfl

@[simp] theorem execute_unlinkPsk :
    execute env unlinkPsk s = (.ok (), { s with psk := none }) := rfl

@[simp] theorem execute_subprocess (c : Command) :
    execute env (subprocess c) s = (.ok (env s.tick c s.psk s.live).1, s.afterRun env c) := rfl

@[simp] theorem execute_logRecord (r : LogRecord) :
    execute env (logRecord r) s = (.ok (), { s with log := s.log ++ [r] }) := rfl

end asking

theorem execute_bind (p : Cmd α) (f : α → Cmd β) :
    execute env (p >>= f) s =
      match execute env p s with
      | (.ok a, s') => execute env (f a) s'
      | (.error e, s') => (.error e, s') := by
  unfold execute
  rw [Prog.exec_bind]
  rcases p.exec (handler env) s with ⟨_ | _, _⟩ <;> rfl

@[simp] theorem execute_raise (e : Fault) : execute env (.raise e : Cmd α) s = (.error e, s) := rfl

@[simp] theorem execute_lift (x : Except Fault α) : execute env (lift x) s = (x, s) := by
  cases x <;> rfl

@[simp] theorem execute_require (c : Bool) (e : HelperError) :
    execute env (require c e) s = (if c then .ok () else .error (.helper e), s) := by
  cases c <;> rfl

@[simp] theorem execute_readConf (name : String) :
    execute env (readConf name) s =
      (match s.conf.lookup name with
        | some content => .ok (universalNewlines content)
        | none => .error (.helper (.invalid "tunnel not found")), s) := by
  rw [readConf, execute_bind, execute_readText]
  cases s.conf.lookup name <;> rfl

/-- What a subprocess yields. -/
def ran : Outcome → Except Fault (Int × Text × Text)
  | .exited rc out err => .ok (rc, out, err)
  | .notStarted e => .error (.other e)

/-- What a checked subprocess yields. -/
def checked (o : Outcome) (what : String) : Except Fault Text :=
  match o with
  | .exited rc out err => if rc = 0 then .ok out else .error (.helper (.failed what err))
  | .notStarted e => .error (.other e)

@[simp] theorem execute_runCommand (c : Command) :
    execute env (runCommand c) s = (ran (env s.tick c s.psk s.live).1, s.afterRun env c) := by
  rw [runCommand, execute_bind, execute_subprocess]
  simp only
  cases (env s.tick c s.psk s.live).1 <;> rfl

@[simp] theorem execute_runChecked (c : Command) (what : String) :
    execute env (runChecked c what) s =
      (checked (env s.tick c s.psk s.live).1 what, s.afterRun env c) := by
  rw [runChecked, execute_bind, execute_runCommand]
  cases (env s.tick c s.psk s.live).1 with
  | exited rc out err => by_cases h : rc = 0 <;> simp [ran, checked, h, execute_bind]
  | notStarted e => rfl

/-! ## What each command does -/

/-- The conf text with a further peer. -/
def withPeer (r : AddPeer) (content : Text) : Text :=
  rebuildConf (splitConf (universalNewlines content)).1
    ((splitConf (universalNewlines content)).2 ++ [peerText r])

/-- The conf text without the blocks that mention a key. -/
def withoutPeer (key : WgKey) (content : Text) : Text :=
  rebuildConf (splitConf (universalNewlines content)).1
    ((splitConf (universalNewlines content)).2.filter fun b => !mentions key b)

def hasPeer (key : WgKey) (content : Text) : Bool :=
  (splitConf (universalNewlines content)).2.any (mentions key)

theorem execute_cmdCreateTunnel (req : Request) :
    execute env (cmdCreateTunnel req) s =
      match readCreateTunnel req with
      | .error e => (.error e, s)
      | .ok r =>
        if (s.conf.lookup r.name.text).isSome then
          (.error (.helper (.invalid "tunnel already exists")), s)
        else (.ok (), { s with conf := s.conf.set r.name.text (tunnelText r) }) := by
  rw [cmdCreateTunnel, execute_bind, execute_lift]
  rcases readCreateTunnel req with e | r
  · rfl
  · cases h : (s.conf.lookup r.name.text).isSome <;> simp [execute_bind, h]

theorem execute_cmdDeleteTunnel (req : Request) :
    execute env (cmdDeleteTunnel req) s =
      match validateTunnelName (Json.get req "name") with
      | .error e => (.error e, s)
      | .ok name =>
        let s' := s.afterRun env (.systemctl .disableNow name.text)
        match ran (env s.tick (.systemctl .disableNow name.text) s.psk s.live).1 with
        | .error e => (.error e, s')
        | .ok _ => (.ok (), { s' with conf := s'.conf.erase name.text }) := by
  rw [cmdDeleteTunnel, execute_bind, execute_lift]
  rcases validateTunnelName (Json.get req "name") with e | name
  · rfl
  · simp only [execute_bind, execute_runCommand]
    rcases ran (env s.tick (.systemctl .disableNow name.text) s.psk s.live).1 with e | x <;> rfl

/-- The `wg set` of an added peer. -/
def setPeerCommand (r : AddPeer) : Command :=
  .wgSetPeer r.tunnel.text r.publicKey.text r.allowedIps.str (keepaliveText r.keepalive)
    r.presharedKey.isSome

/-- The temporary key file while that command runs. -/
def pskDuring (r : AddPeer) (psk : Option Text) : Option Text :=
  match r.presharedKey with
  | some k => some (k.text ++ ['\n'])
  | none => psk

def pskAfter (r : AddPeer) (psk : Option Text) : Option Text :=
  if r.presharedKey.isSome then none else psk

theorem execute_setPeer (r : AddPeer) :
    execute env (setPeer r) s =
      let out := env s.tick (setPeerCommand r) (pskDuring r s.psk) s.live
      ((checked out.1 "wg set").map fun _ => (),
        { s with psk := pskAfter r s.psk, live := out.2, tick := s.tick + 1 }) := by
  unfold setPeer execute
  rw [Prog.exec_finally]
  simp only [← execute.eq_1]
  cases hk : r.presharedKey with
  | none =>
    simp only [Option.isSome_none, Bool.false_eq_true, if_false, execute_bind, execute_pure,
      execute_runChecked, pskDuring, pskAfter, hk, setPeerCommand]
    cases checked (env s.tick (.wgSetPeer r.tunnel.text r.publicKey.text r.allowedIps.str
      (keepaliveText r.keepalive) false) s.psk s.live).1 "wg set" <;> rfl
  | some k =>
    simp only [Option.isSome_some, if_true, execute_bind, execute_createPsk, execute_unlinkPsk,
      execute_runChecked, execute_pure, pskDuring, pskAfter, hk, setPeerCommand]
    cases checked (env s.tick (.wgSetPeer r.tunnel.text r.publicKey.text r.allowedIps.str
      (keepaliveText r.keepalive) true) (some (k.text ++ ['\n'])) s.live).1 "wg set" <;> rfl

theorem execute_cmdAddPeer (req : Request) :
    execute env (cmdAddPeer req) s =
      match readAddPeer req with
      | .error e => (.error e, s)
      | .ok r =>
        match s.conf.lookup r.tunnel.text with
        | none => (.error (.helper (.invalid "tunnel not found")), s)
        | some content =>
          if hasPeer r.publicKey content then
            (.error (.helper (.invalid "peer already exists")), s)
          else
            let s' := { s with conf := s.conf.set r.tunnel.text (withPeer r content) }
            if (s.live r.tunnel.text).isSome then execute env (setPeer r) s' else (.ok (), s') := by
  rw [cmdAddPeer, execute_bind, execute_lift]
  rcases readAddPeer req with e | r
  · rfl
  · simp only [execute_bind, execute_readConf]
    rcases s.conf.lookup r.tunnel.text with _ | content
    · rfl
    · simp only [execute_require]
      cases hp : hasPeer r.publicKey content with
      | true => simp [show (splitConf (universalNewlines content)).2.any (mentions r.publicKey) =
          true from hp]
      | false =>
        simp only [show (splitConf (universalNewlines content)).2.any (mentions r.publicKey) =
          false from hp, Bool.not_false, if_true, execute_writeConf, execute_isInterfaceUp,
          Bool.false_eq_true, if_false]
        cases (s.live r.tunnel.text).isSome <;> rfl

/-- The `wg set` that removes a peer. -/
def removePeerCommand (r : RemovePeer) : Command :=
  .wgRemovePeer r.tunnel.text r.publicKey.text

theorem execute_cmdRemovePeer (req : Request) :
    execute env (cmdRemovePeer req) s =
      match readRemovePeer req with
      | .error e => (.error e, s)
      | .ok r =>
        match s.conf.lookup r.tunnel.text with
        | none => (.error (.helper (.invalid "tunnel not found")), s)
        | some content =>
          let s' := { s with conf := s.conf.set r.tunnel.text (withoutPeer r.publicKey content) }
          if (s.live r.tunnel.text).isSome then
            ((checked (env s.tick (removePeerCommand r) s.psk s.live).1 "wg set remove").map
              fun _ => (), s'.afterRun env (removePeerCommand r))
          else (.ok (), s') := by
  rw [cmdRemovePeer, execute_bind, execute_lift]
  rcases readRemovePeer req with e | r
  · rfl
  · simp only [execute_bind, execute_readConf]
    rcases s.conf.lookup r.tunnel.text with _ | content
    · rfl
    · simp only [execute_writeConf, execute_isInterfaceUp]
      cases (s.live r.tunnel.text).isSome with
      | false => rfl
      | true =>
        simp only [if_true, execute_bind, execute_runChecked, removePeerCommand]
        cases checked (env s.tick (.wgRemovePeer r.tunnel.text r.publicKey.text) s.psk s.live).1
          "wg set remove" <;> rfl

/-! ## The status of the tunnels -/

/-- The tunnels a status lists: one for each file, or for the file of the name. -/
def listed (conf : ConfDir) (name : Option TunnelName) : List String :=
  match name with
  | some n => conf.names.filter (· = n.text)
  | none => conf.names

theorem nodup_names (conf : ConfDir) : conf.names.Nodup :=
  (List.mergeSort_perm _ _).nodup_iff.mpr conf.nodup

theorem listed_some (conf : ConfDir) (n : TunnelName) :
    listed conf (some n) = if (conf.lookup n.text).isSome then [n.text] else [] := by
  have hmem : n.text ∈ conf.names ↔ (conf.lookup n.text).isSome := by
    rw [ConfDir.mem_names, Option.isSome_iff_exists]
  change conf.names.filter (· = n.text) = _
  rw [List.filter_eq]
  split
  · next hsome => rw [List.count_eq_one_of_mem (nodup_names conf) (hmem.mpr hsome), List.replicate_one]
  · next hnone => rw [List.count_eq_zero_of_not_mem (mt hmem.mp hnone), List.replicate_zero]

/-- What is read of the dump. -/
def dumped (o : Outcome) : List (Text × LiveStatus) :=
  match o with
  | .exited rc dump _ => if rc = 0 then (splitlines dump).foldl readDumpLine [] else []
  | .notStarted _ => []

/-- The status of a tunnel from the dump, its file and the word of `systemctl`. -/
def statusOf (live : List (Text × LiveStatus)) (conf : ConfDir) (tname : String) (out : Text) : TunnelStatus where
  name := tname
  active := strip out = activeWord
  listenPort := ((live.lookup tname.toList).getD noStatus).listenPort
  publicKey := ((live.lookup tname.toList).getD noStatus).publicKey
  peers := ((live.lookup tname.toList).getD noStatus).peers
  conf := (((conf.lookup tname).map universalNewlines).map parseConfInfo).getD noConf

theorem execute_tunnelStatus (live : List (Text × LiveStatus)) (tname : String) :
    execute env (tunnelStatus live tname) s =
      ((ran (env s.tick (.systemctl .isActive tname) s.psk s.live).1).map fun r => statusOf live s.conf tname r.2.1,
        s.afterRun env (.systemctl .isActive tname)) := by
  rw [tunnelStatus, execute_bind, execute_runCommand]
  rcases ran (env s.tick (.systemctl .isActive tname) s.psk s.live).1 with e | ⟨rc, out, err⟩ <;> rfl

theorem execute_cmdTunnelStatus (req : Request) :
    execute env (cmdTunnelStatus req) s =
      match nullable (Json.get req "name") validateTunnelName with
      | .error e => (.error e, s)
      | .ok name =>
        match (env s.tick .wgShowAllDump s.psk s.live).1 with
        | .notStarted e => (.error (.other e), s.afterRun env .wgShowAllDump)
        | .exited rc dump err =>
          execute env (forEach (tunnelStatus (dumped (.exited rc dump err))) (listed s.conf name))
            (s.afterRun env .wgShowAllDump) := by
  rw [cmdTunnelStatus, execute_bind, execute_lift]
  rcases nullable (Json.get req "name") validateTunnelName with e | name
  · rfl
  · simp only [execute_bind, execute_confNames, execute_runCommand]
    cases (env s.tick .wgShowAllDump s.psk s.live).1 with
    | notStarted e => rfl
    | exited rc dump err => rfl

/-- What each call yields, as long as each keeps what the calls rely on. -/
theorem forEach_run {f : α → Cmd β} {R : α → β → Prop} {I : State → Prop} {xs : List α} {ys : List β}
    {s' : State}
    (hf : ∀ x s y s', I s → execute env (f x) s = (.ok y, s') → R x y ∧ I s') (hs : I s)
    (h : execute env (forEach f xs) s = (.ok ys, s')) : List.Forall₂ R xs ys := by
  induction xs generalizing s s' ys with
  | nil =>
    obtain rfl : [] = ys := Except.ok.inj (congrArg Prod.fst h)
    exact .nil
  | cons x xs ih =>
    obtain ⟨y, s₁, hy, h₁⟩ := Prog.exec_bind_ok h
    obtain ⟨ys', s₂, hys, h₂⟩ := Prog.exec_bind_ok h₁
    obtain rfl : y :: ys' = ys := Except.ok.inj (congrArg Prod.fst h₂)
    obtain ⟨hR, hI⟩ := hf x s y s₁ hs hy
    exact .cons hR (ih hI hys)

/-- A status has one entry for each tunnel it lists, in their order. -/
theorem status_entries {req : Request} {ts : List TunnelStatus} {s' : State}
    (h : execute env (cmdTunnelStatus req) s = (.ok ts, s')) :
    ∃ name, nullable (Json.get req "name") validateTunnelName = .ok name ∧
      List.Forall₂ (fun tname t => ∃ out,
        t = statusOf (dumped (env s.tick .wgShowAllDump s.psk s.live).1) s.conf tname out)
        (listed s.conf name) ts := by
  rw [execute_cmdTunnelStatus] at h
  cases hname : nullable (Json.get req "name") validateTunnelName with
  | error e =>
    rw [hname] at h
    cases h
  | ok name =>
    cases hout : (env s.tick .wgShowAllDump s.psk s.live).1 with
    | notStarted e =>
      rw [hname, hout] at h
      cases h
    | exited rc dump err =>
      rw [hname, hout] at h
      refine ⟨name, rfl, forEach_run (I := fun v => v.conf = s.conf) (s := s.afterRun env .wgShowAllDump)
        (fun tname v t v' hv ht => ?_) rfl h⟩
      rw [execute_tunnelStatus, Prod.mk.injEq, hv] at ht
      obtain ⟨ht, rfl⟩ := ht
      rcases hran : ran (env v.tick (.systemctl .isActive tname) v.psk v.live).1 with e | ⟨rc', out, err'⟩
      · rw [hran] at ht
        cases ht
      · rw [hran] at ht
        exact ⟨⟨out, (Except.ok.inj ht).symm⟩, hv⟩

theorem exists_of_forall₂ {R : α → β → Prop} {xs : List α} {ys : List β} (h : List.Forall₂ R xs ys) :
    ∀ y ∈ ys, ∃ x ∈ xs, R x y := by
  induction h with
  | nil => exact fun y hy => absurd hy List.not_mem_nil
  | cons hR _ ih =>
    rw [List.forall_mem_cons]
    refine ⟨⟨_, List.mem_cons_self, hR⟩, fun y hy => ?_⟩
    obtain ⟨x, hx, hR'⟩ := ih y hy
    exact ⟨x, List.mem_cons_of_mem _ hx, hR'⟩

end Helper
