import PiVpn.Maintenance.Ddns

/-! The command that keeps the device's records current: the addresses it finds, the updates it
makes of them, and what repeating the command makes of a zone that several devices share. -/

namespace Ddns
open Text Effect Ipaddress
open Maintenance (orDefault)

/-! ## The command -/

/-- The names in `device.env`. -/
structure DeviceEnv where
  certCn : Text
  ddnsRecordName : Text
  adminRecordTarget : Text
  deriving DecidableEq

/-- What the command reads and finds out: its two files, the answer of the site that tells the
public address, the first stable global address of version six, and the source address of the
route outwards, or the status with which asking for it fails. -/
structure Device where
  deviceEnv : Option DeviceEnv
  token : Option Text
  currentIp : Text
  ipv6 : Address
  lanIp : Except Nat Address

/-- `^[0-9]+\.[0-9]+\.[0-9]+\.[0-9]+$`. -/
def IsDottedQuad (t : Text) : Prop :=
  (t.splitOn '.').length = 4 ∧ ∀ part ∈ t.splitOn '.', part ≠ [] ∧ part.all Char.isDigit = true

instance (t : Text) : Decidable (IsDottedQuad t) := inferInstanceAs (Decidable (_ ∧ _))

theorem IsDottedQuad.plain {t : Text} (h : IsDottedQuad t) : t.all isAddressChar = true := by
  rw [List.all_eq_true]
  intro c hc
  have hparts : ['.'].intercalate (t.splitOn '.') = t := List.intercalate_splitOn '.'
  rw [← hparts] at hc
  rcases mem_intercalate hc with hdot | ⟨part, hpart, hmem⟩
  · rw [List.mem_singleton.mp hdot]
    decide
  · rw [isAddressChar, isHexDigit, List.all_eq_true.mp (h.2 part hpart).2 c hmem]
    rfl

def dottedQuad (t : Text) : Option Address := if h : IsDottedQuad t then some ⟨t, h.plain⟩ else none

def noAddress : Address := ⟨[], rfl⟩

def publicWord : Text := ['p', 'u', 'b', 'l', 'i', 'c']
def lanWord : Text := ['l', 'a', 'n']

/-- The address of the admin name. -/
def adminIp (env : DeviceEnv) (currentIp : Text) (lanIp : Address) : Address :=
  if orDefault env.adminRecordTarget lanWord = publicWord then (dottedQuad currentIp).getD noAddress else lanIp

/-- `cmd_ddns_update`, to its exit status. -/
def cmdDdnsUpdate (device : Device) : Cmd Nat :=
  match device.deviceEnv, device.token with
  | none, _ => do
    ask (.log "ddns-update: no /etc/pi-config-ui/device.env — skipping (redeploy with CERT_CN set)")
    pure 0
  | some _, none => do
    ask (.log "ddns-update: no /root/.cf-dns-token — skipping (see docs/RUNBOOK.md §5c)")
    pure 0
  | some env, some token =>
    if token = [] ∨ env.certCn = [] ∨ env.ddnsRecordName = [] then do
      ask (.log "ERROR: ddns-update: CF_Token, CERT_CN or DDNS_RECORD_NAME is empty")
      pure 0
    else do
      match dottedQuad device.currentIp with
      | some ip => cfUpsert ['A'] env.ddnsRecordName ip
      | none => ask (.log ("WARNING: ddns-update: couldn't determine current public IP (got '" ++
          String.ofList device.currentIp ++ "'), skipping " ++ String.ofList env.ddnsRecordName))
      cfUpsert ['A', 'A', 'A', 'A'] env.ddnsRecordName device.ipv6
      match device.lanIp with
      -- the assignment fails with its pipeline, and `set -e` ends the script there
      | .error status => pure status
      | .ok lanIp => do
        if (adminIp env device.currentIp lanIp).text ≠ [] then
          cfUpsert ['A'] env.certCn (adminIp env device.currentIp lanIp)
        else
          ask (.log ("WARNING: ddns-update: no " ++ String.ofList (orDefault env.adminRecordTarget lanWord) ++
            " IP found, skipping " ++ String.ofList env.certCn))
        pure 0

/-! ## The command as a list of steps -/

/-- A record that is to have an address. -/
structure Target where
  type : Text
  name : Text
  ip : Address
  deriving DecidableEq

/-- The records that are concerned. -/
def Target.records (t : Target) (w : World) : List DnsRecord := w.zone.found t.type t.name

inductive UpdateStep where
  | update (t : Target)
  | warn (text : String)
  deriving DecidableEq

namespace UpdateStep

def cmd : UpdateStep → Cmd Unit
  | .update t => cfUpsert t.type t.name t.ip
  | .warn text => ask (.log text)

/-- What a step does to the world. -/
def act (s : Service) : UpdateStep → World → World
  | .update t, w => upsert s t.type t.name t.ip w
  | .warn text, w => { w with log := w.log ++ [text] }

/-- The writes that a step asks for. -/
def writes (s : Service) : UpdateStep → World → List Op
  | .update t, w => Ddns.writes s t.type t.name t.ip w
  | .warn _, _ => []

end UpdateStep

/-- The step for the endpoint's address of version four. -/
def endpointStep (env : DeviceEnv) (currentIp : Text) : UpdateStep :=
  match dottedQuad currentIp with
  | some ip => .update ⟨['A'], env.ddnsRecordName, ip⟩
  | none => .warn ("WARNING: ddns-update: couldn't determine current public IP (got '" ++
      String.ofList currentIp ++ "'), skipping " ++ String.ofList env.ddnsRecordName)

/-- The step for the admin name. -/
def adminStep (env : DeviceEnv) (currentIp : Text) (lanIp : Address) : UpdateStep :=
  if (adminIp env currentIp lanIp).text ≠ [] then .update ⟨['A'], env.certCn, adminIp env currentIp lanIp⟩
  else .warn ("WARNING: ddns-update: no " ++ String.ofList (orDefault env.adminRecordTarget lanWord) ++
    " IP found, skipping " ++ String.ofList env.certCn)

/-- The steps of the command. -/
def steps (device : Device) : List UpdateStep :=
  match device.deviceEnv, device.token with
  | none, _ => [.warn "ddns-update: no /etc/pi-config-ui/device.env — skipping (redeploy with CERT_CN set)"]
  | some _, none => [.warn "ddns-update: no /root/.cf-dns-token — skipping (see docs/RUNBOOK.md §5c)"]
  | some env, some token =>
    if token = [] ∨ env.certCn = [] ∨ env.ddnsRecordName = [] then
      [.warn "ERROR: ddns-update: CF_Token, CERT_CN or DDNS_RECORD_NAME is empty"]
    else
      endpointStep env device.currentIp :: .update ⟨['A', 'A', 'A', 'A'], env.ddnsRecordName, device.ipv6⟩ ::
        match device.lanIp with
        | .error _ => []
        | .ok lanIp => [adminStep env device.currentIp lanIp]

def runSteps : List UpdateStep → Cmd Unit
  | [] => pure ()
  | t :: ts => do
    t.cmd
    runSteps ts

/-- The writes that the steps ask for, one after the other. -/
def stepWrites (s : Service) : List UpdateStep → World → List Op
  | [], _ => []
  | t :: ts, w => t.writes s w ++ stepWrites s ts (t.act s w)

theorem runSteps_cons {α : Type} (t : UpdateStep) (ts : List UpdateStep) (f : Unit → Cmd α) :
    runSteps (t :: ts) >>= f = t.cmd >>= fun _ => runSteps ts >>= f := Prog.bind_assoc _ _ _

theorem cmdDdnsUpdate_eq (device : Device) :
    ∃ status, cmdDdnsUpdate device = runSteps (steps device) >>= fun _ => pure status := by
  unfold cmdDdnsUpdate steps
  rcases device.deviceEnv with _ | env
  · exact ⟨0, rfl⟩
  · rcases device.token with _ | token
    · exact ⟨0, rfl⟩
    · by_cases hempty : token = [] ∨ env.certCn = [] ∨ env.ddnsRecordName = []
      · simp only [if_pos hempty]
        exact ⟨0, rfl⟩
      · simp only [if_neg hempty]
        unfold endpointStep adminStep
        rcases device.lanIp with status | lanIp
        · refine ⟨status, ?_⟩
          simp only [runSteps_cons]
          rcases dottedQuad device.currentIp with _ | ip <;> rfl
        · refine ⟨0, ?_⟩
          simp only [runSteps_cons]
          by_cases hip : (adminIp env device.currentIp lanIp).text ≠ []
          · simp only [if_pos hip]
            rcases dottedQuad device.currentIp with _ | ip <;> rfl
          · simp only [if_neg hip]
            rcases dottedQuad device.currentIp with _ | ip <;> rfl

theorem exec_cmd (s : Service) (t : UpdateStep) (w : World) : t.cmd.exec (handler s) w = (.ok (), t.act s w) := by
  cases t with
  | update t =>
    rcases hrun : (cfUpsert t.type t.name t.ip).exec (handler s) w with ⟨_ | _, w'⟩
    · next e => exact e.elim
    · rw [UpdateStep.act, upsert, UpdateStep.cmd, hrun]
  | warn text => rfl

theorem trace_cmd (s : Service) (t : UpdateStep) (w : World) :
    (t.cmd.trace (handler s) w).filter Op.isWrite = t.writes s w := by
  cases t <;> rfl

theorem exec_runSteps (s : Service) (ts : List UpdateStep) (w : World) :
    (runSteps ts).exec (handler s) w = (.ok (), Settle.pass (UpdateStep.act s) ts w) := by
  induction ts generalizing w with
  | nil => rfl
  | cons t ts ih =>
    rw [runSteps, Prog.exec_bind_of_ok (exec_cmd s t w), ih]
    rfl

theorem trace_runSteps (s : Service) (ts : List UpdateStep) (w : World) :
    ((runSteps ts).trace (handler s) w).filter Op.isWrite = stepWrites s ts w := by
  induction ts generalizing w with
  | nil => rfl
  | cons t ts ih =>
    rw [runSteps, Prog.trace_bind (exec_cmd s t w), List.filter_append, trace_cmd, ih]
    rfl

/-- One run of the command. -/
def ddnsUpdate (s : Service) (device : Device) (w : World) : World := ((cmdDdnsUpdate device).exec (handler s) w).2

/-- The writes that a run of the command asks for. -/
def updateWrites (s : Service) (device : Device) (w : World) : List Op :=
  ((cmdDdnsUpdate device).trace (handler s) w).filter Op.isWrite

theorem ddnsUpdate_eq (s : Service) (device : Device) :
    ddnsUpdate s device = Settle.pass (UpdateStep.act s) (steps device) := by
  funext w
  obtain ⟨status, heq⟩ := cmdDdnsUpdate_eq device
  rw [ddnsUpdate, heq, Prog.exec_bind_of_ok (exec_runSteps s _ w)]
  rfl

theorem updateWrites_eq (s : Service) (device : Device) (w : World) :
    updateWrites s device w = stepWrites s (steps device) w := by
  obtain ⟨status, heq⟩ := cmdDdnsUpdate_eq device
  rw [updateWrites, heq, Prog.trace_bind (exec_runSteps s _ w), List.filter_append, trace_runSteps]
  exact List.append_nil _

/-! ## What a step touches -/

section touched

variable {s : Service} {type name : Text} {zone : Zone} {t u : UpdateStep}

namespace UpdateStep

/-- The step is not about the records of this type and name. -/
def Spares (type name : Text) : UpdateStep → Prop
  | .update t => ¬ (t.type = type ∧ t.name = name)
  | .warn _ => True

/-- The step is about no other records. -/
def For (type name : Text) : UpdateStep → Prop
  | .update t => t.type = type ∧ t.name = name
  | .warn _ => True

theorem For.spares {type' name' : Text} (h : t.For type' name') (hne : ¬ (type' = type ∧ name' = name)) :
    t.Spares type name := by
  cases t with
  | update t => exact fun heq => hne ⟨h.1.symm.trans heq.1, h.2.symm.trans heq.2⟩
  | warn text => trivial

/-- The steps are not about the same records. -/
def Apart : UpdateStep → UpdateStep → Prop
  | .update t, u => u.Spares t.type t.name
  | .warn _, _ => True

theorem For.apart {type' name' : Text} (ht : t.For type name) (hu : u.For type' name')
    (hne : ¬ (type' = type ∧ name' = name)) : t.Apart u := by
  cases t with
  | update t =>
    obtain ⟨rfl, rfl⟩ := ht
    exact hu.spares hne
  | warn text => trivial

theorem Apart.symm (h : t.Apart u) : u.Apart t := by
  cases u with
  | update u =>
    cases t with
    | update t => exact fun heq => h ⟨heq.1.symm, heq.2.symm⟩
    | warn text => trivial
  | warn text => trivial

end UpdateStep

theorem found_of_others {type' name' : Text} (h : ¬ (type' = type ∧ name' = name)) :
    zone.found type name = (zone.others type' name').filter fun r => r.Matches type name := by
  rw [Zone.found, Zone.others, List.filter_filter]
  apply List.filter_congr
  intro r _
  by_cases hr : r.Matches type name
  · have hnot : ¬ r.Matches type' name' := fun hr' => h ⟨hr'.1.symm.trans hr.1, hr'.2.symm.trans hr.2⟩
    simp [hr, hnot]
  · simp [hr]

theorem found_act (s : Service) (h : t.Spares type name) (w : World) :
    (t.act s w).zone.found type name = w.zone.found type name := by
  cases t with
  | update t => rw [found_of_others h, UpdateStep.act, upsert_others, ← found_of_others h]
  | warn text => rfl

/-- The names of the device. -/
def Device.names (device : Device) : List Text :=
  device.deviceEnv.elim [] fun env => [env.ddnsRecordName, env.certCn]

/-- The steps of a device are about its records, in this order. -/
theorem steps_shape (device : Device) : (∃ text, steps device = [.warn text]) ∨
    ∃ env ∈ device.deviceEnv, ∃ a b, a.For ['A'] env.ddnsRecordName ∧
      b.For ['A', 'A', 'A', 'A'] env.ddnsRecordName ∧
      (steps device = [a, b] ∨ ∃ c, c.For ['A'] env.certCn ∧ steps device = [a, b, c]) := by
  unfold steps
  rcases device.deviceEnv with _ | env
  · exact .inl ⟨_, rfl⟩
  · rcases device.token with _ | token
    · exact .inl ⟨_, rfl⟩
    · by_cases hempty : token = [] ∨ env.certCn = [] ∨ env.ddnsRecordName = []
      · simp only [if_pos hempty]
        exact .inl ⟨_, rfl⟩
      · simp only [if_neg hempty]
        have hendpoint : (endpointStep env device.currentIp).For ['A'] env.ddnsRecordName := by
          unfold endpointStep
          split
          · exact ⟨rfl, rfl⟩
          · trivial
        have hadmin : ∀ lanIp, (adminStep env device.currentIp lanIp).For ['A'] env.certCn := by
          intro lanIp
          unfold adminStep
          split
          · exact ⟨rfl, rfl⟩
          · trivial
        have hglobal : (UpdateStep.update ⟨['A', 'A', 'A', 'A'], env.ddnsRecordName, device.ipv6⟩).For
            ['A', 'A', 'A', 'A'] env.ddnsRecordName := ⟨rfl, rfl⟩
        refine .inr ⟨env, rfl, _, _, hendpoint, hglobal, ?_⟩
        rcases device.lanIp with status | lanIp
        · exact .inl rfl
        · exact .inr ⟨_, hadmin lanIp, rfl⟩

theorem steps_spare {device : Device} (hname : name ∉ device.names) (type : Text) :
    ∀ t ∈ steps device, t.Spares type name := by
  rcases steps_shape device with ⟨text, heq⟩ | ⟨env, henv, a, b, ha, hb, hsteps⟩
  · rw [heq]
    exact List.forall_mem_singleton.mpr trivial
  · rw [Device.names, Option.mem_def.mp henv, Option.elim_some, List.mem_cons, List.mem_singleton, not_or] at hname
    have ha' : a.Spares type name := ha.spares fun h => hname.1 h.2.symm
    have hb' : b.Spares type name := hb.spares fun h => hname.1 h.2.symm
    rcases hsteps with heq | ⟨c, hc, heq⟩
    · rw [heq]
      exact List.forall_mem_cons.mpr ⟨ha', List.forall_mem_singleton.mpr hb'⟩
    · have hc' : c.Spares type name := hc.spares fun h => hname.2 h.2.symm
      rw [heq]
      exact List.forall_mem_cons.mpr ⟨ha', List.forall_mem_cons.mpr ⟨hb', List.forall_mem_singleton.mpr hc'⟩⟩

theorem name_mem_names {device : Device} {t : Target} (ht : .update t ∈ steps device) : t.name ∈ device.names := by
  by_contra hname
  exact steps_spare hname t.type _ ht ⟨rfl, rfl⟩

theorem steps_apart {device : Device} (hnames : device.names.Nodup) :
    (steps device).Pairwise UpdateStep.Apart := by
  rcases steps_shape device with ⟨text, heq⟩ | ⟨env, henv, a, b, ha, hb, hsteps⟩
  · rw [heq]
    exact List.pairwise_singleton _ _
  · rw [Device.names, Option.mem_def.mp henv, Option.elim_some, List.nodup_cons, List.mem_singleton] at hnames
    have hab := ha.apart hb fun h => absurd h.1 (by decide)
    rcases hsteps with heq | ⟨c, hc, heq⟩
    · rw [heq]
      exact List.pairwise_pair.mpr hab
    · have hac := ha.apart hc fun h => hnames.1 h.2.symm
      have hbc := hb.apart hc fun h => hnames.1 h.2.symm
      rw [heq, List.pairwise_cons]
      exact ⟨List.forall_mem_cons.mpr ⟨hab, List.forall_mem_singleton.mpr hac⟩, List.pairwise_pair.mpr hbc⟩

/-- Whatever becomes of its calls, a device leaves the records of other names alone. -/
theorem found_ddnsUpdate (s : Service) {device : Device} (hname : name ∉ device.names) (type : Text) (w : World) :
    (ddnsUpdate s device w).zone.found type name = w.zone.found type name := by
  rw [ddnsUpdate_eq]
  exact Settle.view_pass (fun v : World => v.zone.found type name)
    (fun t ht => found_act s (steps_spare hname type t ht)) w

/-- Whatever the other devices do, in whichever order and with whatever failures, the records of a
name that is not theirs stay. -/
theorem other_devices_leave_name (runs : List (Service × Device)) (hruns : ∀ r ∈ runs, name ∉ r.2.names)
    (type : Text) (w : World) :
    (runs.foldl (fun v r => ddnsUpdate r.1 r.2 v) w).zone.found type name = w.zone.found type name := by
  induction runs generalizing w with
  | nil => rfl
  | cons r runs ih =>
    obtain ⟨hr, hruns⟩ := List.forall_mem_cons.mp hruns
    rw [List.foldl_cons, ih hruns, found_ddnsUpdate r.1 hr]

/-- The reply of the second call is lost. -/
def failingService : Service := { readyService with outcome := fun n => if n = 1 then .lost else .done }

/-- Two runs of a new device, one of which loses a reply. -/
theorem new_device_leaves_endpoint :
    let device : Device := ⟨some ⟨"vpn3.bpl.keekar.au".toList, "wg3.bpl.keekar.au".toList, lanWord⟩, some ['t'],
      publicIp.text, noAddress, .ok publicIp⟩
    let runs := [(failingService, device), (readyService, device)]
    (runs.foldl (fun v r => ddnsUpdate r.1 r.2 v) ⟨movedZone, [], 0⟩).zone.found ['A'] endpointName =
      movedZone.found ['A'] endpointName :=
  other_devices_leave_name _ (by decide +kernel) ['A'] ⟨movedZone, [], 0⟩

end touched

/-! ## Repeating the command -/

section repeated

variable {s : Service} {type name : Text} {ip : Address} {zone zone' : Zone} {os : List Op} {w : World}
  {t : UpdateStep} {ts before after : List UpdateStep}

/-- The zone holds the one record with the address, or none where that is empty. -/
def Holds (type name : Text) (ip : Address) (zone : Zone) : Prop :=
  (zone.found type name).map DnsRecord.content = if ip.text = [] then [] else [ip.text]

theorem Holds.current (h : Holds type name ip zone) : Current type name ip zone zone := ⟨h, rfl⟩

/-! The three depend on the records of the name alone. -/

section found

variable (hfound : zone.found type name = zone'.found type name)

include hfound

theorem upsertable_congr : Upsertable type name ip zone = Upsertable type name ip zone' := by
  apply propext
  constructor
  · rintro ⟨hsingle, hreads⟩
    exact ⟨hfound ▸ hsingle, hfound ▸ hreads⟩
  · rintro ⟨hsingle, hreads⟩
    exact ⟨hfound ▸ hsingle, hfound ▸ hreads⟩

theorem holds_congr : Holds type name ip zone = Holds type name ip zone' := by
  rw [Holds, Holds, hfound]

theorem distance_congr : distance type name ip zone = distance type name ip zone' := by
  rw [distance, distance, hfound]

end found

namespace UpdateStep

/-- What the step is to achieve. -/
def Holds : UpdateStep → Zone → Prop
  | .update t, zone => Ddns.Holds t.type t.name t.ip zone
  | .warn _, _ => True

/-- What the step can achieve it from. -/
def Upsertable : UpdateStep → Zone → Prop
  | .update t, zone => Ddns.Upsertable t.type t.name t.ip zone
  | .warn _, _ => True

end UpdateStep

theorem act_of_holds (hs : s.Works) (h : t.Holds w.zone) : (t.act s w).zone = w.zone ∧ t.writes s w = [] := by
  cases t with
  | update t => exact (upsert_ran hs w).of_current h.current
  | warn text => exact ⟨rfl, rfl⟩

/-- Where all is as it should be, a pass asks for nothing. -/
theorem stepWrites_of_holds (hs : s.Works) (h : ∀ t ∈ ts, t.Holds w.zone) : stepWrites s ts w = [] := by
  induction ts generalizing w with
  | nil => rfl
  | cons t ts ih =>
    rw [List.forall_mem_cons] at h
    obtain ⟨hzone, hwrites⟩ := act_of_holds hs h.1
    rw [stepWrites, hwrites, List.nil_append]
    apply ih
    rw [hzone]
    exact h.2

/-- One step of a pass whose other steps are about other records. -/
theorem step_settles_iff (hs : s.Works) (hapart : ∀ u ∈ before ++ after, t.Apart u) :
    Settle.Settles (Settle.pass (UpdateStep.act s) (before ++ t :: after)) (fun v => t.Holds v.zone) w ↔
      t.Upsertable w.zone := by
  cases t with
  | warn text => exact ⟨fun _ => trivial, fun _ => ⟨0, fun _ _ => trivial⟩⟩
  | update t =>
    have hview : ∀ u ∈ before ++ after, ∀ v, t.records (u.act s v) = t.records v :=
      fun u hu v => found_act s (hapart u hu) v
    change _ ↔ Upsertable t.type t.name t.ip w.zone
    constructor
    · intro h
      by_contra hnot
      refine Settle.not_settles_pass (I := fun v => ¬ Upsertable t.type t.name t.ip v.zone) hview ?_ ?_ ?_ hnot h
      · exact fun _ _ hfound => congrArg Not (upsertable_congr hfound)
      · exact fun v hv => (upsert_ran hs v).not_upsertable hv
      · exact fun v hv hholds => hv (Holds.current hholds).upsertable
    · intro hu
      refine Settle.settles_pass (I := fun v => Upsertable t.type t.name t.ip v.zone) hview
        (fun v => distance t.type t.name t.ip v.zone) ?_ ?_ ?_ ?_ ?_ ?_ hu
      · exact fun _ _ hfound => upsertable_congr hfound
      · exact fun _ _ hfound => holds_congr hfound
      · exact fun _ _ hfound => distance_congr hfound
      · exact fun v hv => (upsert_ran hs v).upsertable hv
      · rintro v - hholds
        rwa [(act_of_holds hs hholds).1]
      · exact fun v hv hnot => (upsert_ran hs v).distance_lt hv hnot

theorem steps_settle_iff (hs : s.Works) (hapart : ts.Pairwise UpdateStep.Apart) :
    Settle.Settles (Settle.pass (UpdateStep.act s) ts) (fun v => ∀ t ∈ ts, t.Holds v.zone) w ↔
      ∀ t ∈ ts, t.Upsertable w.zone := by
  have hstep : ∀ t ∈ ts, Settle.Settles (Settle.pass (UpdateStep.act s) ts) (fun v => t.Holds v.zone) w ↔
      t.Upsertable w.zone := by
    intro t ht
    obtain ⟨before, after, rfl⟩ := List.append_of_mem ht
    rw [List.pairwise_middle UpdateStep.Apart.symm, List.pairwise_cons] at hapart
    exact step_settles_iff hs hapart.1
  constructor
  · exact fun h t ht => (hstep t ht).mp (h.mono fun v hv => hv t ht)
  · exact fun h => Settle.Settles.forall_mem fun t ht => (hstep t ht).mpr (h t ht)

/-- A round of devices is a pass over all their steps. -/
theorem pass_ddnsUpdate (s : Service) (fleet : List Device) :
    Settle.pass (ddnsUpdate s) fleet = Settle.pass (UpdateStep.act s) (fleet.flatMap steps) := by
  funext w
  rw [Settle.pass, Settle.pass, List.foldl_flatMap]
  simp only [ddnsUpdate_eq]
  rfl

theorem fleet_apart {fleet : List Device} (hnames : (fleet.flatMap Device.names).Nodup) :
    (fleet.flatMap steps).Pairwise UpdateStep.Apart := by
  rw [List.nodup_flatMap] at hnames
  rw [List.pairwise_flatMap]
  refine ⟨fun device hdevice => steps_apart (hnames.1 device hdevice), hnames.2.imp ?_⟩
  intro device device' hdisjoint t ht u hu
  cases t with
  | update t => exact steps_spare (hdisjoint (name_mem_names ht)) t.type u hu
  | warn text => trivial

/-- A round whose steps are about different records. -/
theorem round_settles_iff (hs : s.Works) {fleet : List Device}
    (hapart : (fleet.flatMap steps).Pairwise UpdateStep.Apart) :
    Settle.Settles (Settle.pass (ddnsUpdate s) fleet)
      (fun v => ∀ device ∈ fleet, (∀ t ∈ steps device, t.Holds v.zone) ∧ updateWrites s device v = []) w ↔
      ∀ device ∈ fleet, ∀ t ∈ steps device, t.Upsertable w.zone := by
  rw [pass_ddnsUpdate, ← List.forall_mem_flatMap, ← steps_settle_iff hs hapart]
  constructor
  · intro h
    exact h.mono fun v hv => List.forall_mem_flatMap.mpr fun device hdevice => (hv device hdevice).1
  · intro h
    refine h.mono fun v hv device hdevice => ?_
    have hholds := List.forall_mem_flatMap.mp hv device hdevice
    exact ⟨hholds, (updateWrites_eq s device v).trans (stepWrites_of_holds hs hholds)⟩

/-- Rounds of devices with different names, all calls succeeding, on every zone: each device comes to
have its records and then rests, exactly when each could do so alone. -/
theorem fleet_settles_iff (s : Service) (hs : s.Works) (fleet : List Device)
    (hnames : (fleet.flatMap Device.names).Nodup) (w : World) :
    Settle.Settles (Settle.pass (ddnsUpdate s) fleet)
      (fun v => ∀ device ∈ fleet, (∀ t ∈ steps device, t.Holds v.zone) ∧ updateWrites s device v = []) w ↔
      ∀ device ∈ fleet, ∀ t ∈ steps device, t.Upsertable w.zone :=
  round_settles_iff hs (fleet_apart hnames)

def lanAddress : Address := ⟨"192.168.1.24".toList, by decide⟩

/-- A device with an endpoint that has a public address. -/
def fleetDevice (endpoint admin : String) (lanIp : Except Nat Address) : Device where
  deviceEnv := some ⟨admin.toList, endpoint.toList, lanWord⟩
  token := some ['t']
  currentIp := publicIp.text
  ipv6 := noAddress
  lanIp := lanIp

/-- The second device has no route to find its own address by. -/
def sampleFleet : List Device :=
  [fleetDevice "wg2.bpl.keekar.au" "vpn2.bpl.keekar.au" (.ok lanAddress),
    fleetDevice "wg3.bpl.keekar.au" "vpn3.bpl.keekar.au" (.error 2)]

theorem steps_fleetDevice {endpoint admin : String} (hendpoint : endpoint.toList ≠ []) (hadmin : admin.toList ≠ [])
    (lanIp : Except Nat Address) :
    steps (fleetDevice endpoint admin lanIp) = [.update ⟨['A'], endpoint.toList, publicIp⟩,
      .update ⟨['A', 'A', 'A', 'A'], endpoint.toList, noAddress⟩] ++
      (lanIp.toOption.map (adminStep ⟨admin.toList, endpoint.toList, lanWord⟩ publicIp.text)).toList := by
  have hquad : dottedQuad publicIp.text = some publicIp := by decide +kernel
  cases lanIp <;> simp [steps, fleetDevice, endpointStep, hendpoint, hadmin, hquad, Except.toOption]

/-- One of the two has moved, the other is new. -/
theorem sample_fleet_settles :
    Settle.Settles (Settle.pass (ddnsUpdate readyService) sampleFleet)
      (fun v => ∀ device ∈ sampleFleet, (∀ t ∈ steps device, t.Holds v.zone) ∧
        updateWrites readyService device v = []) ⟨movedZone, [], 0⟩ := by
  refine (fleet_settles_iff readyService (fun _ => rfl) sampleFleet (by decide +kernel) ⟨movedZone, [], 0⟩).mpr ?_
  simp only [sampleFleet, List.forall_mem_cons, List.not_mem_nil, false_imp_iff, implies_true, and_true]
  refine ⟨?_, ?_⟩
  · rw [steps_fleetDevice (by decide) (by decide)]
    refine List.forall_mem_cons.mpr ⟨⟨by decide, by decide⟩, List.forall_mem_cons.mpr ⟨⟨by decide, by decide⟩, ?_⟩⟩
    exact List.forall_mem_singleton.mpr ⟨by decide, by decide⟩
  · rw [steps_fleetDevice (by decide) (by decide)]
    exact List.forall_mem_cons.mpr ⟨⟨by decide, by decide⟩, List.forall_mem_singleton.mpr ⟨by decide, by decide⟩⟩

theorem ddnsUpdate_settles_iff (s : Service) (hs : s.Works) (device : Device) (hnames : device.names.Nodup)
    (w : World) :
    Settle.Settles (ddnsUpdate s device)
      (fun v => (∀ t ∈ steps device, t.Holds v.zone) ∧ updateWrites s device v = []) w ↔
      ∀ t ∈ steps device, t.Upsertable w.zone := by
  have hapart : ([device].flatMap steps).Pairwise UpdateStep.Apart := by
    rw [List.flatMap_singleton]
    exact steps_apart hnames
  have h := round_settles_iff (w := w) hs hapart
  simp only [List.forall_mem_singleton] at h
  exact h

/-! ## One name with two addresses -/

theorem Ran.length_le_one (h : Ran s type name ip zone zone' os) (hone : (zone.found type name).length ≤ 1) :
    (zone'.found type name).length ≤ 1 := by
  cases h with
  | nothing => exact hone
  | created habsent => rw [found_create, habsent, List.nil_append, List.length_singleton]
  | kept => exact hone
  | deleted =>
    rw [found_delete]
    exact (List.length_filter_le _ _).trans hone
  | patched => rwa [found_patch, List.length_map]

theorem Ran.of_quiet (h : Ran s type name ip zone zone' []) :
    zone' = zone ∧ (ip.text ≠ [] → ∃ r ∈ zone.found type name, shown r.content = ip.text) := by
  generalize hos : ([] : List Op) = os at h
  cases h with
  | nothing habsent hip => exact ⟨rfl, fun hne => absurd hip hne⟩
  | created => cases hos
  | kept hr hshown => exact ⟨rfl, fun _ => ⟨_, hr, hshown⟩⟩
  | deleted => cases hos
  | patched => cases hos

theorem act_of_quiet (hs : s.Works) (h : t.writes s w = []) : (t.act s w).zone = w.zone := by
  cases t with
  | update t =>
    have hran := @upsert_ran s t.type t.name t.ip hs w
    rw [show Ddns.writes s t.type t.name t.ip w = [] from h] at hran
    exact hran.of_quiet.1
  | warn text => rfl

/-- In a pass that asks for nothing every step finds the zone of the start. -/
theorem quiet_step (hs : s.Works) (h : stepWrites s ts w = []) (ht : t ∈ ts) :
    ∃ v : World, v.zone = w.zone ∧ t.writes s v = [] := by
  induction ts generalizing w with
  | nil => exact absurd ht List.not_mem_nil
  | cons u ts ih =>
    obtain ⟨hu, hts⟩ := List.append_eq_nil_iff.mp h
    rcases List.mem_cons.mp ht with rfl | ht
    · exact ⟨w, rfl, hu⟩
    · obtain ⟨v, hv, hwrites⟩ := ih hts ht
      exact ⟨v, hv.trans (act_of_quiet hs hu), hwrites⟩

theorem quiet_update (hs : s.Works) {t : Target} (h : stepWrites s ts w = []) (ht : .update t ∈ ts)
    (hip : t.ip.text ≠ []) : ∃ r ∈ w.zone.found t.type t.name, shown r.content = t.ip.text := by
  obtain ⟨v, hv, hwrites⟩ := quiet_step hs h ht
  have hran := @upsert_ran s t.type t.name t.ip hs v
  rw [show Ddns.writes s t.type t.name t.ip v = [] from hwrites, hv] at hran
  exact hran.of_quiet.2 hip

theorem length_act_le_one (hs : s.Works) (t : UpdateStep) (v : World) (hone : (v.zone.found type name).length ≤ 1) :
    ((t.act s v).zone.found type name).length ≤ 1 := by
  by_cases hspares : t.Spares type name
  · rwa [found_act s hspares]
  · cases t with
    | update t =>
      obtain ⟨rfl, rfl⟩ := not_not.mp hspares
      exact (upsert_ran hs v).length_le_one hone
    | warn text => exact absurd trivial hspares

/-- Two addresses for one record: every run changes it, and so does the next. -/
theorem two_addresses_never_rest (hs : s.Works) {device : Device} {t u : Target} (ht : .update t ∈ steps device)
    (hu : .update u ∈ steps device) (htype : u.type = t.type) (hname : u.name = t.name)
    (hip : t.ip.text ≠ [] ∧ u.ip.text ≠ [] ∧ u.ip.text ≠ t.ip.text)
    (hone : (w.zone.found t.type t.name).length ≤ 1) (n : Nat) :
    updateWrites s device ((ddnsUpdate s device)^[n] w) ≠ [] := by
  have hkeep : ∀ v : World, (v.zone.found t.type t.name).length ≤ 1 →
      ((ddnsUpdate s device v).zone.found t.type t.name).length ≤ 1 := by
    intro v hv
    rw [ddnsUpdate_eq]
    exact Settle.pass_invariant (I := fun v : World => (v.zone.found t.type t.name).length ≤ 1)
      (fun step _ v hv => length_act_le_one hs step v hv) hv
  have hlen := Settle.iterate_invariant hkeep hone n
  rw [updateWrites_eq]
  intro hquiet
  obtain ⟨r, hr, hshown⟩ := quiet_update hs hquiet ht hip.1
  obtain ⟨q, hq, hshown'⟩ := quiet_update hs hquiet hu hip.2.1
  rw [htype, hname] at hq
  -- both addresses are read from the only record
  obtain ⟨p, hp⟩ := List.length_eq_one_iff.mp (hlen.antisymm (List.length_pos_of_mem hr))
  rw [hp, List.mem_singleton] at hr hq
  rw [hq, ← hr, hshown] at hshown'
  exact hip.2.2 hshown'.symm

/-- A device whose endpoint is its admin name as well. -/
def sharedName : Device where
  deviceEnv := some ⟨endpointName, endpointName, lanWord⟩
  token := some ['t']
  currentIp := publicIp.text
  ipv6 := noAddress
  lanIp := .ok lanAddress

theorem shared_name_never_rests :
    updateWrites readyService sharedName ((ddnsUpdate readyService sharedName)^[3] ⟨movedZone, [], 0⟩) ≠ [] := by
  have hquad : dottedQuad publicIp.text = some publicIp := by decide +kernel
  have hname : endpointName ≠ [] := by decide
  have hsteps : steps sharedName = [.update ⟨['A'], endpointName, publicIp⟩,
      .update ⟨['A', 'A', 'A', 'A'], endpointName, noAddress⟩,
      .update ⟨['A'], endpointName, lanAddress⟩] := by
    simp only [steps, sharedName, endpointStep, hquad, hname]
    rfl
  refine two_addresses_never_rest (fun _ => rfl) (t := ⟨['A'], endpointName, publicIp⟩)
    (u := ⟨['A'], endpointName, lanAddress⟩) ?_ ?_ rfl rfl
    ⟨by decide, by decide, by decide⟩ (by decide) 3
  · rw [hsteps]
    exact List.mem_cons_self
  · rw [hsteps]
    simp

end repeated

end Ddns
