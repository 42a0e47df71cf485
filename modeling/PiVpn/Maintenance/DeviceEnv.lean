import PiVpn.Lib.Shell
import PiVpn.Maintenance.DdnsUpdate

/-! The names of a device: `deploy.sh` takes them from the operator or from the file that the
last deployment left, checks them, and writes the file that the dynamic DNS command sources. -/

namespace Deploy
open Text Shell
open Maintenance (orDefault)

/-! ## The checks -/

def isLowerAlnum (c : Char) : Bool := ('a' ≤ c && c ≤ 'z') || ('0' ≤ c && c ≤ '9')

def isNameChar (c : Char) : Bool := isLowerAlnum c || c = '.' || c = '-'

/-- `^[a-z0-9]([a-z0-9.-]*[a-z0-9])?$`. -/
def nameRe (t : Text) : Bool :=
  t.head?.any isLowerAlnum && t.getLast?.any isLowerAlnum && t.all isNameChar

def isOctetText (t : Text) : Bool := 1 ≤ t.length && t.length ≤ 3 && t.all Char.isDigit

/-- `${SPLIT_DNS%%=*}` and `${SPLIT_DNS#*=}`. -/
def domainOf (split : Text) : Text := split.takeWhile (· ≠ '=')
def serverOf (split : Text) : Text := (split.dropWhile (· ≠ '=')).drop 1

/-- `^[a-z0-9]([a-z0-9.-]*[a-z0-9])?=[0-9]{1,3}(\.[0-9]{1,3}){3}$`. -/
def splitRe (t : Text) : Bool :=
  t.contains '=' && nameRe (domainOf t) && (((serverOf t).splitOn '.').length = 4 &&
    ((serverOf t).splitOn '.').all isOctetText)

/-! ## The file -/

structure Names where
  certCn : Text
  ddnsRecordName : Text
  adminRecordTarget : Text
  splitDns : Text
  deriving DecidableEq

def certKey : Text := "CERT_CN".toList
def ddnsKey : Text := "DDNS_RECORD_NAME".toList
def adminKey : Text := "ADMIN_RECORD_TARGET".toList
def splitKey : Text := "SPLIT_DNS".toList

def setting (key value : Text) : Text := key ++ '=' :: value

def Names.lines (n : Names) : List Text :=
  [setting certKey n.certCn, setting ddnsKey n.ddnsRecordName, setting adminKey n.adminRecordTarget,
    setting splitKey n.splitDns]

/-- The text that `bootstrap_system` prints into `device.env`. -/
def deviceEnvFile (n : Names) : Text := unlines n.lines

def valueIn (key line : Text) : Option Text :=
  if (key ++ ['=']).isPrefixOf line then some (line.drop (key.length + 1)) else none

/-- `$(printf '%s\n' "$saved" | sed -n 's/^KEY=//p')`. -/
def sedValue (key saved : Text) : Text := captured (unlines ((saved.splitOn '\n').filterMap (valueIn key)))

/-! ## Preflight -/

/-- The variables of the operator; one that is not set is empty. -/
abbrev Variables := Names

inductive Refusal where
  | splitDns
  | adminRecordTarget
  | certCn
  | ddnsRecordName
  | names
  deriving DecidableEq

def vpnPrefix : Text := ['v', 'p', 'n']
def wgPrefix : Text := ['w', 'g']
def noneWord : Text := ['n', 'o', 'n', 'e']

/-- The endpoint of `vpn…` is `wg…`. -/
def defaultEndpoint (certCn : Text) : Option Text :=
  if vpnPrefix.isPrefixOf certCn then some (wgPrefix ++ certCn.drop 3) else none

def chooseSplit (given saved : Text) : Text :=
  let split := orDefault given saved
  if split = noneWord then [] else split

def chooseAdmin (given saved : Text) : Text := orDefault given (orDefault saved Ddns.lanWord)

/-- The saved endpoint stays only with the host name it was saved for. -/
def chooseEndpoint (given certCn savedDdns savedCn : Text) : Option Text :=
  if given ≠ [] then some given
  else if savedDdns ≠ [] ∧ certCn = savedCn then some savedDdns
  else defaultEndpoint certCn

/-- The part of `preflight` about the names, on the file that is there, if any. -/
def preflight (v : Variables) (file : Option Text) : Except Refusal Names :=
  let saved := captured (file.getD [])
  let split := chooseSplit v.splitDns (sedValue splitKey saved)
  let admin := chooseAdmin v.adminRecordTarget (sedValue adminKey saved)
  let certCn := orDefault v.certCn (sedValue certKey saved)
  if split ≠ [] ∧ splitRe split = false then .error .splitDns
  else if admin ≠ Ddns.lanWord ∧ admin ≠ Ddns.publicWord then .error .adminRecordTarget
  else if certCn = [] then .error .certCn
  else match chooseEndpoint v.ddnsRecordName certCn (sedValue ddnsKey saved) (sedValue certKey saved) with
    | none => .error .ddnsRecordName
    | some endpoint =>
      if nameRe certCn && nameRe endpoint then .ok ⟨certCn, endpoint, admin, split⟩ else .error .names

/-! ## The file on the device -/

/-- `device.env`, and the file that sends one domain to a server of its own. -/
structure Device where
  env : Option Text
  splitConf : Option Text

def splitConfFile (split : Text) : Text :=
  unlines ["[Resolve]".toList, "DNS=".toList ++ serverOf split, "Domains=~".toList ++ domainOf split]

/-- `bootstrap_system`, as far as the names go. -/
def bootstrap (n : Names) (resolvedActive : Bool) (d : Device) : Device :=
  { env := some (deviceEnvFile n)
    splitConf :=
      if n.splitDns ≠ [] then if resolvedActive then some (splitConfFile n.splitDns) else d.splitConf else none }

/-- A deployment: the variables, whether it comes to `bootstrap_system`, and what it meets there. -/
structure Deployment where
  given : Variables
  bootstraps : Bool
  resolvedActive : Bool

def Deployment.run (o : Deployment) (d : Device) : Device :=
  match preflight o.given d.env with
  | .error _ => d
  | .ok n => if o.bootstraps then bootstrap n o.resolvedActive d else d

/-! ## Sourcing the file -/

def isPlainChar (c : Char) : Bool := isNameChar c || c = '='

/-- One assignment of a value that the shell takes as it stands. -/
def assignment (line : Text) : Option (Text × Text) :=
  let key := line.takeWhile (· ≠ '=')
  let value := (line.dropWhile (· ≠ '=')).drop 1
  if line.contains '=' && key ≠ [] && value.all isPlainChar then some (key, value) else none

/-- `. "$DEVICE_ENV"`, for a file that holds nothing but plain assignments. -/
def sourced (file : Text) : Option (List (Text × Text)) :=
  ((file.splitOn '\n').filter (· ≠ [])).mapM assignment

def valueOf (vars : List (Text × Text)) (key : Text) : Text := (vars.reverse.lookup key).getD []

/-- What `cmd_ddns_update` takes from the file. -/
def deviceEnvOf (file : Text) : Option Ddns.DeviceEnv :=
  (sourced file).map fun vars => ⟨valueOf vars certKey, valueOf vars ddnsKey, valueOf vars adminKey⟩

example : preflight ⟨"vpn2.example.test".toList, [], [], []⟩ none =
    .ok ⟨"vpn2.example.test".toList, "wg2.example.test".toList, "lan".toList, []⟩ := by decide +kernel

/-! ## The file reads back -/

/-- What the checks let through. -/
structure Valid (n : Names) : Prop where
  certCn : nameRe n.certCn = true
  ddnsRecordName : nameRe n.ddnsRecordName = true
  admin : n.adminRecordTarget = Ddns.lanWord ∨ n.adminRecordTarget = Ddns.publicWord
  splitDns : n.splitDns = [] ∨ splitRe n.splitDns = true

section
variable {n : Names} {t v key : Text}

theorem ne_nil_of_nameRe (h : nameRe t = true) : t ≠ [] := by
  rintro rfl
  cases h

theorem plain_of_nameRe (h : nameRe t = true) : t.all isPlainChar = true := by
  rw [nameRe, Bool.and_eq_true] at h
  refine List.all_eq_true.mpr fun c hc => ?_
  rw [isPlainChar, List.all_eq_true.mp h.2 c hc, Bool.true_or]

theorem plain_of_octets (h : (t.splitOn '.').all isOctetText = true) : t.all isPlainChar = true := by
  refine List.all_eq_true.mpr fun c hc => ?_
  have hparts : ['.'].intercalate (t.splitOn '.') = t := List.intercalate_splitOn '.'
  rw [← hparts] at hc
  rcases Ipaddress.mem_intercalate hc with hdot | ⟨part, hpart, hmem⟩
  · rw [List.mem_singleton.mp hdot]
    decide
  · have hoctet := List.all_eq_true.mp h part hpart
    rw [isOctetText, Bool.and_eq_true] at hoctet
    have hdigit : c.isDigit = true := List.all_eq_true.mp hoctet.2 c hmem
    have hlower : isLowerAlnum c = true := by
      rw [Char.isDigit, Bool.and_eq_true, decide_eq_true_eq, decide_eq_true_eq] at hdigit
      rw [isLowerAlnum, Bool.or_eq_true]
      refine .inr ?_
      rw [Bool.and_eq_true, decide_eq_true_eq, decide_eq_true_eq]
      exact hdigit
    rw [isPlainChar, isNameChar, hlower]
    rfl

theorem takeWhile_setting (h : '=' ∉ key) (v : Text) :
    (setting key v).takeWhile (· ≠ '=') = key ∧ ((setting key v).dropWhile (· ≠ '=')).drop 1 = v := by
  have hkey : ∀ c ∈ key, decide (c ≠ '=') = true := fun c hc => decide_eq_true fun heq => h (heq ▸ hc)
  constructor
  · rw [setting, List.takeWhile_append_of_pos hkey, List.takeWhile_cons_of_neg (by decide), List.append_nil]
  · rw [setting, List.dropWhile_append_of_pos hkey, List.dropWhile_cons_of_neg (by decide), List.drop_one,
      List.tail_cons]

theorem split_parts (h : t.contains '=' = true) : t = domainOf t ++ '=' :: serverOf t := by
  obtain ⟨domain, server, rfl, hdomain⟩ := List.eq_append_cons_of_mem (List.contains_iff_mem.mp h)
  obtain ⟨htake, hdrop⟩ := takeWhile_setting hdomain server
  rw [setting] at htake hdrop
  rw [domainOf, serverOf, htake, hdrop]

theorem plain_of_splitRe (h : splitRe t = true) : t.all isPlainChar = true := by
  rw [splitRe, Bool.and_eq_true, Bool.and_eq_true, Bool.and_eq_true] at h
  have hdomain := plain_of_nameRe h.1.2
  have hserver := plain_of_octets h.2.2
  rw [split_parts h.1.1, List.all_append, List.all_cons, hdomain, hserver]
  decide

theorem Valid.plain (h : Valid n) : n.certCn.all isPlainChar = true ∧ n.ddnsRecordName.all isPlainChar = true ∧
    n.adminRecordTarget.all isPlainChar = true ∧ n.splitDns.all isPlainChar = true := by
  refine ⟨plain_of_nameRe h.certCn, plain_of_nameRe h.ddnsRecordName, ?_, ?_⟩
  · rcases h.admin with hadmin | hadmin
    · rw [hadmin]
      decide
    · rw [hadmin]
      decide
  · rcases h.splitDns with hsplit | hsplit
    · rw [hsplit]
      rfl
    · exact plain_of_splitRe hsplit

theorem newline_not_mem (h : v.all isPlainChar = true) : '\n' ∉ v := by
  intro hmem
  have hplain := List.all_eq_true.mp h '\n' hmem
  exact absurd hplain (by decide)

theorem newline_not_mem_setting (hkey : '\n' ∉ key) (h : v.all isPlainChar = true) : '\n' ∉ setting key v := by
  rw [setting, List.mem_append, List.mem_cons, not_or, not_or]
  exact ⟨hkey, by decide, newline_not_mem h⟩

theorem Valid.lines (h : Valid n) : ∀ line ∈ n.lines, '\n' ∉ line := by
  obtain ⟨hcert, hddns, hadmin, hsplit⟩ := h.plain
  simp only [Names.lines, List.forall_mem_cons, List.not_mem_nil, false_imp_iff, implies_true, and_true]
  exact ⟨newline_not_mem_setting (by decide) hcert, newline_not_mem_setting (by decide) hddns,
    newline_not_mem_setting (by decide) hadmin, newline_not_mem_setting (by decide) hsplit⟩

theorem splitOn_captured (h : Valid n) : (captured (deviceEnvFile n)).splitOn '\n' = n.lines := by
  have hlines : ∀ line ∈ [setting certKey n.certCn, setting ddnsKey n.ddnsRecordName,
      setting adminKey n.adminRecordTarget] ++ [setting splitKey n.splitDns], '\n' ∉ line := h.lines
  obtain ⟨hothers, hsplit⟩ := List.forall_mem_append.mp hlines
  have hlast := List.forall_mem_singleton.mp hsplit
  have hne : setting splitKey n.splitDns ≠ [] := by simp [setting]
  have hcaptured := captured_unlines [setting certKey n.certCn, setting ddnsKey n.ddnsRecordName,
    setting adminKey n.adminRecordTarget] hlast hne
  exact (congrArg (List.splitOn '\n') hcaptured).trans (splitOn_unlines_append hothers hlast)

theorem valueIn_setting (key v : Text) : valueIn key (setting key v) = some v := by
  have hprefix : (key ++ ['=']).isPrefixOf (setting key v) = true := by
    rw [List.isPrefixOf_iff_prefix, setting]
    exact ⟨v, by rw [List.append_assoc, List.singleton_append]⟩
  have hdrop : (setting key v).drop (key.length + 1) = v := by
    rw [setting, ← List.drop_drop, List.drop_left, List.drop_one, List.tail_cons]
  rw [valueIn, if_pos hprefix, hdrop]

theorem sedValue_deviceEnvFile (h : Valid n) :
    sedValue certKey (captured (deviceEnvFile n)) = n.certCn ∧
      sedValue ddnsKey (captured (deviceEnvFile n)) = n.ddnsRecordName ∧
      sedValue adminKey (captured (deviceEnvFile n)) = n.adminRecordTarget ∧
      sedValue splitKey (captured (deviceEnvFile n)) = n.splitDns := by
  have hone : ∀ v : Text, v.all isPlainChar = true → captured (unlines [v]) = v := by
    intro v hv
    rw [unlines_cons]
    exact captured_append_newline (newline_not_mem hv)
  obtain ⟨hcert, hddns, hadmin, hsplit⟩ := h.plain
  simp only [sedValue, splitOn_captured h, Names.lines]
  have hothers : ∀ v, valueIn certKey (setting ddnsKey v) = none ∧ valueIn certKey (setting adminKey v) = none ∧
      valueIn certKey (setting splitKey v) = none ∧ valueIn ddnsKey (setting certKey v) = none ∧
      valueIn ddnsKey (setting adminKey v) = none ∧ valueIn ddnsKey (setting splitKey v) = none ∧
      valueIn adminKey (setting certKey v) = none ∧ valueIn adminKey (setting ddnsKey v) = none ∧
      valueIn adminKey (setting splitKey v) = none ∧ valueIn splitKey (setting certKey v) = none ∧
      valueIn splitKey (setting ddnsKey v) = none ∧ valueIn splitKey (setting adminKey v) = none :=
    fun v => ⟨rfl, rfl, rfl, rfl, rfl, rfl, rfl, rfl, rfl, rfl, rfl, rfl⟩
  simp only [List.filterMap_cons, List.filterMap_nil, valueIn_setting, hothers]
  exact ⟨hone _ hcert, hone _ hddns, hone _ hadmin, hone _ hsplit⟩

theorem assignment_setting (key : Text) (hkey : '=' ∉ key) (hne : key ≠ []) (h : v.all isPlainChar = true) :
    assignment (setting key v) = some (key, v) := by
  obtain ⟨htake, hdrop⟩ := takeWhile_setting hkey v
  have hcontains : (setting key v).contains '=' = true := by
    rw [List.contains_iff_mem, setting]
    exact List.mem_append_right _ List.mem_cons_self
  simp only [assignment, htake, hdrop, hcontains, h, Bool.true_and, Bool.and_true, decide_eq_true_eq, if_pos hne]

/-- The command that sources the file gets the names that were written. -/
theorem deviceEnvOf_deviceEnvFile (h : Valid n) :
    deviceEnvOf (deviceEnvFile n) = some ⟨n.certCn, n.ddnsRecordName, n.adminRecordTarget⟩ := by
  obtain ⟨hcert, hddns, hadmin, hsplit⟩ := h.plain
  have hsplitOn : (deviceEnvFile n).splitOn '\n' = n.lines ++ [[]] := by
    have hwhole := splitOn_unlines_append h.lines List.not_mem_nil
    rwa [List.append_nil] at hwhole
  have hfilter : (n.lines ++ [[]]).filter (· ≠ []) = n.lines := by
    simp [Names.lines, setting]
  have hsourced : sourced (deviceEnvFile n) = some [(certKey, n.certCn), (ddnsKey, n.ddnsRecordName),
      (adminKey, n.adminRecordTarget), (splitKey, n.splitDns)] := by
    rw [sourced, hsplitOn, hfilter, Names.lines]
    simp only [List.mapM_cons, List.mapM_nil, assignment_setting certKey (by decide) (by decide) hcert,
      assignment_setting ddnsKey (by decide) (by decide) hddns,
      assignment_setting adminKey (by decide) (by decide) hadmin,
      assignment_setting splitKey (by decide) (by decide) hsplit]
    rfl
  rw [deviceEnvOf, hsourced]
  rfl

/-! ## Preflight on a saved file -/

theorem ne_none_of_splitRe (h : splitRe t = true) : t ≠ noneWord := by
  rintro rfl
  exact absurd h (by decide)

theorem chooseSplit_nil (h : Valid n) : chooseSplit [] n.splitDns = n.splitDns := by
  have hnone : n.splitDns ≠ noneWord := by
    rcases h.splitDns with hsplit | hsplit
    · rw [hsplit]
      decide
    · exact ne_none_of_splitRe hsplit
  rw [chooseSplit, orDefault, if_pos rfl]
  exact if_neg hnone

theorem chooseAdmin_nil (h : Valid n) : chooseAdmin [] n.adminRecordTarget = n.adminRecordTarget := by
  have hne : n.adminRecordTarget ≠ [] := by
    rcases h.admin with hadmin | hadmin
    · rw [hadmin]
      decide
    · rw [hadmin]
      decide
  rw [chooseAdmin, orDefault, if_pos rfl, orDefault, if_neg hne]

/-- What the checks let through is valid, and comes from the variables and the file. -/
theorem preflight_ok {w : Variables} {file : Option Text} (h : preflight w file = .ok n) :
    Valid n ∧ n.certCn = orDefault w.certCn (sedValue certKey (captured (file.getD []))) ∧
      chooseEndpoint w.ddnsRecordName n.certCn (sedValue ddnsKey (captured (file.getD [])))
        (sedValue certKey (captured (file.getD []))) = some n.ddnsRecordName := by
  rw [preflight] at h
  split at h
  · cases h
  · next hsplit =>
    split at h
    · cases h
    · next hadmin =>
      split at h
      · cases h
      · split at h
        · cases h
        · next endpoint hendpoint =>
          split at h
          · next hnames =>
            cases h
            rw [Bool.and_eq_true] at hnames
            refine ⟨⟨hnames.1, hnames.2, ?_, ?_⟩, rfl, hendpoint⟩
            · exact Classical.or_iff_not_imp_left.mpr fun hlan => Classical.not_not.mp fun hne => hadmin ⟨hlan, hne⟩
            · exact Classical.or_iff_not_imp_left.mpr fun hne => Bool.of_not_eq_false fun hre => hsplit ⟨hne, hre⟩
          · cases h

def noVariables : Variables := ⟨[], [], [], []⟩

/-- A deployment without variables finds the names of the one before. -/
theorem preflight_deviceEnvFile (h : Valid n) : preflight noVariables (some (deviceEnvFile n)) = .ok n := by
  obtain ⟨hcert, hddns, hadmin, hsplit⟩ := sedValue_deviceEnvFile h
  have hendpoint : chooseEndpoint [] n.certCn n.ddnsRecordName n.certCn = some n.ddnsRecordName := by
    rw [chooseEndpoint, if_neg (fun hne => hne rfl), if_pos ⟨ne_nil_of_nameRe h.ddnsRecordName, rfl⟩]
  have hsplitOk : ¬ (n.splitDns ≠ [] ∧ splitRe n.splitDns = false) := by
    rintro ⟨hne, hre⟩
    rcases h.splitDns with hnil | hok
    · exact hne hnil
    · rw [hre] at hok
      cases hok
  have hadminOk : ¬ (n.adminRecordTarget ≠ Ddns.lanWord ∧ n.adminRecordTarget ≠ Ddns.publicWord) := by
    rintro ⟨hlan, hpublic⟩
    exact h.admin.elim hlan hpublic
  have hcertOk : orDefault noVariables.certCn n.certCn = n.certCn := if_pos rfl
  simp only [preflight, Option.getD_some, hcert, hddns, hadmin, hsplit, hcertOk]
  rw [show chooseSplit noVariables.splitDns n.splitDns = n.splitDns from chooseSplit_nil h,
    show chooseAdmin noVariables.adminRecordTarget n.adminRecordTarget = n.adminRecordTarget from chooseAdmin_nil h,
    if_neg hsplitOk, if_neg hadminOk, if_neg (ne_nil_of_nameRe h.certCn)]
  simp only [noVariables, hendpoint, h.certCn, h.ddnsRecordName, Bool.and_self, if_true]

end

/-! ## Whole histories -/

def runDeployments (os : List Deployment) (d : Device) : Device := os.foldl (fun d o => o.run d) d

/-- A file that is there was written. -/
def Deployed (d : Device) : Prop := ∀ file ∈ d.env, ∃ n, Valid n ∧ file = deviceEnvFile n

theorem Deployment.run_deployed (o : Deployment) {d : Device} (h : Deployed d) : Deployed (o.run d) := by
  rw [Deployment.run]
  split
  · exact h
  · next n hn =>
    split
    · intro file hfile
      exact ⟨n, (preflight_ok hn).1, (Option.some.inj hfile).symm⟩
    · exact h

theorem runDeployments_deployed (os : List Deployment) {d : Device} (h : Deployed d) :
    Deployed (runDeployments os d) := by
  induction os generalizing d with
  | nil => exact h
  | cons o os ih => exact ih (o.run_deployed h)

/-- After any deployments of a new device, the file that they left is read back by the dynamic
DNS command as it was meant, and one more deployment that says nothing leaves it as it is. -/
theorem deployments_settle (os : List Deployment) (d : Device) (hnew : d.env = none) :
    ∀ file ∈ (runDeployments os d).env, ∃ n, Valid n ∧ file = deviceEnvFile n ∧
      deviceEnvOf file = some ⟨n.certCn, n.ddnsRecordName, n.adminRecordTarget⟩ ∧
      ∀ o : Deployment, o.given = noVariables → (o.run (runDeployments os d)).env = some file := by
  have hstart : Deployed d := fun file hfile => by
    rw [hnew] at hfile
    cases hfile
  intro file hfile
  obtain ⟨n, hn, rfl⟩ := runDeployments_deployed os hstart file hfile
  refine ⟨n, hn, rfl, deviceEnvOf_deviceEnvFile hn, fun o ho => ?_⟩
  have henv : (runDeployments os d).env = some (deviceEnvFile n) := hfile
  rw [Deployment.run, ho, henv, preflight_deviceEnvFile hn]
  dsimp only
  split
  · rfl
  · exact henv

def newDevice : Device := ⟨none, none⟩

def sampleNames : Names := ⟨"vpn2.example.test".toList, "wg2.example.test".toList, "lan".toList, []⟩

/-- A first deployment, one that is refused, and one with a split. -/
def sampleDeployments : List Deployment :=
  [⟨⟨"vpn2.example.test".toList, [], [], []⟩, true, true⟩, ⟨⟨[], [], "wan".toList, []⟩, true, true⟩,
    ⟨⟨[], [], [], "example.test=192.168.1.200".toList⟩, true, true⟩]

theorem sample_deployments_settle :
    (runDeployments sampleDeployments newDevice).env.isSome = true ∧
      ∀ file ∈ (runDeployments sampleDeployments newDevice).env, ∃ n, Valid n ∧ file = deviceEnvFile n ∧
        deviceEnvOf file = some ⟨n.certCn, n.ddnsRecordName, n.adminRecordTarget⟩ ∧
        ∀ o : Deployment, o.given = noVariables →
          (o.run (runDeployments sampleDeployments newDevice)).env = some file :=
  ⟨by decide +kernel, deployments_settle sampleDeployments newDevice rfl⟩

/-- The names of a device change only when the operator names them. -/
theorem deployments_keep_names (os : List Deployment) (d : Device) (n : Names) (hn : Valid n)
    (hd : d.env = some (deviceEnvFile n))
    (hos : ∀ o ∈ os, o.given.certCn = [] ∧ o.given.ddnsRecordName = []) :
    ∃ n', Valid n' ∧ (runDeployments os d).env = some (deviceEnvFile n') ∧ n'.certCn = n.certCn ∧
      n'.ddnsRecordName = n.ddnsRecordName := by
  induction os generalizing d n with
  | nil => exact ⟨n, hn, hd, rfl, rfl⟩
  | cons o os ih =>
    obtain ⟨ho, hos⟩ := List.forall_mem_cons.mp hos
    have hfirst : ∃ n₁, Valid n₁ ∧ (o.run d).env = some (deviceEnvFile n₁) ∧ n₁.certCn = n.certCn ∧
        n₁.ddnsRecordName = n.ddnsRecordName := by
      rw [Deployment.run]
      split
      · exact ⟨n, hn, hd, rfl, rfl⟩
      · next n₁ hn₁ =>
        obtain ⟨hvalid, hcert, hendpoint⟩ := preflight_ok hn₁
        obtain ⟨hsedCert, hsedDdns, -, -⟩ := sedValue_deviceEnvFile hn
        rw [hd, Option.getD_some, hsedCert] at hcert
        rw [hd, Option.getD_some, hsedCert, hsedDdns] at hendpoint
        have hsame : n₁.certCn = n.certCn := by rw [hcert, ho.1, orDefault, if_pos rfl]
        rw [ho.2, hsame, chooseEndpoint, if_neg (fun hne => hne rfl),
          if_pos ⟨ne_nil_of_nameRe hn.ddnsRecordName, rfl⟩] at hendpoint
        split
        · exact ⟨n₁, hvalid, rfl, hsame, (Option.some.inj hendpoint).symm⟩
        · exact ⟨n, hn, hd, rfl, rfl⟩
    obtain ⟨n₁, hvalid, henv, hcert, hddns⟩ := hfirst
    obtain ⟨n', hvalid', henv', hcert', hddns'⟩ := ih (o.run d) n₁ hvalid henv hos
    exact ⟨n', hvalid', henv', hcert'.trans hcert, hddns'.trans hddns⟩

theorem valid_sampleNames : Valid sampleNames := ⟨by decide, by decide, .inl (by decide), .inl rfl⟩

/-- The public address for the admin name, and later a split; the names stay. -/
theorem sample_deployments_keep_names :
    ∃ n', Valid n' ∧ (runDeployments [⟨⟨[], [], "public".toList, []⟩, true, true⟩,
      ⟨⟨[], [], [], "example.test=192.168.1.200".toList⟩, true, false⟩] ⟨some (deviceEnvFile sampleNames), none⟩).env =
        some (deviceEnvFile n') ∧ n'.certCn = sampleNames.certCn ∧ n'.ddnsRecordName = sampleNames.ddnsRecordName :=
  deployments_keep_names _ _ sampleNames valid_sampleNames rfl (by simp)

/-! ## A fleet -/

/-- The device was deployed anew, with a host name and no endpoint of its own. -/
def DeployedAnew (device : Ddns.Device) : Prop :=
  ∃ v n, preflight v none = .ok n ∧ v.ddnsRecordName = [] ∧ device.deviceEnv = deviceEnvOf (deviceEnvFile n)

def hostOf (device : Ddns.Device) : Text := device.deviceEnv.elim [] Ddns.DeviceEnv.certCn

theorem names_of_deployedAnew {device : Ddns.Device} (h : DeployedAnew device) :
    ∃ rest, hostOf device = vpnPrefix ++ rest ∧ device.names = [wgPrefix ++ rest, vpnPrefix ++ rest] := by
  obtain ⟨v, n, hn, hddns, hdevice⟩ := h
  obtain ⟨hvalid, -, hendpoint⟩ := preflight_ok hn
  rw [deviceEnvOf_deviceEnvFile hvalid] at hdevice
  have hdefault : defaultEndpoint n.certCn = some n.ddnsRecordName := by
    rw [hddns] at hendpoint
    exact hendpoint
  rw [defaultEndpoint] at hdefault
  split at hdefault
  · next hprefix =>
    obtain ⟨rest, hrest⟩ := List.isPrefixOf_iff_prefix.mp hprefix
    have hwg : n.ddnsRecordName = wgPrefix ++ rest := by
      rw [← Option.some.inj hdefault, ← hrest]
      rfl
    refine ⟨rest, ?_, ?_⟩
    · rw [hostOf, hdevice, Option.elim_some, hrest]
    · rw [Ddns.Device.names, hdevice, Option.elim_some, hwg, hrest]
  · cases hdefault

/-- Devices deployed with different host names have no record in common. -/
theorem fleet_names_nodup (fleet : List Ddns.Device) (hanew : ∀ device ∈ fleet, DeployedAnew device)
    (hhosts : (fleet.map hostOf).Nodup) : (fleet.flatMap Ddns.Device.names).Nodup := by
  have hwords : ∀ rest rest' : Text, wgPrefix ++ rest ≠ vpnPrefix ++ rest' := fun rest rest' h => by
    have hhead : 'w' = 'v' := (List.cons.inj h).1
    exact absurd hhead (by decide)
  rw [List.nodup_flatMap]
  refine ⟨fun device hdevice => ?_, ?_⟩
  · obtain ⟨rest, -, hnames⟩ := names_of_deployedAnew (hanew device hdevice)
    rw [hnames, List.nodup_cons, List.mem_singleton]
    exact ⟨hwords rest rest, List.nodup_singleton _⟩
  · rw [List.nodup_iff_pairwise_ne, List.pairwise_map] at hhosts
    refine hhosts.imp_of_mem fun {device device'} hmem hmem' hne => ?_
    obtain ⟨rest, hhost, hnames⟩ := names_of_deployedAnew (hanew device hmem)
    obtain ⟨rest', hhost', hnames'⟩ := names_of_deployedAnew (hanew device' hmem')
    have hrest : rest ≠ rest' := fun heq => hne (by rw [hhost, hhost', heq])
    intro name hname hname'
    rw [hnames, List.mem_pair] at hname
    rw [hnames', List.mem_pair] at hname'
    rcases hname with rfl | rfl
    · rcases hname' with h | h
      · exact hrest (List.append_cancel_left h)
      · exact hwords _ _ h
    · rcases hname' with h | h
      · exact hwords _ _ h.symm
      · exact hrest (List.append_cancel_left h)

def deployedAs (names : Names) : Ddns.Device where
  deviceEnv := deviceEnvOf (deviceEnvFile names)
  token := none
  currentIp := []
  ipv6 := Ddns.noAddress
  lanIp := .error 1

def otherNames : Names := ⟨"vpn3.example.test".toList, "wg3.example.test".toList, "lan".toList, []⟩

theorem two_devices_share_no_name :
    ([deployedAs sampleNames, deployedAs otherNames].flatMap Ddns.Device.names).Nodup := by
  refine fleet_names_nodup _ (fun device hdevice => ?_) (by decide +kernel)
  rcases List.mem_pair.mp hdevice with rfl | rfl
  · exact ⟨⟨sampleNames.certCn, [], [], []⟩, sampleNames, by decide +kernel, rfl, rfl⟩
  · exact ⟨⟨otherNames.certCn, [], [], []⟩, otherNames, by decide +kernel, rfl, rfl⟩

end Deploy
