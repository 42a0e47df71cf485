import PiVpn.Maintenance.Retention

/-! What a rollback puts back. It installs the first listed file of each recorded package,
whatever its version, so it puts back what was there before exactly where that file has
the recorded version. -/

namespace Maintenance
open Text Effect Prog Transition

/-! ## The names of packages in a list -/

theorem isNameChar_ne {c : Char} (h : isNameChar c = true) : c ≠ '_' ∧ c ≠ ':' ∧ c ≠ '=' := by
  refine ⟨?_, ?_, ?_⟩ <;>
  · rintro rfl
    exact absurd h (by decide)

theorem takeWhile_append_cons {p : Char → Bool} {l : Text} (hl : ∀ c ∈ l, p c = true) {c : Char}
    (hc : p c = false) (t : Text) : (l ++ c :: t).takeWhile p = l := by
  rw [List.takeWhile_append_of_pos hl, List.takeWhile_cons_of_neg (by simp [hc]), List.append_nil]

theorem globMatches_iff {base : Text} (hb : base.all isNameChar = true) (deb : Deb) :
    globMatches base deb = true ↔ deb.package.text = base := by
  have hname : ∀ {t : Text}, t.all isNameChar = true → ∀ c ∈ t, (decide (c ≠ '_')) = true :=
    fun ht c hc => decide_eq_true (isNameChar_ne (List.all_eq_true.mp ht c hc)).1
  rw [globMatches, List.isPrefixOf_iff_prefix, Deb.fileName]
  constructor
  · rintro ⟨t, ht⟩
    rw [List.append_assoc, List.singleton_append] at ht
    have hleft := takeWhile_append_cons (hname hb) (c := '_') rfl t
    rw [ht, takeWhile_append_cons (hname deb.package.plain) rfl] at hleft
    exact hleft
  · rintro rfl
    exact ⟨_, by rw [List.append_assoc, List.singleton_append]⟩

theorem query_some {i : Installed} {pkg v : Text} (h : i.query pkg = some v) :
    (∀ c ∈ pkg, isNameChar c = true ∨ c = ':') ∧ i.version (baseOf pkg) = some v := by
  rw [Installed.query] at h
  split at h
  · next hall => exact ⟨fun c hc => by simpa using List.all_eq_true.mp hall c hc, h⟩
  · exact absurd h (by simp)

theorem baseOf_plain {pkg : Text} (h : ∀ c ∈ pkg, isNameChar c = true ∨ c = ':') :
    (baseOf pkg).all isNameChar = true := by
  refine List.all_eq_true.mpr fun c hc => ?_
  have hne : c ≠ ':' := by simpa using List.mem_takeWhile_imp hc
  exact (h c ((List.takeWhile_sublist _).subset hc)).resolve_right hne

theorem not_eq_sign {pkg : Text} (h : ∀ c ∈ pkg, isNameChar c = true ∨ c = ':') : '=' ∉ pkg := by
  intro hmem
  rcases h _ hmem with h | h
  · exact absurd h (by decide)
  · exact absurd h (by decide)

theorem nameOf_pkgLine {pkg : Text} (h : '=' ∉ pkg) (v : Text) : nameOf (pkgLine pkg v) = pkg :=
  takeWhile_append_cons (fun _ hc => decide_eq_true (ne_of_mem_of_not_mem hc h)) rfl v

theorem pkgLine_injective {pkg pkg' v v' : Text} (h : '=' ∉ pkg) (h' : '=' ∉ pkg')
    (heq : pkgLine pkg v = pkgLine pkg' v') : pkg = pkg' ∧ v = v' := by
  have hname := congrArg nameOf heq
  rw [nameOf_pkgLine h, nameOf_pkgLine h'] at hname
  subst hname
  exact ⟨rfl, by simpa [pkgLine] using heq⟩

/-! ## Installing -/

/-- What the rollback relies on in `apt-get install` of a file, for these packages: the package
of the file gets its version where that succeeds, and no other one changes; where it fails none
does. -/
structure Outcomes.InstallsAlone (env : Outcomes) (bases : List Text) : Prop where
  installs : ∀ n deb i cache, (env.aptInstall n deb i cache).1 = true →
    (env.aptInstall n deb i cache).2.1.version deb.package.text = some deb.version
  spares : ∀ n deb i cache, ∀ base ∈ bases,
    ((env.aptInstall n deb i cache).1 = true → deb.package.text ≠ base) →
    (env.aptInstall n deb i cache).2.1.version base = i.version base

theorem version_plainInstall_self (deb : Deb) (i : Installed) (cache : List Deb) :
    (plainInstall deb i cache).2.1.version deb.package.text = some deb.version := by
  simp [plainInstall, Installed.version]

theorem version_plainInstall_ne (deb : Deb) (i : Installed) (cache : List Deb) {base : Text}
    (h : deb.package.text ≠ base) : (plainInstall deb i cache).2.1.version base = i.version base := by
  rw [plainInstall, Installed.version, Installed.version, List.find?_cons_of_neg (by simpa using h)]
  rw [List.find?_filter]
  congr 2
  funext e
  by_cases he : e.1.text = base
  · have hother : e.1 ≠ deb.package := fun heq => h (heq ▸ he)
    simp [he, hother]
  · simp [he]

/-! ## The loop -/

/-- The file that a rollback takes for a package: the first one listed. -/
def chosen (order : List Deb → List Deb) (debs : List Deb) (base : Text) : Option Deb :=
  ((order debs).filter (globMatches base)).head?

theorem chosen_package {order : List Deb → List Deb} {debs : List Deb} {base : Text} {deb : Deb}
    (hb : base.all isNameChar = true) (h : chosen order debs base = some deb) :
    deb.package.text = base :=
  (globMatches_iff hb deb).mp (List.of_mem_filter (List.mem_of_head? h))

variable {d d' d'' t : Disk} {env : Outcomes} {α β : Type}

/-- Everything but the packages and the cache. -/
structure Reinstalled (d d' : Disk) : Prop extends SameStore d d' where
  alerts : d'.alerts = d.alerts

theorem Reinstalled.refl : Reinstalled d d := ⟨.refl, rfl⟩

theorem Reinstalled.trans (h : Reinstalled d d') (h' : Reinstalled d' d'') : Reinstalled d d'' :=
  ⟨h.toSameStore.trans h'.toSameStore, h'.alerts.trans h.alerts⟩

/-- The packages of the lines are found by name, and are among these. -/
def PlainLines (bases lines : List Text) : Prop :=
  ∀ line ∈ lines, line ≠ [] ∧ (baseOf (nameOf line)).all isNameChar = true ∧ baseOf (nameOf line) ∈ bases

/-- What the loop has made of a package of the lines. -/
structure RolledBack (env : Outcomes) (bases : List Text) (debs : List Deb) (lines reverted : List Text)
    (d d' : Disk) : Prop extends Reinstalled d d' where
  reported : ∀ line ∈ reverted, line ∈ lines ∧ ∃ deb,
    chosen env.order debs (baseOf (nameOf line)) = some deb ∧
      d'.installed.version (baseOf (nameOf line)) = some deb.version
  kept : ∀ base ∈ bases, ∀ deb, chosen env.order debs base = some deb →
    d.installed.version base = some deb.version → d'.installed.version base = some deb.version
  complete : (∀ n deb i cache, (env.aptInstall n deb i cache).1 = true) → ∀ line ∈ lines,
    (chosen env.order debs (baseOf (nameOf line))).isSome → line ∈ reverted

variable {bases : List Text} {debs : List Deb} {line : Text} {lines reverted : List Text}

theorem RolledBack.skip (h : RolledBack env bases debs lines reverted d' d'') (hd : Reinstalled d d')
    (hi : ∀ base ∈ bases, d'.installed.version base = d.installed.version base)
    (hnone : (∀ n deb i cache, (env.aptInstall n deb i cache).1 = true) →
      chosen env.order debs (baseOf (nameOf line)) = none) :
    RolledBack env bases debs (line :: lines) reverted d d'' where
  toReinstalled := hd.trans h.toReinstalled
  reported l hl := ⟨List.mem_cons_of_mem _ (h.reported l hl).1, (h.reported l hl).2⟩
  kept base hb deb hc hv := h.kept base hb deb hc ((hi base hb).trans hv)
  complete hall l hl hc := by
    rcases List.mem_cons.mp hl with rfl | hl
    · rw [hnone hall] at hc
      exact absurd hc (by simp)
    · exact h.complete hall l hl hc

/-- The file chosen for it was; what is installed later for the same package is the same
file again. -/
theorem RolledBack.install {deb : Deb} (h : RolledBack env bases debs lines reverted d' d'')
    (hd : Reinstalled d d') (hself : d'.installed.version deb.package.text = some deb.version)
    (hothers : ∀ base ∈ bases, deb.package.text ≠ base →
      d'.installed.version base = d.installed.version base)
    (hbase : (baseOf (nameOf line)).all isNameChar = true) (hmem : baseOf (nameOf line) ∈ bases)
    (hchosen : chosen env.order debs (baseOf (nameOf line)) = some deb) :
    RolledBack env bases debs (line :: lines) (line :: reverted) d d'' := by
  have hpackage := chosen_package hbase hchosen
  rw [hpackage] at hself
  refine ⟨hd.trans h.toReinstalled, fun l hl => ?_, fun base hb deb' hc hv => ?_, fun hall l hl hc => ?_⟩
  · rcases List.mem_cons.mp hl with rfl | hl
    · exact ⟨List.mem_cons_self, deb, hchosen, h.kept _ hmem deb hchosen hself⟩
    · exact ⟨List.mem_cons_of_mem _ (h.reported l hl).1, (h.reported l hl).2⟩
  · refine h.kept base hb deb' hc ?_
    by_cases hown : deb.package.text = base
    · obtain rfl : base = baseOf (nameOf line) := hown.symm.trans hpackage
      obtain rfl : deb' = deb := Option.some.inj (hc.symm.trans hchosen)
      exact hself
    · rw [hothers base hb hown]
      exact hv
  · rcases List.mem_cons.mp hl with rfl | hl
    · exact List.mem_cons_self
    · exact List.mem_cons_of_mem _ (h.complete hall l hl hc)

theorem leaves_rollbackPackages {pending : Text} (hapt : env.InstallsAlone bases) (hl : PlainLines bases lines)
    (hdebs : ((d.snapshot pending).map Snapshot.debs).getD [] = debs) :
    Leaves env (rollbackPackages pending lines) d fun r d' => RolledBack env bases debs lines r.1 d d' := by
  induction lines generalizing d with
  | nil => exact leaves_pure ⟨.refl, by simp, fun _ _ _ _ h => h, by simp⟩
  | cons line lines ih =>
    obtain ⟨hne, hbase, hmem⟩ := hl line List.mem_cons_self
    have hrest : PlainLines bases lines := fun l hmem => hl l (List.mem_cons_of_mem _ hmem)
    rw [rollbackPackages, if_neg hne]
    let base := baseOf (nameOf line)
    let d₁ : Disk := (handler env (.findIn pending base) d).2
    have hd₁ : Reinstalled d d₁ := ⟨⟨rfl, rfl, rfl⟩, rfl⟩
    have hfind : handler env (.findIn pending base) d =
        ((env.order debs).filter (globMatches base), d₁) := by rw [← hdebs]; rfl
    refine Leaves.step hfind ?_
    -- no file of the package, a file that installs, a file that does not
    cases hfound : (env.order debs).filter (globMatches base) with
    | nil =>
      have hnone : chosen env.order debs base = none := by rw [chosen, hfound]; rfl
      refine (ih hrest (d := d₁) hdebs).bind fun r d' hr => ?_
      exact ⟨_, d', rfl, hr.skip hd₁ (fun _ _ => rfl) fun _ => hnone⟩
    | cons deb others =>
      have hchosen : chosen env.order debs base = some deb := by rw [chosen, hfound]; rfl
      let d₂ : Disk := (handler env (.aptInstall deb) d₁).2
      have hd₂ : Reinstalled d d₂ := ⟨⟨rfl, rfl, rfl⟩, rfl⟩
      have hspared := hapt.spares d₁.tick deb d₁.installed d₁.cache
      cases hok : (env.aptInstall d₁.tick deb d₁.installed d₁.cache).1 with
      | true =>
        have hstep : handler env (.aptInstall deb) d₁ = (true, d₂) := Prod.ext hok rfl
        refine Leaves.step hstep ((ih hrest (d := d₂) hdebs).bind fun r d' hr => ?_)
        exact ⟨_, d', rfl, hr.install hd₂ (hapt.installs _ _ _ _ hok)
          (fun base hb hother => hspared base hb fun _ => hother) hbase hmem hchosen⟩
      | false =>
        have hstep : handler env (.aptInstall deb) d₁ = (false, d₂) := Prod.ext hok rfl
        refine Leaves.step hstep ((ih hrest (d := d₂) hdebs).bind fun r d' hr => ?_)
        have hfailed : ∀ base ∈ bases, d₂.installed.version base = d.installed.version base := fun base hb =>
          hspared base hb fun htrue => by simp [hok] at htrue
        refine ⟨_, d', rfl, hr.skip hd₂ hfailed fun hall => ?_⟩
        rw [hall] at hok
        cases hok

/-! ## A boot check -/

/-- All but the log and the clock is as before. -/
structure Unchanged (d d' : Disk) : Prop extends SameDisk d d' where
  alerts : d'.alerts = d.alerts

theorem Unchanged.refl : Unchanged d d := ⟨.refl, rfl⟩

theorem Unchanged.trans (h : Unchanged d d') (h' : Unchanged d' d'') : Unchanged d d'' :=
  ⟨⟨h.toSameStore.trans h'.toSameStore, h'.cache.trans h.cache, h'.installed.trans h.installed⟩,
    h'.alerts.trans h.alerts⟩

def Op.Silent (o : Op) : Prop := ∀ env d, Unchanged d (handler env o d).2

theorem Leaves.silent {Q : β → Disk → Prop} {o : Op} {f : o.Answer → Cmd β} (ho : o.Silent)
    (h : Unchanged t d)
    (hf : ∀ d', Unchanged t d' → Leaves env (f (handler env o d).1) d' Q) :
    Leaves env (Maintenance.ask o >>= f) d Q := hf _ (h.trans (ho env d))

theorem silent_port : Op.Silent .port := fun _ _ => ⟨⟨⟨rfl, rfl, rfl⟩, rfl, rfl⟩, rfl⟩
theorem silent_curl (port : Text) : Op.Silent (.curl port) := fun _ _ => ⟨⟨⟨rfl, rfl, rfl⟩, rfl, rfl⟩, rfl⟩
theorem silent_restart : Op.Silent .restart := fun _ _ => ⟨⟨⟨rfl, rfl, rfl⟩, rfl, rfl⟩, rfl⟩
theorem silent_log (text : String) : Op.Silent (.log text) := fun _ _ => ⟨⟨⟨rfl, rfl, rfl⟩, rfl, rfl⟩, rfl⟩
theorem silent_stateGet (key : String) : Op.Silent (.stateGet key) :=
  fun _ _ => ⟨⟨⟨rfl, rfl, rfl⟩, rfl, rfl⟩, rfl⟩
theorem silent_isFile (dir : Text) : Op.Silent (.isFile dir) :=
  fun _ _ => ⟨⟨⟨rfl, rfl, rfl⟩, rfl, rfl⟩, rfl⟩

/-- The lines and the files of the pending update. -/
def pendingLines (d : Disk) : List Text :=
  ((d.snapshot (d.get pendingKey)).bind Snapshot.packages).getD []

def pendingDebs (d : Disk) : List Deb :=
  ((d.snapshot (d.get pendingKey)).map Snapshot.debs).getD []

/-- What is reported is installed, in the version of the file that was chosen. -/
def PutBack (order : List Deb → List Deb) (debs : List Deb) (lines reverted : List Text) (d : Disk) : Prop :=
  ∀ line ∈ reverted, line ∈ lines ∧ ∃ deb, chosen order debs (baseOf (nameOf line)) = some deb ∧
    d.installed.version (baseOf (nameOf line)) = some deb.version

/-- The alert of a rollback. -/
structure RollbackAlert (env : Outcomes) (t d : Disk) (a : Alert) : Prop where
  alerts : d.alerts = t.alerts ++ [a]
  putBack : PutBack env.order (pendingDebs t) (pendingLines t) a.reverted d
  complete : (∀ n deb i cache, (env.aptInstall n deb i cache).1 = true) → ∀ line ∈ pendingLines t,
    (chosen env.order (pendingDebs t) (baseOf (nameOf line))).isSome → line ∈ a.reverted

theorem stateSet_keeps (env : Outcomes) (key : String) (v : Text) (d : Disk) :
    (handler env (.stateSet key v) d).2.installed = d.installed ∧
      (handler env (.stateSet key v) d).2.alerts = d.alerts := by
  simp only [handler, answer]
  split <;> exact ⟨rfl, rfl⟩

theorem leaves_rollback (hapt : env.InstallsAlone bases) (hl : PlainLines bases (pendingLines t))
    (h : Unchanged t d) :
    Leaves env (rollback (t.get pendingKey)) d fun _ d' => ∃ a, RollbackAlert env t d' a := by
  have hsnap : d.snapshot (t.get pendingKey) = t.snapshot (t.get pendingKey) := h.snapshot _
  have hlines : ((d.snapshot (t.get pendingKey)).bind Snapshot.packages).getD [] = pendingLines t := by
    rw [hsnap, pendingLines]
  let d₁ : Disk := (handler env (.log "WARNING: boot-check: still unhealthy — attempting package rollback") d).2
  let d₂ : Disk := { d₁ with tick := d₁.tick + 1 }
  have hpackages : handler env (.packages (t.get pendingKey)) d₁ = (pendingLines t, d₂) := by
    rw [← hlines]
    rfl
  have hdebs : ((d₂.snapshot (t.get pendingKey)).map Snapshot.debs).getD [] = pendingDebs t := by
    change ((d.snapshot (t.get pendingKey)).map Snapshot.debs).getD [] = _
    rw [hsnap, pendingDebs]
  refine Leaves.step rfl (Leaves.step hpackages
    ((leaves_rollbackPackages (d := d₂) hapt hl hdebs).bind fun r d₃ hr => ?_))
  obtain ⟨reverted, unavailable⟩ := r
  obtain ⟨hinst, halerts⟩ := stateSet_keeps env attemptedKey ['1'] d₃
  refine Leaves.step rfl (Leaves.step rfl ?_)
  -- the alert lists what the loop has put back and what it could not
  let a : Alert := ⟨rollbackReason, reverted, unavailable⟩
  have halert : ∀ {d' : Disk}, d'.installed = (handler env (.stateSet attemptedKey ['1']) d₃).2.installed →
      d'.alerts = (handler env (.stateSet attemptedKey ['1']) d₃).2.alerts ++ [a] →
      RollbackAlert env t d' a := by
    intro d' hi ha
    rw [hinst] at hi
    rw [halerts, hr.alerts] at ha
    refine ⟨ha.trans (congrArg (· ++ [a]) h.alerts), fun line hline => ?_, hr.complete⟩
    rw [hi]
    exact hr.reported line hline
  split
  · exact ⟨(), _, rfl, a, halert rfl rfl⟩
  · exact ⟨(), _, rfl, a, halert rfl rfl⟩

theorem leaves_pollHealthy (port : Text) (n : ℕ) (h : Unchanged t d) :
    Leaves env (pollHealthy port n) d fun healthy d' =>
      Unchanged t d' ∧ ((∀ n p, env.curl n p = []) → healthy = false) := by
  induction n generalizing d with
  | zero => exact leaves_pure ⟨h, fun _ => rfl⟩
  | succ n ih =>
    refine Leaves.silent (silent_curl port) h fun d' hd' => ?_
    split
    · next hcode =>
      refine leaves_pure ⟨hd', fun hbad => ?_⟩
      simp only [handler, answer, hbad] at hcode
      exact absurd hcode (by decide)
    · exact ih hd'

/-- What a boot check reports, and what it reports after an update that does not come up. -/
structure Reported (env : Outcomes) (t d : Disk) : Prop where
  putBack : ∃ news, d.alerts = t.alerts ++ news ∧
    ∀ a ∈ news, PutBack env.order (pendingDebs t) (pendingLines t) a.reverted d
  rolledBack : (∀ n p, env.curl n p = []) → t.get pendingKey ≠ [] → t.get attemptedKey ≠ ['1'] →
    ((t.snapshot (t.get pendingKey)).bind Snapshot.packages).isSome → ∃ a, RollbackAlert env t d a

theorem Reported.quiet (h : d.alerts = t.alerts) (hbad : ¬ ∀ n p, env.curl n p = []) : Reported env t d :=
  ⟨⟨[], by simp [h], by simp⟩, fun hcurl => absurd hcurl hbad⟩

theorem RollbackAlert.toReported {a : Alert} (h : RollbackAlert env t d a) : Reported env t d :=
  ⟨⟨[a], h.alerts, by simpa using h.putBack⟩, fun _ _ _ _ => ⟨a, h⟩⟩

/-- The operations that raise no alert. -/
def Op.RaisesNone (o : Op) : Prop := ∀ env d, (handler env o d).2.alerts = d.alerts

theorem leaves_confirmed (pending : Text) (h : Unchanged t d) :
    Leaves env (confirmUpdate pending) d fun _ d' => d'.alerts = t.alerts := by
  have honly : Only Op.RaisesNone (confirmUpdate pending) := by
    rw [confirmUpdate]
    split
    · exact Only.bind (only_ask fun _ _ => rfl) fun _ => only_ask fun _ _ => rfl
    · trivial
  exact leaves_of_only honly (fun _ s ho hs => (ho env s).trans hs) h.alerts

theorem leaves_cmdBootCheck (hapt : env.InstallsAlone bases) (hl : PlainLines bases (pendingLines t)) :
    Leaves env cmdBootCheck t fun _ d' => Reported env t d' := by
  refine Leaves.silent silent_port .refl fun d₁ h₁ =>
    (leaves_pollHealthy _ _ h₁).bind fun healthy d₂ h₂ =>
    Leaves.silent (silent_stateGet _) h₂.1 fun d₃ h₃ => ?_
  have hpending : (handler env (.stateGet pendingKey) d₂).1 = t.get pendingKey := h₂.1.get _
  rw [hpending]
  have hquiet : ∀ {α : Type} {c : Cmd α} {d : Disk}, Leaves env c d (fun _ d' => d'.alerts = t.alerts) →
      ¬ (∀ n p, env.curl n p = []) → Leaves env c d fun _ d' => Reported env t d' := by
    rintro α c d ⟨a, d', hrun, hd'⟩ hbad
    exact ⟨a, d', hrun, .quiet hd' hbad⟩
  split
  · next hh =>
    have hbad : ¬ ∀ n p, env.curl n p = [] := fun hcurl => by simp [h₂.2 hcurl] at hh
    refine hquiet ((leaves_confirmed _ h₃).bind fun _ d₄ h₄ => ?_) hbad
    split
    · exact ⟨(), _, rfl, h₄⟩
    · exact leaves_pure h₄
  refine Leaves.silent (silent_log _) h₃ fun d₄ h₄ => Leaves.silent silent_restart h₄ fun d₅ h₅ =>
    (leaves_pollHealthy _ _ h₅).bind fun restartHealthy d₆ h₆ => ?_
  split
  · next hh =>
    have hbad : ¬ ∀ n p, env.curl n p = [] := fun hcurl => by simp [h₆.2 hcurl] at hh
    exact hquiet (Leaves.silent (silent_log _) h₆.1 fun d₇ h₇ => leaves_confirmed _ h₇) hbad
  refine Leaves.silent (silent_stateGet _) h₆.1 fun d₇ h₇ => ?_
  have hattempted : (handler env (.stateGet attemptedKey) d₆).1 = t.get attemptedKey := h₆.1.get _
  rw [hattempted]
  -- the alert that names no package, where no rollback is due
  have hno : ∀ {d : Disk}, Unchanged t d → ¬ (t.get pendingKey ≠ [] ∧ t.get attemptedKey ≠ ['1'] ∧
      ((t.snapshot (t.get pendingKey)).bind Snapshot.packages).isSome) →
      Leaves env (ask (.alert ⟨noRollbackReason, [], []⟩) >>= fun _ => giveUp) d
        fun _ d' => Reported env t d' := by
    intro d hd hnot
    refine ⟨(), _, rfl, ⟨[⟨noRollbackReason, [], []⟩], congrArg (· ++ [_]) hd.alerts, ?_⟩,
      fun _ hp ha hf => absurd ⟨hp, ha, hf⟩ hnot⟩
    intro a ha line hline
    obtain rfl := List.mem_singleton.mp ha
    exact absurd hline List.not_mem_nil
  split
  · next hdue =>
    refine Leaves.silent (silent_isFile _) h₇ fun d₈ h₈ => ?_
    have hfile : (handler env (.isFile (t.get pendingKey)) d₇).1 =
        ((t.snapshot (t.get pendingKey)).bind Snapshot.packages).isSome := by
      rw [← h₇.snapshot]
      rfl
    rw [hfile]
    dsimp only
    split
    · obtain ⟨_, d₉, hrun, a, ha⟩ := leaves_rollback hapt hl h₈
      exact ⟨(), d₉, hrun, ha.toReported⟩
    · next hnone => exact hno h₈ fun h => hnone h.2.2
  · next hdue => exact hno h₇ fun h => hdue ⟨h.1, h.2.1⟩

/-! ## The snapshot stays as it was taken -/

/-- A directory of this name is this snapshot. -/
def IsSnapshot (dir : Text) (s : Snapshot) (d : Disk) : Prop := ∀ s' ∈ d.snapshots, s'.dir = dir → s' = s

/-- The operations that do not write to the directory. -/
def Op.Elsewhere (dir : Text) : Op → Prop
  | .mkdir dir' | .writePkgnames dir' _ | .startPackages dir' | .appendPackage dir' _
  | .copyDebs _ dir' | .removePkgnames dir' => dir' ≠ dir
  | _ => True

variable {dir dir' : Text} {s : Snapshot}

theorem IsSnapshot.within (h : IsSnapshot dir s d) (hne : dir' ≠ dir) {f : Snapshot → Snapshot}
    (hf : ∀ s, (f s).dir = s.dir) : IsSnapshot dir s (d.within dir' f) := by
  intro s' hs' hdir
  obtain ⟨s₀, hs₀, rfl⟩ := List.mem_map.mp hs'
  by_cases hd : s₀.dir = dir'
  · rw [if_pos hd, hf, hd] at hdir
    exact absurd hdir hne
  · rw [if_neg hd] at hdir ⊢
    exact h s₀ hs₀ hdir

theorem IsSnapshot.after {o : Op} (h : IsSnapshot dir s d) (ho : o.Elsewhere dir) :
    IsSnapshot dir s (handler env o d).2 := by
  cases o with
  | mkdir dir' =>
    simp only [handler, answer, Disk.mkdir]
    split
    · exact h
    · intro s' hs' hdir
      rcases List.mem_cons.mp hs' with rfl | hs'
      · exact absurd hdir ho
      · exact h s' hs' hdir
  | writePkgnames dir' names => exact h.within ho fun _ => rfl
  | startPackages dir' => exact h.within ho fun _ => rfl
  | appendPackage dir' line => exact h.within ho fun _ => rfl
  | copyDebs base dir' => exact h.within ho fun _ => rfl
  | removePkgnames dir' => exact h.within ho fun _ => rfl
  | removeAll dir' => exact fun s' hs' => h s' (List.mem_of_mem_filter hs')
  | rmdir dir' => exact fun s' hs' => h s' (List.mem_of_mem_filter hs')
  | prune => exact fun s' hs' => h s' (List.mem_of_mem_take hs')
  | stateSet key v =>
    simp only [handler, answer]
    split <;> exact h
  | _ => exact h

theorem Op.OfBootCheck.elsewhere {o : Op} (h : o.OfBootCheck) : o.Elsewhere dir := by
  cases o with
  | mkdir | writePkgnames | startPackages | appendPackage | copyDebs | removePkgnames => exact h.elim
  | _ => trivial

theorem Op.Outside.elsewhere {o : Op} (h : o.Outside) : o.Elsewhere dir := by
  cases o with
  | mkdir | writePkgnames | startPackages | appendPackage | copyDebs | removePkgnames => exact h.elim
  | _ => trivial

theorem only_takeSnapshot (hne : dir' ≠ dir) : Only (Op.Elsewhere dir) (takeSnapshot dir') := by
  refine Only.bind (only_ask hne) fun _ => Only.bind (only_ask trivial) fun plan => ?_
  cases plan with
  | none => exact Only.bind (only_log _ trivial) fun _ => Only.bind (only_ask trivial) fun _ => trivial
  | some plan =>
    refine Only.bind (only_ask hne) fun _ => ?_
    dsimp only
    split
    · exact Only.bind (only_ask trivial) fun _ => trivial
    · refine Only.bind (only_ask hne) fun _ =>
        Only.bind (only_snapshotPackages (fun _ => trivial) (fun _ => hne) (fun _ => hne) _) fun _ =>
        Only.bind (only_ask hne) fun _ => Only.bind (only_ask trivial) fun _ =>
        Only.bind (only_ask trivial) fun _ => Only.bind (only_log _ trivial) fun _ => trivial

theorem cmdOsUpdate_isSnapshot (hne : env.dir ≠ dir) (h : IsSnapshot dir s d) :
    IsSnapshot dir s (execute env cmdOsUpdate d).2 := by
  have hkeep : ∀ {α : Type} {c : Cmd α} {d : Disk}, Only (Op.Elsewhere dir) c → IsSnapshot dir s d →
      Leaves env c d fun _ d' => IsSnapshot dir s d' :=
    fun hc hd => leaves_of_only hc (fun _ _ ho hs => hs.after ho) hd
  refine Leaves.exec (c := cmdOsUpdate) (Leaves.step rfl ?_)
  split
  · -- the directory of the run is another one
    refine Leaves.step rfl ((hkeep (only_takeSnapshot hne) ?_).bind fun planned d₁ h₁ => ?_)
    · exact h
    · split
      · exact hkeep (Only.bind (only_ask trivial) fun _ =>
          only_upgrade.mono fun _ => Op.Outside.elsewhere) h₁
      · exact leaves_pure h₁
  · exact hkeep (Only.bind (only_log _ trivial) fun _ => trivial) h

theorem runs_isSnapshot {runs : List Run} (hne : ∀ r ∈ runs, r.1 = .osUpdate → r.2.dir ≠ dir)
    (hrun : steps step runs d = some d') (h : IsSnapshot dir s d) : IsSnapshot dir s d' := by
  induction runs generalizing d with
  | nil =>
    obtain rfl : d = d' := Option.some.inj hrun
    exact h
  | cons r runs ih =>
    obtain ⟨d₁, hd₁, hrest⟩ := steps_cons.mp hrun
    obtain ⟨job, env⟩ := r
    obtain rfl := Option.some.inj hd₁
    refine ih (fun r hr => hne r (List.mem_cons_of_mem _ hr)) hrest ?_
    cases job with
    | bootCheck =>
      exact (leaves_of_only only_cmdBootCheck (fun _ _ ho hs => hs.after ho.elsewhere) h).exec
    | osUpdate => exact cmdOsUpdate_isSnapshot (hne _ List.mem_cons_self rfl) h

/-! ## The rollback -/

/-- What a boot check from `d` to `d'` reports as reverted is installed in the version that
was installed before the update, and recorded then. -/
def Restored (before d d' : Disk) : Prop :=
  ∀ a ∈ d'.alerts.drop d.alerts.length, ∀ line ∈ a.reverted, ∃ pkg v, line = pkgLine pkg v ∧
    before.installed.query pkg = some v ∧ d'.installed.version (baseOf pkg) = some v

/-- For every package on record, the first listed file of the snapshot has the version
that is installed. -/
def FirstFileIsInstalled (order : List Deb → List Deb) (d : Disk) (pkgs : List Text) : Prop :=
  ∀ pkg ∈ pkgs, ∀ v, d.installed.query pkg = some v → ∀ deb,
    chosen order (snapshotDebs d.cache d.installed pkgs []) (baseOf pkg) = some deb → deb.version = v

variable {pkgs : List Text}

theorem mem_snapshotLines {i : Installed} :
    line ∈ snapshotLines i pkgs ↔ ∃ pkg ∈ pkgs, ∃ v, i.query pkg = some v ∧ line = pkgLine pkg v := by
  simp only [snapshotLines, List.mem_filterMap, Option.map_eq_some_iff]
  constructor
  · rintro ⟨pkg, hpkg, v, hv, rfl⟩
    exact ⟨pkg, hpkg, v, hv, rfl⟩
  · rintro ⟨pkg, hpkg, v, hv, rfl⟩
    exact ⟨pkg, hpkg, v, hv, rfl⟩

theorem plainLines_snapshotLines (i : Installed) (pkgs : List Text) :
    PlainLines (pkgs.map baseOf) (snapshotLines i pkgs) := by
  intro line hline
  obtain ⟨pkg, hpkg, v, hv, rfl⟩ := mem_snapshotLines.mp hline
  have hplain := (query_some hv).1
  rw [nameOf_pkgLine (not_eq_sign hplain)]
  exact ⟨by simp [pkgLine], baseOf_plain hplain, List.mem_map_of_mem hpkg⟩

theorem updated_isSnapshot (hown : d.snapshot env.dir = none) (hplan : env.planned = some pkgs) :
    IsSnapshot env.dir (newSnapshot env d pkgs) (updated env d) := by
  have hpush : IsSnapshot env.dir (newSnapshot env d pkgs) (d.push (newSnapshot env d pkgs)).prune := by
    intro s hs hdir
    rcases List.mem_cons.mp (List.mem_of_mem_take hs) with rfl | hs
    · rfl
    · exact absurd hdir (snapshot_eq_none.mp hown s hs)
  rw [updated, hplan]
  cases pkgs with
  | nil => exact hpush
  | cons pkg pkgs => exact hpush

theorem IsSnapshot.pending (h : IsSnapshot env.dir (newSnapshot env t pkgs) d)
    (hp : d.get pendingKey = env.dir) :
    (∀ line ∈ pendingLines d, line ∈ snapshotLines t.installed pkgs) ∧
      (pendingLines d ≠ [] → pendingDebs d = snapshotDebs t.cache t.installed pkgs []) := by
  rw [pendingLines, pendingDebs, hp]
  cases hs : d.snapshot env.dir with
  | none => simp
  | some s =>
    obtain rfl := h s (List.mem_of_find?_eq_some hs) (by simpa using List.find?_some hs)
    cases pkgs with
    | nil => simp [newSnapshot]
    | cons pkg pkgs => simp [newSnapshot]

theorem restored_of_firstFile {order : List Deb → List Deb} {env' : Outcomes}
    (horder : env'.order = order) (hapt : env'.InstallsAlone (pkgs.map baseOf))
    (hfirst : FirstFileIsInstalled order t pkgs)
    (hsnap : IsSnapshot env.dir (newSnapshot env t pkgs) d) (hp : d.get pendingKey = env.dir) :
    Restored t d (execute env' cmdBootCheck d).2 := by
  obtain ⟨hlines, hdebs⟩ := hsnap.pending hp
  have hplain : PlainLines (pkgs.map baseOf) (pendingLines d) := fun line hline =>
    plainLines_snapshotLines t.installed pkgs line (hlines line hline)
  have hreport : Reported env' d (execute env' cmdBootCheck d).2 := (leaves_cmdBootCheck hapt hplain).exec
  obtain ⟨news, halerts, hback⟩ := hreport.putBack
  intro a ha line hline
  rw [halerts, List.drop_left] at ha
  obtain ⟨hmem, deb, hchosen, hversion⟩ := hback a ha line hline
  obtain ⟨pkg, hpkg, v, hv, rfl⟩ := mem_snapshotLines.mp (hlines line hmem)
  rw [nameOf_pkgLine (not_eq_sign (query_some hv).1)] at hchosen hversion
  rw [horder, hdebs (List.ne_nil_of_mem hmem)] at hchosen
  obtain rfl := hfirst pkg hpkg v hv deb hchosen
  exact ⟨pkg, deb.version, rfl, hv, hversion⟩

/-- The application never answers, and every installation succeeds. -/
def brokenOutcomes (order : List Deb → List Deb) : Outcomes where
  port := []
  curl _ _ := []
  aptInstall _ := plainInstall
  aptUpdate := true
  stamp := []
  plan := none
  order := order
  fullUpgrade installed cache := (true, installed, cache)
  rebootRequired := false
  hasPip := false
  pipInstall := true
  pipOutdated := []

theorem brokenOutcomes_installsAlone (order : List Deb → List Deb) (bases : List Text) :
    (brokenOutcomes order).InstallsAlone bases where
  installs _ deb i cache _ := version_plainInstall_self deb i cache
  spares _ deb i cache _ _ hother := version_plainInstall_ne deb i cache (hother rfl)

/-- The boot check right after an update on record reports every package with a file. -/
theorem firstFile_of_restored {order : List Deb → List Deb} {pkg : Text}
    (hd : SameStore (updated env t) d) (hplan : env.planned = some (pkg :: pkgs))
    (h : Restored t d (execute (brokenOutcomes order) cmdBootCheck d).2) :
    FirstFileIsInstalled order t (pkg :: pkgs) := by
  have hrec := updated_onRecord (t := t) hplan
  have hpending : d.get pendingKey = env.dir := (hd.get _).trans hrec.pending
  have hattempted : d.get attemptedKey = ['0'] := (hd.get _).trans hrec.attempted
  have hsnap : d.snapshot env.dir = some (newSnapshot env t (pkg :: pkgs)) :=
    (hd.snapshot _).trans hrec.snapshot
  have hlines : pendingLines d = snapshotLines t.installed (pkg :: pkgs) := by
    rw [pendingLines, hpending, hsnap]
    rfl
  have hdebs : pendingDebs d = snapshotDebs t.cache t.installed (pkg :: pkgs) [] := by
    rw [pendingDebs, hpending, hsnap]
    rfl
  have hplain : PlainLines ((pkg :: pkgs).map baseOf) (pendingLines d) := hlines ▸ plainLines_snapshotLines _ _
  have hreport : Reported (brokenOutcomes order) d (execute (brokenOutcomes order) cmdBootCheck d).2 :=
    (leaves_cmdBootCheck (brokenOutcomes_installsAlone order _) hplain).exec
  -- the service stays down in this run, so the check rolls back
  obtain ⟨a, ha⟩ := hreport.rolledBack (fun _ _ => rfl)
    (hpending ▸ env.dir_ne_nil) (by rw [hattempted]; decide)
    (by rw [hpending, hsnap]; rfl)
  intro p hp v hv deb hchosen
  have heq := not_eq_sign (query_some hv).1
  have hname : nameOf (pkgLine p v) = p := nameOf_pkgLine heq v
  have hmem : pkgLine p v ∈ a.reverted := by
    refine ha.complete (fun _ _ _ _ => rfl) _ (hlines ▸ mem_snapshotLines.mpr ⟨p, hp, v, hv, rfl⟩) ?_
    rw [hname, hdebs]
    exact Option.isSome_of_eq_some hchosen
  obtain ⟨-, deb', hchosen', hversion⟩ := ha.putBack _ hmem
  rw [hname] at hchosen' hversion
  rw [hdebs] at hchosen'
  obtain rfl : deb' = deb := Option.some.inj (hchosen'.symm.trans hchosen)
  obtain ⟨p', v', hline, hv', hinstalled⟩ := h a (by rw [ha.alerts, List.drop_left]; simp) _ hmem
  obtain ⟨rfl, rfl⟩ := pkgLine_injective heq (not_eq_sign (query_some hv').1) hline
  exact Option.some.inj (hversion.symm.trans hinstalled)

/-- All that any later boot check reports of an update is put back exactly where, of each
package on record, the first listed file has the version that was installed: as long as apt
installs a file without changing the others. -/
theorem rollback_restores_iff (env : Outcomes) (d : Disk) (order : List Deb → List Deb)
    (pkgs : List Text) (hown : d.snapshot env.dir = none) (hplan : env.planned = some pkgs) :
    (∀ (later : List Run) (d' : Disk) (env' : Outcomes), env'.order = order →
      env'.InstallsAlone (pkgs.map baseOf) →
      (∀ r ∈ later, r.1 = .osUpdate → r.2.dir ≠ env.dir) →
      steps step later (execute env cmdOsUpdate d).2 = some d' → d'.get pendingKey = env.dir →
      Restored d d' (execute env' cmdBootCheck d').2) ↔ FirstFileIsInstalled order d pkgs := by
  have hstore : SameStore (updated env d) (execute env cmdOsUpdate d).2 := cmdOsUpdate_store hown
  constructor
  · intro h
    cases pkgs with
    | nil => exact fun p hp => absurd hp List.not_mem_nil
    | cons pkg pkgs =>
      have hpending : (execute env cmdOsUpdate d).2.get pendingKey = env.dir :=
        (hstore.get _).trans (updated_onRecord hplan).pending
      exact firstFile_of_restored hstore hplan
        (h [] _ (brokenOutcomes order) rfl (brokenOutcomes_installsAlone order _) (by simp) rfl hpending)
  · intro hfirst later d' env' horder hapt hne hrun hp
    have hsnap : IsSnapshot env.dir (newSnapshot env d pkgs) (execute env cmdOsUpdate d).2 := by
      rw [IsSnapshot, hstore.snapshots]
      exact updated_isSnapshot hown hplan
    exact restored_of_firstFile horder hapt hfirst (runs_isSnapshot hne hrun hsnap) hp

def tzdataDeb (version : String) : Deb := ⟨tzdata, version.toList, "all".toList⟩

def openssl : PackageName := ⟨"openssl".toList, by decide⟩

def opensslDeb : Deb := ⟨openssl, "3.0.11-1".toList, "armhf".toList⟩

/-- Two packages, with the files in the cache that earlier upgrades have left there. -/
def cachedDisk (cache : List Deb) : Disk :=
  { sampleDisk with cache := cache, installed := [(tzdata, "2024a".toList), (openssl, "3.0.11-1".toList)] }

def twoUpdates : Outcomes := sampleOutcomes "20240101T030000Z"
  ["Inst tzdata [2024a] (2024b)", "Inst openssl [3.0.11-1] (3.0.13-1)"]

/-- An older file is listed behind the one of the installed version. -/
def restorableDisk : Disk := cachedDisk [tzdataDeb "2024a", opensslDeb, tzdataDeb "2023c"]

theorem sample_rollback_restores :
    Restored restorableDisk (execute twoUpdates cmdOsUpdate restorableDisk).2
      (execute (brokenOutcomes id) cmdBootCheck (execute twoUpdates cmdOsUpdate restorableDisk).2).2 := by
  refine (rollback_restores_iff twoUpdates restorableDisk id ["tzdata".toList, "openssl".toList]
    (by decide +kernel) (by decide +kernel)).mpr ?_ [] _ _ rfl (brokenOutcomes_installsAlone id _) (by simp) rfl
    (by decide +kernel)
  have hfirst : ∀ pkg ∈ ["tzdata".toList, "openssl".toList],
      (chosen id (snapshotDebs restorableDisk.cache restorableDisk.installed ["tzdata".toList, "openssl".toList] [])
        (baseOf pkg)).map Deb.version = restorableDisk.installed.query pkg := by decide +kernel
  intro pkg hpkg v hv deb hdeb
  have hversion := hfirst pkg hpkg
  rw [hdeb, hv] at hversion
  exact Option.some.inj hversion

def tzdataUpdate : Outcomes := sampleOutcomes "20240101T030000Z" ["Inst tzdata [2024a] (2024b)"]

/-- With an older file still in the cache the rollback puts that one in, and reports the
recorded version as reverted. -/
theorem older_file_is_installed :
    ¬ ∀ (env env' : Outcomes) (d d' : Disk) (pkgs : List Text), d.snapshot env.dir = none →
      env.planned = some pkgs → steps step [] (execute env cmdOsUpdate d).2 = some d' →
      env'.InstallsAlone (pkgs.map baseOf) → d'.get pendingKey = env.dir →
      Restored d d' (execute env' cmdBootCheck d').2 := by
  intro h
  let d : Disk := cachedDisk [tzdataDeb "2023c", tzdataDeb "2024a"]
  let d' : Disk := (execute tzdataUpdate cmdOsUpdate d).2
  let d'' : Disk := (execute (brokenOutcomes id) cmdBootCheck d').2
  have hrestored : Restored d d' d'' := h tzdataUpdate (brokenOutcomes id) d d' ["tzdata".toList]
    (by decide +kernel) (by decide +kernel) rfl (brokenOutcomes_installsAlone id _) (by decide +kernel)
  have halerts : d''.alerts.drop d'.alerts.length =
      [⟨rollbackReason, ["tzdata=2024a".toList], []⟩] := by decide +kernel
  have hinstalled : d''.installed.version "tzdata".toList = some "2023c".toList := by decide +kernel
  have hbefore : d.installed.query "tzdata".toList = some "2024a".toList := by decide +kernel
  obtain ⟨pkg, v, hline, hv, hversion⟩ := hrestored _ (halerts ▸ List.mem_cons_self) _ List.mem_cons_self
  have hsame : pkgLine "tzdata".toList "2024a".toList = pkgLine pkg v := hline ▸ by decide +kernel
  obtain ⟨rfl, rfl⟩ := pkgLine_injective (not_eq_sign (query_some hbefore).1)
    (not_eq_sign (query_some hv).1) hsame
  have hbase : baseOf "tzdata".toList = "tzdata".toList := by decide +kernel
  rw [hbase, hinstalled] at hversion
  exact absurd hversion (by decide +kernel)

end Maintenance
