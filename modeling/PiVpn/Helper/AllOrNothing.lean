import PiVpn.Helper.PeerSections

/-! The two stores a command changes in sequence, the conf file and the live interface:
whether both take the change, or neither. -/

namespace Helper
open Text Pattern

/-! ## What the subprocesses are documented to do -/

def Outcome.succeeded : Outcome → Bool
  | .exited rc _ _ => rc = 0
  | .notStarted _ => false

/-- A peer of an interface, as a `wg set` with these arguments leaves it. -/
structure SetAs (publicKey allowedIps : Text) (keepalive presharedKey : Option Text)
    (p : LivePeer) : Prop where
  key : p.publicKey = publicKey
  ips : p.allowedIps = allowedIps
  keepalive : ∀ k ∈ keepalive, p.keepalive = some k
  psk : ∀ k ∈ presharedKey, p.presharedKey = some k

/-- `wg set` either does what it is told on an interface that is up, or fails and changes
nothing. A `systemctl` that cannot start changes nothing either; one that ran may leave
the interface up or down. -/
structure Documented (env : Env) : Prop where
  setPeer : ∀ n tunnel key ips keepalive file psk live,
    (env n (.wgSetPeer tunnel key ips keepalive file) psk live).1.succeeded = true →
      ∀ peers ∈ live tunnel,
        ∃ peers' ∈ (env n (.wgSetPeer tunnel key ips keepalive file) psk live).2 tunnel,
          ∃ p ∈ peers', SetAs key ips keepalive (if file then psk.map rstripNl else none) p
  removePeer : ∀ n tunnel key psk live,
    (env n (.wgRemovePeer tunnel key) psk live).1.succeeded = true →
      ∀ peers ∈ live tunnel, (env n (.wgRemovePeer tunnel key) psk live).2 tunnel =
        some (peers.filter (·.publicKey ≠ key))
  failed : ∀ n c psk live, (env n c psk live).1.succeeded = false →
    (∀ verb tunnel, c ≠ .systemctl verb tunnel) → (env n c psk live).2 = live
  notStarted : ∀ n c psk live e, (env n c psk live).1 = .notStarted e → (env n c psk live).2 = live

/-! ## All or nothing -/

/-- Every conf file and every interface is as before. -/
def Unchanged (s s' : State) : Prop :=
  (∀ name, s'.conf.lookup name = s.conf.lookup name) ∧ s'.live = s.live

def AllOrNothing (res : Except Fault Unit) (s s' : State) (done : Prop) : Prop :=
  match res with
  | .ok _ => done
  | .error _ => Unchanged s s'

/-- `wg` reads what it read of the file before and then the section that was asked for;
where the interface is up, the peer is on it. -/
def PeerAdded (req : Request) (s s' : State) : Prop :=
  ∃ r content, readAddPeer req = .ok r ∧ s.conf.lookup r.tunnel.text = some content ∧
    (∃ content' ∈ s'.conf.lookup r.tunnel.text, wgRead content' = wgRead content ++ [r.asked]) ∧
    ∀ peers ∈ s.live r.tunnel.text, ∃ peers' ∈ s'.live r.tunnel.text, ∃ p ∈ peers',
      SetAs r.publicKey.text r.allowedIps.str (keepaliveText r.keepalive)
        (r.presharedKey.map fun k => rstripNl k.text) p

/-- `wg` reads the file as before but for the sections of the peer; where the interface is
up, the peer is not on it. -/
def PeerRemoved (req : Request) (s s' : State) : Prop :=
  ∃ r content, readRemovePeer req = .ok r ∧ s.conf.lookup r.tunnel.text = some content ∧
    (∃ content' ∈ s'.conf.lookup r.tunnel.text,
      wgRead content' = (wgRead content).filter (¬ IsPeer r.publicKey ·)) ∧
    ∀ peers ∈ s.live r.tunnel.text,
      s'.live r.tunnel.text = some (peers.filter (·.publicKey ≠ r.publicKey.text))

/-- There is no conf file and the interface is down. -/
def TunnelDeleted (req : Request) (s' : State) : Prop :=
  ∃ name, validateTunnelName (Json.get req "name") = .ok name ∧
    s'.conf.lookup name.text = none ∧ s'.live name.text = none

/-! ## When a command fails half-way -/

/-- A new peer is written: while the interface is up and `wg set` fails, or with a value
that does not stay on its line. -/
def AddGoesWrong (env : Env) (req : Request) (s : State) : Prop :=
  ∃ r content, readAddPeer req = .ok r ∧ s.conf.lookup r.tunnel.text = some content ∧
    hasPeer r.publicKey content = false ∧
    ((s.live r.tunnel.text).isSome ∧
        (env s.tick (setPeerCommand r) (pskDuring r s.psk) s.live).1.succeeded = false ∨
      ¬ r.OnItsLines)

/-- The interface is up and `wg set` fails: that goes wrong where the file is written back
differently. Otherwise it goes wrong where the key is not spelled out. -/
def RemoveGoesWrong (env : Env) (req : Request) (s : State) : Prop :=
  ∃ r content, readRemovePeer req = .ok r ∧ s.conf.lookup r.tunnel.text = some content ∧
    if (s.live r.tunnel.text).isSome ∧
        (env s.tick (removePeerCommand r) s.psk s.live).1.succeeded = false then
      hasPeer r.publicKey content = true ∨ tidy content ≠ content
    else ¬ SpelledOut content r.publicKey

/-- `systemctl` runs and leaves the interface up. -/
def DeleteLeavesUp (env : Env) (req : Request) (s : State) : Prop :=
  ∃ name, validateTunnelName (Json.get req "name") = .ok name ∧
    (∀ e, (env s.tick (.systemctl .disableNow name.text) s.psk s.live).1 ≠ .notStarted e) ∧
    (env s.tick (.systemctl .disableNow name.text) s.psk s.live).2 name.text ≠ none

/-! ## Writing changes the file -/

theorem mark_mem_peerText (r : AddPeer) : contentLines (peerText r) ≠ [] := by
  have h : peerMark ∈ contentLines (peerText r) := by
    rw [contentLines, fileLines_peerText]
    simp [peerMark]
  exact List.ne_nil_of_mem h

theorem withPeer_ne (r : AddPeer) (content : Text) : withPeer r content ≠ content := by
  intro h
  have hl := congrArg contentLines h
  rw [withPeer_eq, contentLines_append (cr_not_mem_tidy content), contentLines_tidy,
    List.append_right_eq_self] at hl
  exact mark_mem_peerText r hl

theorem filled_ne_nil {b : Text} (h : peerMark <+: b) : filled b ≠ [] := by
  obtain ⟨t, rfl⟩ := h
  obtain ⟨l, ls, hl⟩ := List.exists_cons_of_ne_nil (List.splitOn_ne_nil '\n' t)
  rw [filled, splitOn_append_first newline_not_mem_mark, hl]
  simp [peerMark]

theorem length_flatMap_filter_lt {α β : Type} {f : α → List β} {p : α → Bool} {xs : List α}
    (hf : ∀ x ∈ xs, f x ≠ []) (hp : ∃ x ∈ xs, p x = false) :
    ((xs.filter p).flatMap f).length < (xs.flatMap f).length := by
  induction xs with
  | nil => simp at hp
  | cons x xs ih =>
    have hle : ((xs.filter p).flatMap f).length ≤ (xs.flatMap f).length :=
      (List.Sublist.flatMap List.filter_sublist f).length_le
    have hx := List.length_pos_iff.mpr (hf x List.mem_cons_self)
    by_cases hpx : p x
    · obtain ⟨y, hy, hpy⟩ := hp
      have hyx : y ∈ xs := by
        rcases List.mem_cons.mp hy with rfl | h
        · simp [hpx] at hpy
        · exact h
      have := ih (fun z hz => hf z (List.mem_cons_of_mem _ hz)) ⟨y, hyx, hpy⟩
      rw [List.filter_cons, if_pos hpx]
      simp only [List.flatMap_cons, List.length_append]
      omega
    · rw [List.filter_cons, if_neg hpx]
      simp only [List.flatMap_cons, List.length_append]
      omega

/-- Removing writes the file back as it was just when no section mentions the key and
the file has the form the helper writes. -/
theorem withoutPeer_eq_iff {key : WgKey} {content : Text} :
    withoutPeer key content = content ↔ hasPeer key content = false ∧ tidy content = content := by
  have hkeep : hasPeer key content = false → withoutPeer key content = tidy content := by
    intro h
    change rebuildConf (sections content).1 ((sections content).2.filter fun b => !mentions key b) =
      rebuildConf (sections content).1 (sections content).2
    rw [List.filter_eq_self.mpr]
    intro b hb
    have hb' := (List.any_eq_false.mp h) b hb
    simpa using hb'
  constructor
  · intro h
    have hno : hasPeer key content = false := by
      by_contra hp
      rw [Bool.not_eq_false] at hp
      obtain ⟨b, hb, hm⟩ := List.any_eq_true.mp hp
      have hcr : '\r' ∉ withoutPeer key content :=
        not_mem_rebuildConf (cut_sections content).noCr.1 fun b hb =>
          (cut_sections content).noCr.2 b (List.mem_filter.mp hb).1
      -- removing a section takes lines away, so the text that is written back is another
      have hlen : (contentLines (withoutPeer key content)).length < (contentLines content).length := by
        rw [← contentLines_tidy content]
        have hw : contentLines (withoutPeer key content) = filled (withoutPeer key content) := by
          rw [contentLines, fileLines, universalNewlines_of_not_mem hcr, filled]
        have ht : contentLines (tidy content) = filled (tidy content) := by
          rw [contentLines, fileLines, universalNewlines_of_not_mem (cr_not_mem_tidy content), filled]
        rw [hw, ht, withoutPeer, tidy, filled_rebuildConf, filled_rebuildConf, List.length_append,
          List.length_append]
        refine Nat.add_lt_add_left (length_flatMap_filter_lt (fun c hc => ?_) ⟨b, hb, by simp [hm]⟩) _
        exact filled_ne_nil ((cut_sections content).blocks c hc).1
      rw [h] at hlen
      exact lt_irrefl _ hlen
    exact ⟨hno, (hkeep hno).symm.trans h⟩
  · rintro ⟨hno, ht⟩
    rw [hkeep hno, ht]

/-! ## Exactly when each command is all or nothing -/

variable {env : Env} {s : State} {req : Request}

theorem checked_cases (o : Outcome) (what : String) :
    o.succeeded = true ∧ (∃ out, checked o what = .ok out) ∨
      o.succeeded = false ∧ ∃ e, checked o what = .error e := by
  cases o with
  | exited rc out err => by_cases h : rc = 0 <;> simp [checked, Outcome.succeeded, h]
  | notStarted e => exact .inr ⟨rfl, _, rfl⟩

theorem unchanged_refl (s : State) : Unchanged s s := ⟨fun _ => rfl, rfl⟩

theorem setPeer_live (hd : Documented env) (r : AddPeer)
    (h : (env s.tick (setPeerCommand r) (pskDuring r s.psk) s.live).1.succeeded = true) :
    ∀ peers ∈ s.live r.tunnel.text,
      ∃ peers' ∈ (env s.tick (setPeerCommand r) (pskDuring r s.psk) s.live).2 r.tunnel.text,
        ∃ p ∈ peers', SetAs r.publicKey.text r.allowedIps.str (keepaliveText r.keepalive)
          (r.presharedKey.map fun k => rstripNl k.text) p := by
  intro peers hpeers
  obtain ⟨peers', hm, p, hp, has⟩ := hd.setPeer _ _ _ _ _ _ _ _ h peers hpeers
  refine ⟨peers', hm, p, hp, has.key, has.ips, has.keepalive, fun k hk => has.psk k ?_⟩
  obtain ⟨v, hv, rfl⟩ := Option.map_eq_some_iff.mp hk
  simp [pskDuring, hv, rstripNl_newline]

/-- What the file then says of a peer that was written. -/
theorem wgRead_withPeer_iff (r : AddPeer) (content : Text) :
    wgRead (withPeer r content) = wgRead content ++ [r.asked] ↔ r.OnItsLines := by
  rw [wgRead_withPeer, List.append_cancel_left_eq, wgRead_peerText_iff]

section accepted

variable {content : Text}

theorem addPeer_goes_wrong_iff {r : AddPeer} (hr : readAddPeer req = .ok r)
    (hc : s.conf.lookup r.tunnel.text = some content) :
    AddGoesWrong env req s ↔ hasPeer r.publicKey content = false ∧
      ((s.live r.tunnel.text).isSome ∧
          (env s.tick (setPeerCommand r) (pskDuring r s.psk) s.live).1.succeeded = false ∨
        ¬ r.OnItsLines) := by
  constructor
  · rintro ⟨r', content', hr', hc', hwrong⟩
    obtain rfl := Except.ok.inj (hr.symm.trans hr')
    obtain rfl := Option.some.inj (hc.symm.trans hc')
    exact hwrong
  · exact fun hwrong => ⟨r, content, hr, hc, hwrong⟩

theorem removePeer_goes_wrong_iff {r : RemovePeer} (hr : readRemovePeer req = .ok r)
    (hc : s.conf.lookup r.tunnel.text = some content) :
    RemoveGoesWrong env req s ↔
      if (s.live r.tunnel.text).isSome ∧
          (env s.tick (removePeerCommand r) s.psk s.live).1.succeeded = false then
        hasPeer r.publicKey content = true ∨ tidy content ≠ content
      else ¬ SpelledOut content r.publicKey := by
  constructor
  · rintro ⟨r', content', hr', hc', hwrong⟩
    obtain rfl := Except.ok.inj (hr.symm.trans hr')
    obtain rfl := Option.some.inj (hc.symm.trans hc')
    exact hwrong
  · exact fun hwrong => ⟨r, content, hr, hc, hwrong⟩

theorem peerAdded_iff {r : AddPeer} (hr : readAddPeer req = .ok r)
    (hc : s.conf.lookup r.tunnel.text = some content) {s' : State}
    (hc' : s'.conf.lookup r.tunnel.text = some (withPeer r content))
    (hlive : ∀ peers ∈ s.live r.tunnel.text, ∃ peers' ∈ s'.live r.tunnel.text, ∃ p ∈ peers',
      SetAs r.publicKey.text r.allowedIps.str (keepaliveText r.keepalive)
        (r.presharedKey.map fun k => rstripNl k.text) p) :
    PeerAdded req s s' ↔ r.OnItsLines := by
  rw [← wgRead_withPeer_iff r content]
  constructor
  · rintro ⟨r', content₁, hr', hc₁, ⟨content₂, hc₂, hread⟩, -⟩
    obtain rfl := Except.ok.inj (hr.symm.trans hr')
    obtain rfl := Option.some.inj (hc.symm.trans hc₁)
    obtain rfl := Option.some.inj (hc'.symm.trans hc₂)
    exact hread
  · exact fun hread => ⟨r, content, hr, hc, ⟨_, hc', hread⟩, hlive⟩

theorem peerRemoved_iff {r : RemovePeer} (hr : readRemovePeer req = .ok r)
    (hc : s.conf.lookup r.tunnel.text = some content) {s' : State}
    (hc' : s'.conf.lookup r.tunnel.text = some (withoutPeer r.publicKey content))
    (hlive : ∀ peers ∈ s.live r.tunnel.text,
      s'.live r.tunnel.text = some (peers.filter (·.publicKey ≠ r.publicKey.text))) :
    PeerRemoved req s s' ↔ SpelledOut content r.publicKey := by
  rw [← wgRead_withoutPeer_iff]
  constructor
  · rintro ⟨r', content₁, hr', hc₁, ⟨content₂, hc₂, hread⟩, -⟩
    obtain rfl := Except.ok.inj (hr.symm.trans hr')
    obtain rfl := Option.some.inj (hc.symm.trans hc₁)
    obtain rfl := Option.some.inj (hc'.symm.trans hc₂)
    exact hread
  · exact fun hread => ⟨r, content, hr, hc, ⟨_, hc', hread⟩, hlive⟩

end accepted

theorem addPeer_allOrNothing_iff (hd : Documented env) :
    AllOrNothing (execute env (cmdAddPeer req) s).1 s (execute env (cmdAddPeer req) s).2
        (PeerAdded req s (execute env (cmdAddPeer req) s).2) ↔ ¬ AddGoesWrong env req s := by
  rw [execute_cmdAddPeer]
  cases hr : readAddPeer req with
  | error e =>
    refine iff_of_true (unchanged_refl s) ?_
    rintro ⟨r, content, hr', -⟩
    simp [hr] at hr'
  | ok r =>
    cases hc : s.conf.lookup r.tunnel.text with
    | none =>
      simp only [hc]
      refine iff_of_true (unchanged_refl s) ?_
      rintro ⟨r', content, hr', hc', -⟩
      obtain rfl := Except.ok.inj (hr.symm.trans hr')
      simp [hc] at hc'
    | some content =>
      rw [addPeer_goes_wrong_iff hr hc]
      cases hp : hasPeer r.publicKey content with
      | true =>
        simp only [hc, hp, if_true]
        exact iff_of_true (unchanged_refl s) (by simp)
      | false =>
        simp only [hc, hp, Bool.false_eq_true, if_false]
        cases hl : s.live r.tunnel.text with
        | none =>
          refine (peerAdded_iff hr hc (ConfDir.lookup_set_self ..) (by simp [hl])).trans ?_
          simp
        | some peers =>
          simp only [Option.isSome_some, if_true, execute_setPeer]
          rcases checked_cases (env s.tick (setPeerCommand r) (pskDuring r s.psk) s.live).1 "wg set" with
            ⟨hout, out, ho⟩ | ⟨hout, e, ho⟩
          · simp only [ho]
            refine (peerAdded_iff hr hc (ConfDir.lookup_set_self ..) (setPeer_live hd r hout)).trans ?_
            simp [hout]
          -- the file is written before `wg set` is run, and nothing writes it back
          · simp only [ho]
            refine iff_of_false (fun hun => ?_) (by simp [hout])
            have hfile := hun.1 r.tunnel.text
            rw [ConfDir.lookup_set_self, hc] at hfile
            exact withPeer_ne r content (Option.some.inj hfile)

theorem removePeer_allOrNothing_iff (hd : Documented env) :
    AllOrNothing (execute env (cmdRemovePeer req) s).1 s (execute env (cmdRemovePeer req) s).2
        (PeerRemoved req s (execute env (cmdRemovePeer req) s).2) ↔
      ¬ RemoveGoesWrong env req s := by
  rw [execute_cmdRemovePeer]
  cases hr : readRemovePeer req with
  | error e =>
    refine iff_of_true (unchanged_refl s) ?_
    rintro ⟨r, content, hr', -⟩
    simp [hr] at hr'
  | ok r =>
    cases hc : s.conf.lookup r.tunnel.text with
    | none =>
      simp only [hc]
      refine iff_of_true (unchanged_refl s) ?_
      rintro ⟨r', content, hr', hc', -⟩
      obtain rfl := Except.ok.inj (hr.symm.trans hr')
      simp [hc] at hc'
    | some content =>
      rw [removePeer_goes_wrong_iff hr hc]
      simp only [hc]
      cases hl : s.live r.tunnel.text with
      | none =>
        refine (peerRemoved_iff hr hc (ConfDir.lookup_set_self ..) (by simp [hl])).trans ?_
        simp
      | some peers =>
        simp only [Option.isSome_some, if_true]
        rcases checked_cases (env s.tick (removePeerCommand r) s.psk s.live).1 "wg set remove" with
          ⟨hout, out, ho⟩ | ⟨hout, e, ho⟩
        · simp only [ho]
          refine (peerRemoved_iff hr hc (ConfDir.lookup_set_self ..) (hd.removePeer _ _ _ _ _ hout)).trans ?_
          simp [hout]
        -- a failure after the write is seen only where the write has changed the text
        · simp only [ho, hout, true_and, if_true]
          have hlive := hd.failed _ _ _ _ hout (by simp [removePeerCommand])
          have hfile : (s.conf.set r.tunnel.text (withoutPeer r.publicKey content)).lookup
              r.tunnel.text = s.conf.lookup r.tunnel.text ↔ withoutPeer r.publicKey content = content := by
            rw [ConfDir.lookup_set_self, hc, Option.some_inj]
          rw [not_or, Bool.not_eq_true, not_not, ← withoutPeer_eq_iff, ← hfile]
          constructor
          · exact fun hun => hun.1 r.tunnel.text
          · refine fun hsame => ⟨fun name => ?_, hlive⟩
            by_cases hn : name = r.tunnel.text
            · rw [hn]
              exact hsame
            · exact ConfDir.lookup_set_ne hn _

theorem deleteTunnel_allOrNothing_iff (hd : Documented env) :
    AllOrNothing (execute env (cmdDeleteTunnel req) s).1 s (execute env (cmdDeleteTunnel req) s).2
        (TunnelDeleted req (execute env (cmdDeleteTunnel req) s).2) ↔ ¬ DeleteLeavesUp env req s := by
  rw [execute_cmdDeleteTunnel]
  cases hr : validateTunnelName (Json.get req "name") with
  | error e =>
    refine iff_of_true (unchanged_refl s) ?_
    rintro ⟨name, hr', -⟩
    simp [hr] at hr'
  | ok name =>
    have hsame : ∀ name', validateTunnelName (Json.get req "name") = .ok name' → name = name' :=
      fun name' hr' => Except.ok.inj (hr.symm.trans hr')
    cases ho : (env s.tick (.systemctl .disableNow name.text) s.psk s.live).1 with
    | notStarted e =>
      simp only [ho, ran]
      refine iff_of_true ⟨fun _ => rfl, hd.notStarted _ _ _ _ e ho⟩ ?_
      rintro ⟨name', hr', hstart, -⟩
      obtain rfl := hsame name' hr'
      exact hstart e ho
    | exited rc out err =>
      simp only [ho, ran]
      -- the file goes whatever `systemctl` answers; the interface stays where it has failed
      have hdone : TunnelDeleted req { s.afterRun env (.systemctl .disableNow name.text) with
          conf := s.conf.erase name.text } ↔
          (env s.tick (.systemctl .disableNow name.text) s.psk s.live).2 name.text = none := by
        constructor
        · rintro ⟨name', hr', -, hl⟩
          obtain rfl := hsame name' hr'
          exact hl
        · exact fun hl => ⟨name, hr, ConfDir.lookup_erase_self _ _, hl⟩
      refine hdone.trans ⟨?_, fun hn => ?_⟩
      · rintro hl ⟨name', hr', -, hup⟩
        obtain rfl := hsame name' hr'
        exact hup hl
      · by_contra hup
        exact hn ⟨name, hr, by simp [ho], hup⟩

/-- Each command is all or nothing just when `wg set` does not fail after the file was
changed, the file says what was written or taken out, and `systemctl` does not leave the
interface up. -/
theorem all_or_nothing_iff (env : Env) (hd : Documented env) (req : Request) (s : State) :
    (AllOrNothing (execute env (cmdAddPeer req) s).1 s (execute env (cmdAddPeer req) s).2
        (PeerAdded req s (execute env (cmdAddPeer req) s).2) ↔ ¬ AddGoesWrong env req s) ∧
      (AllOrNothing (execute env (cmdRemovePeer req) s).1 s (execute env (cmdRemovePeer req) s).2
        (PeerRemoved req s (execute env (cmdRemovePeer req) s).2) ↔
        ¬ RemoveGoesWrong env req s) ∧
      (AllOrNothing (execute env (cmdDeleteTunnel req) s).1 s (execute env (cmdDeleteTunnel req) s).2
        (TunnelDeleted req (execute env (cmdDeleteTunnel req) s).2) ↔ ¬ DeleteLeavesUp env req s) :=
  ⟨addPeer_allOrNothing_iff hd, removePeer_allOrNothing_iff hd, deleteTunnel_allOrNothing_iff hd⟩

/-- Every subprocess fails and changes nothing. -/
def failingEnv : Env := fun _ _ _ live => (.exited 1 [] [], live)

theorem failingEnv_documented : Documented failingEnv where
  setPeer := fun _ _ _ _ _ _ _ _ h => absurd h Bool.false_ne_true
  removePeer := fun _ _ _ _ _ h => absurd h Bool.false_ne_true
  failed := fun _ _ _ _ _ _ => rfl
  notStarted := fun _ _ _ _ _ _ => rfl

/-- Every subprocess does what it is told where the interface is up. -/
def workingEnv : Env
  | _, .wgSetPeer tunnel key ips keepalive file, psk, live =>
    match live tunnel with
    | some peers => (.exited 0 [] [], Function.update live tunnel
        (some (⟨key, ips, keepalive, if file then psk.map rstripNl else none⟩ :: peers)))
    | none => (.exited 1 [] [], live)
  | _, .wgRemovePeer tunnel key, _, live =>
    match live tunnel with
    | some peers => (.exited 0 [] [], Function.update live tunnel (some (peers.filter (·.publicKey ≠ key))))
    | none => (.exited 1 [] [], live)
  | _, .systemctl .disableNow tunnel, _, live => (.exited 0 [] [], Function.update live tunnel none)
  | _, _, _, live => (.exited 0 [] [], live)

theorem workingEnv_documented : Documented workingEnv where
  setPeer := by
    intro n tunnel key ips keepalive file psk live _ peers hpeers
    rw [Option.mem_def] at hpeers
    simp only [workingEnv, hpeers, Function.update_self]
    exact ⟨_, rfl, _, List.mem_cons_self, rfl, rfl, fun _ h => h, fun _ h => h⟩
  removePeer := by
    intro n tunnel key psk live _ peers hpeers
    rw [Option.mem_def] at hpeers
    simp only [workingEnv, hpeers, Function.update_self]
  failed := by
    intro n c psk live hfails hother
    cases c with
    | wgSetPeer tunnel key ips keepalive file => cases hl : live tunnel <;> simp_all [workingEnv, Outcome.succeeded]
    | wgRemovePeer tunnel key => cases hl : live tunnel <;> simp_all [workingEnv, Outcome.succeeded]
    | systemctl verb tunnel => exact absurd rfl (hother verb tunnel)
    | wgGenkey => rfl
    | wgPubkey k => rfl
    | wgShowAllDump => rfl
  notStarted := by
    intro n c psk live e hstart
    cases c with
    | wgSetPeer tunnel key ips keepalive file => cases hl : live tunnel <;> simp_all [workingEnv]
    | wgRemovePeer tunnel key => cases hl : live tunnel <;> simp_all [workingEnv]
    | systemctl verb tunnel => cases verb <;> cases hstart
    | wgGenkey => cases hstart
    | wgPubkey k => cases hstart
    | wgShowAllDump => cases hstart

/-- The tunnel of the sample file is up. -/
def upState : State := { sampleState with live := fun _ => some [] }

theorem addRequest_read : ∃ r, readAddPeer (addRequest plainAddress) = .ok r ∧
    r.tunnel = sampleName := by
  have hsome : (Ipaddress.ipInterface plainAddress).isSome = true := by decide +kernel
  obtain ⟨i, hi⟩ := Option.isSome_iff_exists.mp hsome
  exact ⟨_, readAddPeer_sample hi, rfl⟩

/-- `wg set` fails on an interface that is up: the error leaves the peer in the file. -/
theorem failed_add_leaves_peer :
    ¬ AllOrNothing (execute failingEnv (cmdAddPeer (addRequest plainAddress)) upState).1 upState
      (execute failingEnv (cmdAddPeer (addRequest plainAddress)) upState).2
      (PeerAdded (addRequest plainAddress) upState
        (execute failingEnv (cmdAddPeer (addRequest plainAddress)) upState).2) := by
  rw [addPeer_allOrNothing_iff failingEnv_documented, not_not]
  obtain ⟨r, hr, hn⟩ := addRequest_read
  exact ⟨r, interfaceMark, hr, by rw [hn]; rfl, rfl, .inl ⟨rfl, rfl⟩⟩

/-- A further peer is in the file, and on the interface, which is up. -/
def peerState : State :=
  { upState with
    conf := upState.conf.set "wg0" (unlines [interfaceMark, [], peerMark, setting publicKeyWord sampleKey])
    live := fun _ => some [⟨sampleKey, [], none, none⟩] }

def deleteRequest : Request := [("cmd", .str "delete_tunnel"), ("name", .str "wg0")]

/-- Where the subprocesses work, a peer comes, one goes, and the tunnel is deleted. -/
theorem commands_while_up :
    AllOrNothing (execute workingEnv (cmdAddPeer (addRequest plainAddress)) upState).1 upState
        (execute workingEnv (cmdAddPeer (addRequest plainAddress)) upState).2
        (PeerAdded (addRequest plainAddress) upState
          (execute workingEnv (cmdAddPeer (addRequest plainAddress)) upState).2) ∧
      AllOrNothing (execute workingEnv (cmdRemovePeer (removeRequest sampleWgKey)) peerState).1 peerState
        (execute workingEnv (cmdRemovePeer (removeRequest sampleWgKey)) peerState).2
        (PeerRemoved (removeRequest sampleWgKey) peerState
          (execute workingEnv (cmdRemovePeer (removeRequest sampleWgKey)) peerState).2) ∧
      AllOrNothing (execute workingEnv (cmdDeleteTunnel deleteRequest) peerState).1 peerState
        (execute workingEnv (cmdDeleteTunnel deleteRequest) peerState).2
        (TunnelDeleted deleteRequest (execute workingEnv (cmdDeleteTunnel deleteRequest) peerState).2) := by
  refine ⟨(all_or_nothing_iff workingEnv workingEnv_documented _ upState).1.mpr ?_,
    (all_or_nothing_iff workingEnv workingEnv_documented _ peerState).2.1.mpr ?_,
    (all_or_nothing_iff workingEnv workingEnv_documented _ peerState).2.2.mpr ?_⟩
  · rintro ⟨r, content, hr, -, -, ⟨-, hfails⟩ | hlines⟩
    · simp [setPeerCommand, workingEnv, upState, Outcome.succeeded] at hfails
    · have hread : (readAddPeer (addRequest plainAddress)).toOption.all (·.OnItsLines) = true := by
        decide +kernel
      rw [hr] at hread
      exact hlines (of_decide_eq_true hread)
  · have hc : peerState.conf.lookup sampleName.text =
        some (unlines [interfaceMark, [], peerMark, setting publicKeyWord sampleKey]) :=
      ConfDir.lookup_set_self ..
    have hspelled : SpelledOut (unlines [interfaceMark, [], peerMark, setting publicKeyWord sampleKey])
      sampleWgKey := by decide +kernel
    rw [removePeer_goes_wrong_iff (readRemovePeer_removeRequest sampleWgKey) hc, if_neg, not_not]
    · exact hspelled
    · simp [removePeerCommand, workingEnv, peerState, Outcome.succeeded]
  · rintro ⟨name, -, -, hup⟩
    simp [workingEnv] at hup

end Helper
