import PiVpn.Lib.Lockstep
import PiVpn.Helper.ConfStore

/-! Two runs of the helper that differ in private and preshared keys alone: the conf
files keep apart in the lines that hold such a key, and whatever else the helper says,
writes or logs is the same. -/

namespace Helper
open Text Pattern Effect

/-! ## Texts that differ in a key -/

/-- Two new tunnels with different private keys. -/
structure CreateTunnel.Alike (t t' : CreateTunnel) : Prop where
  name : t.name = t'.name
  address : t.address = t'.address
  listenPort : t.listenPort = t'.listenPort
  unscoped : t.address.scope = none

/-- Two new peers, with different preshared keys or with none. -/
structure AddPeer.Alike (r r' : AddPeer) : Prop where
  tunnel : r.tunnel = r'.tunnel
  publicKey : r.publicKey = r'.publicKey
  allowedIps : r.allowedIps = r'.allowedIps
  keepalive : r.keepalive = r'.keepalive
  psk : r.presharedKey.isSome = r'.presharedKey.isSome
  regular : Regular r ∧ Regular r'

def HeaderAlike (h h' : Text) : Prop :=
  h = h' ∨ ∃ t t', CreateTunnel.Alike t t' ∧ h = tunnelText t ∧ h' = tunnelText t'

def BlockAlike (b b' : Text) : Prop :=
  b = b' ∨ ∃ r r', AddPeer.Alike r r' ∧ b = peerText r ∧ b' = peerText r'

/-- A header and sections, as they are cut from the two texts. -/
structure PartsAlike (p p' : Text × List Text) : Prop where
  header : HeaderAlike p.1 p'.1
  blocks : List.Forall₂ BlockAlike p.2 p'.2

def ConfAlike (content content' : Text) : Prop := PartsAlike (sections content) (sections content')

section texts

variable {h h' b b' content content' : Text} {bs bs' : List Text} {r r' : AddPeer} {key : WgKey}

theorem BlockAlike.refl (b : Text) : BlockAlike b b := .inl rfl

theorem PartsAlike.refl (p : Text × List Text) : PartsAlike p p :=
  ⟨.inl rfl, List.forall₂_same.mpr fun b _ => BlockAlike.refl b⟩

theorem ConfAlike.refl (content : Text) : ConfAlike content content := PartsAlike.refl _

theorem HeaderAlike.address (hh : HeaderAlike h h') :
    (keyLine addressWord).first h = (keyLine addressWord).first h' := by
  rcases hh with rfl | ⟨t, t', ht, rfl, rfl⟩
  · rfl
  · rw [first_address ht.unscoped, first_address (ht.address ▸ ht.unscoped), ht.address]

theorem BlockAlike.endpoint (hb : BlockAlike b b') : blockEndpoint b = blockEndpoint b' := by
  rcases hb with rfl | ⟨r, r', hr, rfl, rfl⟩
  · rfl
  · rw [hr.regular.1.blockEndpoint, hr.regular.2.blockEndpoint]

theorem BlockAlike.allowedIps (hb : BlockAlike b b') : blockAllowedIps b = blockAllowedIps b' := by
  rcases hb with rfl | ⟨r, r', hr, rfl, rfl⟩
  · rfl
  · rw [hr.regular.1.blockAllowedIps, hr.regular.2.blockAllowedIps, hr.allowedIps]

/-- With a newline after it the key is looked for with its newline. -/
theorem Regular.mentions_newline (hr : Regular r) {k : Text} (hk : FullKey k)
    (hkey : key.text = k ++ ['\n']) : mentions key (peerText r) = true ↔ k = r.publicKey.text := by
  have hfull := @Regular.mentions_iff r hr ⟨k, wgKeyPattern_iff.mpr (.inl hk)⟩ hk
  have hline : setting publicKeyWord key.text = setting publicKeyWord k ++ ['\n'] := by
    simp [setting, hkey]
  constructor
  · intro h
    rw [mentions, decide_eq_true_eq, hline] at h
    have hinfix : setting publicKeyWord k <:+: peerText r := (List.prefix_append _ _).isInfix.trans h
    exact congrArg WgKey.text (hfull.mp (decide_eq_true hinfix))
  · intro h
    rw [mentions, decide_eq_true_eq, hline, h, peerText_eq]
    exact ⟨peerMark ++ ['\n'], _, by simp [sectionText, unlines, peerSettings]; rfl⟩

theorem BlockAlike.mentions (hb : BlockAlike b b') (key : WgKey) : mentions key b = mentions key b' := by
  rcases hb with rfl | ⟨r, r', hr, rfl, rfl⟩
  · rfl
  · rw [Bool.eq_iff_iff]
    rcases wgKeyPattern_iff.mp key.ok with hk | ⟨k, hk, hkey⟩
    · rw [hr.regular.1.mentions_iff hk, hr.regular.2.mentions_iff hk, hr.publicKey]
    · rw [hr.regular.1.mentions_newline hk hkey, hr.regular.2.mentions_newline hk hkey, hr.publicKey]

theorem HeaderAlike.endNl (hh : HeaderAlike h h') : HeaderAlike (endNl h) (endNl h') := by
  rcases hh with rfl | ⟨t, t', ht, rfl, rfl⟩
  · exact .inl rfl
  · rw [endNl_tunnelText, endNl_tunnelText]
    exact .inr ⟨t, t', ht, rfl, rfl⟩

theorem BlockAlike.endNl (hb : BlockAlike b b') : BlockAlike (endNl b) (endNl b') := by
  rcases hb with rfl | ⟨r, r', hr, rfl, rfl⟩
  · exact .inl rfl
  · rw [endNl_peerText, endNl_peerText]
    exact .inr ⟨r, r', hr, rfl, rfl⟩

/-- Texts rebuilt from like parts are cut into like parts again. -/
theorem PartsAlike.rebuild (hp : PartsAlike (h, bs) (h', bs')) (hc : Cut h bs) (hc' : Cut h' bs') :
    ConfAlike (rebuildConf h bs) (rebuildConf h' bs') := by
  rw [ConfAlike, hc.rebuild.2, hc'.rebuild.2]
  refine ⟨hp.header.endNl, ?_⟩
  rw [List.forall₂_map_left_iff, List.forall₂_map_right_iff]
  exact hp.blocks.imp fun _ _ => BlockAlike.endNl

theorem sections_tunnelText {t : CreateTunnel} (hs : t.address.scope = none) :
    sections (tunnelText t) = (tunnelText t, []) := by
  obtain ⟨hun, hlines⟩ := tunnelText_header hs
  have hst := @stores_header (tunnelText t) (by rwa [hun])
  refine Prod.ext ?_ hst.blocks
  rcases hst.header with hh | hh
  · exact hh.trans hun
  · rw [hh, hun, endNl_tunnelText]

theorem CreateTunnel.Alike.conf {t t' : CreateTunnel} (ht : t.Alike t') :
    ConfAlike (tunnelText t) (tunnelText t') := by
  rw [ConfAlike, sections_tunnelText ht.unscoped, sections_tunnelText (ht.address ▸ ht.unscoped)]
  exact ⟨.inr ⟨t, t', ht, rfl, rfl⟩, .nil⟩

theorem map_of_forall₂ {α β : Type} {Q : α → α → Prop} {f : α → β} {xs ys : List α}
    (h : List.Forall₂ Q xs ys) (hf : ∀ a b, Q a b → f a = f b) : xs.map f = ys.map f := by
  induction h with
  | nil => rfl
  | cons hab _ ih => rw [List.map_cons, List.map_cons, hf _ _ hab, ih]

/-- What is derived from a text does not depend on its keys. -/
theorem PartsAlike.confInfo (hp : PartsAlike (splitConf content) (splitConf content')) :
    parseConfInfo content = parseConfInfo content' := by
  have hend : (splitConf content).2.findSome? blockEndpoint =
      (splitConf content').2.findSome? blockEndpoint := by
    have hmap := congrArg (List.findSome? id)
      (map_of_forall₂ hp.blocks fun _ _ hb => hb.endpoint)
    rwa [List.findSome?_map, List.findSome?_map] at hmap
  have hips : (splitConf content).2.flatMap blockAllowedIps =
      (splitConf content').2.flatMap blockAllowedIps :=
    congrArg List.flatten (map_of_forall₂ hp.blocks fun _ _ hb => hb.allowedIps)
  simp only [parseConfInfo, hend, hips, hp.header.address]

theorem any_mentions (hbs : List.Forall₂ BlockAlike bs bs') (key : WgKey) :
    bs.any (mentions key) = bs'.any (mentions key) := by
  have hmap := congrArg (List.any · id) (map_of_forall₂ hbs fun _ _ hb => hb.mentions key)
  simpa only [List.any_map, Function.id_comp] using hmap

end texts

/-! ## Systems that differ in their keys -/

/-- A key as it is handed over: the same, or two keys in full. -/
def KeyAlike (k k' : Text) : Prop := k = k' ∨ FullKey k ∧ FullKey k'

/-- The temporary file with a preshared key. -/
def PskAlike (psk psk' : Option Text) : Prop :=
  psk = psk' ∨ ∃ k k', FullKey k ∧ FullKey k' ∧ psk = some (k ++ ['\n']) ∧ psk' = some (k' ++ ['\n'])

/-- The interfaces without their preshared keys. -/
def Live.masked (live : Live) : Live := fun name =>
  (live name).map (List.map fun p => { p with presharedKey := none })

/-- The column of `wg show all dump` that holds a secret: the private key in the five
of an interface, the preshared key in the nine of a peer. -/
def secretColumn (columns : Nat) : Option Nat :=
  if columns = 5 then some 1 else if columns = 9 then some 2 else none

/-- Lines of the dump that agree in every other column. -/
def LineAlike (l l' : Text) : Prop :=
  (l.splitOn '\t').length = (l'.splitOn '\t').length ∧
    ∀ i, secretColumn (l.splitOn '\t').length ≠ some i → (l.splitOn '\t')[i]? = (l'.splitOn '\t')[i]?

def DumpAlike (dump dump' : Text) : Prop := List.Forall₂ LineAlike (splitlines dump) (splitlines dump')

/-- How a command ends: the same, but for a generated key and the secrets of a dump. -/
def OutcomeAlike (c : Command) (o o' : Outcome) : Prop :=
  o = o' ∨ (∃ p p' err, c = .wgGenkey ∧ FullKey (strip p) ∧ FullKey (strip p') ∧
      o = .exited 0 p err ∧ o' = .exited 0 p' err) ∨
    ∃ rc dump dump' err, c = .wgShowAllDump ∧ DumpAlike dump dump' ∧
      o = .exited rc dump err ∧ o' = .exited rc dump' err

section environments
variable (env env' : Env)

/-- What one call of `wg genkey` yields in the two runs. -/
def Generated (p p' : Text) : Prop :=
  ∃ n psk psk' live live' err, PskAlike psk psk' ∧ Live.masked live = Live.masked live' ∧
    (env n .wgGenkey psk live).1 = .exited 0 p err ∧ (env' n .wgGenkey psk' live').1 = .exited 0 p' err

/-- The command lines are the same, but for the private key that `wg pubkey` reads. -/
def CommandAlike (c c' : Command) : Prop :=
  c = c' ∧ (∀ p, c ≠ .wgPubkey p) ∨ ∃ p p', c = .wgPubkey p ∧ c' = .wgPubkey p' ∧ Generated env env' p p'

/-- The subprocesses fail alike, and differ in nothing but keys. -/
structure SameButKeys : Prop where
  outcome : ∀ n c c' psk psk' live live', CommandAlike env env' c c' → PskAlike psk psk' →
    Live.masked live = Live.masked live' → OutcomeAlike c (env n c psk live).1 (env' n c' psk' live').1
  live : ∀ n c c' psk psk' live live', CommandAlike env env' c c' → PskAlike psk psk' →
    Live.masked live = Live.masked live' →
      Live.masked (env n c psk live).2 = Live.masked (env' n c' psk' live').2

end environments

structure StateAlike (s s' : State) : Prop where
  conf : List.Forall₂ (fun e e' => e.1 = e'.1 ∧ ConfAlike e.2 e'.2) s.conf.entries s'.conf.entries
  live : Live.masked s.live = Live.masked s'.live
  psk : PskAlike s.psk s'.psk
  log : s.log = s'.log
  tick : s.tick = s'.tick

section states

variable {s s' : State} {name : String} {content content' : Text}

theorem StateAlike.refl (s : State) : StateAlike s s :=
  ⟨List.forall₂_same.mpr fun e _ => ⟨rfl, ConfAlike.refl e.2⟩, rfl, .inl rfl, rfl, rfl⟩

theorem StateAlike.names (h : StateAlike s s') : s.conf.names = s'.conf.names := by
  unfold ConfDir.names
  rw [map_of_forall₂ h.conf fun _ _ he => he.1]

theorem lookup_of_forall₂ {α : Type} {Q : α → α → Prop} {es es' : List (String × α)}
    (h : List.Forall₂ (fun e e' => e.1 = e'.1 ∧ Q e.2 e'.2) es es') (name : String) :
    Option.Rel Q (es.lookup name) (es'.lookup name) := by
  induction h with
  | nil => exact .none
  | @cons e e' es es' he _ ih =>
    obtain ⟨k, t⟩ := e
    obtain ⟨k', t'⟩ := e'
    obtain ⟨rfl, ht⟩ := he
    rw [List.lookup_cons, List.lookup_cons]
    cases name == k with
    | true => exact .some ht
    | false => exact ih

theorem StateAlike.lookup (h : StateAlike s s') (name : String) :
    Option.Rel ConfAlike (s.conf.lookup name) (s'.conf.lookup name) := lookup_of_forall₂ h.conf name

theorem StateAlike.erased (h : StateAlike s s') (name : String) :
    List.Forall₂ (fun e e' => e.1 = e'.1 ∧ ConfAlike e.2 e'.2) (s.conf.erase name).entries
      (s'.conf.erase name).entries := by
  apply List.rel_filter _ h.conf
  intro e e' he
  simp [he.1]

theorem StateAlike.written (h : StateAlike s s') (name : String) (hc : ConfAlike content content') :
    StateAlike { s with conf := s.conf.set name content } { s' with conf := s'.conf.set name content' } :=
  { h with conf := .cons ⟨rfl, hc⟩ (h.erased name) }

theorem StateAlike.up (h : StateAlike s s') (name : String) :
    (s.live name).isSome = (s'.live name).isSome := by
  have hname := congrArg Option.isSome (congrFun h.live name)
  simpa only [Live.masked, Option.isSome_map] using hname

end states

/-! ## The commands, side by side -/

section commands

variable {env env' : Env} {α β α' β' : Type} {V : α → β → Prop} {W : α' → β' → Prop}

/-- From like states the two programs run abreast. -/
def Twin (env env' : Env) (V : α → β → Prop) (p : Cmd α) (q : Cmd β) : Prop :=
  Prog.Coupled (handler env) (handler env') StateAlike V p q

theorem twin_ask (o o' : Op) {V : o.Answer → o'.Answer → Prop}
    (hstep : ∀ s s', StateAlike s s' → V (handler env o s).1 (handler env' o' s').1 ∧
      StateAlike (handler env o s).2 (handler env' o' s').2) : Twin env env' V (ask o) (ask o') :=
  Prog.Coupled.perform hstep

theorem twin_pure {a : α} {b : β} (hab : V a b) : Twin env env' V (pure a) (pure b) :=
  Prog.Coupled.pure hab

theorem twin_lift {x : Except Fault α} {y : Except Fault β} (hxy : Prog.SameEnd V x y) :
    Twin env env' V (lift x) (lift y) := by
  cases x with
  | ok a => cases y with
    | ok b => exact Prog.Coupled.pure hxy
    | error e => exact hxy.elim
  | error e => cases y with
    | ok b => exact hxy.elim
    | error e' =>
      obtain rfl : e = e' := hxy
      exact Prog.Coupled.raise e

theorem twin_require (c : Bool) (e : HelperError) :
    Twin env env' (fun _ _ => c = true) (require c e) (require c e) := by
  cases c with
  | true => exact Prog.Coupled.pure rfl
  | false => exact Prog.Coupled.raise _

theorem twin_confExists (name : String) : Twin env env' (· = ·) (confExists name) (confExists name) := by
  apply twin_ask (.confExists name) (.confExists name)
  intro s s' hs
  refine ⟨?_, hs⟩
  have h := hs.lookup name
  change (s.conf.lookup name).isSome = (s'.conf.lookup name).isSome
  generalize s.conf.lookup name = t, s'.conf.lookup name = t' at h ⊢
  cases h <;> rfl

/-- Texts as they are read: without carriage returns, and cut into like parts. -/
theorem twin_readText (name : String) :
    Twin env env' (Option.Rel fun t t' => ('\r' ∉ t ∧ '\r' ∉ t') ∧ PartsAlike (splitConf t) (splitConf t'))
      (readText name) (readText name) := by
  apply twin_ask (.readConf name) (.readConf name)
  intro s s' hs
  refine ⟨?_, hs⟩
  have h := hs.lookup name
  change Option.Rel _ ((s.conf.lookup name).map universalNewlines) ((s'.conf.lookup name).map universalNewlines)
  generalize s.conf.lookup name = t, s'.conf.lookup name = t' at h ⊢
  cases h with
  | none => exact .none
  | some ht => exact .some ⟨⟨not_mem_universalNewlines _, not_mem_universalNewlines _⟩, ht⟩

theorem twin_readConf (name : String) :
    Twin env env' (fun t t' => ('\r' ∉ t ∧ '\r' ∉ t') ∧ PartsAlike (splitConf t) (splitConf t'))
      (readConf name) (readConf name) := by
  apply (twin_readText name).bind
  rintro _ _ (h | _)
  · exact Prog.Coupled.pure h
  · exact Prog.Coupled.raise _

theorem twin_writeConf (name : String) {content content' : Text} (hc : ConfAlike content content') :
    Twin env env' (fun _ _ => True) (writeConf name content) (writeConf name content') :=
  twin_ask (.writeConf name content) (.writeConf name content') fun _ _ hs => ⟨trivial, hs.written name hc⟩

theorem twin_createConf (name : String) {content content' : Text} (hc : ConfAlike content content') :
    Twin env env' (fun _ _ => True) (createConf name content) (createConf name content') :=
  twin_ask (.createConf name content) (.createConf name content') fun _ _ hs => ⟨trivial, hs.written name hc⟩

theorem twin_unlinkConf (name : String) :
    Twin env env' (fun _ _ => True) (unlinkConf name) (unlinkConf name) :=
  twin_ask (.unlinkConf name) (.unlinkConf name) fun _ _ hs => ⟨trivial, { hs with conf := hs.erased name }⟩

theorem twin_confNames : Twin env env' (· = ·) confNames confNames :=
  twin_ask .confNames .confNames fun _ _ hs => ⟨hs.names, hs⟩

theorem twin_isInterfaceUp (name : String) :
    Twin env env' (· = ·) (isInterfaceUp name) (isInterfaceUp name) :=
  twin_ask (.interfaceUp name) (.interfaceUp name) fun _ _ hs => ⟨hs.up name, hs⟩

theorem twin_createPsk {k k' : Text} (hk : KeyAlike k k') :
    Twin env env' (fun _ _ => True) (createPsk (k ++ ['\n'])) (createPsk (k' ++ ['\n'])) := by
  apply twin_ask (.createPsk (k ++ ['\n'])) (.createPsk (k' ++ ['\n']))
  intro s s' hs
  refine ⟨trivial, { hs with psk := ?_ }⟩
  rcases hk with rfl | ⟨hk, hk'⟩
  · exact .inl rfl
  · exact .inr ⟨k, k', hk, hk', rfl, rfl⟩

theorem twin_unlinkPsk : Twin env env' (fun _ _ => True) unlinkPsk unlinkPsk :=
  twin_ask .unlinkPsk .unlinkPsk fun _ _ hs => ⟨trivial, { hs with psk := .inl rfl }⟩

end commands

/-! ## Subprocesses, side by side -/

section subprocesses

variable {env env' : Env} {c c' : Command}

/-- The outcomes are alike, and are those of calls alike. -/
theorem twin_subprocess (he : SameButKeys env env') (hc : CommandAlike env env' c c') :
    Twin env env' (fun o o' => OutcomeAlike c o o' ∧ ∃ n psk psk' live live', PskAlike psk psk' ∧
      Live.masked live = Live.masked live' ∧ (env n c psk live).1 = o ∧ (env' n c' psk' live').1 = o')
      (subprocess c) (subprocess c') := by
  apply twin_ask (.run c) (.run c')
  intro s s' hs
  have hrun : (handler env' (.run c') s').1 = (env' s.tick c' s'.psk s'.live).1 := by
    rw [hs.tick]
    rfl
  refine ⟨⟨?_, s.tick, s.psk, s'.psk, s.live, s'.live, hs.psk, hs.live, rfl, hrun.symm⟩,
    { hs with live := ?_, tick := congrArg (· + 1) hs.tick }⟩
  · rw [hrun]
    exact he.outcome _ _ _ _ _ _ _ hc hs.psk hs.live
  · change Live.masked (env s.tick c s.psk s.live).2 = Live.masked (env' s'.tick c' s'.psk s'.live).2
    rw [← hs.tick]
    exact he.live _ _ _ _ _ _ _ hc hs.psk hs.live

theorem twin_runCommand (he : SameButKeys env env') (hc : CommandAlike env env' c c')
    (hplain : c ≠ .wgGenkey ∧ c ≠ .wgShowAllDump) :
    Twin env env' (· = ·) (runCommand c) (runCommand c') := by
  apply (twin_subprocess he hc).bind
  rintro o o' ⟨hout, -⟩
  have hsame : o = o' := by
    rcases hout with h | ⟨_, _, _, h, -⟩ | ⟨_, _, _, _, h, -⟩
    · exact h
    · exact absurd h hplain.1
    · exact absurd h hplain.2
  subst hsame
  cases o with
  | exited rc out err => exact Prog.Coupled.pure rfl
  | notStarted e => exact Prog.Coupled.raise _

theorem twin_runChecked (he : SameButKeys env env') (hc : CommandAlike env env' c c')
    (hplain : c ≠ .wgGenkey ∧ c ≠ .wgShowAllDump) (what : String) :
    Twin env env' (· = ·) (runChecked c what) (runChecked c' what) := by
  apply (twin_runCommand he hc hplain).bind
  rintro ⟨rc, out, err⟩ _ rfl
  exact (twin_require _ _).bind fun _ _ _ => twin_pure rfl

/-- The generated keys are alike, and of one call each. -/
theorem twin_genkey (he : SameButKeys env env') :
    Twin env env' (fun p p' => KeyAlike (strip p) (strip p') ∧ Generated env env' p p')
      (runChecked .wgGenkey "wg genkey") (runChecked .wgGenkey "wg genkey") := by
  have hrun : Twin env env' (fun x x' => x.1 = x'.1 ∧ x.2.2 = x'.2.2 ∧
      (x.1 = 0 → KeyAlike (strip x.2.1) (strip x'.2.1) ∧ Generated env env' x.2.1 x'.2.1))
      (runCommand .wgGenkey) (runCommand .wgGenkey) := by
    apply (twin_subprocess he (.inl ⟨rfl, fun _ h => by cases h⟩)).bind
    rintro o o' ⟨hout, n, psk, psk', live, live', hpsk, hlive, ho, ho'⟩
    rcases hout with rfl | ⟨p, p', err, -, hp, hp', rfl, rfl⟩ | ⟨_, _, _, _, h, -⟩
    · cases o with
      | notStarted e => exact Prog.Coupled.raise _
      | exited rc out err =>
        refine Prog.Coupled.pure ⟨rfl, rfl, fun hrc => ⟨.inl rfl, ?_⟩⟩
        obtain rfl : rc = 0 := hrc
        exact ⟨n, psk, psk', live, live', err, hpsk, hlive, ho, ho'⟩
    · exact Prog.Coupled.pure
        ⟨rfl, rfl, fun _ => ⟨.inr ⟨hp, hp'⟩, n, psk, psk', live, live', err, hpsk, hlive, ho, ho'⟩⟩
    · cases h
  apply hrun.bind
  rintro ⟨rc, p, err⟩ ⟨_, p', _⟩ ⟨rfl, rfl, hkey⟩
  apply (twin_require _ _).bind
  intro _ _ hrc
  exact twin_pure (hkey (of_decide_eq_true hrc))

theorem twin_dump (he : SameButKeys env env') :
    Twin env env' (fun x x' => x.1 = x'.1 ∧ DumpAlike x.2.1 x'.2.1) (runCommand .wgShowAllDump)
      (runCommand .wgShowAllDump) := by
  apply (twin_subprocess he (.inl ⟨rfl, fun _ h => by cases h⟩)).bind
  rintro o o' ⟨rfl | ⟨_, _, _, h, -⟩ | ⟨rc, dump, dump', err, -, hdump, rfl, rfl⟩, -⟩
  · cases o with
    | notStarted e => exact Prog.Coupled.raise _
    | exited rc out err =>
      exact Prog.Coupled.pure ⟨rfl, List.forall₂_same.mpr fun _ _ => ⟨rfl, fun _ _ => rfl⟩⟩
  · cases h
  · exact Prog.Coupled.pure ⟨rfl, hdump⟩

end subprocesses

/-! ## The dump -/

theorem five_columns {cols : List Text} (h : cols.length = 5) :
    ∃ iface privateKey publicKey port fwmark, cols = [iface, privateKey, publicKey, port, fwmark] := by
  match cols, h with
  | [_, _, _, _, _], _ => exact ⟨_, _, _, _, _, rfl⟩

theorem nine_columns {cols : List Text} (h : cols.length = 9) :
    ∃ iface key psk endpoint ips handshake rx tx keepalive,
      cols = [iface, key, psk, endpoint, ips, handshake, rx, tx, keepalive] := by
  match cols, h with
  | [_, _, _, _, _, _, _, _, _], _ => exact ⟨_, _, _, _, _, _, _, _, _, rfl⟩

theorem LineAlike.read {l l' : Text} (hl : LineAlike l l') (live : List (Text × LiveStatus)) :
    readDumpLine live l = readDumpLine live l' := by
  unfold LineAlike at hl
  unfold readDumpLine
  generalize l.splitOn '\t' = cols, l'.splitOn '\t' = cols' at hl ⊢
  obtain ⟨hlen, hcols⟩ := hl
  by_cases h5 : cols.length = 5
  · obtain ⟨iface, k, key, port, mark, rfl⟩ := five_columns h5
    obtain ⟨iface', k', key', port', mark', rfl⟩ := five_columns (hlen ▸ h5)
    have hiface : iface = iface' := Option.some.inj (hcols 0 (by simp [secretColumn]))
    have hkey : key = key' := Option.some.inj (hcols 2 (by simp [secretColumn]))
    have hport : port = port' := Option.some.inj (hcols 3 (by simp [secretColumn]))
    subst hiface hkey hport
    rfl
  · by_cases h9 : cols.length = 9
    · obtain ⟨iface, key, k, endpoint, ips, handshake, rx, tx, ka, rfl⟩ := nine_columns h9
      obtain ⟨iface', key', k', endpoint', ips', handshake', rx', tx', ka', rfl⟩ :=
        nine_columns (hlen ▸ h9)
      have hiface : iface = iface' := Option.some.inj (hcols 0 (by simp [secretColumn]))
      have hkey : key = key' := Option.some.inj (hcols 1 (by simp [secretColumn]))
      have hendpoint : endpoint = endpoint' := Option.some.inj (hcols 3 (by simp [secretColumn]))
      have hips : ips = ips' := Option.some.inj (hcols 4 (by simp [secretColumn]))
      have hhandshake : handshake = handshake' := Option.some.inj (hcols 5 (by simp [secretColumn]))
      have hrx : rx = rx' := Option.some.inj (hcols 6 (by simp [secretColumn]))
      have htx : tx = tx' := Option.some.inj (hcols 7 (by simp [secretColumn]))
      subst hiface hkey hendpoint hips hhandshake hrx htx
      rfl
    · -- a line of another shape holds no secret
      have hnone : secretColumn cols.length = none := by simp [secretColumn, h5, h9]
      have hsame : cols = cols' := List.ext_getElem? fun i => hcols i (by simp [hnone])
      subst hsame
      rfl

theorem DumpAlike.read {dump dump' : Text} (hd : DumpAlike dump dump') (live : List (Text × LiveStatus)) :
    (splitlines dump).foldl readDumpLine live = (splitlines dump').foldl readDumpLine live := by
  unfold DumpAlike at hd
  generalize splitlines dump = ls, splitlines dump' = ls' at hd ⊢
  induction hd generalizing live with
  | nil => rfl
  | cons hl _ ih => rw [List.foldl_cons, List.foldl_cons, hl.read, ih]

/-! ## Each command -/

section each

variable {env env' : Env} {α β : Type}

/-- Key pairs, as they are handed over, with one public key. -/
def KeyPair.Alike (k k' : KeyPair) : Prop :=
  ∃ p p' pub, k = ⟨strip p, strip pub⟩ ∧ k' = ⟨strip p', strip pub⟩ ∧ KeyAlike (strip p) (strip p')

theorem twin_cmdGenkey (he : SameButKeys env env') (req req' : Request) :
    Twin env env' KeyPair.Alike (cmdGenkey req) (cmdGenkey req') := by
  apply (twin_genkey he).bind
  rintro p p' ⟨hp, hgen⟩
  apply (twin_runChecked he (.inr ⟨p, p', rfl, rfl, hgen⟩) ⟨by simp, by simp⟩ _).bind
  rintro pub _ rfl
  exact twin_pure ⟨p, p', pub, rfl, rfl, hp⟩

theorem twin_cmdCreateTunnel {req req' : Request}
    (hreq : Prog.SameEnd (fun t t' => t = t' ∨ CreateTunnel.Alike t t') (readCreateTunnel req)
      (readCreateTunnel req')) :
    Twin env env' (fun _ _ => True) (cmdCreateTunnel req) (cmdCreateTunnel req') := by
  apply (twin_lift hreq).bind
  intro t t' ht
  have hname : t.name = t'.name := ht.elim (congrArg CreateTunnel.name) CreateTunnel.Alike.name
  have hconf : ConfAlike (tunnelText t) (tunnelText t') := by
    rcases ht with rfl | ht
    · exact ConfAlike.refl _
    · exact ht.conf
  rw [hname]
  apply (twin_confExists _).bind
  rintro taken _ rfl
  exact (twin_require _ _).bind fun _ _ _ => twin_createConf _ hconf

theorem commandAlike_refl {c : Command} (hc : ∀ p, c ≠ .wgPubkey p) : CommandAlike env env' c c :=
  .inl ⟨rfl, hc⟩

theorem twin_cmdDeleteTunnel (he : SameButKeys env env') (req : Request) :
    Twin env env' (fun _ _ => True) (cmdDeleteTunnel req) (cmdDeleteTunnel req) := by
  apply (twin_lift (Prog.SameEnd.refl _)).bind
  rintro name _ rfl
  apply (twin_runCommand he (commandAlike_refl (by simp)) ⟨by simp, by simp⟩).bind
  intro _ _ _
  exact twin_unlinkConf _

/-- The preshared key goes through the temporary file, and nowhere else. -/
theorem twin_setPeer (he : SameButKeys env env') {r r' : AddPeer} (hr : r.Alike r') :
    Twin env env' (fun _ _ => True) (setPeer r) (setPeer r') := by
  have hcommand : setPeerCommand r = setPeerCommand r' := by
    unfold setPeerCommand
    rw [hr.tunnel, hr.publicKey, hr.allowedIps, hr.keepalive, hr.psk]
  have hrun : Twin env env' (fun _ _ => True) (do
      let _ ← runChecked (setPeerCommand r) "wg set"
      pure ()) (do
      let _ ← runChecked (setPeerCommand r') "wg set"
      pure ()) := by
    rw [← hcommand]
    apply (twin_runChecked he (commandAlike_refl (by simp [setPeerCommand]))
      ⟨by simp [setPeerCommand], by simp [setPeerCommand]⟩ _).bind
    intro _ _ _
    exact twin_pure trivial
  have hpsk := hr.psk
  unfold setPeer
  cases hk : r.presharedKey with
  | none =>
    cases hk' : r'.presharedKey with
    | none =>
      simp only [setPeerCommand, hk, hk'] at hrun
      exact hrun.finally_ (twin_pure trivial)
    | some k' => simp [hk, hk'] at hpsk
  | some k =>
    cases hk' : r'.presharedKey with
    | none => simp [hk, hk'] at hpsk
    | some k' =>
      simp only [setPeerCommand, hk, hk'] at hrun
      have hkeys : KeyAlike k.text k'.text := .inr ⟨hr.regular.1.psk k hk, hr.regular.2.psk k' hk'⟩
      exact ((twin_createPsk hkeys).bind fun _ _ _ => hrun).finally_ twin_unlinkPsk

theorem cut_splitConf {content : Text} (h : '\r' ∉ content) :
    Cut (splitConf content).1 (splitConf content).2 := by
  have hcut := cut_sections content
  rwa [sections, universalNewlines_of_not_mem h] at hcut

theorem Regular.cut_append {r : AddPeer} (hr : Regular r) {content : Text} (h : '\r' ∉ content) :
    Cut (splitConf content).1 ((splitConf content).2 ++ [peerText r]) := by
  have hcut := cut_splitConf h
  obtain ⟨hmark, huncut, hcr⟩ := hr.cut
  refine ⟨hcut.header, fun b hb => ?_, hcut.noCr.1, fun b hb => ?_⟩
  · rcases List.mem_append.mp hb with hb | hb
    · exact hcut.blocks b hb
    · exact List.mem_singleton.mp hb ▸ ⟨hmark, huncut⟩
  · rcases List.mem_append.mp hb with hb | hb
    · exact hcut.noCr.2 b hb
    · exact List.mem_singleton.mp hb ▸ hcr

theorem twin_cmdAddPeer (he : SameButKeys env env') {req req' : Request}
    (hreq : Prog.SameEnd AddPeer.Alike (readAddPeer req) (readAddPeer req')) :
    Twin env env' (fun _ _ => True) (cmdAddPeer req) (cmdAddPeer req') := by
  apply (twin_lift hreq).bind
  intro r r' hr
  rw [hr.tunnel]
  apply (twin_readConf _).bind
  rintro t t' ⟨⟨ht, ht'⟩, hparts⟩
  have hmentions := any_mentions hparts.blocks r.publicKey
  have hwritten : ConfAlike (rebuildConf (splitConf t).1 ((splitConf t).2 ++ [peerText r]))
      (rebuildConf (splitConf t').1 ((splitConf t').2 ++ [peerText r'])) := by
    apply PartsAlike.rebuild _ (Regular.cut_append hr.regular.1 ht) (Regular.cut_append hr.regular.2 ht')
    refine ⟨hparts.header, List.rel_append hparts.blocks ?_⟩
    exact .cons (.inr ⟨r, r', hr, rfl, rfl⟩) .nil
  rcases hs : splitConf t with ⟨h, bs⟩
  rcases hs' : splitConf t' with ⟨h', bs'⟩
  rw [hs, hs'] at hmentions hwritten
  simp only [← hr.publicKey, ← hmentions]
  apply (twin_require _ _).bind
  intro _ _ _
  apply (twin_writeConf _ hwritten).bind
  intro _ _ _
  apply (twin_isInterfaceUp _).bind
  rintro up _ rfl
  cases up with
  | true => exact twin_setPeer he hr
  | false => exact twin_pure trivial

theorem PartsAlike.removed {h h' : Text} {bs bs' : List Text} (hp : PartsAlike (h, bs) (h', bs'))
    (key : WgKey) :
    PartsAlike (h, bs.filter fun b => !mentions key b) (h', bs'.filter fun b => !mentions key b) := by
  refine ⟨hp.header, List.rel_filter ?_ hp.blocks⟩
  intro b b' hb
  simp only [hb.mentions key]

theorem twin_cmdRemovePeer (he : SameButKeys env env') (req : Request) :
    Twin env env' (fun _ _ => True) (cmdRemovePeer req) (cmdRemovePeer req) := by
  apply (twin_lift (Prog.SameEnd.refl _)).bind
  rintro r _ rfl
  apply (twin_readConf _).bind
  rintro t t' ⟨⟨ht, ht'⟩, hparts⟩
  have hcut := cut_splitConf ht
  have hcut' := cut_splitConf ht'
  rcases hs : splitConf t with ⟨h, bs⟩
  rcases hs' : splitConf t' with ⟨h', bs'⟩
  rw [hs, hs'] at hparts
  rw [hs] at hcut
  rw [hs'] at hcut'
  have hwritten := (hparts.removed r.publicKey).rebuild
    ⟨hcut.header, fun b hb => hcut.blocks b (List.mem_of_mem_filter hb), hcut.noCr.1,
      fun b hb => hcut.noCr.2 b (List.mem_of_mem_filter hb)⟩
    ⟨hcut'.header, fun b hb => hcut'.blocks b (List.mem_of_mem_filter hb), hcut'.noCr.1,
      fun b hb => hcut'.noCr.2 b (List.mem_of_mem_filter hb)⟩
  dsimp only
  apply (twin_writeConf _ hwritten).bind
  intro _ _ _
  apply (twin_isInterfaceUp _).bind
  rintro up _ rfl
  cases up with
  | true =>
    apply (twin_runChecked he (commandAlike_refl (by simp)) ⟨by simp, by simp⟩ _).bind
    intro _ _ _
    exact twin_pure trivial
  | false => exact twin_pure trivial

theorem twin_tunnelStatus (he : SameButKeys env env') (live : List (Text × LiveStatus)) (tname : String) :
    Twin env env' (· = ·) (tunnelStatus live tname) (tunnelStatus live tname) := by
  apply (twin_runCommand he (commandAlike_refl (by simp)) ⟨by simp, by simp⟩).bind
  rintro ⟨_, out, _⟩ _ rfl
  apply (twin_readText tname).bind
  rintro _ _ (⟨-, hparts⟩ | _)
  · apply twin_pure
    simp only [Option.map_some, Option.getD_some, hparts.confInfo]
  · exact twin_pure rfl

theorem twin_forEach {f : α → Cmd β} (hf : ∀ a, Twin env env' (· = ·) (f a) (f a)) (xs : List α) :
    Twin env env' (· = ·) (forEach f xs) (forEach f xs) := by
  induction xs with
  | nil => exact twin_pure rfl
  | cons x xs ih =>
    apply (hf x).bind
    rintro y _ rfl
    apply ih.bind
    rintro ys _ rfl
    exact twin_pure rfl

/-- The secrets of the dump do not reach the status. -/
theorem twin_cmdTunnelStatus (he : SameButKeys env env') (req : Request) :
    Twin env env' (· = ·) (cmdTunnelStatus req) (cmdTunnelStatus req) := by
  apply (twin_lift (Prog.SameEnd.refl _)).bind
  rintro name _ rfl
  apply twin_confNames.bind
  rintro stems _ rfl
  apply (twin_dump he).bind
  rintro ⟨rc, dump, err⟩ ⟨_, dump', err'⟩ ⟨rfl, hdump⟩
  simp only [hdump.read]
  exact twin_forEach (twin_tunnelStatus he _) _

theorem twin_cmdSetTunnelState (he : SameButKeys env env') (req : Request) :
    Twin env env' (fun _ _ => True) (cmdSetTunnelState req) (cmdSetTunnelState req) := by
  apply (twin_lift (Prog.SameEnd.refl _)).bind
  rintro name _ rfl
  apply (twin_lift (Prog.SameEnd.refl _)).bind
  rintro verb _ rfl
  apply (twin_confExists _).bind
  rintro present _ rfl
  apply (twin_require _ _).bind
  intro _ _ _
  apply (twin_runChecked he (commandAlike_refl (by simp)) ⟨by simp, by simp⟩ _).bind
  intro _ _ _
  exact twin_pure trivial

end each

end Helper
