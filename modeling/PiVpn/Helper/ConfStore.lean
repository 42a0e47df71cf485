import PiVpn.Helper.Template

/-! The conf text as a store of peers: adding and removing keep the sections of the
text in step with a list of peers, and the text reads back as that list. -/

namespace Helper
open Text Pattern Ipaddress

/-! ## Reading a text back section by section -/

/-- What a peer section says. -/
structure PeerEntry where
  publicKey : Option Text
  presharedKey : Option Text
  allowedIps : List Text
  keepalive : Option Text

def readEntry (block : Text) : PeerEntry where
  publicKey := (keyLine publicKeyWord).first block
  presharedKey := (keyLine presharedKeyWord).first block
  allowedIps := blockAllowedIps block
  keepalive := (keyLine keepaliveWord).first block

def AddPeer.entry (r : AddPeer) : PeerEntry where
  publicKey := some r.publicKey.text
  presharedKey := r.presharedKey.map WgKey.text
  allowedIps := r.allowedIps.nets.map IPNetwork.str
  keepalive := keepaliveText r.keepalive

def sections (content : Text) : Text × List Text := splitConf (universalNewlines content)

/-- The text reads back as the header, up to newlines at its end, and the peers in order. -/
structure ReadsBack (content header : Text) (peers : List AddPeer) : Prop where
  header : rstripNl (sections content).1 = rstripNl header
  peers : (sections content).2.map readEntry = peers.map AddPeer.entry

/-- A peer whose keys match in full, whose networks have no zone and whose keepalive is
a number. -/
structure Regular (r : AddPeer) : Prop where
  key : FullKey r.publicKey.text
  psk : ∀ k ∈ r.presharedKey, FullKey k.text
  nets : ∀ n ∈ r.allowedIps.nets, n.scope = none
  keepalive : ∀ k ∈ r.keepalive, k.value ≠ .bool true

theorem Regular.plain {r : AddPeer} (h : Regular r) : PlainPeer r where
  key := h.key
  psk := h.psk
  nets := fun n hn s hs => by simp [h.nets n hn] at hs
  keepalive := h.keepalive

theorem Regular.plain_nets {r : AddPeer} (h : Regular r) : ∀ n ∈ r.allowedIps.nets, Plain n.str :=
  fun n hn => (plain_written_iff n.written).mpr (h.plain.nets n hn)

/-! ## The settings of a peer section -/

def peerSettings (r : AddPeer) : List (Text × Text) :=
  [(publicKeyWord, r.publicKey.text)] ++
    (r.presharedKey.map fun k => (presharedKeyWord, k.text)).toList ++
    [(allowedIpsWord, r.allowedIps.str)] ++
    ((keepaliveText r.keepalive).map fun t => (keepaliveWord, t)).toList

variable {r : AddPeer}

theorem peerText_eq (r : AddPeer) : peerText r = sectionText peerMark (peerSettings r) := by
  unfold peerText sectionText peerSettings
  cases r.presharedKey <;> cases keepaliveText r.keepalive <;> rfl

theorem mem_peerSettings {e : Text × Text} (h : e ∈ peerSettings r) :
    e = (publicKeyWord, r.publicKey.text) ∨
      (∃ k ∈ r.presharedKey, e = (presharedKeyWord, k.text)) ∨
      e = (allowedIpsWord, r.allowedIps.str) ∨
      ∃ t ∈ keepaliveText r.keepalive, e = (keepaliveWord, t) := by
  simp only [peerSettings, List.mem_append, List.mem_singleton, Option.mem_toList,
    Option.map_eq_some_iff] at h
  rcases h with ((h | ⟨k, hk, h⟩) | h) | ⟨t, ht, h⟩
  · exact .inl h
  · exact .inr (.inl ⟨k, hk, h.symm⟩)
  · exact .inr (.inr (.inl h))
  · exact .inr (.inr (.inr ⟨t, ht, h.symm⟩))

/-- The words of setting lines: none is the beginning of another. -/
def confWords : List Text :=
  [publicKeyWord, presharedKeyWord, allowedIpsWord, keepaliveWord, endpointWord, privateKeyWord,
    addressWord, listenPortWord]

theorem mem_publicKey : publicKeyWord ∈ confWords := by decide
theorem mem_presharedKey : presharedKeyWord ∈ confWords := by decide
theorem mem_allowedIps : allowedIpsWord ∈ confWords := by decide
theorem mem_keepalive : keepaliveWord ∈ confWords := by decide
theorem mem_endpoint : endpointWord ∈ confWords := by decide

theorem confWords_ok : ∀ w ∈ confWords, IsKey w ∧ '\n' ∉ w := by
  have h : ∀ w ∈ confWords, w.head?.any (!isSpace ·) = true ∧ '\n' ∉ w := by decide
  intro w hw
  obtain ⟨hs, hn⟩ := h w hw
  obtain ⟨c, hc, hs⟩ := (Option.any_eq_true _ _).mp hs
  obtain ⟨cs, rfl⟩ := List.head?_eq_some_iff.mp hc
  exact ⟨⟨c, cs, rfl, by simpa using hs⟩, hn⟩

theorem confWords_apart : ∀ w ∈ confWords, ∀ k ∈ confWords, w ≠ k → ¬ w <+: k ∧ ¬ k <+: w := by
  decide

theorem skips_setting {w k v : Text} (hw : w ∈ confWords) (hk : k ∈ confWords) (hne : k ≠ w)
    (hv : '\n' ∉ v) : Skips w (setting k v) := by
  refine ⟨?_, ?_, fun h => ?_⟩
  · simpa [setting, (confWords_ok k hk).2, equals] using hv
  · obtain ⟨c, cs, rfl, hc⟩ := (confWords_ok k hk).1
    exact ⟨c, cs ++ (equals ++ v), by simp [setting], hc⟩
  · obtain ⟨h₁, h₂⟩ := confWords_apart w hw k hk hne.symm
    have hp : k <+: setting k v := List.prefix_append _ _
    rcases Nat.le_total w.length k.length with hl | hl
    · exact h₁ (List.prefix_of_prefix_length_le h hp hl)
    · exact h₂ (List.prefix_of_prefix_length_le hp h hl)

theorem skips_mark {w : Text} (hw : w ∈ confWords) : Skips w peerMark := by
  have h : ∀ w ∈ confWords, ¬ w <+: peerMark := by decide
  exact ⟨by decide, ⟨'[', _, rfl, by decide⟩, h w hw⟩

/-! ## The values of a peer section -/

theorem Plain.isValue {t : Text} (h : Plain t) (hne : t ≠ []) : IsValue t where
  oneLine := h.oneLine.1
  head := by
    obtain ⟨c, cs, rfl⟩ := List.exists_cons_of_ne_nil hne
    exact ⟨c, cs, rfl, (h c (by simp)).1⟩
  last := by
    obtain ⟨cs, z, rfl⟩ := (List.eq_nil_or_concat' t).resolve_left hne
    exact ⟨cs, z, rfl, (h z (by simp)).1⟩

theorem keyChar_plain {c : Char} (h : isKeyChar c = true ∨ c = '=') :
    isSpace c = false ∧ c ≠ ',' ∧ c ≠ '#' := by
  rcases h with h | rfl
  · simp only [isKeyChar, Bool.or_eq_true, Bool.and_eq_true, decide_eq_true_eq, beq_iff_eq,
      Char.le_def, UInt32.le_iff_toNat_le] at h
    have hn : c.toNat = c.val.toNat := rfl
    have hr : (43 ≤ c.toNat ∧ c.toNat ≤ 122) ∧ c.toNat ≠ 44 := by
      rcases h with (((h | h) | h) | rfl) | rfl
      · have h₁ : 65 ≤ c.val.toNat := h.1
        have h₂ : c.val.toNat ≤ 90 := h.2
        omega
      · have h₁ : 97 ≤ c.val.toNat := h.1
        have h₂ : c.val.toNat ≤ 122 := h.2
        omega
      · have h₁ : 48 ≤ c.val.toNat := h.1
        have h₂ : c.val.toNat ≤ 57 := h.2
        omega
      · decide
      · decide
    refine ⟨?_, ?_, ?_⟩
    · simp only [isSpace, Bool.or_eq_false_iff, Bool.and_eq_false_iff, decide_eq_false_iff_not,
        beq_eq_false_iff_ne]
      omega
    · rintro rfl
      exact absurd rfl hr.2
    · rintro rfl
      exact absurd hr.1.1 (by decide)
  · decide

theorem FullKey.plain {k : Text} (h : FullKey k) : Plain k := fun _ hc => keyChar_plain (h.char hc)

theorem FullKey.isValue {k : Text} (h : FullKey k) : IsValue k :=
  h.plain.isValue (List.ne_nil_of_length_pos (by rw [h.length]; decide))

theorem str_ne_nil (n : IPNetwork) : n.str ≠ [] := by
  obtain ⟨x, p, h⟩ := written_tail n.written
  simp [h]

theorem joinNetworks_isValue {nets : List IPNetwork} (hne : nets ≠ [])
    (h : ∀ n ∈ nets, Plain n.str) : IsValue (joinNetworks nets) where
  oneLine := (joinNetworks_oneLine h).1
  head := by
    obtain ⟨n, ns, rfl⟩ := List.exists_cons_of_ne_nil hne
    obtain ⟨c, cs, hc, hs⟩ := ((h n (by simp)).isValue (str_ne_nil n)).head
    cases ns with
    | nil => exact ⟨c, cs, by simpa [joinNetworks, List.intercalate] using hc, hs⟩
    | cons m ms =>
      refine ⟨c, cs ++ (commaSep ++ joinNetworks (m :: ms)), ?_, hs⟩
      have hj : joinNetworks (n :: m :: ms) = n.str ++ commaSep ++ joinNetworks (m :: ms) :=
        List.intercalate_cons_cons
      rw [hj, hc]
      simp
  last := by
    obtain ⟨x, p, hx⟩ := joinNetworks_tail hne
    obtain ⟨cs, z, hz, hs⟩ :=
      ((decimal_plain p).isValue (show decimal p ≠ [] from Nat.toDigits_ne_nil)).last
    exact ⟨x ++ '/' :: cs, z, by simp [hx, hz], hs⟩

theorem strip_of_isValue {t : Text} (h : IsValue t) : strip t = t := by
  obtain ⟨c, cs, hc, hs⟩ := h.head
  obtain ⟨ds, z, hz, hsz⟩ := h.last
  have hl : lstrip t = t := by rw [hc, lstrip, List.dropWhile_cons, if_neg (by simp [hs])]
  rw [strip, hl, hz, List.rdropWhile_concat, if_neg (by simp [hsz])]

/-- The parts of a written list of plain networks are the networks. -/
theorem commaParts_joinNetworks {nets : List IPNetwork} (h : ∀ n ∈ nets, Plain n.str) :
    nets ≠ [] → commaParts (joinNetworks nets) = nets.map IPNetwork.str := by
  have hcomma : ∀ n ∈ nets, ',' ∉ n.str := fun n hn hc => (h n hn _ hc).2.1 rfl
  have hstrip : ∀ n ∈ nets, strip n.str = n.str := fun n hn =>
    strip_of_isValue ((h n hn).isValue (str_ne_nil n))
  -- the blank after the comma is stripped with its part
  have hsplit : ∀ t : Text, ((' ' :: t).splitOn ',').map strip = (t.splitOn ',').map strip := by
    intro t
    rw [show ' ' :: t = [' '] ++ t from rfl, splitOn_append_first (by decide)]
    cases t.splitOn ',' <;> simp [strip, lstrip, show isSpace ' ' = true by decide]
  induction nets with
  | nil => simp
  | cons n ns ih =>
    intro _
    have hn := hcomma n List.mem_cons_self
    cases ns with
    | nil =>
      simp [commaParts, joinNetworks, List.intercalate, List.splitOn_eq_singleton hn,
        hstrip n List.mem_cons_self, str_ne_nil n]
    | cons m ms =>
      have hj : joinNetworks (n :: m :: ms) = n.str ++ ',' :: (' ' :: joinNetworks (m :: ms)) := by
        have hc : joinNetworks (n :: m :: ms) = n.str ++ commaSep ++ joinNetworks (m :: ms) :=
          List.intercalate_cons_cons
        simpa [commaSep] using hc
      have ih' := ih (fun k hk => h k (List.mem_cons_of_mem _ hk))
        (fun k hk => hcomma k (List.mem_cons_of_mem _ hk))
        (fun k hk => hstrip k (List.mem_cons_of_mem _ hk)) (List.cons_ne_nil _ _)
      rw [commaParts] at ih' ⊢
      rw [hj, List.splitOn_append_cons_self_of_not_mem hn, List.map_cons, hsplit,
        hstrip n List.mem_cons_self, List.filter_cons, if_pos (by simpa using str_ne_nil n), ih']
      rfl

theorem Regular.setting_ok (hr : Regular r) {e : Text × Text} (he : e ∈ peerSettings r) :
    e.1 ∈ confWords ∧ IsValue e.2 ∧ OneLine e.2 := by
  rcases mem_peerSettings he with rfl | ⟨k, hk, rfl⟩ | rfl | ⟨t, ht, rfl⟩
  · exact ⟨mem_publicKey, hr.key.isValue, hr.key.oneLine⟩
  · exact ⟨mem_presharedKey, (hr.psk k hk).isValue, (hr.psk k hk).oneLine⟩
  · exact ⟨mem_allowedIps, joinNetworks_isValue r.allowedIps.ne hr.plain_nets,
      joinNetworks_oneLine hr.plain_nets⟩
  · refine ⟨mem_keepalive, ?_, (keepaliveText_oneLine _ t ht).2⟩
    rcases keepaliveText_cases r.keepalive with ⟨⟨n, -, hn⟩, -⟩ | ⟨hn, -⟩ | ⟨-, v, hv, hb⟩
    · rw [hn] at ht
      rw [← Option.some.inj ht]
      exact (decimal_plain n).isValue Nat.toDigits_ne_nil
    · simp [hn] at ht
    · exact absurd hb (hr.keepalive v hv)

theorem peerSettings_nodup (r : AddPeer) : ((peerSettings r).map Prod.fst).Nodup := by
  unfold peerSettings
  cases r.presharedKey <;> cases keepaliveText r.keepalive <;> simp only [Option.map_none,
    Option.map_some, Option.toList_none, Option.toList_some, List.append_nil, List.map_append,
    List.map_cons, List.map_nil] <;> decide

/-- Searching a regular section for a word looks its setting up. -/
theorem Regular.search (hr : Regular r) {w : Text} (hw : w ∈ confWords) :
    (keyLine w).first (peerText r) = (peerSettings r).lookup w ∧
      (keyLine w).captures (peerText r) = ((peerSettings r).lookup w).toList := by
  obtain ⟨hk, hn⟩ := confWords_ok w hw
  rw [peerText_eq]
  exact search_section hk hn (skips_mark hw)
    (fun e he hne => skips_setting hw (hr.setting_ok he).1 hne (hr.setting_ok he).2.2.1)
    (fun e he _ => (hr.setting_ok he).2.1) (peerSettings_nodup r)

theorem lookup_peerSettings (r : AddPeer) :
    (peerSettings r).lookup publicKeyWord = some r.publicKey.text ∧
      (peerSettings r).lookup presharedKeyWord = r.presharedKey.map WgKey.text ∧
      (peerSettings r).lookup allowedIpsWord = some r.allowedIps.str ∧
      (peerSettings r).lookup keepaliveWord = keepaliveText r.keepalive ∧
      (peerSettings r).lookup endpointWord = none := by
  unfold peerSettings
  cases r.presharedKey <;> cases keepaliveText r.keepalive <;> exact ⟨rfl, rfl, rfl, rfl, rfl⟩

theorem Regular.readEntry (hr : Regular r) : Helper.readEntry (peerText r) = r.entry := by
  obtain ⟨hkey, hpsk, hips, hka, -⟩ := lookup_peerSettings r
  rw [Helper.readEntry, AddPeer.entry, blockAllowedIps, (hr.search mem_publicKey).1, hkey,
    (hr.search mem_presharedKey).1, hpsk, (hr.search mem_allowedIps).2, hips,
    (hr.search mem_keepalive).1, hka, Option.toList_some, List.flatMap_singleton,
    ← commaParts_joinNetworks hr.plain_nets r.allowedIps.ne]
  rfl

theorem Regular.blockEndpoint (hr : Regular r) : Helper.blockEndpoint (peerText r) = none :=
  (hr.search mem_endpoint).1.trans (lookup_peerSettings r).2.2.2.2

theorem Regular.blockAllowedIps (hr : Regular r) :
    Helper.blockAllowedIps (peerText r) = r.allowedIps.nets.map IPNetwork.str := by
  have h := hr.readEntry
  rw [Helper.readEntry, AddPeer.entry, PeerEntry.mk.injEq] at h
  exact h.2.2.1

/-! ## Which section mentions a key -/

theorem mem_unscoped {n : IPNetwork} (h : n.scope = none) {c : Char} (hc : c ∈ n.str) :
    c ∈ addressChars ∨ c = '/' := by
  obtain ⟨d, p, hs, hd⟩ := n.written.eq
  rw [hs, h, scopeText, List.nil_append, List.mem_append, List.mem_cons] at hc
  rcases hc with hc | rfl | hc
  · exact .inl (hd c hc)
  · exact .inr rfl
  · exact .inl (mem_toDigits (by decide) (by decide) hc)

/-- A setting of another word never holds the letter `u` but in a key. -/
theorem Regular.not_mem_u (hr : Regular r) : 'u' ∉ setting allowedIpsWord r.allowedIps.str ∧
    ∀ t ∈ keepaliveText r.keepalive, 'u' ∉ setting keepaliveWord t := by
  constructor
  · have hu : 'u' ∉ r.allowedIps.str := by
      intro hc
      rcases mem_intercalate hc with hc | ⟨t, ht, hc⟩
      · exact absurd hc (by decide)
      · obtain ⟨n, hn, rfl⟩ := List.mem_map.mp ht
        rcases mem_unscoped (hr.nets n hn) hc with h | h
        · exact absurd h (by decide)
        · exact absurd h (by decide)
    have hw : 'u' ∉ allowedIpsWord ++ equals := by decide
    rw [setting, ← List.append_assoc, List.mem_append]
    tauto
  · intro t ht
    have hu : 'u' ∉ t := by
      rcases keepaliveText_cases r.keepalive with ⟨⟨n, -, hn⟩, -⟩ | ⟨hn, -⟩ | ⟨-, v, hv, hb⟩
      · rw [hn] at ht
        rw [← Option.some.inj ht]
        exact not_mem_decimal (by decide)
      · simp [hn] at ht
      · exact absurd hb (hr.keepalive v hv)
    have hw : 'u' ∉ keepaliveWord ++ equals := by decide
    rw [setting, ← List.append_assoc, List.mem_append]
    tauto

/-- A preshared key line is three characters longer than a public key line, and holds
none at any of the four places. -/
theorem not_infix_presharedKey {a b : Text} (ha : FullKey a) (hb : FullKey b) :
    ¬ setting publicKeyWord a <:+: setting presharedKeyWord b := by
  rintro ⟨x, y, hxy⟩
  have hlen := congrArg List.length hxy
  have hwords : publicKeyWord.length = 9 ∧ presharedKeyWord.length = 12 ∧ equals.length = 3 := by
    decide
  simp only [setting, List.length_append, ha.length, hb.length, hwords] at hlen
  have hx : x.length ≤ 3 := by omega
  -- at each of the four places the words already disagree
  rcases x with _ | ⟨a₀, _ | ⟨a₁, _ | ⟨a₂, _ | ⟨a₃, x⟩⟩⟩⟩
  · simp [setting, publicKeyWord, presharedKeyWord] at hxy
  · simp [setting, publicKeyWord, presharedKeyWord] at hxy
  · simp [setting, publicKeyWord, presharedKeyWord] at hxy
  · simp [setting, publicKeyWord, presharedKeyWord] at hxy
  · simp only [List.length_cons] at hx
    omega

/-- The substring test finds exactly the peer's own key. -/
theorem Regular.mentions_iff (hr : Regular r) {key : WgKey} (hk : FullKey key.text) :
    mentions key (peerText r) = true ↔ key = r.publicKey := by
  have hu : 'u' ∈ setting publicKeyWord key.text := by simp [setting, publicKeyWord]
  have hwords : publicKeyWord.length = 9 ∧ equals.length = 3 := by decide
  rw [mentions, decide_eq_true_eq]
  constructor
  · intro h
    have hn : '\n' ∉ setting publicKeyWord key.text :=
      ((oneLine_setting (words_oneLine publicKeyWord (by simp))).mpr hk.oneLine).1
    rw [peerText_eq] at h
    obtain ⟨l, hl, hi⟩ := infix_unlines hn (List.ne_nil_of_mem hu) h
    rcases List.mem_cons.mp hl with rfl | hl
    · have hlen := hi.length_le
      simp [setting, hwords, hk.length, show peerMark.length = 6 by decide] at hlen
    · obtain ⟨e, he, rfl⟩ := List.mem_map.mp hl
      rcases mem_peerSettings he with rfl | ⟨k, hkm, rfl⟩ | rfl | ⟨t, ht, rfl⟩
      · have heq := hi.eq_of_length (by simp [setting, hk.length, hr.key.length])
        have htext := setting_injective heq
        cases key
        cases hp : r.publicKey
        simpa [hp] using htext
      · exact absurd hi (not_infix_presharedKey hk (hr.psk k hkm))
      · exact absurd (hi.subset hu) hr.not_mem_u.1
      · exact absurd (hi.subset hu) (hr.not_mem_u.2 t ht)
  · rintro rfl
    rw [peerText_eq]
    exact ⟨peerMark ++ ['\n'], _, by simp [sectionText, unlines, peerSettings]; rfl⟩

/-! ## Cutting a rebuilt text -/

/-- A header and sections as a cut leaves them. -/
structure Cut (h : Text) (bs : List Text) : Prop where
  header : Blocks.Uncut '\n' peerMark h
  blocks : ∀ b ∈ bs, peerMark <+: b ∧ Blocks.Uncut '\n' peerMark b
  noCr : '\r' ∉ h ∧ ∀ b ∈ bs, '\r' ∉ b

theorem newline_not_mem_mark : '\n' ∉ peerMark := by decide

theorem cut_sections (content : Text) : Cut (sections content).1 (sections content).2 where
  header := Blocks.fst_uncut _
  blocks := fun _ hb => ⟨Blocks.mark_prefix_of_mem newline_not_mem_mark hb, Blocks.mem_uncut hb⟩
  noCr := ⟨fun h => not_mem_universalNewlines content (mem_splitConf.1 h),
    fun b hb h => not_mem_universalNewlines content (mem_splitConf.2 b hb h)⟩

theorem uncut_rstripNl_newline {t : Text} (h : Blocks.Uncut '\n' peerMark t) :
    Blocks.Uncut '\n' peerMark (rstripNl t ++ ['\n']) :=
  Blocks.Uncut.append_cons newline_not_mem_mark
    (h.of_infix (List.rdropWhile_prefix _ _).isInfix) Blocks.uncut_nil (by decide)

theorem mark_prefix_rstripNl {b : Text} (h : peerMark <+: b) : peerMark <+: rstripNl b := by
  obtain ⟨t, rfl⟩ := h
  induction t using List.reverseRecOn with
  | nil => decide
  | append_singleton t c ih =>
    rw [← List.append_assoc]
    by_cases hc : c = '\n'
    · rw [hc, rstripNl_newline]
      exact ih
    · rw [rstripNl_append hc, List.append_assoc]
      exact List.prefix_append _ _

/-- A text ending in exactly one newline. -/
def endNl (t : Text) : Text := rstripNl t ++ ['\n']

theorem rstripNl_endNl (t : Text) : rstripNl (endNl t) = rstripNl t := by
  rw [endNl, rstripNl_newline]
  exact List.rdropWhile_idempotent _ _

theorem rebuildConf_eq (h : Text) (bs : List Text) :
    rebuildConf h bs = endNl h ++ ((bs.map endNl).map ('\n' :: ·)).flatten := by
  have hb : bs.map rebuildBlock = (bs.map endNl).map ('\n' :: ·) := by
    rw [List.map_map]
    rfl
  rw [rebuildConf, hb, endNl, List.append_assoc]
  rfl

/-- A rebuilt text is cut into the parts it was built from, each ending in one newline. -/
theorem splitConf_rebuildConf {h : Text} {bs : List Text} (hh : Blocks.Uncut '\n' peerMark h)
    (hbs : ∀ b ∈ bs, peerMark <+: b ∧ Blocks.Uncut '\n' peerMark b) :
    splitConf (rebuildConf h bs) = (endNl h, bs.map endNl) := by
  rw [rebuildConf_eq, splitConf]
  refine Blocks.splitBefore_flatten newline_not_mem_mark (uncut_rstripNl_newline hh) ?_
  intro b' hb'
  obtain ⟨b, hb, rfl⟩ := List.mem_map.mp hb'
  obtain ⟨hm, hu⟩ := hbs b hb
  exact ⟨(mark_prefix_rstripNl hm).trans (List.prefix_append _ _), uncut_rstripNl_newline hu⟩

theorem Cut.rebuild {h : Text} {bs : List Text} (hc : Cut h bs) :
    universalNewlines (rebuildConf h bs) = rebuildConf h bs ∧
      sections (rebuildConf h bs) = (endNl h, bs.map endNl) := by
  have hcr := not_mem_rebuildConf hc.noCr.1 hc.noCr.2
  have hu := universalNewlines_of_not_mem hcr
  refine ⟨hu, ?_⟩
  rw [sections, hu]
  exact splitConf_rebuildConf hc.header hc.blocks

theorem uncut_unlines {ls : List Text} (h : ∀ l ∈ ls, '\n' ∉ l ∧ ¬ peerMark <+: l) :
    Blocks.Uncut '\n' peerMark (unlines ls) ∧ ¬ peerMark <+: unlines ls := by
  induction ls with
  | nil => exact ⟨Blocks.uncut_nil, by decide⟩
  | cons l ls ih =>
    obtain ⟨hn, hm⟩ := h l List.mem_cons_self
    obtain ⟨hu, hp⟩ := ih fun l' hl' => h l' (List.mem_cons_of_mem _ hl')
    have hs : unlines (l :: ls) = l ++ '\n' :: unlines ls := by simp [unlines]
    have hl : Blocks.Uncut '\n' peerMark l := fun hi => hn (hi.subset List.mem_cons_self)
    rw [hs, Blocks.prefix_append_cons_iff _ newline_not_mem_mark]
    exact ⟨Blocks.Uncut.append_cons newline_not_mem_mark hl hu hp, hm⟩

theorem not_mark_prefix_setting {w v : Text} (hw : w ∈ confWords) : ¬ peerMark <+: setting w v := by
  have hhead : ∀ w ∈ confWords, w.head? ≠ some '[' := by decide
  obtain ⟨⟨c, cs, rfl, -⟩, -⟩ := confWords_ok w hw
  have hne : c ≠ '[' := by simpa using hhead _ hw
  simp [peerMark, setting, hne.symm]

theorem Regular.cut (hr : Regular r) : peerMark <+: peerText r ∧
    Blocks.Uncut '\n' peerMark (peerText r) ∧ '\r' ∉ peerText r := by
  have hlines : ∀ l ∈ (peerSettings r).map (fun e => setting e.1 e.2),
      OneLine l ∧ ¬ peerMark <+: l := by
    intro l hl
    obtain ⟨e, he, rfl⟩ := List.mem_map.mp hl
    obtain ⟨hw, -, ho⟩ := hr.setting_ok he
    have hword : OneLine e.1 := by
      have h : ∀ w ∈ confWords, OneLine w := by unfold OneLine; decide
      exact h _ hw
    exact ⟨(oneLine_setting hword).mpr ho, not_mark_prefix_setting hw⟩
  obtain ⟨hu, hp⟩ := uncut_unlines fun l hl => ⟨(hlines l hl).1.1, (hlines l hl).2⟩
  have hs : peerText r = peerMark ++
      '\n' :: unlines ((peerSettings r).map fun e => setting e.1 e.2) := by
    rw [peerText_eq]
    simp [sectionText, unlines]
  refine ⟨hs ▸ List.prefix_append _ _, ?_, ?_⟩
  · rw [hs]
    exact Blocks.Uncut.append_cons newline_not_mem_mark (by unfold Blocks.Uncut; decide) hu hp
  · rw [peerText_eq, sectionText, unlines, List.mem_flatten]
    rintro ⟨t, ht, hc⟩
    obtain ⟨l, hl, rfl⟩ := List.mem_map.mp ht
    rw [List.mem_append, List.mem_singleton] at hc
    rcases hc with hc | hc
    · rcases List.mem_cons.mp hl with rfl | hl
      · exact absurd hc (by decide)
      · exact (hlines l hl).1.2 hc
    · exact absurd hc (by decide)

/-! ## The store -/

/-- The text holds the header and the sections of the peers. Once it was written by a
command, writing its parts back would not change it. -/
structure Stores (content header : Text) (peers : List AddPeer) : Prop where
  regular : ∀ p ∈ peers, Regular p
  header : (sections content).1 = header ∨ (sections content).1 = endNl header
  blocks : (sections content).2 = peers.map peerText
  settled : peers = [] ∧ (sections content).1 = universalNewlines content ∨
    tidy content = universalNewlines content

variable {content header : Text} {peers : List AddPeer}

theorem endNl_peerText (r : AddPeer) : endNl (peerText r) = peerText r := rstripNl_peerText r

theorem endNl_endNl (t : Text) : endNl (endNl t) = endNl t := by
  rw [endNl, rstripNl_endNl, endNl]

theorem map_endNl_peerText (peers : List AddPeer) :
    (peers.map peerText).map endNl = peers.map peerText := by
  rw [List.map_map]
  exact List.map_congr_left fun p _ => endNl_peerText p

theorem cr_not_mem_tidy (content : Text) : '\r' ∉ tidy content :=
  not_mem_rebuildConf (cut_sections content).noCr.1 (cut_sections content).noCr.2

theorem sections_tidy (content : Text) :
    sections (tidy content) = (endNl (sections content).1, (sections content).2.map endNl) :=
  (cut_sections content).rebuild.2

/-- The sections that are read of a written peer. -/
def pieces (r : AddPeer) : List Text :=
  (sections (peerText r)).1 :: (sections (peerText r)).2

theorem mark_prefix_peerText (r : AddPeer) : peerMark <+: universalNewlines (peerText r) := by
  obtain ⟨rest, hrest⟩ : ∃ rest, peerText r = peerMark ++ '\n' :: rest := ⟨_, rfl⟩
  have hend : peerMark.getLast? = some '\r' → ('\n' :: rest).head? ≠ some '\n' := fun h => absurd h (by decide)
  rw [hrest, universalNewlines_append hend]
  exact ⟨_, rfl⟩

theorem sections_withPeer (r : AddPeer) (content : Text) :
    sections (withPeer r content) =
      (endNl (sections content).1, (sections content).2.map endNl ++ pieces r) := by
  have hclean := cr_not_mem_tidy content
  have hend : (tidy content).getLast? = some '\r' → ('\n' :: peerText r).head? ≠ some '\n' :=
    fun h => absurd (List.mem_of_mem_getLast? h) hclean
  have hread : universalNewlines (withPeer r content) =
      tidy content ++ '\n' :: universalNewlines (peerText r) := by
    rw [withPeer_eq, universalNewlines_append hend, universalNewlines_of_not_mem hclean,
      universalNewlines_cons (by decide)]
  have htidy : splitConf (tidy content) = (endNl (sections content).1, (sections content).2.map endNl) := by
    have hsections := sections_tidy content
    rwa [sections, universalNewlines_of_not_mem hclean] at hsections
  rw [sections, hread, splitConf, Blocks.splitBefore_append_block newline_not_mem_mark (mark_prefix_peerText r)]
  change ((splitConf (tidy content)).1, (splitConf (tidy content)).2 ++ pieces r) = _
  rw [htidy]

theorem Regular.pieces (hr : Regular r) : Helper.pieces r = [peerText r] := by
  have hsections : sections (peerText r) = (peerText r, []) := by
    rw [sections, universalNewlines_of_not_mem hr.cut.2.2]
    exact Blocks.splitBefore_uncut hr.cut.2.1
  rw [Helper.pieces, hsections]

theorem Stores.rebuild (h : Stores content header peers) {peers' : List AddPeer}
    (hr : ∀ p ∈ peers', Regular p) :
    Stores (rebuildConf (sections content).1 (peers'.map peerText)) header peers' := by
  have hcut : Cut (sections content).1 (peers'.map peerText) := by
    refine ⟨(cut_sections content).header, ?_, (cut_sections content).noCr.1, ?_⟩ <;>
      · intro b hb
        obtain ⟨p, hp, rfl⟩ := List.mem_map.mp hb
        obtain ⟨hm, hu, hc⟩ := (hr p hp).cut
        first | exact ⟨hm, hu⟩ | exact hc
  obtain ⟨hun, hsec⟩ := hcut.rebuild
  refine ⟨hr, .inr ?_, ?_, .inr ?_⟩
  · rw [hsec]
    rcases h.header with hh | hh
    · rw [hh]
    · rw [hh, endNl_endNl]
  · rw [hsec, map_endNl_peerText]
  · change rebuildConf (sections _).1 (sections _).2 = _
    rw [hun, hsec, map_endNl_peerText, rebuildConf_eq, endNl_endNl, ← rebuildConf_eq]

theorem Stores.add (h : Stores content header peers) (hr : Regular r) :
    Stores (withPeer r content) header (peers ++ [r]) := by
  have hw : withPeer r content =
      rebuildConf (sections content).1 ((peers ++ [r]).map peerText) := by
    change rebuildConf (sections content).1 ((sections content).2 ++ [peerText r]) = _
    rw [h.blocks, List.map_append]
    rfl
  rw [hw]
  refine h.rebuild fun p hp => ?_
  rcases List.mem_append.mp hp with hp | hp
  · exact h.regular p hp
  · exact List.mem_singleton.mp hp ▸ hr

theorem Stores.mentions (h : Stores content header peers) {key : WgKey} (hk : FullKey key.text)
    {p : AddPeer} (hp : p ∈ peers) : Helper.mentions key (peerText p) = decide (p.publicKey = key) := by
  rw [Bool.eq_iff_iff, (h.regular p hp).mentions_iff hk, decide_eq_true_eq, eq_comm]

theorem Stores.remove (h : Stores content header peers) {key : WgKey} (hk : FullKey key.text) :
    Stores (withoutPeer key content) header (peers.filter (·.publicKey ≠ key)) := by
  have hw : withoutPeer key content =
      rebuildConf (sections content).1 ((peers.filter (·.publicKey ≠ key)).map peerText) := by
    change rebuildConf (sections content).1 ((sections content).2.filter fun b => !Helper.mentions key b) = _
    rw [h.blocks, List.filter_map]
    congr 2
    refine List.filter_congr fun p hp => ?_
    simp [h.mentions hk hp]
  rw [hw]
  exact h.rebuild fun p hp => h.regular p (List.mem_filter.mp hp).1

theorem Stores.hasPeer_iff (h : Stores content header peers) {key : WgKey} (hk : FullKey key.text) :
    hasPeer key content = true ↔ ∃ p ∈ peers, p.publicKey = key := by
  change (sections content).2.any (Helper.mentions key) = true ↔ _
  rw [h.blocks, List.any_map, List.any_eq_true]
  refine exists_congr fun p => and_congr_right fun hp => ?_
  simp [h.mentions hk hp]

/-- Removing an absent key changes newlines at the end of the text only. -/
theorem Stores.remove_absent (h : Stores content header peers) {key : WgKey} (hk : FullKey key.text)
    (ha : ∀ p ∈ peers, p.publicKey ≠ key) :
    rstripNl (withoutPeer key content) = rstripNl (universalNewlines content) := by
  have hw : withoutPeer key content = tidy content := by
    change rebuildConf (sections content).1 ((sections content).2.filter fun b => !Helper.mentions key b) =
      rebuildConf (sections content).1 (sections content).2
    congr 1
    rw [List.filter_eq_self, h.blocks]
    intro b hb
    obtain ⟨p, hp, rfl⟩ := List.mem_map.mp hb
    simp [h.mentions hk hp, ha p hp]
  rw [hw]
  rcases h.settled with ⟨rfl, hs⟩ | hs
  · have ht : tidy content = endNl (sections content).1 := by
      change rebuildConf (sections content).1 (sections content).2 = _
      rw [h.blocks, rebuildConf_eq]
      simp
    rw [ht, rstripNl_endNl, hs]
  · rw [hs]

theorem Stores.readsBack (h : Stores content header peers) : ReadsBack content header peers where
  header := by
    rcases h.header with hh | hh
    · rw [hh]
    · rw [hh, rstripNl_endNl]
  peers := by
    rw [h.blocks, List.map_map]
    exact List.map_congr_left fun p hp => (h.regular p hp).readEntry

/-- A text without a line that opens a peer section stores no peers. -/
theorem stores_header (h : ∀ l ∈ (universalNewlines content).splitOn '\n', ¬ peerMark <+: l) :
    Stores content (universalNewlines content) [] := by
  have hu : Blocks.Uncut '\n' peerMark (universalNewlines content) := by
    rintro ⟨x, y, hxy⟩
    have hs : universalNewlines content = x ++ '\n' :: (peerMark ++ y) := by
      rw [← hxy]
      simp
    rw [hs, List.splitOn_append_cons_self, splitOn_append_first newline_not_mem_mark] at h
    obtain ⟨l, ls, hl⟩ := List.exists_cons_of_ne_nil (List.splitOn_ne_nil '\n' y)
    exact h (peerMark ++ l) (by simp [hl]) (List.prefix_append _ _)
  have hs : sections content = (universalNewlines content, []) := Blocks.splitBefore_uncut hu
  exact ⟨by simp, .inl (by rw [hs]), by rw [hs]; rfl, .inl ⟨rfl, by rw [hs]⟩⟩

/-! ## The header of a created tunnel -/

theorem mem_address : addressWord ∈ confWords := by decide

section created

variable {t : CreateTunnel}

/-- The header opens with its mark and the private key, blank line after it or not. -/
theorem tunnelText_eq (t : CreateTunnel) {port : Nat} (hp : t.listenPort.value.str = decimal port) :
    ∃ k ws, FullKey k ∧ (ws = [] ∨ ws = ['\n']) ∧
      tunnelText t = unlines [interfaceMark, setting privateKeyWord k] ++
        (ws ++ (setting addressWord t.address.str ++
          '\n' :: (unlines [setting listenPortWord (decimal port)] ++ []))) := by
  rcases wgKeyPattern_iff.mp t.privateKey.ok with h | ⟨k, h, hk⟩
  · exact ⟨_, [], h, .inl rfl, by simp [tunnelText, unlines, hp]⟩
  · exact ⟨k, ['\n'], h, .inr rfl, by simp [tunnelText, unlines, hp, hk, setting]⟩

theorem address_isValue (hs : t.address.scope = none) : IsValue t.address.str := by
  have hplain : Plain t.address.str :=
    (plain_written_iff t.address.written).mpr fun s h => by simp [hs] at h
  obtain ⟨x, p, hx⟩ := written_tail t.address.written
  exact hplain.isValue (by simp [hx])

theorem first_address (hs : t.address.scope = none) :
    (keyLine addressWord).first (tunnelText t) = some t.address.str := by
  obtain ⟨port, -, -, hp⟩ := port_str t.listenPort
  obtain ⟨k, ws, hk, hws, htext⟩ := tunnelText_eq t hp
  obtain ⟨hkey, hn⟩ := confWords_ok addressWord mem_address
  refine (search_present _ _ ws [] hkey hn ?_ ?_ (address_isValue hs) ?_ (by simp) htext).1
  · simp only [List.forall_mem_cons, List.not_mem_nil, false_imp_iff, implies_true, and_true]
    refine ⟨⟨by decide, ⟨'[', _, rfl, by decide⟩, by decide⟩, ?_⟩
    exact skips_setting mem_address (by decide) (by decide) hk.oneLine.1
  · rcases hws with rfl | rfl <;> simp [show isSpace '\n' = true by decide]
  · simp only [List.forall_mem_cons, List.not_mem_nil, false_imp_iff, implies_true, and_true]
    exact skips_setting mem_address (by decide) (by decide) (decimal_oneLine port).1

theorem endNl_tunnelText (t : CreateTunnel) : endNl (tunnelText t) = tunnelText t := by
  obtain ⟨port, -, -, hp⟩ := port_str t.listenPort
  have hs : setting listenPortWord (decimal port) = (listenPortWord ++ equals) ++ decimal port := by
    simp [setting]
  have hne : decimal port ≠ [] := Nat.toDigits_ne_nil
  rw [tunnelText, hp, hs]
  exact rstripNl_unlines [_, _, _] (by simp [hne]) (getLast?_ne_break hne (decimal_oneLine port)).1

theorem Stores.parseConfInfo (h : Stores content (tunnelText t) peers) (hs : t.address.scope = none) :
    Helper.parseConfInfo (universalNewlines content) =
      ⟨.server, some t.address.str, none,
        peers.flatMap fun p => p.allowedIps.nets.map IPNetwork.str⟩ := by
  have hheader : (sections content).1 = tunnelText t := by
    rcases h.header with hh | hh
    · exact hh
    · rw [hh, endNl_tunnelText]
  have hend : (peers.map peerText).findSome? blockEndpoint = none := by
    rw [List.findSome?_eq_none_iff]
    intro b hb
    obtain ⟨p, hp, rfl⟩ := List.mem_map.mp hb
    exact (h.regular p hp).blockEndpoint
  have hips : (peers.map peerText).flatMap blockAllowedIps =
      peers.flatMap fun p => p.allowedIps.nets.map IPNetwork.str := by
    rw [List.flatMap_map]
    exact List.flatMap_congr fun p hp => (h.regular p hp).blockAllowedIps
  have hsec : splitConf (universalNewlines content) = (tunnelText t, peers.map peerText) :=
    Prod.ext hheader h.blocks
  simp only [Helper.parseConfInfo, hsec, hend, hips, first_address hs]
  rfl

/-- A created header, as it is read, holds no peer section. -/
theorem tunnelText_header (hs : t.address.scope = none) :
    universalNewlines (tunnelText t) = tunnelText t ∧
      ∀ l ∈ (tunnelText t).splitOn '\n', ¬ peerMark <+: l := by
  obtain ⟨port, -, -, hp⟩ := port_str t.listenPort
  have hplain : Plain t.address.str :=
    (plain_written_iff t.address.written).mpr fun s h => by simp [hs] at h
  have hun : universalNewlines (tunnelText t) = tunnelText t := by
    obtain ⟨k, ws, hk, hws, htext⟩ := tunnelText_eq t hp
    refine universalNewlines_of_not_mem ?_
    have h₁ : OneLine (setting privateKeyWord k) :=
      (oneLine_setting (words_oneLine _ (by simp))).mpr hk.oneLine
    have h₂ : OneLine (setting addressWord t.address.str) :=
      (oneLine_setting (words_oneLine _ (by simp))).mpr hplain.oneLine
    have h₃ : OneLine (setting listenPortWord (decimal port)) :=
      (oneLine_setting (words_oneLine _ (by simp))).mpr (decimal_oneLine port)
    have h₄ : '\r' ∉ interfaceMark := by decide
    rw [htext]
    rcases hws with rfl | rfl <;> simp [unlines, h₁.2, h₂.2, h₃.2, h₄]
  refine ⟨hun, ?_⟩
  have hlines := fileLines_tunnelText t hp
  rw [fileLines, hun] at hlines
  rw [hlines, fileLines_of_oneLine
    ((oneLine_setting (words_oneLine addressWord (by simp))).mpr hplain.oneLine)]
  -- each line is a setting, the mark of the interface, or empty behind a key
  intro l hl
  simp only [List.mem_cons, List.mem_append, List.singleton_append, List.not_mem_nil, or_false] at hl
  rcases hl with rfl | hl | rfl | rfl | rfl
  · decide
  · rcases fileLines_key (words_oneLine privateKeyWord (by simp)) t.privateKey with
      ⟨-, hk⟩ | ⟨-, k', hk⟩
    · rw [hk, List.mem_singleton] at hl
      exact hl ▸ not_mark_prefix_setting (by decide)
    · rw [hk, List.mem_cons, List.mem_singleton] at hl
      rcases hl with rfl | rfl
      · exact not_mark_prefix_setting (by decide)
      · decide
  · exact not_mark_prefix_setting (by decide)
  · exact not_mark_prefix_setting (by decide)
  · decide

end created

/-! ## Runs of adding and removing -/

inductive Call where
  | add (req : Request)
  | remove (req : Request)

namespace Call

def run (env : Env) (c : Call) (s : State) : State :=
  match c with
  | .add req => (execute env (cmdAddPeer req) s).2
  | .remove req => (execute env (cmdRemovePeer req) s).2

/-- The keys match in full, the networks have no zone, the keepalive is a number. -/
def Regular : Call → Prop
  | .add req => ∀ r, readAddPeer req = .ok r → Helper.Regular r
  | .remove req => ∀ r, readRemovePeer req = .ok r → FullKey r.publicKey.text

/-- The list of peers as the abstract store: an added peer comes last, a present key is
not added again. -/
def spec (name : String) (c : Call) (peers : List AddPeer) : List AddPeer :=
  match c with
  | .add req =>
    match readAddPeer req with
    | .ok r =>
      if r.tunnel.text = name ∧ ∀ p ∈ peers, p.publicKey ≠ r.publicKey then peers ++ [r] else peers
    | .error _ => peers
  | .remove req =>
    match readRemovePeer req with
    | .ok r => if r.tunnel.text = name then peers.filter (·.publicKey ≠ r.publicKey) else peers
    | .error _ => peers

end Call

def runCalls (env : Env) (cs : List Call) (s : State) : State := cs.foldl (fun s c => c.run env s) s

def specCalls (name : String) (cs : List Call) (peers : List AddPeer) : List AddPeer :=
  cs.foldl (fun peers c => c.spec name peers) peers

variable {env : Env} {s : State} {name : String}

/-- The file of `name` stores the peers. -/
def FileStores (s : State) (name : String) (header : Text) (peers : List AddPeer) : Prop :=
  ∃ content, s.conf.lookup name = some content ∧ Stores content header peers

theorem conf_after_removePeer {req : Request} {r : RemovePeer} (hr : readRemovePeer req = .ok r)
    (hc : s.conf.lookup r.tunnel.text = some content) :
    (execute env (cmdRemovePeer req) s).2.conf =
      s.conf.set r.tunnel.text (withoutPeer r.publicKey content) := by
  rw [execute_cmdRemovePeer, hr]
  simp only [hc]
  split <;> rfl

theorem FileStores.add (h : FileStores s name header peers) {req : Request}
    (hreg : (Call.add req).Regular) :
    FileStores ((Call.add req).run env s) name header ((Call.add req).spec name peers) := by
  obtain ⟨content, hl, hs⟩ := h
  simp only [Call.run, Call.spec]
  cases hr : readAddPeer req with
  | error e => exact ⟨content, by rw [execute_cmdAddPeer, hr]; exact hl, hs⟩
  | ok r =>
    have hregr := hreg r hr
    cases hc : s.conf.lookup r.tunnel.text with
    | none =>
      have hne : r.tunnel.text ≠ name := fun he => by simp [he, hl] at hc
      simp only [hne, false_and, if_false]
      exact ⟨content, by rw [execute_cmdAddPeer, hr]; simp only [hc]; exact hl, hs⟩
    | some other =>
      cases hp : hasPeer r.publicKey other with
      | true =>
        have hno : ¬ (r.tunnel.text = name ∧ ∀ p ∈ peers, p.publicKey ≠ r.publicKey) := by
          rintro ⟨rfl, hall⟩
          obtain rfl : content = other := Option.some.inj (hl.symm.trans hc)
          obtain ⟨p, hpm, he⟩ := (hs.hasPeer_iff hregr.key).mp hp
          exact hall p hpm he
        simp only [hno, if_false]
        refine ⟨content, ?_, hs⟩
        rw [execute_cmdAddPeer, hr]
        simp only [hc, hp, if_true]
        exact hl
      | false =>
        have hconf : (execute env (cmdAddPeer req) s).2.conf = _ := conf_after_addPeer hr hc hp
        -- the file of another tunnel is not touched
        by_cases hn : r.tunnel.text = name
        · obtain rfl : content = other := Option.some.inj (hl.symm.trans (hn ▸ hc))
          have hall : ∀ p ∈ peers, p.publicKey ≠ r.publicKey := fun p hpm he => by
            simp [(hs.hasPeer_iff hregr.key).mpr ⟨p, hpm, he⟩] at hp
          simp only [hn, true_and, if_pos hall]
          exact ⟨_, by rw [hconf, hn, ConfDir.lookup_set_self], hs.add hregr⟩
        · simp only [hn, false_and, if_false]
          exact ⟨content, by rw [hconf, ConfDir.lookup_set_ne (Ne.symm hn), hl], hs⟩

theorem FileStores.remove (h : FileStores s name header peers) {req : Request}
    (hreg : (Call.remove req).Regular) :
    FileStores ((Call.remove req).run env s) name header ((Call.remove req).spec name peers) := by
  obtain ⟨content, hl, hs⟩ := h
  simp only [Call.run, Call.spec]
  cases hr : readRemovePeer req with
  | error e => exact ⟨content, by rw [execute_cmdRemovePeer, hr]; exact hl, hs⟩
  | ok r =>
    cases hc : s.conf.lookup r.tunnel.text with
    | none =>
      have hne : r.tunnel.text ≠ name := fun he => by simp [he, hl] at hc
      simp only [hne, if_false]
      exact ⟨content, by rw [execute_cmdRemovePeer, hr]; simp only [hc]; exact hl, hs⟩
    | some other =>
      have hconf : (execute env (cmdRemovePeer req) s).2.conf = _ := conf_after_removePeer hr hc
      by_cases hn : r.tunnel.text = name
      · obtain rfl : content = other := Option.some.inj (hl.symm.trans (hn ▸ hc))
        simp only [hn, if_true]
        exact ⟨_, by rw [hconf, hn, ConfDir.lookup_set_self], hs.remove (hreg r hr)⟩
      · simp only [hn, if_false]
        exact ⟨content, by rw [hconf, ConfDir.lookup_set_ne (Ne.symm hn), hl], hs⟩

/-- After every run the file stores the peers of the abstract run. -/
theorem FileStores.runCalls (h : FileStores s name header peers) {cs : List Call}
    (hreg : ∀ c ∈ cs, c.Regular) :
    FileStores (runCalls env cs s) name header (specCalls name cs peers) := by
  induction cs generalizing s peers with
  | nil => exact h
  | cons c cs ih =>
    refine ih ?_ fun c' hc' => hreg c' (List.mem_cons_of_mem _ hc')
    have hc := hreg c List.mem_cons_self
    cases c with
    | add req => exact h.add hc
    | remove req => exact h.remove hc

/-- The conf text is a faithful store: after every run of adding and removing it reads
back as its header and the peers added and not removed, in order; a present key is
rejected, an absent one removed without a change; and under a created header the
derived routing information is that of the peers. -/
theorem conf_is_faithful_store (env : Env) (s : State) (name : String) (cs : List Call) (first : Text)
    (hfile : s.conf.lookup name = some first)
    (hheader : ∀ l ∈ (universalNewlines first).splitOn '\n', ¬ peerMark <+: l)
    (hreg : ∀ c ∈ cs, c.Regular) :
    ∃ content, (runCalls env cs s).conf.lookup name = some content ∧
      ReadsBack content (universalNewlines first) (specCalls name cs []) ∧
      (∀ req r, readAddPeer req = .ok r → Regular r → r.tunnel.text = name →
        (∃ p ∈ specCalls name cs [], p.publicKey = r.publicKey) →
        execute env (cmdAddPeer req) (runCalls env cs s) =
          (.error (.helper (.invalid "peer already exists")), runCalls env cs s)) ∧
      (∀ req r, readRemovePeer req = .ok r → FullKey r.publicKey.text → r.tunnel.text = name →
        (∀ p ∈ specCalls name cs [], p.publicKey ≠ r.publicKey) →
        ∃ content', (execute env (cmdRemovePeer req) (runCalls env cs s)).2.conf =
            (runCalls env cs s).conf.set name content' ∧
          rstripNl content' = rstripNl (universalNewlines content)) ∧
      (∀ t : CreateTunnel, t.address.scope = none → first = tunnelText t →
        parseConfInfo (universalNewlines content) = ⟨.server, some t.address.str, none,
          (specCalls name cs []).flatMap fun p => p.allowedIps.nets.map IPNetwork.str⟩) := by
  have hstart : FileStores s name (universalNewlines first) [] :=
    ⟨first, hfile, stores_header hheader⟩
  obtain ⟨content, hl, hs⟩ : FileStores (runCalls env cs s) name _ _ := hstart.runCalls hreg
  refine ⟨content, hl, hs.readsBack, ?_, ?_, ?_⟩
  · rintro req r hr hregr rfl hmem
    rw [execute_cmdAddPeer, hr]
    simp only [hl, (hs.hasPeer_iff hregr.key).mpr hmem, if_true]
  · rintro req r hr hk rfl hno
    exact ⟨_, conf_after_removePeer hr hl, hs.remove_absent hk hno⟩
  · rintro t ht rfl
    rw [(tunnelText_header ht).1] at hs
    exact hs.parseConfInfo ht

/-- A tunnel file with a bare header. -/
def sampleState : State := { emptyState with conf := emptyState.conf.set "wg0" interfaceMark }

/-- A tunnel file whose header was extended by hand. -/
def sampleHeader : Text :=
  unlines [interfaceMark, setting addressWord plainAddress, "PostUp = sysctl -q net.ipv4.ip_forward=1".toList,
    "# home".toList]

def extendedState : State := { emptyState with conf := emptyState.conf.set "wg0" sampleHeader }

def numberedKey (c : Char) : Text := c :: List.replicate 42 'A' ++ ['=']

def keyB : WgKey := ⟨numberedKey 'B', by decide +kernel⟩
def keyC : WgKey := ⟨numberedKey 'C', by decide +kernel⟩

/-- Three peers are added, one of them twice; the first is removed. -/
def storedCalls : List Call :=
  [.add (addRequest plainAddress), .add (addRequestOf keyB plainAddress), .remove (removeRequest sampleWgKey),
    .add (addRequestOf keyB plainAddress), .add (addRequestOf keyC plainAddress)]

theorem fullKey_of_last {key : WgKey} (h : key.text.getLast? = some '=') : FullKey key.text := by
  rcases wgKeyPattern_iff.mp key.ok with hfull | ⟨k, -, hk⟩
  · exact hfull
  · rw [hk, List.getLast?_append, List.getLast?_singleton] at h
    cases h

/-- Two of three peers read back under the header. -/
theorem sample_peer_reads_back : ∃ content,
    (runCalls quietEnv storedCalls extendedState).conf.lookup "wg0" = some content ∧
      (specCalls "wg0" storedCalls []).map (·.publicKey) = [keyB, keyC] ∧
      ReadsBack content (universalNewlines sampleHeader) (specCalls "wg0" storedCalls []) := by
  have hscope : (ipInterface plainAddress).map (fun i => i.network.scope) = some none := by
    decide +kernel
  obtain ⟨i, hi, hn⟩ := Option.map_eq_some_iff.mp hscope
  have hadd : ∀ key : WgKey, FullKey key.text → (Call.add (addRequestOf key plainAddress)).Regular := by
    intro key hkey r hr
    rw [readAddPeer_of hi] at hr
    obtain rfl := Except.ok.inj hr
    exact ⟨hkey, by simp, by simpa using hn, by simp⟩
  have hreg : ∀ c ∈ storedCalls, c.Regular := by
    intro c hc
    simp only [storedCalls, List.mem_cons, List.not_mem_nil, or_false] at hc
    rcases hc with rfl | rfl | rfl | rfl | rfl
    · exact hadd sampleWgKey sampleKey_full
    · exact hadd keyB (fullKey_of_last rfl)
    · intro r hr
      rw [readRemovePeer_removeRequest] at hr
      obtain rfl := Except.ok.inj hr
      exact sampleKey_full
    · exact hadd keyB (fullKey_of_last rfl)
    · exact hadd keyC (fullKey_of_last rfl)
  obtain ⟨content, hl, hread, -⟩ := conf_is_faithful_store quietEnv extendedState "wg0" storedCalls sampleHeader rfl
    (by decide +kernel) hreg
  exact ⟨content, hl, by decide +kernel, hread⟩

end Helper
