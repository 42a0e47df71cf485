import PiVpn.App.MetadataFrame

/-! The two halves of a new link: the section the helper stores for a peer, and the file the
peer downloads. -/

namespace App
open Text Pattern Cidr Ipaddress Effect Helper

/-! ## The downloaded text -/

/-- `"\n".join(conf_lines) + "\n"`. -/
def confText (lines : List String) : Text := unlines (lines.map String.toList)

def placeholderWord : Text := '#' :: ' ' :: endpointWord

def placeholderHost : Text := "<this server's reachable address>".toList

/-- The endpoint as the file writes it. -/
def TunnelMeta.endpointText (t : TunnelMeta) : Option Text :=
  t.endpoint.map fun e => (e ++ ":" ++ toString t.listenPort).toList

def endpointSetting (t : TunnelMeta) : Text × Text :=
  match t.endpointText with
  | some e => (endpointWord, e)
  | none => (placeholderWord, placeholderHost ++ ':' :: (toString t.listenPort).toList)

/-- The keepalive that is written: zero is left out. -/
def keepaliveSetting (keepalive : Option Int) : Option (Text × Text) :=
  (keepalive.filter (· ≠ 0)).map fun k => (keepaliveWord, (toString k).toList)

def interfaceSettings (privateKey address : Text) : List (Text × Text) :=
  [(privateKeyWord, privateKey), (addressWord, address)]

def serverSettings (serverKey : Text) (psk : Option Text) (nets : List IPNetwork) (t : TunnelMeta)
    (keepalive : Option Int) : List (Text × Text) :=
  [(publicKeyWord, serverKey)] ++ (psk.map fun k => (presharedKeyWord, k)).toList ++
    [(allowedIpsWord, joinNetworks nets), endpointSetting t] ++ (keepaliveSetting keepalive).toList

/-- A tunnel as `create_tunnel` records it; its peers may have changed since. -/
def ByApp (t : TunnelMeta) : Prop :=
  ∃ payload : TunnelCreateRequest, t.address = (IPInterface.v4 payload.address).str ∧
    t.endpoint = payload.endpoint ∧ t.listenPort = payload.listenPort

variable {t : TunnelMeta}

theorem ByApp.endpoint (h : ByApp t) : ∀ e ∈ t.endpoint, FullMatch isHostChar 1 255 e := by
  obtain ⟨payload, -, he, -⟩ := h
  exact he ▸ payload.endpointOk

theorem ByApp.endpoint_filter (h : ByApp t) : t.endpoint.filter (· ≠ "") = t.endpoint := by
  cases he : t.endpoint with
  | none => rfl
  | some e =>
    have hne : e ≠ "" := by
      rintro rfl
      exact absurd (h.endpoint "" he).1 (by decide)
    simp [Option.filter, hne]

theorem toList_settingLine (line : String) (key : Text) (h : line.toList = key ++ equals) (value : String) :
    (line ++ value).toList = setting key value.toList := by
  rw [String.toList_append, h, List.append_assoc]
  rfl

theorem toList_joined (nets : List IPNetwork) :
    (String.intercalate ", " ((nets.map IPNetwork.str).map String.ofList)).toList = joinNetworks nets := by
  have hback : (String.toList ∘ String.ofList) ∘ IPNetwork.str = IPNetwork.str := by
    funext n
    exact String.toList_ofList
  rw [String.toList_intercalate, List.map_map, List.map_map, hback]
  rfl

theorem confText_eq (h : ByApp t) (keypair : KeyPair) (address serverKey : Text) (psk : Option Text)
    (hpsk : nonEmpty psk = psk) (nets : List IPNetwork) (keepalive : Option Int) :
    confText (peerConfLines keypair address serverKey psk (nets.map IPNetwork.str) t keepalive) =
      sectionText interfaceMark (interfaceSettings keypair.privateKey address) ++
        '\n' :: sectionText peerMark (serverSettings serverKey psk nets t keepalive) := by
  have hlines : (peerConfLines keypair address serverKey psk (nets.map IPNetwork.str) t keepalive).map String.toList =
      [interfaceMark, setting privateKeyWord keypair.privateKey, setting addressWord address, [], peerMark,
        setting publicKeyWord serverKey] ++ (psk.map fun k => setting presharedKeyWord k).toList ++
        [setting allowedIpsWord (joinNetworks nets), setting (endpointSetting t).1 (endpointSetting t).2] ++
        ((keepaliveSetting keepalive).map fun e => setting e.1 e.2).toList := by
    -- line by line: the fixed ones, the preshared key, the networks with the endpoint, the keepalive
    unfold peerConfLines
    rw [hpsk, h.endpoint_filter, List.map_append, List.map_append, List.map_append]
    refine congrArg₂ (· ++ ·) (congrArg₂ (· ++ ·) (congrArg₂ (· ++ ·) ?_ ?_) ?_) ?_
    · simp only [List.map_cons, List.map_nil, toList_settingLine "PrivateKey = " privateKeyWord rfl,
        toList_settingLine "Address = " addressWord rfl,
        toList_settingLine "PublicKey = " publicKeyWord rfl, String.toList_ofList]
      rfl
    · cases psk with
      | none => rfl
      | some k =>
        have hline := toList_settingLine "PresharedKey = " presharedKeyWord rfl (String.ofList k)
        rw [String.toList_ofList] at hline
        exact congrArg ([·]) hline
    · have hips := toList_settingLine "AllowedIPs = " allowedIpsWord rfl
        (String.intercalate ", " ((nets.map IPNetwork.str).map String.ofList))
      rw [toList_joined] at hips
      rw [List.map_cons, hips, List.map_cons, List.map_nil]
      refine congrArg (fun l => [setting allowedIpsWord (joinNetworks nets), l]) ?_
      unfold endpointSetting TunnelMeta.endpointText
      cases t.endpoint with
      | none => exact String.toList_append
      | some e =>
        change ("Endpoint = " ++ e ++ ":" ++ toString t.listenPort).toList = _
        rw [String.append_assoc, String.append_assoc]
        refine (toList_settingLine _ endpointWord rfl _).trans ?_
        rw [← String.append_assoc]
        rfl
    · unfold keepaliveSetting
      cases keepalive with
      | none => rfl
      | some k =>
        by_cases hk : k = 0
        · simp [hk]
        · have hline := toList_settingLine "PersistentKeepalive = " keepaliveWord rfl (toString k)
          have hfilter : (some k).filter (fun x => decide (x ≠ 0)) = some k := by simp [hk]
          change (if k = 0 then ([] : List String) else _).map String.toList = _
          rw [if_neg hk, hfilter]
          exact congrArg ([·]) hline
  unfold confText sectionText interfaceSettings serverSettings
  rw [hlines]
  cases psk <;> cases keepaliveSetting keepalive <;> simp [unlines]

/-! ## What its values are -/

theorem isHostChar_plain {c : Char} (h : isHostChar c = true) : isSpace c = false ∧ c ≠ ',' ∧ c ≠ '#' := by
  have hcases : (isKeyChar c = true ∨ c = '=') ∨ c ∈ ['.', '-'] := by
    simp only [isHostChar, isAlnum, isKeyChar, Bool.or_eq_true, List.contains_iff_mem] at h ⊢
    tauto
  rcases hcases with h | h
  · exact keyChar_plain h
  · rcases List.mem_pair.mp h with rfl | rfl <;> decide

theorem toList_natCast (n : Nat) : (toString (n : Int)).toList = decimal n := Nat.toList_repr

theorem ByApp.port (h : ByApp t) : ∃ n : Nat, (toString t.listenPort).toList = decimal n := by
  obtain ⟨payload, -, -, hport⟩ := h
  have hnonneg : 0 ≤ payload.listenPort := le_trans (by decide) payload.portOk.1
  obtain ⟨n, hn⟩ := Int.eq_ofNat_of_zero_le hnonneg
  exact ⟨n, by rw [hport, hn]; exact toList_natCast n⟩

theorem ByApp.endpointText_isValue (h : ByApp t) : ∀ e ∈ t.endpointText, IsValue e := by
  intro e he
  obtain ⟨host, hhost, rfl⟩ := Option.map_eq_some_iff.mp he
  obtain ⟨n, hn⟩ := h.port
  have htext : (host ++ ":" ++ toString t.listenPort).toList = host.toList ++ ':' :: decimal n := by
    rw [String.toList_append, String.toList_append, hn, List.append_assoc]
    rfl
  rw [htext]
  have hplain : Plain (host.toList ++ ':' :: decimal n) := by
    apply Plain.append
    · intro c hc
      exact isHostChar_plain (List.all_eq_true.mp (h.endpoint host hhost).2.2 c hc)
    · exact List.forall_mem_cons.mpr ⟨by decide, decimal_plain n⟩
  exact hplain.isValue (by simp)

theorem ByApp.endpointSetting_oneLine (h : ByApp t) : '\n' ∉ (endpointSetting t).2 := by
  unfold endpointSetting
  cases he : t.endpointText with
  | some e => exact (h.endpointText_isValue e he).oneLine
  | none =>
    obtain ⟨n, hn⟩ := h.port
    have hhost : '\n' ∉ placeholderHost := by decide +kernel
    change '\n' ∉ placeholderHost ++ ':' :: (toString t.listenPort).toList
    rw [hn]
    simp [hhost, (decimal_oneLine n).1]

theorem keepaliveSetting_oneLine (payload : PeerCreateRequest) :
    ∀ e ∈ keepaliveSetting payload.keepalive, e.1 = keepaliveWord ∧ '\n' ∉ e.2 := by
  intro e he
  obtain ⟨k, hk, rfl⟩ := Option.map_eq_some_iff.mp he
  have hmem : payload.keepalive = some k := (Option.filter_eq_some_iff.mp hk).1
  obtain ⟨n, rfl⟩ := Int.eq_ofNat_of_zero_le (payload.keepaliveOk k hmem).1
  have htext : (toString (n : Int)).toList = decimal n := toList_natCast n
  exact ⟨rfl, htext ▸ (decimal_oneLine n).1⟩

theorem plain_nets (nets : List (Network 32)) : ∀ n ∈ nets.map IPNetwork.v4, Plain n.str := by
  intro n hn
  obtain ⟨m, -, rfl⟩ := List.mem_map.mp hn
  exact (plain_written_iff (IPNetwork.written (.v4 m))).mpr fun s hs => nomatch hs

theorem hostAddress_isValue (host : BitVec 32) : IsValue (IPInterface.v4 (hostInterface host)).str := by
  have hplain : Plain (IPInterface.v4 (hostInterface host)).str :=
    (plain_written_iff (IPInterface.written (.v4 (hostInterface host)))).mpr fun s hs => nomatch hs
  obtain ⟨x, p, hx⟩ := written_tail (IPInterface.written (.v4 (hostInterface host)))
  exact hplain.isValue (by simp [hx])

/-! ## What is read from it -/

/-- The words a generated file opens its lines with. -/
def fileWords : List Text := placeholderWord :: confWords

theorem skips_fileWord {w k v : Text} (hw : w ∈ confWords) (hk : k ∈ fileWords) (hne : k ≠ w) (hv : '\n' ∉ v) :
    Skips w (setting k v) := by
  rcases List.mem_cons.mp hk with rfl | hk
  · have hother : ∀ w ∈ confWords, w.head? ≠ some '#' := by decide
    refine ⟨?_, ⟨'#', _, rfl, by decide⟩, ?_⟩
    · simp [setting, placeholderWord, endpointWord, equals, hv]
    · -- no word of a setting is a comment
      intro hprefix
      obtain ⟨⟨c, cs, rfl, -⟩, -⟩ := confWords_ok w hw
      obtain ⟨rest, hrest⟩ := hprefix
      have hc : c = '#' := (List.cons.inj hrest).1
      exact hother _ hw (congrArg some hc)
  · exact skips_setting hw hk hne hv

theorem not_mark_prefix_fileWord {w v : Text} (hw : w ∈ fileWords) : ¬ peerMark <+: setting w v := by
  rcases List.mem_cons.mp hw with rfl | hw
  · simp [peerMark, setting, placeholderWord]
  · exact not_mark_prefix_setting hw

/-- Settings as a generated file holds them. -/
structure Written (settings : List (Text × Text)) : Prop where
  words : ∀ e ∈ settings, e.1 ∈ fileWords
  oneLine : ∀ e ∈ settings, '\n' ∉ e.2
  once : (settings.map Prod.fst).Nodup

theorem Written.search {settings : List (Text × Text)} (h : Written settings) {mark w : Text}
    (hmark : Skips w mark) (hw : w ∈ confWords) (hval : ∀ v, (w, v) ∈ settings → IsValue v) :
    (keyLine w).first (sectionText mark settings) = settings.lookup w ∧
      (keyLine w).captures (sectionText mark settings) = (settings.lookup w).toList := by
  obtain ⟨hkey, hn⟩ := confWords_ok w hw
  refine search_section hkey hn hmark (fun e he hne => ?_) (fun e he hew => ?_) h.once
  · exact skips_fileWord hw (h.words e he) hne (h.oneLine e he)
  · exact hval e.2 (hew ▸ he)

theorem Written.uncut {settings : List (Text × Text)} (h : Written settings) :
    Blocks.Uncut '\n' peerMark (unlines (settings.map fun e => setting e.1 e.2)) ∧
      ¬ peerMark <+: unlines (settings.map fun e => setting e.1 e.2) := by
  apply uncut_unlines
  intro l hl
  obtain ⟨e, he, rfl⟩ := List.mem_map.mp hl
  have hword : ∀ w ∈ fileWords, '\n' ∉ w := by decide
  refine ⟨?_, not_mark_prefix_fileWord (h.words e he)⟩
  simp [setting, equals, hword _ (h.words e he), h.oneLine e he]

theorem splitConf_sections {header server : List (Text × Text)} (hh : Written header) (hs : Written server) :
    splitConf (sectionText interfaceMark header ++ '\n' :: sectionText peerMark server) =
      (sectionText interfaceMark header, [sectionText peerMark server]) := by
  have hsection : ∀ mark settings, sectionText mark settings =
      mark ++ '\n' :: unlines (settings.map fun e => setting e.1 e.2) := by
    intro mark settings
    simp [sectionText, unlines]
  have hheader : Blocks.Uncut '\n' peerMark (sectionText interfaceMark header) := by
    rw [hsection]
    exact Blocks.Uncut.append_cons newline_not_mem_mark (by unfold Blocks.Uncut; decide) hh.uncut.1 hh.uncut.2
  have hserver : Blocks.Uncut '\n' peerMark (sectionText peerMark server) := by
    rw [hsection]
    exact Blocks.Uncut.append_cons newline_not_mem_mark (by unfold Blocks.Uncut; decide) hs.uncut.1 hs.uncut.2
  have hmark : peerMark <+: sectionText peerMark server := by
    rw [hsection]
    exact List.prefix_append _ _
  unfold splitConf
  rw [Blocks.splitBefore_append_cons newline_not_mem_mark hheader hmark, Blocks.splitBefore_uncut hserver]

/-! ## The downloaded file as its reader sees it -/

section reading

variable {payload : PeerCreateRequest} {privateKey address serverKey : Text} {psk : Option Text}

theorem written_interface (hkey : FullKey privateKey) (haddress : IsValue address) :
    Written (interfaceSettings privateKey address) where
  words := by simp [interfaceSettings, fileWords, confWords]
  oneLine := by simp [interfaceSettings, hkey.oneLine.1, haddress.oneLine]
  once := by simp only [interfaceSettings, List.map_cons, List.map_nil]; decide

/-- The settings of the server, as they are written for a request. -/
def linkSettings (serverKey : Text) (psk : Option Text) (t : TunnelMeta) (payload : PeerCreateRequest) :
    List (Text × Text) :=
  serverSettings serverKey psk (payload.allowedIps.map IPNetwork.v4) t payload.keepalive

theorem joined_isValue (payload : PeerCreateRequest) :
    IsValue (joinNetworks (payload.allowedIps.map IPNetwork.v4)) := by
  apply joinNetworks_isValue
  · simpa using payload.allowedIpsOk
  · exact plain_nets payload.allowedIps

theorem mem_linkSettings {e : Text × Text} (h : e ∈ linkSettings serverKey psk t payload) :
    e = (publicKeyWord, serverKey) ∨ (∃ k ∈ psk, e = (presharedKeyWord, k)) ∨
      e = (allowedIpsWord, joinNetworks (payload.allowedIps.map IPNetwork.v4)) ∨ e = endpointSetting t ∨
      e ∈ keepaliveSetting payload.keepalive := by
  simp only [linkSettings, serverSettings, List.mem_append, List.mem_cons, List.not_mem_nil, or_false,
    Option.mem_toList, Option.map_eq_some_iff] at h
  rcases h with ((h | ⟨k, hk, h⟩) | h | h) | h
  · exact .inl h
  · exact .inr (.inl ⟨k, hk, h.symm⟩)
  · exact .inr (.inr (.inl h))
  · exact .inr (.inr (.inr (.inl h)))
  · exact .inr (.inr (.inr (.inr h)))

theorem endpointSetting_word (t : TunnelMeta) :
    (endpointSetting t).1 = endpointWord ∨ (endpointSetting t).1 = placeholderWord := by
  unfold endpointSetting
  cases t.endpointText with
  | some e => exact .inl rfl
  | none => exact .inr rfl

theorem written_link (ht : ByApp t) (hserver : '\n' ∉ serverKey) (hpsk : ∀ k ∈ psk, FullKey k) :
    Written (linkSettings serverKey psk t payload) where
  words := by
    intro e he
    rcases mem_linkSettings he with rfl | ⟨k, -, rfl⟩ | rfl | rfl | hk
    · exact List.mem_cons_of_mem _ mem_publicKey
    · exact List.mem_cons_of_mem _ mem_presharedKey
    · exact List.mem_cons_of_mem _ mem_allowedIps
    · rcases endpointSetting_word t with h | h <;> rw [h] <;> decide
    · rw [(keepaliveSetting_oneLine payload e hk).1]
      decide
  oneLine := by
    intro e he
    rcases mem_linkSettings he with rfl | ⟨k, hk, rfl⟩ | rfl | rfl | hk
    · exact hserver
    · exact (hpsk k hk).oneLine.1
    · exact (joined_isValue payload).oneLine
    · exact ht.endpointSetting_oneLine
    · exact (keepaliveSetting_oneLine payload e hk).2
  once := by
    unfold linkSettings serverSettings
    have hkeepalive := fun e he => (keepaliveSetting_oneLine payload e he).1
    cases hka : keepaliveSetting payload.keepalive with
    | none =>
      cases psk <;> rcases endpointSetting_word t with h | h <;> simp [h] <;> decide
    | some e =>
      have he := hkeepalive e hka
      cases psk <;> rcases endpointSetting_word t with h | h <;> simp [h, he] <;> decide

theorem linkSettings_isValue (ht : ByApp t) (hpsk : ∀ k ∈ psk, FullKey k) {w v : Text}
    (hw : w ∈ [presharedKeyWord, allowedIpsWord, endpointWord])
    (h : (w, v) ∈ linkSettings serverKey psk t payload) : IsValue v := by
  rcases mem_linkSettings h with h | ⟨k, hk, h⟩ | h | h | h
  · obtain ⟨rfl, -⟩ := Prod.mk.inj h
    exact absurd hw (by decide)
  · obtain ⟨-, rfl⟩ := Prod.mk.inj h
    exact (hpsk v hk).isValue
  · obtain ⟨-, rfl⟩ := Prod.mk.inj h
    exact joined_isValue payload
  · unfold endpointSetting at h
    cases he : t.endpointText with
    | some e =>
      rw [he] at h
      obtain ⟨-, rfl⟩ := Prod.mk.inj h
      exact ht.endpointText_isValue v he
    | none =>
      rw [he] at h
      obtain ⟨rfl, -⟩ := Prod.mk.inj h
      exact absurd hw (by decide)
  · obtain rfl : w = keepaliveWord := (keepaliveSetting_oneLine payload _ h).1
    exact absurd hw (by decide)

theorem lookup_linkSettings (psk : Option Text) (t : TunnelMeta) (payload : PeerCreateRequest) :
    (linkSettings serverKey psk t payload).lookup presharedKeyWord = psk ∧
      (linkSettings serverKey psk t payload).lookup allowedIpsWord =
        some (joinNetworks (payload.allowedIps.map IPNetwork.v4)) ∧
      (linkSettings serverKey psk t payload).lookup endpointWord = t.endpointText := by
  unfold linkSettings serverSettings endpointSetting
  have hkeepalive := fun e he => (keepaliveSetting_oneLine payload e he).1
  cases hka : keepaliveSetting payload.keepalive with
  | none => cases psk <;> cases t.endpointText <;> exact ⟨rfl, rfl, rfl⟩
  | some e =>
    obtain ⟨word, value⟩ := e
    obtain rfl : word = keepaliveWord := hkeepalive _ hka
    cases psk <;> cases t.endpointText <;> exact ⟨rfl, rfl, rfl⟩

/-- What the peer's own reader makes of the file. -/
structure Downloaded (text : Text) (t : TunnelMeta) (payload : PeerCreateRequest) (privateKey address : Text)
    (psk : Option Text) : Prop where
  ownKey : (keyLine privateKeyWord).first (splitConf text).1 = some privateKey
  sharedKey : (splitConf text).2.map (keyLine presharedKeyWord).first = [psk]
  info : parseConfInfo text = ⟨if t.endpoint.isSome then .client else .server, some address, t.endpointText,
    payload.allowedIps.map fun n => (IPNetwork.v4 n).str⟩

theorem downloaded (ht : ByApp t) (hkey : FullKey privateKey) (haddress : IsValue address)
    (hserver : '\n' ∉ serverKey) (hpsk : ∀ k ∈ psk, FullKey k) :
    Downloaded (sectionText interfaceMark (interfaceSettings privateKey address) ++
      '\n' :: sectionText peerMark (linkSettings serverKey psk t payload)) t payload privateKey address psk := by
  have hheader := written_interface hkey haddress
  have hlink : Written (linkSettings serverKey psk t payload) := written_link ht hserver hpsk
  -- the file has one section each, and every setting is found in its own
  have hsplit := splitConf_sections hheader hlink
  obtain ⟨hlookpsk, hlookips, hlookend⟩ := @lookup_linkSettings serverKey psk t payload
  have hmark : ∀ w ∈ confWords, Skips w interfaceMark := by
    have hother : ∀ w ∈ confWords, ¬ w <+: interfaceMark := by decide
    exact fun w hw => ⟨by decide, ⟨'[', _, rfl, by decide⟩, hother w hw⟩
  have hsearch : ∀ w ∈ [presharedKeyWord, allowedIpsWord, endpointWord],
      (keyLine w).first (sectionText peerMark (linkSettings serverKey psk t payload)) =
          (linkSettings serverKey psk t payload).lookup w ∧
        (keyLine w).captures (sectionText peerMark (linkSettings serverKey psk t payload)) =
          ((linkSettings serverKey psk t payload).lookup w).toList := by
    have hwords : ∀ w ∈ [presharedKeyWord, allowedIpsWord, endpointWord], w ∈ confWords := by decide
    intro w hw
    exact hlink.search (skips_mark (hwords w hw)) (hwords w hw) fun v hv => linkSettings_isValue ht hpsk hw hv
  have hinterface : ∀ w ∈ [privateKeyWord, addressWord],
      (keyLine w).first (sectionText interfaceMark (interfaceSettings privateKey address)) =
        (interfaceSettings privateKey address).lookup w := by
    have hwords : ∀ w ∈ [privateKeyWord, addressWord], w ∈ confWords := by decide
    intro w hw
    refine (hheader.search (hmark w (hwords w hw)) (hwords w hw) fun v hv => ?_).1
    rcases List.mem_pair.mp hv with h | h
    · exact (Prod.mk.inj h).2 ▸ hkey.isValue
    · exact (Prod.mk.inj h).2 ▸ haddress
  have hips : blockAllowedIps (sectionText peerMark (linkSettings serverKey psk t payload)) =
      payload.allowedIps.map fun n => (IPNetwork.v4 n).str := by
    unfold blockAllowedIps
    rw [(hsearch _ (by decide)).2, hlookips, Option.toList_some, List.flatMap_singleton,
      commaParts_joinNetworks (plain_nets payload.allowedIps) (by simpa using payload.allowedIpsOk), List.map_map]
    rfl
  refine ⟨?_, ?_, ?_⟩
  · rw [hsplit]
    exact hinterface _ (by decide)
  · rw [hsplit, List.map_singleton, (hsearch _ (by decide)).1, hlookpsk]
  · have hendpoint : blockEndpoint (sectionText peerMark (linkSettings serverKey psk t payload)) = t.endpointText :=
      (hsearch _ (by decide)).1.trans hlookend
    have haddr := hinterface addressWord (by decide)
    unfold parseConfInfo
    rw [hsplit]
    simp only [List.findSome?_cons, List.findSome?_nil, hendpoint, haddr, List.flatMap_singleton, hips]
    unfold TunnelMeta.endpointText
    cases t.endpoint <;> rfl

end reading

/-! ## What the calls of a request answer -/

section answers

variable {env : AppEnv} {w w' : World} {pub : Text → Text}

/-- The keys `wg` makes, each on a line; a public key is that of its private key. -/
structure KeyTools (env : Env) (pub : Text → Text) : Prop where
  genkey : ∀ n psk live out err, (env n .wgGenkey psk live).1 = .exited 0 out err →
    ∃ k, FullKey k ∧ out = k ++ ['\n']
  pubkey : ∀ n psk live k out err, FullKey k → (env n (.wgPubkey (k ++ ['\n'])) psk live).1 = .exited 0 out err →
    FullKey (pub k) ∧ out = pub k ++ ['\n']

theorem strip_line {v : Text} (h : IsValue v) : strip (v ++ ['\n']) = v := by
  obtain ⟨c, cs, hc, hs⟩ := h.head
  have hl : lstrip (v ++ ['\n']) = v ++ ['\n'] := by
    unfold lstrip
    rw [hc, List.cons_append, List.dropWhile_cons, if_neg (by simp [hs])]
  have hv := strip_of_isValue h
  have hv' : lstrip v = v := by
    unfold lstrip
    rw [hc, List.dropWhile_cons, if_neg (by simp [hs])]
  unfold strip at hv ⊢
  rw [hv'] at hv
  rw [hl, List.rdropWhile_concat, if_pos (by decide), hv]

theorem checked_ok {o : Outcome} {what : String} {out : Text} (h : checked o what = .ok out) :
    ∃ err, o = .exited 0 out err := by
  unfold checked at h
  split at h
  · next rc stdout err =>
    split at h
    · next hrc =>
      subst hrc
      exact ⟨err, by rw [Except.ok.inj h]⟩
    · cases h
  · cases h

theorem keys_of_cmdGenkey {env : Env} {s s' : State} {req : Request} {k : KeyPair} (hd : KeyTools env pub)
    (h : execute env (cmdGenkey req) s = (.ok k, s')) :
    FullKey k.privateKey ∧ FullKey k.publicKey ∧ k.publicKey = pub k.privateKey := by
  obtain ⟨priv, s₁, hpriv, h₁⟩ := Prog.exec_bind_ok h
  obtain ⟨out, s₂, hpub, h₂⟩ := Prog.exec_bind_ok h₁
  obtain rfl : (⟨strip priv, strip out⟩ : KeyPair) = k := Except.ok.inj (congrArg Prod.fst h₂)
  obtain ⟨err, herr⟩ := checked_ok (congrArg Prod.fst ((execute_runChecked _ _).symm.trans hpriv))
  obtain ⟨key, hkey, rfl⟩ := hd.genkey _ _ _ _ _ herr
  obtain ⟨err', herr'⟩ := checked_ok (congrArg Prod.fst ((execute_runChecked _ _).symm.trans hpub))
  obtain ⟨hfull, rfl⟩ := hd.pubkey _ _ _ _ _ _ hkey herr'
  rw [strip_line hkey.isValue, strip_line hfull.isValue]
  exact ⟨hkey, hfull, rfl⟩

theorem genkey_ok {k : KeyPair} (hd : KeyTools env.helper pub) (h : runApi env Client.genkey w = (.ok k, w')) :
    FullKey k.privateKey ∧ FullKey k.publicKey ∧ k.publicKey = pub k.privateKey ∧
      w'.helper.conf = w.helper.conf := by
  obtain ⟨res, w₁, hcall, h₁⟩ := Prog.exec_bind_ok h
  obtain ⟨hres, rfl⟩ := call_ok hcall
  obtain ⟨rfl, rfl⟩ := Prod.mk.inj h₁ |>.imp Except.ok.inj id
  obtain ⟨hrun, -⟩ := serve_ok "genkey" rfl rfl hres
  obtain ⟨k, s₁, hk, h₂⟩ := Prog.exec_bind_ok (Prod.ext hrun rfl)
  obtain rfl : Result.keys k = res := Except.ok.inj (congrArg Prod.fst h₂)
  obtain ⟨hprivate, hpublic, hpub⟩ := keys_of_cmdGenkey hd hk
  exact ⟨hprivate, hpublic, hpub, Quiet.conf (.inl rfl)⟩

/-- Of one line of the dump only the line of an interface sets its key, to one of its columns. -/
theorem readDumpLine_key {live : List (Text × LiveStatus)} {line : Text} {e : Text × LiveStatus}
    (he : e ∈ readDumpLine live line) : e ∈ live ∨
      e.2.publicKey = ((live.lookup e.1).getD noStatus).publicKey ∨
        ∃ col ∈ line.splitOn '\t', e.2.publicKey = some col := by
  unfold readDumpLine at he
  generalize line.splitOn '\t' = cols at he ⊢
  cases cols with
  | nil => exact .inl he
  | cons iface cols =>
    simp only at he
    split at he
    · exact .inl he
    · rcases List.mem_cons.mp he with rfl | he
      · refine .inr ?_
        simp only
        split
        · next publicKey listenPort _ hcols =>
          rw [List.cons.injEq] at hcols
          exact .inr ⟨publicKey, by simp [hcols.2], rfl⟩
        · exact .inl rfl
        · exact .inl rfl
      · exact .inl (List.mem_filter.mp he).1

theorem readDump_oneLine {lines : List Text} {live : List (Text × LiveStatus)} (hlines : ∀ l ∈ lines, '\n' ∉ l)
    (hlive : ∀ e ∈ live, ∀ k ∈ e.2.publicKey, '\n' ∉ k) :
    ∀ e ∈ lines.foldl readDumpLine live, ∀ k ∈ e.2.publicKey, '\n' ∉ k := by
  induction lines generalizing live with
  | nil => exact hlive
  | cons l lines ih =>
    refine ih (fun l' hl' => hlines l' (.tail _ hl')) fun e he k hk => ?_
    rcases readDumpLine_key he with he | hold | ⟨col, hcol, hnew⟩
    · exact hlive e he k hk
    · rw [hold] at hk
      cases hl : live.lookup e.1 with
      | none => simp [hl, noStatus] at hk
      | some entry =>
        rw [hl] at hk
        obtain ⟨xs, ys, rfl, -⟩ := List.lookup_eq_some_iff.mp hl
        exact hlive _ (List.mem_append_right _ (.head _)) k hk
    · obtain rfl : col = k := Option.some.inj (hnew.symm.trans hk)
      intro hmem
      obtain ⟨-, a, b, rfl, -, -⟩ := mem_splitOn_iff.mp hcol
      exact hlines _ (.head _) (by simp [hmem])

theorem dumped_oneLine (o : Outcome) : ∀ e ∈ dumped o, ∀ k ∈ e.2.publicKey, '\n' ∉ k := by
  cases o with
  | notStarted e => exact fun e he => absurd he List.not_mem_nil
  | exited rc dump err =>
    by_cases hrc : rc = 0
    · rw [dumped, if_pos hrc]
      exact readDump_oneLine (fun l => newline_not_mem_of_mem_splitlines) fun e he => absurd he List.not_mem_nil
    · rw [dumped, if_neg hrc]
      exact fun e he => absurd he List.not_mem_nil

theorem tunnelStatus_ok {name : Option String} {ts : List TunnelStatus}
    (h : runApi env (Client.tunnelStatus name) w = (.ok ts, w')) :
    (∀ t ∈ ts, ∀ k ∈ t.publicKey, '\n' ∉ k) ∧ w'.helper.conf = w.helper.conf := by
  obtain ⟨res, w₁, hcall, h₁⟩ := Prog.exec_bind_ok h
  obtain ⟨hres, rfl⟩ := call_ok hcall
  obtain ⟨rfl, rfl⟩ := Prod.mk.inj h₁ |>.imp Except.ok.inj id
  refine ⟨?_, Quiet.conf (.inr ⟨name, rfl⟩)⟩
  obtain ⟨hrun, -⟩ := serve_ok "tunnel_status" rfl rfl hres
  obtain ⟨ts, s₁, hts, h₂⟩ := Prog.exec_bind_ok (Prod.ext hrun rfl)
  obtain rfl : Result.tunnels ts = res := Except.ok.inj (congrArg Prod.fst h₂)
  obtain ⟨only, -, hall⟩ := status_entries hts
  intro t ht k hk
  obtain ⟨tname, -, out, rfl⟩ := exists_of_forall₂ hall t ht
  have hlive := dumped_oneLine (env.helper w.helper.tick .wgShowAllDump w.helper.psk w.helper.live).1
  change k ∈ (((dumped _).lookup tname.toList).getD noStatus).publicKey at hk
  cases hl : (dumped (env.helper w.helper.tick .wgShowAllDump w.helper.psk w.helper.live).1).lookup tname.toList with
  | none => simp [hl, noStatus] at hk
  | some entry =>
    rw [hl] at hk
    obtain ⟨xs, ys, hlist, -⟩ := List.lookup_eq_some_iff.mp hl
    exact hlive _ (by rw [hlist]; exact List.mem_append_right _ (.head _)) k hk

theorem readAddPeer_presharedKey {tunnel : String} {key address : Text} {psk : Option Text} {keepalive : Option Int}
    {r : AddPeer} (h : readAddPeer (addPeerRequest tunnel key [address] psk keepalive) = .ok r) :
    r.presharedKey.map WgKey.text = psk := by
  obtain ⟨_, -, h⟩ := of_bind_ok h
  obtain ⟨_, -, h⟩ := of_bind_ok h
  obtain ⟨_, -, h⟩ := of_bind_ok h
  obtain ⟨psk', hpsk, h⟩ := of_bind_ok h
  obtain ⟨_, -, h⟩ := of_bind_ok h
  obtain rfl := Except.ok.inj h
  cases psk with
  | none =>
    obtain rfl : none = psk' := Except.ok.inj hpsk
    rfl
  | some t =>
    cases psk' with
    | none =>
      change (validateWgKey (jsonText t) _).map some = .ok none at hpsk
      cases hv : validateWgKey (jsonText t) "preshared_key" <;> rw [hv] at hpsk <;> cases hpsk
    | some k => exact congrArg some (wgKey_text (nullable_ok hpsk).2)

theorem addPeer_ok {name : String} {key address : Text} {psk : Option Text} {keepalive : Option Int}
    (h : runApi env (Client.addPeer name key [address] psk keepalive) w = (.ok (), w')) :
    ∃ r content, readAddPeer (addPeerRequest name key [address] psk keepalive) = .ok r ∧
      w.helper.conf.lookup r.tunnel.text = some content ∧
      w'.helper.conf = w.helper.conf.set r.tunnel.text (withPeer r content) := by
  obtain ⟨res, w₁, hcall, h₁⟩ := Prog.exec_bind_ok h
  obtain ⟨hres, rfl⟩ := call_ok hcall
  obtain rfl := congrArg Prod.snd h₁
  obtain ⟨hok, hconf⟩ :=
    (serve_unit env w (addPeerRequest name key [address] psk keepalive) "add_peer" rfl rfl).2 res hres
  rcases cmdAddPeer_cases env.helper (addPeerRequest name key [address] psk keepalive) w.helper with
    ⟨e, he⟩ | ⟨r, content, hr, hc, -, hset⟩
  · rw [he] at hok
    cases hok
  · exact ⟨r, content, hr, hc, hconf.trans hset⟩

end answers

/-! ## Both halves -/

/-- The stored section of a peer and its downloaded file. -/
structure Halves (pub : Text → Text) (t : TunnelMeta) (payload : PeerCreateRequest) (block text : Text)
    (privateKey address : Text) (psk : Option Text) : Prop extends
    Downloaded text t payload privateKey address psk where
  publicKey : (readEntry block).publicKey = some (pub privateKey)
  allowedIps : (readEntry block).allowedIps = [address]
  presharedKey : (readEntry block).presharedKey = psk
  requested : psk.isSome = payload.presharedKey

/-! ## A request -/

/-- The preshared key, where one is asked for. -/
def peerPsk (wanted : Bool) : Api (Option Text) :=
  if wanted then do pure (some (← Client.genkey).privateKey) else pure none

/-- What is left of the request once the keys are made. -/
def storePeer (metadata : Metadata) (name : String) (payload : PeerCreateRequest) (user : User) (t : TunnelMeta)
    (serverKey address : Text) (keypair : KeyPair) (psk : Option Text) : Api HttpResponse := do
  let requested := payload.allowedIps.map fun n => (IPNetwork.v4 n).str
  Client.addPeer name keypair.publicKey [address] psk payload.keepalive
  let peerId ← uuid4
  writeMetadata (metadata.withPeers name (t.peers ++
    [⟨peerId, payload.description, address, requested, keypair.publicKey, user⟩]))
  log (infoLog "peer_created" "wireguard.peer.created" user
    [("tunnel", .str name), ("peer_id", .str peerId), ("description", .str payload.description)])
  pure ⟨200, .conf (safeFilename payload.description ++ ".conf")
    (peerConfLines keypair address serverKey psk requested t payload.keepalive)⟩

variable {env : AppEnv} {w w' : World} {pub : Text → Text} {metadata : Metadata} {name : String}
  {payload : PeerCreateRequest} {user : User} {response : HttpResponse}

/-- A request that gets through is one of these three parts after the other. -/
theorem createPeer_ok (ht : w.metadata.loaded.lookup name = some t)
    (hrun : runApi env (createPeer name payload user) w = (.ok response, w')) :
    ∃ tunnels serverKey w₁, runApi env (Client.tunnelStatus (some name)) w.afterLoad = (.ok tunnels, w₁) ∧
      tunnels.head?.bind TunnelStatus.publicKey = some serverKey ∧
      runApi env (allocatePeerAddress t >>= fun address => Client.genkey >>= fun keypair =>
        peerPsk payload.presharedKey >>= fun psk =>
          storePeer w.metadata.loaded name payload user t serverKey address keypair psk) w₁ = (.ok response, w') := by
  obtain ⟨metadata, w₀, hload, hrun⟩ := Prog.exec_bind_ok hrun
  have hloads := MetadataFile.loads_of_lookup ht
  obtain ⟨rfl, rfl⟩ := Prod.mk.inj ((runApi_loadMetadata hloads).symm.trans hload) |>.imp Except.ok.inj id
  unfold createPeerFrom at hrun
  rw [ht] at hrun
  obtain ⟨tunnels, w₁, hstatus, hrun⟩ := Prog.exec_bind_ok hrun
  cases hserver : nonEmpty (tunnels.head?.bind TunnelStatus.publicKey) with
  | none =>
    rw [hserver] at hrun
    cases hrun
  | some serverKey =>
    rw [hserver] at hrun
    refine ⟨tunnels, serverKey, w₁, hstatus, (Option.filter_eq_some_iff.mp hserver).1, ?_⟩
    rw [← hrun]
    refine congrArg (fun p => runApi env p w₁) (congrArg (allocatePeerAddress t >>= ·) ?_)
    funext address
    refine congrArg (Client.genkey >>= ·) ?_
    funext keypair
    unfold peerPsk
    cases payload.presharedKey with
    | false => rfl
    | true => exact Prog.bind_assoc _ _ _

theorem peerPsk_ok {wanted : Bool} {psk : Option Text} (hd : KeyTools env.helper pub)
    (h : runApi env (peerPsk wanted) w = (.ok psk, w')) :
    (∀ k ∈ psk, FullKey k) ∧ psk.isSome = wanted ∧ w'.helper.conf = w.helper.conf := by
  cases wanted with
  | false =>
    obtain ⟨rfl, rfl⟩ : none = psk ∧ w = w' := Prod.mk.inj h |>.imp Except.ok.inj id
    exact ⟨fun k hk => (nomatch hk), rfl, rfl⟩
  | true =>
    obtain ⟨keypair, w₁, hgenkey, h⟩ := Prog.exec_bind_ok h
    obtain ⟨rfl, rfl⟩ : some keypair.privateKey = psk ∧ w₁ = w' := Prod.mk.inj h |>.imp Except.ok.inj id
    obtain ⟨hkey, -, -, hconf⟩ := genkey_ok hd hgenkey
    exact ⟨fun k hk => Option.some.inj hk ▸ hkey, rfl, hconf⟩

theorem storePeer_ok {serverKey address : Text} {keypair : KeyPair} {psk : Option Text}
    (h : runApi env (storePeer metadata name payload user t serverKey address keypair psk) w = (.ok response, w')) :
    response = ⟨200, .conf (safeFilename payload.description ++ ".conf") (peerConfLines keypair address serverKey psk
        (payload.allowedIps.map fun n => (IPNetwork.v4 n).str) t payload.keepalive)⟩ ∧
      ∃ r content, readAddPeer (addPeerRequest name keypair.publicKey [address] psk payload.keepalive) = .ok r ∧
        w.helper.conf.lookup r.tunnel.text = some content ∧
        w'.helper.conf = w.helper.conf.set r.tunnel.text (withPeer r content) := by
  obtain ⟨_, w₁, hadd, h⟩ := Prog.exec_bind_ok h
  obtain ⟨r, content, hr, hlookup, hset⟩ := addPeer_ok hadd
  obtain ⟨rfl, rfl⟩ := Prod.mk.inj h |>.imp Except.ok.inj id
  exact ⟨rfl, r, content, hr, hlookup, hset⟩

/-- A created peer's section and file belong together, whatever the conf file held before. -/
theorem create_peer_links (env : AppEnv) (pub : Text → Text) (hd : KeyTools env.helper pub) (name : String)
    (payload : PeerCreateRequest) (user : User) (w w' : World) (t : TunnelMeta)
    (ht : w.metadata.loaded.lookup name = some t) (hby : ByApp t) (response : HttpResponse)
    (hrun : runApi env (createPeer name payload user) w = (.ok response, w')) :
    ∃ filename lines content content' block privateKey address psk,
      response = ⟨200, .conf filename lines⟩ ∧ w.helper.conf.lookup name = some content ∧
      w'.helper.conf.lookup name = some content' ∧
      (sections content').2 = (sections content).2.map endNl ++ [block] ∧
      Halves pub t payload block (confText lines) privateKey address psk := by
  obtain ⟨tunnels, serverKey, w₁, hstatus, hserver, hrun⟩ := createPeer_ok ht hrun
  obtain ⟨honeLine, hconf₁⟩ := tunnelStatus_ok hstatus
  have hserverKey : '\n' ∉ serverKey := by
    obtain ⟨status, hhead, hkey⟩ := Option.bind_eq_some_iff.mp hserver
    exact honeLine status (List.mem_of_head? hhead) serverKey hkey
  obtain ⟨address, w₂, haddress, hrun₂⟩ := Prog.exec_bind_ok hrun
  obtain ⟨hallocated, hw₂⟩ : allocatePeerAddress t = .pure address ∧ w₂ = w₁ := by
    rcases allocatePeerAddress_cases t with ⟨a, ha⟩ | ⟨e, he⟩
    · rw [ha] at haddress ⊢
      obtain ⟨rfl, rfl⟩ : a = address ∧ w₁ = w₂ := Prod.mk.inj haddress |>.imp Except.ok.inj id
      exact ⟨rfl, rfl⟩
    · rw [he] at haddress
      cases haddress
  obtain ⟨keypair, w₃, hgenkey, hrun₃⟩ := Prog.exec_bind_ok hrun₂
  obtain ⟨hprivate, hpublicKey, hpublic, hconf₃⟩ := genkey_ok hd hgenkey
  obtain ⟨psk, w₄, hpsk, hrun₄⟩ := Prog.exec_bind_ok hrun₃
  obtain ⟨hpskkey, hasked, hconf₄⟩ := peerPsk_ok hd hpsk
  obtain ⟨rfl, r, content, hr, hlookup, hset⟩ := storePeer_ok hrun₄
  have hconf : w₄.helper.conf = w.helper.conf :=
    hconf₄.trans (hconf₃.trans (hw₂ ▸ hconf₁.trans (untouched_afterLoad w).conf))
  -- the helper reads the request as a regular peer of this tunnel
  have hstripped : ∀ {k}, FullKey k → Stripped k := fun hk h =>
    hk.oneLine.1 (List.mem_of_getLast? h)
  have hreads := readAddPeer_request (fun k hk => hstripped (hpskkey k hk)) hr
  have hregular : Regular r := hreads.regular (hstripped hpublicKey) hallocated
  obtain ⟨_, _, host, -, -, rfl, -, -⟩ := allocatePeerAddress_eq hallocated
  have hentry := hregular.readEntry
  have hnonEmpty : nonEmpty psk = psk := by
    cases psk with
    | none => rfl
    | some k => simp [nonEmpty, Option.filter, List.ne_nil_of_length_pos (by rw [(hpskkey k rfl).length]; decide)]
  have htext := confText_eq hby keypair (IPInterface.v4 (hostInterface host)).str serverKey psk hnonEmpty
    (payload.allowedIps.map IPNetwork.v4) payload.keepalive
  have hdownloaded : Downloaded _ t payload keypair.privateKey (IPInterface.v4 (hostInterface host)).str psk :=
    downloaded hby hprivate (hostAddress_isValue host) hserverKey hpskkey
  rw [hreads.tunnel, hconf] at hlookup
  rw [hreads.tunnel] at hset
  have hsections : (sections (withPeer r content)).2 = (sections content).2.map endNl ++ [peerText r] := by
    rw [sections_withPeer, hregular.pieces]
  refine ⟨_, _, content, withPeer r content, peerText r, keypair.privateKey,
    (IPInterface.v4 (hostInterface host)).str, psk, rfl, hlookup, ?_, hsections, ?_⟩
  · rw [hset, ConfDir.lookup_set_self]
  · rw [List.map_map] at htext
    obtain ⟨n, hn, hnets⟩ := hreads.nets
    have hstr : n.str = (IPInterface.v4 (hostInterface host)).str := by
      rw [← Option.some.inj ((ipNetwork_hostInterface host).symm.trans hn), hostInterface_str]
    have hdown : Downloaded (confText (peerConfLines keypair (IPInterface.v4 (hostInterface host)).str serverKey psk
        (payload.allowedIps.map fun n => (IPNetwork.v4 n).str) t payload.keepalive)) t payload keypair.privateKey
        (IPInterface.v4 (hostInterface host)).str psk := htext ▸ hdownloaded
    refine { hdown with publicKey := ?_, allowedIps := ?_, presharedKey := ?_, requested := hasked }
    · rw [hentry, ← hpublic, ← hreads.key]
      rfl
    · rw [hentry, ← hstr]
      change r.allowedIps.nets.map IPNetwork.str = _
      rw [hnets, List.map_singleton]
    · rw [hentry]
      exact readAddPeer_presharedKey hr

/-- Every subprocess succeeds; the third call of all yields one key and every other another,
and each private key has the one public key. -/
def linkHelper : Env := fun tick c _ live =>
  match c with
  | .wgGenkey => (.exited 0 (keyOf (if tick = 2 then 'P' else 'Q') ++ ['\n']) [], live)
  | .wgPubkey _ => (.exited 0 (keyOf 'B' ++ ['\n']) [], live)
  | .wgShowAllDump => (.exited 0 sampleDump [], live)
  | _ => (.exited 0 [] [], live)

theorem keyTools_linkHelper : KeyTools linkHelper fun _ => keyOf 'B' where
  genkey := by
    intro tick _ _ out err h
    obtain ⟨-, rfl, -⟩ := Outcome.exited.inj h
    split
    · exact ⟨_, ⟨List.replicate 42 'P', 'A', by decide, by decide, List.all_eq_true.mp rfl, by decide⟩, rfl⟩
    · exact ⟨_, ⟨List.replicate 42 'Q', 'A', by decide, by decide, List.all_eq_true.mp rfl, by decide⟩, rfl⟩
  pubkey := by
    intro _ _ _ k out err _ h
    obtain ⟨-, rfl, -⟩ := Outcome.exited.inj h
    exact ⟨⟨List.replicate 42 'B', 'A', by decide, by decide, List.all_eq_true.mp rfl, by decide⟩, rfl⟩

def linkCreate : TunnelCreateRequest where
  name := "wg0"
  address := serverAddress
  listenPort := 51820
  endpoint := some "vpn.example.test"
  force := false
  nameOk := ⟨by decide, by decide, by decide⟩
  portOk := by decide
  endpointOk := fun e he => Option.some.inj he ▸ ⟨by decide, by decide, by decide⟩

/-- A tunnel with an endpoint and a peer. -/
def linkTunnel : TunnelMeta :=
  ⟨(IPInterface.v4 serverAddress).str, some "vpn.example.test", 51820,
    [⟨"x", "laptop", "10.8.0.2/32".toList, ["10.8.0.0/24".toList], keyOf 'C', none⟩]⟩

def linkWorld : World :=
  { sampleWorld with
    helper := { sampleWorld.helper with
      conf := ⟨[("wg0", unlines [interfaceMark, [], peerMark, setting publicKeyWord (keyOf 'C')])], by decide⟩ }
    metadata := .data [("wg0", linkTunnel)] }

/-- A preshared key and a keepalive are asked for. -/
def linkPeer : PeerCreateRequest :=
  { samplePeer with
    description := "phone"
    presharedKey := true
    keepalive := some 25
    descriptionOk := ⟨by decide, by decide, by decide⟩
    keepaliveOk := by simp }

/-- The second peer of a tunnel. -/
theorem second_peer_links : ∃ filename lines content content' block privateKey address psk w',
    runApi { sampleEnv with helper := linkHelper } (createPeer "wg0" linkPeer none) linkWorld =
        (.ok ⟨200, .conf filename lines⟩, w') ∧
      linkWorld.helper.conf.lookup "wg0" = some content ∧ w'.helper.conf.lookup "wg0" = some content' ∧
      (sections content').2 = (sections content).2.map endNl ++ [block] ∧
      Halves (fun _ => keyOf 'B') linkTunnel linkPeer block (confText lines) privateKey address psk := by
  have hok : (runApi { sampleEnv with helper := linkHelper } (createPeer "wg0" linkPeer none)
      linkWorld).1.toOption.isSome = true := by decide +kernel
  rcases hrun : runApi { sampleEnv with helper := linkHelper } (createPeer "wg0" linkPeer none) linkWorld with
    ⟨e | response, w'⟩
  · rw [hrun] at hok
    cases hok
  · obtain ⟨filename, lines, content, content', block, privateKey, address, psk, rfl, h⟩ :=
      create_peer_links { sampleEnv with helper := linkHelper } (fun _ => keyOf 'B') keyTools_linkHelper "wg0"
        linkPeer none linkWorld w' linkTunnel rfl ⟨linkCreate, rfl, rfl, rfl⟩ response hrun
    exact ⟨filename, lines, content, content', block, privateKey, address, psk, w', rfl, h⟩

end App
