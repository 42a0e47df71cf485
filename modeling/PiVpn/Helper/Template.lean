import PiVpn.Helper.Machine

/-! The lines a request adds to a conf text, against the template they should follow. -/

namespace Helper
open Text Pattern Ipaddress

/-- Neither a blank, which ends a value, nor a comma, which ends an entry of a list,
nor the mark of a comment. -/
def Plain (t : Text) : Prop := ∀ c ∈ t, isSpace c = false ∧ c ≠ ',' ∧ c ≠ '#'

def joinNetworks (nets : List IPNetwork) : Text := commaSep.intercalate (nets.map IPNetwork.str)

def ScopePlain (scope : Option Scope) : Prop := ∀ s ∈ scope, Plain s.text

/-- An add request without the odd values the validators let through. -/
structure PlainPeer (r : AddPeer) : Prop where
  key : FullKey r.publicKey.text
  psk : ∀ k ∈ r.presharedKey, FullKey k.text
  nets : ∀ n ∈ r.allowedIps.nets, ScopePlain n.scope
  keepalive : ∀ k ∈ r.keepalive, k.value ≠ .bool true

/-! ## Words, keys and addresses as parts of a line -/

/-- What a plain text does not hold. -/
def isOdd (c : Char) : Bool := isSpace c || c == ',' || c == '#'

theorem plain_iff_countP {t : Text} : Plain t ↔ t.countP isOdd = 0 := by
  simp [Plain, isOdd, List.countP_eq_zero, and_assoc]

theorem addressChars_plain : Plain addressChars := plain_iff_countP.mpr rfl

theorem decimal_plain (n : Nat) : Plain (decimal n) := fun _ hc =>
  addressChars_plain _ (mem_toDigits (by decide) (by decide) hc)

theorem Plain.append {a b : Text} (ha : Plain a) (hb : Plain b) : Plain (a ++ b) := fun c hc =>
  (List.mem_append.mp hc).elim (ha c) (hb c)

theorem Plain.oneLine {t : Text} (h : Plain t) : OneLine t :=
  ⟨fun hc => absurd (h _ hc).1 (by decide), fun hc => absurd (h _ hc).1 (by decide)⟩

/-- What is written is plain just where its zone is. -/
theorem plain_written_iff {t : Text} {scope : Option Scope} (h : Written t scope) :
    Plain t ↔ ScopePlain scope := by
  obtain ⟨d, p, rfl, hd⟩ := h.eq
  constructor
  · rintro hp s hs c hc
    obtain rfl : scope = some s := hs
    exact hp c (by simp [scopeText, hc])
  · intro hs
    refine Plain.append (fun c hc => addressChars_plain c (hd c hc)) (Plain.append ?_ ?_)
    · cases scope with
      | none => simp [scopeText, Plain]
      | some s =>
        exact Plain.append (a := ['%']) (plain_iff_countP.mpr rfl) (hs s rfl)
    · exact Plain.append (a := ['/']) (plain_iff_countP.mpr rfl) (decimal_plain p)

theorem oneLine_append {a b : Text} : OneLine (a ++ b) ↔ OneLine a ∧ OneLine b := by
  simp only [OneLine, List.mem_append]
  tauto

theorem oneLine_setting {key v : Text} (hk : OneLine key) :
    OneLine (setting key v) ↔ OneLine v := by
  have he : OneLine equals := by unfold OneLine; decide
  simp [setting, oneLine_append, hk, he]

theorem FullKey.oneLine {k : Text} (h : FullKey k) : OneLine k :=
  ⟨h.not_mem (by decide) (by decide), h.not_mem (by decide) (by decide)⟩

theorem decimal_oneLine (n : Nat) : OneLine (decimal n) := (decimal_plain n).oneLine

theorem words_oneLine : ∀ w ∈ [interfaceMark, peerMark, privateKeyWord, addressWord, listenPortWord,
    publicKeyWord, presharedKeyWord, allowedIpsWord, keepaliveWord], OneLine w := by
  unfold OneLine
  decide

theorem setting_injective {key v v' : Text} (h : setting key v = setting key v') : v = v' := by
  simpa [setting] using h

theorem getLast?_ne_break {a b : Text} (hb : b ≠ []) (h : OneLine b) :
    (a ++ b).getLast? ≠ some '\n' ∧ (a ++ b).getLast? ≠ some '\r' := by
  rw [List.getLast?_append_of_ne_nil _ hb]
  exact ⟨fun hl => h.1 (List.mem_of_getLast? hl), fun hl => h.2 (List.mem_of_getLast? hl)⟩

theorem slash_decimal_oneLine (p : Nat) : OneLine ('/' :: decimal p) :=
  oneLine_append (a := ['/']).mpr ⟨by unfold OneLine; decide, decimal_oneLine p⟩

theorem written_tail {t : Text} {scope : Option Scope} (h : Written t scope) :
    ∃ x p, t = x ++ '/' :: decimal p := by
  obtain ⟨d, p, rfl, -⟩ := h.eq
  exact ⟨d ++ scopeText scope, p, by simp⟩

/-- A key line is read as one line, or as two where a newline follows the key. -/
theorem fileLines_key {w : Text} (hw : OneLine w) (k : WgKey) :
    FullKey k.text ∧ fileLines (setting w k.text) = [setting w k.text] ∨
      ¬ FullKey k.text ∧ ∃ k', fileLines (setting w k.text) = [setting w k', []] := by
  rcases wgKeyPattern_iff.mp k.ok with h | ⟨k', h, hk⟩
  · exact .inl ⟨h, fileLines_of_oneLine ((oneLine_setting hw).mpr h.oneLine)⟩
  · refine .inr ⟨fun hf => hf.oneLine.1 (by simp [hk]), k', ?_⟩
    have ho : OneLine (setting w k') := (oneLine_setting hw).mpr h.oneLine
    have hs : setting w k.text = setting w k' ++ '\n' :: [] := by simp [setting, hk]
    rw [hs, fileLines_append fun hl => ho.2 (List.mem_of_getLast? hl), fileLines_of_oneLine ho]
    rfl

theorem key_getLast? {w : Text} (k : WgKey) : (setting w k.text).getLast? ≠ some '\r' := by
  have hs : setting w k.text = (w ++ equals) ++ k.text := by simp [setting]
  rcases wgKeyPattern_iff.mp k.ok with h | ⟨k', h, hk⟩
  · have hne : k.text ≠ [] := List.ne_nil_of_length_pos (by rw [h.length]; decide)
    rw [hs]
    exact (getLast?_ne_break hne h.oneLine).2
  · rw [hs, hk, ← List.append_assoc, List.getLast?_concat]
    decide

theorem port_str (p : Port) : ∃ n, 1024 ≤ n ∧ n ≤ 65535 ∧ p.value.str = decimal n := by
  obtain ⟨v, lo, hi⟩ := p
  cases v with
  | int n =>
    simp only [PyInt.toInt] at lo hi
    exact ⟨n.natAbs, by omega, by omega, by rw [PyInt.str, if_neg (by omega)]⟩
  | bool b => cases b <;> simp [PyInt.toInt] at lo

/-- A text that ends an address line opens some first line of it, and ends its last. -/
theorem fileLines_tunnelText (r : CreateTunnel) {port : Nat}
    (hp : r.listenPort.value.str = decimal port) :
    fileLines (tunnelText r) = interfaceMark :: (fileLines (setting privateKeyWord r.privateKey.text) ++
      (fileLines (setting addressWord r.address.str) ++
        [setting listenPortWord (decimal port), []])) := by
  obtain ⟨x, p, hx⟩ := written_tail r.address.written
  have hport : OneLine (setting listenPortWord (decimal port)) :=
    (oneLine_setting (words_oneLine _ (by simp))).mpr (decimal_oneLine port)
  rw [tunnelText, hp, fileLines_unlines]
  · simp only [List.flatMap_cons, List.flatMap_nil,
      fileLines_of_oneLine (words_oneLine interfaceMark (by simp)), fileLines_of_oneLine hport]
    simp
  · simp only [List.forall_mem_cons, List.not_mem_nil, false_imp_iff, implies_true, and_true]
    refine ⟨by decide, key_getLast? _, ?_, fun h => hport.2 (List.mem_of_getLast? h)⟩
    have hs : setting addressWord r.address.str = (addressWord ++ equals ++ x) ++ '/' :: decimal p := by
      simp [setting, hx]
    rw [hs]
    exact (getLast?_ne_break (by simp) (slash_decimal_oneLine p)).2

theorem joinNetworks_tail {nets : List IPNetwork} (h : nets ≠ []) :
    ∃ x p, joinNetworks nets = x ++ '/' :: decimal p := by
  induction nets with
  | nil => exact absurd rfl h
  | cons n ns ih =>
    cases ns with
    | nil => simpa [joinNetworks, List.intercalate] using written_tail n.written
    | cons m ns =>
      obtain ⟨x, p, hx⟩ := ih (List.cons_ne_nil _ _)
      refine ⟨n.str ++ commaSep ++ x, p, ?_⟩
      have hj : joinNetworks (n :: m :: ns) = n.str ++ commaSep ++ joinNetworks (m :: ns) :=
        List.intercalate_cons_cons
      rw [hj, hx, List.append_assoc _ x]

theorem joinNetworks_oneLine {nets : List IPNetwork} (h : ∀ n ∈ nets, Plain n.str) :
    OneLine (joinNetworks nets) := by
  constructor <;>
    · intro hc
      rcases mem_intercalate hc with hc | ⟨t, ht, hc⟩
      · exact absurd hc (by decide)
      · obtain ⟨n, hn, rfl⟩ := List.mem_map.mp ht
        first | exact (h n hn).oneLine.1 hc | exact (h n hn).oneLine.2 hc

/-! ## The block of an added peer -/

def trueWord : Text := ['T', 'r', 'u', 'e']

/-- The keepalive line is left out, holds decimal digits, or the word for a boolean. -/
theorem keepaliveText_cases (k : Option Keepalive) :
    (∃ n ≤ 3600, keepaliveText k = some (decimal n)) ∧ (∀ v ∈ k, v.value ≠ .bool true) ∨
      keepaliveText k = none ∧ (∀ v ∈ k, v.value ≠ .bool true) ∨
      keepaliveText k = some trueWord ∧ ∃ v ∈ k, v.value = .bool true := by
  rcases k with _ | ⟨v, lo, hi⟩
  · exact .inr (.inl ⟨rfl, by simp⟩)
  · cases v with
    | int n =>
      simp only [PyInt.toInt] at lo hi
      by_cases hn : n = 0
      · exact .inr (.inl ⟨by simp [keepaliveText, PyInt.toInt, hn], by simp⟩)
      · refine .inl ⟨⟨n.natAbs, by omega, ?_⟩, by simp⟩
        rw [keepaliveText, if_neg (by simpa [PyInt.toInt] using hn), PyInt.str, if_neg (by omega)]
    | bool b =>
      cases b with
      | false => exact .inr (.inl ⟨rfl, by simp⟩)
      | true => exact .inr (.inr ⟨rfl, _, rfl, rfl⟩)

theorem keepaliveText_oneLine (k : Option Keepalive) : ∀ t ∈ keepaliveText k, t ≠ [] ∧ OneLine t := by
  intro t ht
  rcases keepaliveText_cases k with ⟨⟨n, -, hn⟩, -⟩ | ⟨hn, -⟩ | ⟨hn, -⟩ <;> rw [hn] at ht
  · obtain rfl := Option.some.inj ht
    exact ⟨Nat.toDigits_ne_nil, decimal_oneLine n⟩
  · simp at ht
  · obtain rfl := Option.some.inj ht
    exact ⟨by decide, by unfold OneLine; decide⟩

def keepaliveLines (k : Option Keepalive) : List Text :=
  ((keepaliveText k).map (setting keepaliveWord)).toList

theorem keepaliveLines_oneLine (k : Option Keepalive) : ∀ l ∈ keepaliveLines k, OneLine l := by
  intro l hl
  rw [keepaliveLines, Option.mem_toList, Option.map_eq_some_iff] at hl
  obtain ⟨t, ht, rfl⟩ := hl
  exact (oneLine_setting (words_oneLine keepaliveWord (by simp))).mpr (keepaliveText_oneLine k t ht).2

theorem flatMap_oneLine {ls : List Text} (h : ∀ l ∈ ls, OneLine l) : ls.flatMap fileLines = ls := by
  induction ls with
  | nil => rfl
  | cons l ls ih =>
    rw [List.flatMap_cons, fileLines_of_oneLine (h l List.mem_cons_self),
      ih fun l' hl' => h l' (List.mem_cons_of_mem _ hl')]
    rfl

def pskLines (k : Option WgKey) : List Text :=
  (k.map fun k => setting presharedKeyWord k.text).toList

theorem fileLines_peerText (r : AddPeer) :
    fileLines (peerText r) = peerMark :: (fileLines (setting publicKeyWord r.publicKey.text) ++
      ((pskLines r.presharedKey).flatMap fileLines ++
        (fileLines (setting allowedIpsWord (joinNetworks r.allowedIps.nets)) ++
          (keepaliveLines r.keepalive ++ [[]])))) := by
  obtain ⟨x, p, hx⟩ := joinNetworks_tail r.allowedIps.ne
  have hmark := words_oneLine peerMark (by simp)
  have htext : peerText r = unlines ([peerMark, setting publicKeyWord r.publicKey.text] ++
      pskLines r.presharedKey ++ [setting allowedIpsWord (joinNetworks r.allowedIps.nets)] ++
      keepaliveLines r.keepalive) := rfl
  rw [htext, fileLines_unlines]
  · simp only [List.flatMap_append, List.flatMap_cons, List.flatMap_nil,
      fileLines_of_oneLine hmark, flatMap_oneLine (keepaliveLines_oneLine r.keepalive)]
    simp
  · intro l hl
    simp only [List.mem_append, List.mem_cons, List.not_mem_nil, or_false] at hl
    rcases hl with (((rfl | rfl) | hl) | rfl) | hl
    · decide
    · exact key_getLast? _
    · rw [pskLines, Option.mem_toList, Option.map_eq_some_iff] at hl
      obtain ⟨k, -, rfl⟩ := hl
      exact key_getLast? k
    · have hs : setting allowedIpsWord (joinNetworks r.allowedIps.nets) =
          (allowedIpsWord ++ equals ++ x) ++ '/' :: decimal p := by simp [setting, hx]
      rw [hs]
      exact (getLast?_ne_break (by simp) (slash_decimal_oneLine p)).2
    · exact fun h => (keepaliveLines_oneLine _ l hl).2 (List.mem_of_getLast? h)

/-- A conf text with one newline at the end of each section and a blank line between them. -/
def tidy (content : Text) : Text :=
  rebuildConf (splitConf (universalNewlines content)).1 (splitConf (universalNewlines content)).2

def contentLines (t : Text) : List Text := (fileLines t).filter (· ≠ [])

theorem rstripNl_append {a : Text} {c : Char} (h : c ≠ '\n') : rstripNl (a ++ [c]) = a ++ [c] := by
  simp [rstripNl, h]

theorem rstripNl_newline (a : Text) : rstripNl (a ++ ['\n']) = rstripNl a := by
  simp [rstripNl]

/-- The nonempty lines of a text that holds only newlines as breaks. -/
def filled (t : Text) : List Text := (t.splitOn '\n').filter (· ≠ [])

theorem filled_append (a b : Text) : filled (a ++ '\n' :: b) = filled a ++ filled b := by
  rw [filled, List.splitOn_append_cons_self, List.filter_append, filled, filled]

theorem filled_rstripNl (a : Text) : filled (rstripNl a) = filled a := by
  induction a using List.reverseRecOn with
  | nil => rfl
  | append_singleton a c ih =>
    by_cases hc : c = '\n'
    · subst hc
      rw [rstripNl_newline, ih, filled_append]
      simp [filled]
    · rw [rstripNl_append hc]

theorem filled_sections (h : Text) (bs : List Text) :
    filled (h ++ (bs.map ('\n' :: ·)).flatten) = filled h ++ bs.flatMap filled := by
  induction bs generalizing h with
  | nil => simp
  | cons b bs ih =>
    rw [List.map_cons, List.flatten_cons, List.cons_append, filled_append, ih, List.flatMap_cons]

theorem filled_rebuildConf (h : Text) (bs : List Text) :
    filled (rebuildConf h bs) = filled h ++ bs.flatMap filled := by
  have hb : ∀ bs : List Text, filled ((bs.map rebuildBlock).flatten) = bs.flatMap filled := by
    intro bs
    induction bs with
    | nil => rfl
    | cons b bs ih =>
      have hs : ((b :: bs).map rebuildBlock).flatten =
          [] ++ '\n' :: (rstripNl b ++ '\n' :: (bs.map rebuildBlock).flatten) := by
        simp [rebuildBlock]
      rw [hs, filled_append, filled_append, filled_rstripNl, ih]
      rfl
  rw [rebuildConf, filled_append, filled_rstripNl, hb]

theorem mem_rstripNl {a : Text} {c : Char} (h : c ∈ rstripNl a) : c ∈ a :=
  (List.rdropWhile_prefix _ _).subset h

theorem mem_splitConf {u : Text} {c : Char} :
    (c ∈ (splitConf u).1 → c ∈ u) ∧ ∀ b ∈ (splitConf u).2, c ∈ b → c ∈ u := by
  have hj := Blocks.splitBefore_join '\n' peerMark u
  constructor
  · intro h
    rw [← hj]
    exact List.mem_append_left _ h
  · intro b hb h
    rw [← hj]
    exact List.mem_append_right _
      (List.mem_flatten.mpr ⟨'\n' :: b, List.mem_map_of_mem hb, List.mem_cons_of_mem _ h⟩)

theorem not_mem_rebuildConf {h : Text} {bs : List Text} (hh : '\r' ∉ h)
    (hbs : ∀ b ∈ bs, '\r' ∉ b) : '\r' ∉ rebuildConf h bs := by
  simp only [rebuildConf, rebuildBlock, List.mem_append, List.mem_cons, List.mem_flatten,
    List.mem_map, exists_exists_and_eq_and, List.not_mem_nil, or_false, not_or, not_exists, not_and]
  exact ⟨fun hm => hh (mem_rstripNl hm), by decide, fun b hb =>
    ⟨⟨by decide, fun hm => hbs b hb (mem_rstripNl hm)⟩, by decide⟩⟩

theorem contentLines_tidy (content : Text) : contentLines (tidy content) = contentLines content := by
  have hno := not_mem_universalNewlines content
  have hcr : '\r' ∉ tidy content :=
    not_mem_rebuildConf (fun h => hno (mem_splitConf.1 h)) fun b hb h => hno (mem_splitConf.2 b hb h)
  have hjoin := Blocks.splitBefore_join '\n' peerMark (universalNewlines content)
  calc contentLines (tidy content) = filled (tidy content) := by
        rw [contentLines, fileLines, universalNewlines_of_not_mem hcr, filled]
    _ = filled (universalNewlines content) := by
        rw [tidy, filled_rebuildConf, ← filled_sections]
        exact congrArg filled hjoin
    _ = contentLines content := rfl

theorem rstripNl_unlines (ls : List Text) {l : Text} (hne : l ≠ [])
    (hl : l.getLast? ≠ some '\n') : rstripNl (unlines (ls ++ [l])) ++ ['\n'] = unlines (ls ++ [l]) := by
  obtain ⟨l, c, rfl⟩ := (List.eq_nil_or_concat' l).resolve_left hne
  have hc : c ≠ '\n' := by simpa using hl
  have hs : unlines (ls ++ [l ++ [c]]) = ((unlines ls ++ l) ++ [c]) ++ ['\n'] := by simp [unlines]
  rw [hs, rstripNl_newline, rstripNl_append hc]

theorem rstripNl_peerText (r : AddPeer) : rstripNl (peerText r) ++ ['\n'] = peerText r := by
  obtain ⟨x, p, hx⟩ := joinNetworks_tail r.allowedIps.ne
  have htext : peerText r = unlines ([peerMark, setting publicKeyWord r.publicKey.text] ++
      pskLines r.presharedKey ++ [setting allowedIpsWord (joinNetworks r.allowedIps.nets)] ++
      keepaliveLines r.keepalive) := rfl
  rw [htext]
  cases hk : keepaliveText r.keepalive with
  | none =>
    rw [keepaliveLines, hk, Option.map_none, Option.toList_none, List.append_nil]
    have hs : setting allowedIpsWord (joinNetworks r.allowedIps.nets) =
        (allowedIpsWord ++ equals ++ x) ++ '/' :: decimal p := by simp [setting, hx]
    rw [hs]
    exact rstripNl_unlines _ (by simp) (getLast?_ne_break (by simp) (slash_decimal_oneLine p)).1
  | some t =>
    obtain ⟨hne, ho⟩ := keepaliveText_oneLine r.keepalive t hk
    have hs : setting keepaliveWord t = (keepaliveWord ++ equals) ++ t := by simp [setting]
    rw [keepaliveLines, hk, Option.map_some, Option.toList_some, hs]
    exact rstripNl_unlines _ (by simp [hne]) (getLast?_ne_break hne ho).1

theorem rebuildConf_append (h : Text) (bs : List Text) (b : Text) :
    rebuildConf h (bs ++ [b]) = rebuildConf h bs ++ rebuildBlock b := by
  simp [rebuildConf]

theorem withPeer_eq (r : AddPeer) (content : Text) :
    withPeer r content = tidy content ++ '\n' :: peerText r := by
  rw [withPeer, rebuildConf_append, rebuildBlock, List.cons_append, rstripNl_peerText, tidy]

/-! ## What an accepted request writes -/

variable {env : Env} {s : State} {req : Request}

theorem conf_after_setPeer (r : AddPeer) : (execute env (setPeer r) s).2.conf = s.conf := by
  rw [execute_setPeer]

theorem conf_after_addPeer {r : AddPeer} {content : Text} (hr : readAddPeer req = .ok r)
    (hc : s.conf.lookup r.tunnel.text = some content) (hp : hasPeer r.publicKey content = false) :
    (execute env (cmdAddPeer req) s).2.conf =
      s.conf.set r.tunnel.text (withPeer r content) := by
  rw [execute_cmdAddPeer, hr]
  simp only [hc, hp, Bool.false_eq_true, if_false]
  split
  · exact conf_after_setPeer r
  · rfl

/-- A machine without conf files or interfaces, on which every subprocess succeeds. -/
def emptyState : State := ⟨⟨[], List.nodup_nil⟩, fun _ => none, none, [], 0⟩

def quietEnv : Env := fun _ _ _ live => (.exited 0 [] [], live)

def sampleKey : Text := List.replicate 43 'A' ++ ['=']

theorem sampleKey_full : FullKey sampleKey :=
  ⟨List.replicate 42 'A', 'A', by decide, by decide, List.all_eq_true.mp rfl, by decide⟩

theorem sampleKey_ok : matchesAt wgKeyPattern sampleKey = true :=
  wgKeyPattern_iff.mpr (.inl sampleKey_full)

def sampleWgKey : WgKey := ⟨sampleKey, sampleKey_ok⟩

def sampleName : TunnelName := ⟨"wg0", by decide⟩

def samplePort : Port := ⟨.int 51820, by decide, by decide⟩

def createRequest (address : Text) : Request :=
  [("cmd", .str "create_tunnel"), ("name", .str "wg0"), ("private_key", .str (String.ofList sampleKey)),
    ("address", .str (String.ofList address)), ("listen_port", .int 51820)]

def addRequestOf (key : WgKey) (net : Text) : Request :=
  [("cmd", .str "add_peer"), ("tunnel", .str "wg0"), ("public_key", .str (String.ofList key.text)),
    ("allowed_ips", .arr [.str (String.ofList net)]), ("keepalive", .int 25)]

def addRequest (net : Text) : Request := addRequestOf sampleWgKey net

theorem readAddPeer_of {key : WgKey} {net : Text} {i : IPInterface} (h : ipInterface net = some i) :
    readAddPeer (addRequestOf key net) =
      .ok ⟨sampleName, key, ⟨[i.network], by simp⟩, none, some ⟨.int 25, by decide, by decide⟩⟩ := by
  simp only [readAddPeer, addRequestOf, Json.get, List.lookup_cons, String.reduceBEq, Option.getD_some,
    validateWgKey_text]
  rw [show validateTunnelName (.str "wg0") = .ok sampleName from validateTunnelName_text sampleName]
  simp [validateAllowedIps, readNetwork, Json.ipNetwork, Json.ipInterface, h, nullable, validateIntIn,
    Json.pyInt?, PyInt.toInt, bind, Except.bind, pure, Except.pure, Except.map]

theorem readAddPeer_sample {net : Text} {i : IPInterface} (h : ipInterface net = some i) :
    readAddPeer (addRequest net) =
      .ok ⟨sampleName, sampleWgKey, ⟨[i.network], by simp⟩, none, some ⟨.int 25, by decide, by decide⟩⟩ :=
  readAddPeer_of h

def removeRequest (key : WgKey) : Request :=
  [("cmd", .str "remove_peer"), ("tunnel", .str "wg0"), ("public_key", .str (String.ofList key.text))]

theorem readRemovePeer_removeRequest (key : WgKey) :
    readRemovePeer (removeRequest key) = .ok ⟨sampleName, key⟩ := by
  simp only [readRemovePeer, removeRequest, Json.get, List.lookup_cons, String.reduceBEq,
    Option.getD_some, validateWgKey_text]
  rw [show validateTunnelName (.str "wg0") = .ok sampleName from validateTunnelName_text sampleName]
  rfl

def plainAddress : Text := ['1', '0', '.', '9', '.', '0', '.', '1', '/', '2', '4']

end Helper
