import PiVpn.Lib.Sections
import PiVpn.Helper.ConfStore

/-! A conf text as `wg` reads it, and when the commands that look for
`PublicKey = …` in blocks cut at a line that begins with `[Peer]` do what that reading
asks for. -/

namespace Helper
open Text Pattern Ipaddress Sections

/-! ## The reading of `wg` -/

def isBlank (c : Char) : Bool := c == ' ' || (9 ≤ c.toNat && c.toNat ≤ 13)

def trim (t : Text) : Text := (t.dropWhile isBlank).rdropWhile isBlank

def uncomment (line : Text) : Text := line.takeWhile (· ≠ '#')

def lower (t : Text) : Text := t.map Char.toLower

abbrev ConfEntry := Entry Text (Text × Text)
abbrev ConfSection := Part Text (Text × Text)

/-- What a line says, nothing when it is blank. -/
def wgLine (line : Text) : Option ConfEntry :=
  let t := trim (uncomment line)
  if t = [] then none
  else if t.head? = some '[' then some (.header (lower t))
  else some (.setting (lower (trim (t.takeWhile (· ≠ '='))), trim ((t.dropWhile (· ≠ '=')).drop 1)))

/-- `wg` knows sections of two kinds. -/
def known (x : ConfSection) : Bool := x.header == lower interfaceMark || x.header == lower peerMark

def wgEntries (lines : List Text) : List ConfEntry := lines.filterMap wgLine

/-- The sections of a conf text, in order. -/
def wgRead (content : Text) : List ConfSection :=
  (parts (wgEntries (fileLines content))).filter known

-- names in any case, no blanks around `=`, a comment behind the header
example : wgRead (unlines ["  [PEER] # home".toList, "publickey=K".toList, [], "#x".toList]) =
    [⟨"[peer]".toList, [("publickey".toList, ['K'])]⟩] := by decide +kernel

/-- Of several public keys in one section the last stays. -/
def publicKeyOf (x : ConfSection) : Option Text :=
  (x.settings.filter (·.1 = lower publicKeyWord)).getLast?.map Prod.snd

def IsPeer (key : WgKey) (x : ConfSection) : Prop :=
  x.header = lower peerMark ∧ publicKeyOf x = some key.text

instance (key : WgKey) : DecidablePred (IsPeer key) := fun x =>
  inferInstanceAs (Decidable (x.header = lower peerMark ∧ publicKeyOf x = some key.text))

/-! ## What the commands owe that reading -/

/-- Removing a key takes the sections of that peer and no others; adding it is rejected
while there is one. -/
structure HandledAsRead (content : Text) (key : WgKey) : Prop where
  removed : ∀ (env : Env) (s : State) (req : Request) (r : RemovePeer),
    readRemovePeer req = .ok r → r.publicKey = key → s.conf.lookup r.tunnel.text = some content →
      (execute env (cmdRemovePeer req) s).1 = .ok () →
        ∃ content', (execute env (cmdRemovePeer req) s).2.conf.lookup r.tunnel.text = some content' ∧
          wgRead content' = (wgRead content).filter (¬ IsPeer key ·)
  rejected : ∀ (env : Env) (s : State) (req : Request) (r : AddPeer),
    readAddPeer req = .ok r → r.publicKey = key → s.conf.lookup r.tunnel.text = some content →
      (∃ x ∈ wgRead content, IsPeer key x) →
        execute env (cmdAddPeer req) s = (.error (.helper (.invalid "peer already exists")), s)

/-- The sections `wg` reads in one piece of the text. -/
def wgPiece (piece : Text) : List ConfSection := (parts (wgEntries (filled piece))).filter known

/-- What stands before the first line that begins with `[Peer]` has no section of the
key; a block cut there has sections of the key alone when it holds `PublicKey = …`
letter by letter, and none when it does not. -/
structure SpelledOut (content : Text) (key : WgKey) : Prop where
  header : ∀ x ∈ wgPiece (sections content).1, ¬ IsPeer key x
  blocks : ∀ b ∈ (sections content).2, ∀ x ∈ wgPiece b, IsPeer key x ↔ mentions key b = true

instance (content : Text) (key : WgKey) : Decidable (SpelledOut content key) :=
  decidable_of_iff ((∀ x ∈ wgPiece (sections content).1, ¬ IsPeer key x) ∧
      ∀ b ∈ (sections content).2, ∀ x ∈ wgPiece b, IsPeer key x ↔ mentions key b = true)
    ⟨fun h => ⟨h.1, h.2⟩, fun h => ⟨h.header, h.blocks⟩⟩

/-! ## Blank lines and marks -/

variable {content : Text} {key : WgKey}

theorem wgEntries_append (ls ms : List Text) : wgEntries (ls ++ ms) = wgEntries ls ++ wgEntries ms :=
  List.filterMap_append

theorem wgEntries_filled (t : Text) : wgEntries (t.splitOn '\n') = wgEntries (filled t) := by
  unfold wgEntries filled
  rw [List.filterMap_filter]
  apply List.filterMap_congr
  intro l _
  by_cases h : l = []
  · subst h
    rfl
  · simp [h]

theorem rdropWhile_append_cons {p : Char → Bool} {c : Char} (h : p c = false) (a t : Text) :
    (a ++ c :: t).rdropWhile p = a ++ c :: t.rdropWhile p := by
  induction t using List.reverseRecOn with
  | nil => rw [List.rdropWhile_concat_neg _ _ _ (by simp [h]), List.rdropWhile_nil]
  | append_singleton t d ih =>
    rw [← List.cons_append, ← List.append_assoc]
    by_cases hd : p d = true
    · rw [List.rdropWhile_concat_pos _ _ _ hd, List.rdropWhile_concat_pos _ _ _ hd, ih]
    · rw [List.rdropWhile_concat_neg _ _ _ hd, List.rdropWhile_concat_neg _ _ _ hd,
        List.append_assoc, List.cons_append]

theorem wgLine_of_mark {l : Text} (h : peerMark <+: l) : ∃ name, wgLine l = some (.header name) := by
  obtain ⟨t, rfl⟩ := h
  have hu : uncomment (peerMark ++ t) = '[' :: uncomment (peerMark.tail ++ t) := by
    simp [uncomment, peerMark]
  have htrim : trim (uncomment (peerMark ++ t)) =
      '[' :: (uncomment (peerMark.tail ++ t)).rdropWhile isBlank := by
    rw [trim, hu, List.dropWhile_cons, if_neg (by decide)]
    exact rdropWhile_append_cons (by decide) [] _
  exact ⟨lower ('[' :: (uncomment (peerMark.tail ++ t)).rdropWhile isBlank), by simp [wgLine, htrim]⟩

theorem filled_of_mark {b : Text} (h : peerMark <+: b) : ∃ l ls, filled b = l :: ls ∧ peerMark <+: l := by
  obtain ⟨t, rfl⟩ := h
  obtain ⟨l, ls, hl⟩ := List.exists_cons_of_ne_nil (List.splitOn_ne_nil '\n' t)
  refine ⟨peerMark ++ l, ls.filter (· ≠ []), ?_, List.prefix_append _ _⟩
  rw [filled, splitOn_append_first newline_not_mem_mark, hl]
  simp [peerMark]

theorem opens_block {b : Text} (h : peerMark <+: b) : Opens (wgEntries (filled b)) := by
  obtain ⟨l, ls, hb, hl⟩ := filled_of_mark h
  obtain ⟨name, hn⟩ := wgLine_of_mark hl
  exact ⟨name, wgEntries ls, by simp [hb, wgEntries, hn]⟩

/-! ## The reading of a cut text -/

theorem read_pieces {h : Text} {bs : List Text} (hb : ∀ b ∈ bs, peerMark <+: b) :
    (parts (wgEntries (filled h ++ bs.flatMap filled))).filter known =
      wgPiece h ++ bs.flatMap wgPiece := by
  have hentries : wgEntries (filled h ++ bs.flatMap filled) =
      wgEntries (filled h) ++ bs.flatMap fun b => wgEntries (filled b) := by
    simp only [wgEntries, List.filterMap_append, List.filterMap_flatMap]
  rw [hentries, parts_append_flatMap fun b hm => opens_block (hb b hm), List.filter_append,
    List.filter_flatMap]
  rfl

theorem wgRead_eq_pieces (content : Text) :
    wgRead content = wgPiece (sections content).1 ++ (sections content).2.flatMap wgPiece := by
  have hjoin := Blocks.splitBefore_join '\n' peerMark (universalNewlines content)
  have hfilled : filled (universalNewlines content) =
      filled (sections content).1 ++ (sections content).2.flatMap filled := by
    rw [← filled_sections]
    exact congrArg filled hjoin.symm
  rw [wgRead, fileLines, wgEntries_filled, hfilled]
  exact read_pieces fun b hb => ((cut_sections content).blocks b hb).1

theorem wgRead_withoutPeer (key : WgKey) (content : Text) :
    wgRead (withoutPeer key content) = wgPiece (sections content).1 ++
      ((sections content).2.filter fun b => !mentions key b).flatMap wgPiece := by
  have hcut := cut_sections content
  have hmem : ∀ b ∈ (sections content).2.filter fun b => !mentions key b, b ∈ (sections content).2 :=
    fun b hb => (List.mem_filter.mp hb).1
  have hcr : '\r' ∉ withoutPeer key content :=
    not_mem_rebuildConf hcut.noCr.1 fun b hb => hcut.noCr.2 b (hmem b hb)
  rw [wgRead, fileLines, universalNewlines_of_not_mem hcr, wgEntries_filled, withoutPeer,
    filled_rebuildConf]
  exact read_pieces fun b hb => (hcut.blocks b (hmem b hb)).1

/-- The text that is written reads as asked for exactly when the key is spelled out. -/
theorem wgRead_withoutPeer_iff :
    wgRead (withoutPeer key content) = (wgRead content).filter (¬ IsPeer key ·) ↔
      SpelledOut content key := by
  rw [wgRead_withoutPeer, wgRead_eq_pieces, List.append_flatMap_filter_iff]
  constructor
  · rintro ⟨hheader, hblocks⟩
    refine ⟨fun x hx => by simpa using hheader x hx, fun b hb x hx => ?_⟩
    have := hblocks b hb x hx
    by_cases hp : IsPeer key x <;> cases hm : mentions key b <;> simp_all
  · intro h
    refine ⟨fun x hx => by simpa using h.header x hx, fun b hb x hx => ?_⟩
    have hiff := h.blocks b hb x hx
    cases hm : mentions key b <;> simp [hm, hiff]

theorem SpelledOut.hasPeer (h : SpelledOut content key) (hx : ∃ x ∈ wgRead content, IsPeer key x) :
    Helper.hasPeer key content = true := by
  obtain ⟨x, hx, hp⟩ := hx
  rw [wgRead_eq_pieces, List.mem_append, List.mem_flatMap] at hx
  rcases hx with hx | ⟨b, hb, hx⟩
  · exact absurd hp (h.header x hx)
  · exact List.any_eq_true.mpr ⟨b, hb, (h.blocks b hb x hx).mp hp⟩

/-! ## The section of an added peer -/

theorem contentLines_append {a b : Text} (h : '\r' ∉ a) :
    contentLines (a ++ '\n' :: b) = contentLines a ++ contentLines b := by
  rw [contentLines, fileLines_append fun hl => h (List.mem_of_getLast? hl), List.filter_append]
  rfl

theorem wgRead_eq_filled (content : Text) :
    wgRead content = (parts (wgEntries (contentLines content))).filter known := by
  rw [wgRead, fileLines, wgEntries_filled]
  rfl

theorem wgRead_withPeer (r : AddPeer) (content : Text) :
    wgRead (withPeer r content) = wgRead content ++ wgRead (peerText r) := by
  have hopens : Opens (wgEntries (contentLines (peerText r))) := by
    obtain ⟨header, hn⟩ := wgLine_of_mark (List.prefix_refl peerMark)
    rw [contentLines, fileLines_peerText, List.filter_cons_of_pos (by decide)]
    exact ⟨header, _, by simp only [wgEntries, List.filterMap_cons, hn]; rfl⟩
  have hlines : contentLines (withPeer r content) =
      contentLines content ++ contentLines (peerText r) := by
    rw [withPeer_eq, contentLines_append (cr_not_mem_tidy content), contentLines_tidy]
  rw [wgRead_eq_filled, hlines, wgEntries_append, parts_append (.inr hopens), List.filter_append,
    ← wgRead_eq_filled, ← wgRead_eq_filled]

/-- The section that a request asks for. -/
def AddPeer.asked (r : AddPeer) : ConfSection where
  header := lower peerMark
  settings := [(lower publicKeyWord, r.publicKey.text)] ++
    (r.presharedKey.map fun k => (lower presharedKeyWord, rstripNl k.text)).toList ++
    [(lower allowedIpsWord, r.allowedIps.str)] ++
    ((keepaliveText r.keepalive).map fun t => (lower keepaliveWord, t)).toList

/-- No newline follows the key, and no zone breaks the line of the networks or comments
the rest of it out. -/
def AddPeer.OnItsLines (r : AddPeer) : Prop :=
  '\n' ∉ r.publicKey.text ∧ OneLine r.allowedIps.str ∧ '#' ∉ r.allowedIps.str

instance (r : AddPeer) : Decidable r.OnItsLines :=
  inferInstanceAs (Decidable (_ ∧ (_ ∧ _) ∧ _))

theorem trim_rdropWhile (t : Text) : trim (t.rdropWhile isBlank) = trim t := by
  induction t using List.reverseRecOn with
  | nil => rfl
  | append_singleton t c ih =>
    by_cases hc : isBlank c = true
    · rw [List.rdropWhile_concat_pos _ _ _ hc, ih, trim, trim, List.dropWhile_append]
      cases t.dropWhile isBlank with
      | nil => simp [hc]
      | cons d ds =>
        rw [List.isEmpty_cons, if_neg Bool.false_ne_true, List.rdropWhile_concat_pos _ _ _ hc]
    · rw [List.rdropWhile_concat_neg _ _ _ hc]

/-- What `wg` takes from a setting line, a line that has a comment included. -/
theorem wgLine_setting {w : Text} (hw : w ∈ confWords) (v : Text) :
    wgLine (setting w v) = some (.setting (lower w, trim (uncomment v))) := by
  have hword : ∀ w ∈ confWords, '#' ∉ w ∧ '=' ∉ w ∧ trim (w ++ [' ']) = w ∧
      w.head?.any (fun c => !isBlank c && c != '[') = true := by decide
  obtain ⟨hhash, heq, htrim, hhead⟩ := hword w hw
  obtain ⟨c, hc, hblank⟩ := (Option.any_eq_true _ _).mp hhead
  obtain ⟨cs, rfl⟩ := List.head?_eq_some_iff.mp hc
  rw [Bool.and_eq_true, Bool.not_eq_true', bne_iff_ne] at hblank
  -- the blank before the sign is the word's own, the blank after it the value's
  have hline : trim (uncomment (setting (c :: cs) v)) =
      (c :: cs ++ [' ']) ++ '=' :: (' ' :: uncomment v).rdropWhile isBlank := by
    have hcut : uncomment (setting (c :: cs) v) = (c :: cs ++ [' ']) ++ '=' :: ' ' :: uncomment v := by
      rw [uncomment, setting, List.takeWhile_append_of_pos fun d hd =>
        decide_eq_true (ne_of_mem_of_not_mem hd hhash)]
      simp [equals, uncomment]
    rw [trim, hcut, List.cons_append, List.cons_append, List.dropWhile_cons, if_neg (by simp [hblank.1]),
      ← List.cons_append, ← List.cons_append, rdropWhile_append_cons (by decide)]
  have hname : ∀ d ∈ c :: cs ++ [' '], decide (d ≠ '=') = true := by
    intro d hd
    rcases List.mem_append.mp hd with hd | hd
    · exact decide_eq_true (ne_of_mem_of_not_mem hd heq)
    · rw [List.mem_singleton.mp hd]
      decide
  have hvalue : trim ((' ' :: uncomment v).rdropWhile isBlank) = trim (uncomment v) := by
    rw [trim_rdropWhile, trim, List.dropWhile_cons, if_pos (by decide), ← trim]
  simp only [wgLine, hline]
  rw [if_neg (by simp), if_neg (by simpa using hblank.2), List.takeWhile_append_of_pos hname,
    List.dropWhile_append_of_pos hname, List.takeWhile_cons_of_neg (by decide), List.append_nil, htrim,
    List.dropWhile_cons_of_neg (by decide), List.drop_one, List.tail_cons, hvalue]

theorem isSpace_of_isBlank {c : Char} (h : isBlank c = true) : isSpace c = true := by
  simp only [isBlank, Bool.or_eq_true, Bool.and_eq_true, beq_iff_eq, decide_eq_true_eq] at h
  rcases h with rfl | h
  · decide
  · simp only [isSpace, Bool.or_eq_true, Bool.and_eq_true, decide_eq_true_eq, beq_iff_eq]
    omega

theorem trim_eq_self {c z : Char} {t cs ds : Text} (hc : t = c :: cs) (hz : t = ds ++ [z])
    (hcs : isSpace c = false) (hzs : isSpace z = false) : trim t = t := by
  have hblank : ∀ d, isSpace d = false → ¬ isBlank d = true := fun d hd h =>
    Bool.false_ne_true (hd.symm.trans (isSpace_of_isBlank h))
  rw [trim, hc, List.dropWhile_cons, if_neg (hblank c hcs), ← hc, hz,
    List.rdropWhile_concat_neg _ _ _ (hblank z hzs)]

theorem uncomment_eq_self {t : Text} (h : '#' ∉ t) : uncomment t = t := by
  rw [uncomment, List.takeWhile_eq_self_iff]
  exact fun c hc => decide_eq_true (ne_of_mem_of_not_mem hc h)

theorem read_plain {t : Text} (h : Plain t) (hne : t ≠ []) : trim (uncomment t) = t := by
  obtain ⟨c, cs, hc, hcs⟩ := (h.isValue hne).head
  obtain ⟨ds, z, hz, hzs⟩ := (h.isValue hne).last
  rw [uncomment_eq_self fun hm => (h _ hm).2.2 rfl, trim_eq_self hc hz hcs hzs]

/-- A network begins with a digit, or with the sign of its zone, and ends with its prefix. -/
theorem trim_allowedIps (a : AllowedIps) : trim a.str = a.str := by
  have hhead : ∃ c cs, a.str = c :: cs ∧ isSpace c = false := by
    obtain ⟨n, ns, hns⟩ := List.exists_cons_of_ne_nil a.ne
    obtain ⟨c, cs, hc, hcs⟩ : ∃ c cs, n.str = c :: cs ∧ isSpace c = false := by
      obtain ⟨d, p, hn, hd⟩ := n.written.eq
      rw [hn]
      cases d with
      | cons c cs => exact ⟨c, _, rfl, (addressChars_plain c (hd c List.mem_cons_self)).1⟩
      | nil =>
        cases n.scope with
        | none => exact ⟨'/', _, rfl, by decide⟩
        | some scope => exact ⟨'%', _, rfl, by decide⟩
    refine ⟨c, ?_, ?_, hcs⟩
    · exact cs ++ (a.str.drop n.str.length)
    · rw [AllowedIps.str, hns, List.map_cons]
      cases ns with
      | nil => simp [hc]
      | cons m ms => simp [List.map_cons, List.intercalate_cons_cons, hc]
  obtain ⟨c, cs, hc, hcs⟩ := hhead
  obtain ⟨x, p, hx⟩ := joinNetworks_tail a.ne
  obtain ⟨ds, z, hz, hzs⟩ := ((decimal_plain p).isValue Nat.toDigits_ne_nil).last
  have hlast : a.str = (x ++ '/' :: ds) ++ [z] := by
    change joinNetworks a.nets = _
    rw [hx, hz, List.append_assoc, List.cons_append]
  exact trim_eq_self hc hlast hcs hzs

/-- The newline that may follow a key is a line of its own, which says nothing. -/
theorem wgEntries_key {w : Text} (hw : w ∈ confWords) (hl : OneLine w) (k : WgKey) :
    wgEntries (fileLines (setting w k.text)) = [.setting (lower w, rstripNl k.text)] := by
  have hfull : ∀ k', FullKey k' → rstripNl k' = k' ∧
      wgEntries [setting w k'] = [.setting (lower w, k')] := by
    intro k' hk
    obtain ⟨ds, z, hz, hzs⟩ := hk.isValue.last
    have hne : k' ≠ [] := by rw [hz]; simp
    refine ⟨?_, ?_⟩
    · rw [hz, rstripNl_append]
      rintro rfl
      exact absurd hzs (by decide)
    · rw [wgEntries, List.filterMap_cons, wgLine_setting hw, read_plain hk.plain hne]
      rfl
  rcases wgKeyPattern_iff.mp k.ok with h | ⟨k', h, hk⟩
  · rw [fileLines_of_oneLine ((oneLine_setting hl).mpr h.oneLine), (hfull _ h).1, (hfull _ h).2]
  · have ho : OneLine (setting w k') := (oneLine_setting hl).mpr h.oneLine
    have hs : setting w k.text = setting w k' ++ '\n' :: [] := by simp [setting, hk]
    rw [hs, fileLines_append fun hl => ho.2 (List.mem_of_getLast? hl), wgEntries_append,
      fileLines_of_oneLine ho, (hfull _ h).2, hk, rstripNl_newline, (hfull _ h).1]
    rfl

theorem wgEntries_psk (k : Option WgKey) : wgEntries ((pskLines k).flatMap fileLines) =
    (k.map fun k => (lower presharedKeyWord, rstripNl k.text)).toList.map .setting := by
  cases k with
  | none => rfl
  | some k =>
    have hkey := wgEntries_key mem_presharedKey (words_oneLine _ (by simp)) k
    simpa [pskLines] using hkey

theorem wgEntries_keepalive (k : Option Keepalive) : wgEntries (keepaliveLines k) =
    ((keepaliveText k).map fun t => (lower keepaliveWord, t)).toList.map .setting := by
  have hline : ∀ t, Plain t → t ≠ [] →
      wgEntries [setting keepaliveWord t] = [.setting (lower keepaliveWord, t)] := by
    intro t ht hne
    rw [wgEntries, List.filterMap_cons, wgLine_setting mem_keepalive, read_plain ht hne]
    rfl
  rw [keepaliveLines]
  rcases keepaliveText_cases k with ⟨⟨n, -, hn⟩, -⟩ | ⟨hn, -⟩ | ⟨hn, -⟩
  · simpa [hn] using hline _ (decimal_plain n) Nat.toDigits_ne_nil
  · simp [hn, wgEntries]
  · simpa [hn] using hline trueWord (plain_iff_countP.mpr rfl) (by decide)

/-- Of the networks that are written, the setting has those on the first line. -/
theorem wgEntries_peerText (r : AddPeer) {l : Text} {ls : List Text}
    (hl : fileLines r.allowedIps.str = l :: ls) :
    wgEntries (fileLines (peerText r)) = .header (lower peerMark) ::
      (([(lower publicKeyWord, rstripNl r.publicKey.text)] ++
        (r.presharedKey.map fun k => (lower presharedKeyWord, rstripNl k.text)).toList ++
        [(lower allowedIpsWord, trim (uncomment l))]).map .setting ++
      (wgEntries ls ++
        ((keepaliveText r.keepalive).map fun t => (lower keepaliveWord, t)).toList.map .setting)) := by
  have hips : fileLines (setting allowedIpsWord (joinNetworks r.allowedIps.nets)) =
      setting allowedIpsWord l :: ls := by
    have hword : OneLine (allowedIpsWord ++ equals) := by unfold OneLine; decide
    change fileLines (setting allowedIpsWord r.allowedIps.str) = _
    rw [fileLines] at hl
    rw [setting, ← List.append_assoc, fileLines, universalNewlines_append fun hc =>
      absurd (List.mem_of_getLast? hc) hword.2, universalNewlines_of_not_mem hword.2,
      splitOn_append_first hword.1, hl]
    simp [setting]
  have hmark : wgEntries [peerMark] = [.header (lower peerMark)] := rfl
  have hend : wgEntries [[]] = [] := rfl
  rw [fileLines_peerText, hips, ← List.singleton_append]
  simp only [wgEntries_append, hmark, wgEntries_key mem_publicKey (words_oneLine _ (by simp)),
    wgEntries_psk, wgEntries_keepalive, hend]
  have hfirst : wgEntries (setting allowedIpsWord l :: ls) =
      .setting (lower allowedIpsWord, trim (uncomment l)) :: wgEntries ls := by
    rw [wgEntries, List.filterMap_cons, wgLine_setting mem_allowedIps]
    rfl
  rw [hfirst]
  simp

theorem rstripNl_key_iff (k : WgKey) : rstripNl k.text = k.text ↔ '\n' ∉ k.text := by
  rcases wgKeyPattern_iff.mp k.ok with h | ⟨k', h, hk⟩
  · obtain ⟨body, last, hb, -⟩ := h.parts
    have hstrip : rstripNl k.text = k.text := by
      rw [hb, List.append_cons, rstripNl_append (by decide)]
    exact iff_of_true hstrip h.oneLine.1
  · refine iff_of_false (fun hs => ?_) (by simp [hk])
    have hlast : rstripNl k.text = rstripNl k' := by rw [hk, rstripNl_newline]
    have hlen := congrArg List.length (hlast.symm.trans hs)
    have hle := (List.rdropWhile_prefix (· == '\n') k').length_le
    rw [hk, List.length_append, List.length_singleton] at hlen
    exact absurd hle (by rw [← rstripNl]; omega)

/-- A peer is read as it was asked for just when its values stay on their lines. -/
theorem wgRead_peerText_iff (r : AddPeer) : wgRead (peerText r) = [r.asked] ↔ r.OnItsLines := by
  obtain ⟨l, ls, hl⟩ := List.exists_cons_of_ne_nil (fileLines_ne_nil r.allowedIps.str)
  have hknown : ∀ ss, known ⟨lower peerMark, ss⟩ = true := fun _ => by simp [known]
  rw [wgRead, wgEntries_peerText r hl, parts, fragment, fragment_settings, List.filter_cons_of_pos (hknown _)]
  constructor
  · intro h
    have hhead := congrArg Part.settings (List.cons_eq_cons.mp h).1
    simp only [AddPeer.asked, List.append_assoc, List.cons_append, List.nil_append, List.cons.injEq,
      Prod.mk.injEq, true_and, List.append_cancel_left_eq] at hhead
    obtain ⟨hkey, hips, -⟩ := hhead
    -- what was read of the networks is one line, and no comment
    have hmem : ∀ c ∈ r.allowedIps.str, c ∈ l ∧ c ≠ '#' := by
      intro c hc
      have hu : c ∈ uncomment l := by
        rw [← hips] at hc
        exact (List.dropWhile_sublist _).subset ((List.rdropWhile_prefix _ _).subset hc)
      rw [uncomment] at hu
      exact ⟨(List.takeWhile_prefix _).subset hu, by simpa using List.mem_takeWhile_imp hu⟩
    have hline : OneLine l := by
      have hmem : l ∈ fileLines r.allowedIps.str := hl ▸ List.mem_cons_self
      obtain ⟨hn, a, b, htext, -⟩ := mem_splitOn_iff.mp hmem
      exact ⟨hn, fun hc => not_mem_universalNewlines r.allowedIps.str (by simp [htext, hc])⟩
    exact ⟨(rstripNl_key_iff _).mp hkey, ⟨fun hc => hline.1 (hmem _ hc).1, fun hc => hline.2 (hmem _ hc).1⟩,
      fun hc => (hmem _ hc).2 rfl⟩
  · rintro ⟨hkey, hone, hhash⟩
    rw [fileLines_of_oneLine hone, List.cons_eq_cons] at hl
    obtain ⟨rfl, rfl⟩ := hl
    have hrest := fragment_settings (η := Text)
      ((keepaliveText r.keepalive).map fun t => (lower keepaliveWord, t)).toList []
    rw [List.append_nil] at hrest
    simp only [wgEntries, List.filterMap_nil, List.nil_append]
    rw [hrest, (rstripNl_key_iff _).mpr hkey, uncomment_eq_self hhash, trim_allowedIps]
    simp [fragment, AddPeer.asked]

/-! ## A run on every text and key -/

/-- A machine with one conf text and no interface up. -/
def storing (content : Text) : State := { emptyState with conf := emptyState.conf.set "wg0" content }

theorem execute_removeRequest (content : Text) (key : WgKey) :
    (execute quietEnv (cmdRemovePeer (removeRequest key)) (storing content)).1 = .ok () ∧
      (execute quietEnv (cmdRemovePeer (removeRequest key)) (storing content)).2.conf.lookup "wg0" =
        some (withoutPeer key content) := by
  have hl : (storing content).conf.lookup "wg0" = some content := ConfDir.lookup_set_self ..
  constructor
  · rw [execute_cmdRemovePeer, readRemovePeer_removeRequest]
    simp only [sampleName, hl]
    rfl
  · rw [conf_after_removePeer (readRemovePeer_removeRequest key) hl]
    exact ConfDir.lookup_set_self ..

theorem HandledAsRead.withoutPeer (h : HandledAsRead content key) :
    wgRead (withoutPeer key content) = (wgRead content).filter (¬ IsPeer key ·) := by
  obtain ⟨hok, hconf⟩ := execute_removeRequest content key
  obtain ⟨content', hl, hread⟩ := h.removed quietEnv (storing content) (removeRequest key) _
    (readRemovePeer_removeRequest key) rfl (ConfDir.lookup_set_self ..) hok
  obtain rfl : Helper.withoutPeer key content = content' := Option.some.inj (hconf.symm.trans hl)
  exact hread

/-- Removing and adding follow the reading of `wg` exactly on the texts that spell the
key out as the helper writes it, block by block. -/
theorem handled_as_read_iff (content : Text) (key : WgKey) :
    HandledAsRead content key ↔ SpelledOut content key := by
  constructor
  · intro h
    exact wgRead_withoutPeer_iff.mp h.withoutPeer
  · intro h
    constructor
    · rintro env s req r hr rfl hc -
      refine ⟨withoutPeer r.publicKey content, ?_, wgRead_withoutPeer_iff.mpr h⟩
      rw [conf_after_removePeer hr hc]
      exact ConfDir.lookup_set_self ..
    · rintro env s req r hr rfl hc hx
      rw [execute_cmdAddPeer, hr]
      simp only [hc, h.hasPeer hx, if_true]

/-- A peer written by hand, without blanks around `=`. -/
def handWritten : Text :=
  unlines [interfaceMark, [], peerMark, publicKeyWord ++ '=' :: sampleKey]

/-- That peer is still there after it was removed. -/
theorem hand_written_peer_stays : ¬ HandledAsRead handWritten sampleWgKey := by
  intro h
  have hread : wgRead (withoutPeer sampleWgKey handWritten) ≠
      (wgRead handWritten).filter (¬ IsPeer sampleWgKey ·) := by decide +kernel
  exact hread h.withoutPeer

end Helper
