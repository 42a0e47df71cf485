import PiVpn.App.Consistency
import PiVpn.Helper.Connection
import PiVpn.Lib.Rows

/-! A call of the helper down to the lines on the socket: both sides read one line with
the limit of the stream reader, and print and parse JSON. -/

namespace App
open Text Ipaddress Effect Helper

/-- The limit of a stream reader that is given none. -/
def readerLimit : Nat := 65536

/-- `readline`: it raises where the newline is farther than the limit. -/
def readline (line : Text) : Option Text :=
  if (line.takeWhile (· ≠ '\n')).length ≤ readerLimit then some line else none

def requestLine (req : Request) : Text := Json.dumps (.obj req) ++ ['\n']

/-- A printed line is ASCII. -/
def encode (t : Text) : List UInt8 := t.map fun c => UInt8.ofNat c.toNat

/-- `x or {}`. -/
def orEmpty (x : Json) : Json := if Json.truthy x then x else .obj []

section transport
variable (float : Text → String) (env : AppEnv)

/-- The lines the helper writes for the line it is sent. -/
def helperLines (line : Text) (s : State) : List Text :=
  match readline line with
  | none => []
  | some line => written (asciiLoads float) env.helper env.repr (some env.uid) env.uid (encode line) s

/-- What `_call` makes of the lines it could read. -/
def receive : List Text → Except Failure Json
  | [] => .error (.http 502 "WireGuard operation failed")
  | line :: _ =>
    match readline line with
    | none => .error (.unhandled "Separator is found, but chunk is longer than limit")
    | some line =>
      match Json.loads float line with
      | none => .error (.http 502 "WireGuard operation failed")
      | some (.obj response) =>
        if Json.truthy (Json.get response "ok") then .ok (orEmpty (Json.get response "result"))
        else .error (.http 502 "WireGuard operation failed")
      | some _ => .error (.unhandled "object has no attribute 'get'")

/-- One call, from the request to the dictionary it returns. -/
def callOverSocket (req : Request) (s : State) : Except Failure Json :=
  receive float (helperLines float env (requestLine req) s)

end transport

/-! ## Lines within the limit -/

theorem takeWhile_line {t : Text} (h : '\n' ∉ t) : (t ++ ['\n']).takeWhile (· ≠ '\n') = t := by
  have hall : ∀ c ∈ t, decide (c ≠ '\n') = true := fun c hc =>
    decide_eq_true fun hn => h (hn ▸ hc)
  rw [List.takeWhile_append_of_pos hall]
  simp

theorem readline_eq {t : Text} (h : '\n' ∉ t) :
    readline (t ++ ['\n']) = if t.length ≤ readerLimit then some (t ++ ['\n']) else none := by
  rw [readline, takeWhile_line h]

theorem receive_fits (float : Text → String) {r : Response}
    (h : (Json.dumps r.json).length ≤ readerLimit) :
    receive float [responseLine r] =
      match r with
      | .ok result => .ok (orEmpty result.json)
      | .error _ => .error (.http 502 "WireGuard operation failed") := by
  have hline := (Json.printable_dumps _ r.plain_json).newline
  have hloads := Json.loads_dumps float r.plain_json
  unfold receive responseLine
  simp only [readline_eq hline, if_pos h, hloads]
  cases r <;> rfl

theorem receive_too_long (float : Text → String) {r : Response}
    (h : ¬ (Json.dumps r.json).length ≤ readerLimit) :
    receive float [responseLine r] =
      .error (.unhandled "Separator is found, but chunk is longer than limit") := by
  have hline := (Json.printable_dumps _ r.plain_json).newline
  unfold receive responseLine
  simp only [readline_eq hline, if_neg h]

theorem encode_ascii {t : Text} (h : ∀ c ∈ t, c.toNat < 128) :
    (encode t).all (· < 128) = true ∧ (encode t).map (fun b => Char.ofNat b.toNat) = t := by
  have hnat : ∀ c ∈ t, (UInt8.ofNat c.toNat).toNat = c.toNat := fun c hc => by
    have := h c hc
    rw [UInt8.toNat_ofNat']
    omega
  constructor
  · rw [encode, List.all_map, List.all_eq_true]
    intro c hc
    have := h c hc
    simp only [Function.comp, decide_eq_true_eq, UInt8.lt_iff_toNat_lt, hnat c hc]
    exact this
  · rw [encode, List.map_map]
    refine (List.map_congr_left fun c hc => ?_).trans t.map_id
    simp only [Function.comp, hnat c hc, Char.ofNat_toNat, id]

theorem asciiLoads_request (float : Text → String) {req : Request} (h : Json.Plain (.obj req)) :
    asciiLoads float (encode (requestLine req)) = .value (.obj req) := by
  have hascii : ∀ c ∈ requestLine req, c.toNat < 128 := fun c hc => by
    rcases List.mem_append.mp hc with hc | hc
    · have := (Json.printable_dumps _ h c hc).2
      omega
    · rw [List.mem_singleton.mp hc]
      decide
  obtain ⟨hall, hmap⟩ := encode_ascii hascii
  unfold asciiLoads
  rw [if_pos hall, hmap, requestLine, Json.loads_dumps float h]

/-- A request within the limit is served, and its one response comes back. -/
theorem callOverSocket_eq (float : Text → String) (env : AppEnv) {req : Request} {cmd : String}
    {f : Request → Cmd Result} {s s' : State} {result : Result} (hplain : Json.Plain (.obj req))
    (hfits : (Json.dumps (.obj req)).length ≤ readerLimit) (hcmd : Json.get req "cmd" = .str cmd)
    (hf : dispatch cmd = some f) (hrun : execute env.helper (f req) s = (.ok result, s')) :
    callOverSocket float env req s = receive float [responseLine (.ok result)] := by
  have hline := (Json.printable_dumps _ hplain).newline
  have hload := asciiLoads_request float hplain
  have hne : encode (requestLine req) ≠ [] := by simp [encode, requestLine]
  have hserved : execute env.helper
      (handleClient env.repr (some env.uid) env.uid (.json (.obj req))) s =
        (.ok (some (.ok result)), s') := by
    have hattempt : execute env.helper (f req).attempt s = (.ok (.ok result), s') := by
      rw [execute, Prog.exec_attempt, ← execute, hrun]
    unfold handleClient
    simp only [ne_eq, not_true_eq_false, if_false, hcmd, hf]
    rw [execute_bind, reply, execute_bind, hattempt]
    rfl
  unfold callOverSocket helperLines
  rw [requestLine, readline_eq hline, if_pos hfits, ← requestLine]
  unfold written readLine
  simp only [if_neg hne, hload, Loaded.line, hserved]

theorem length_escape_le (c : Char) : (Json.escape c).length ≤ 12 := by
  unfold Json.escape
  split_ifs <;> simp [Json.unicodeEscape, Json.hex4]

theorem length_quoted_le (t : String) : (Json.quoted t).length ≤ 12 * t.toList.length + 2 := by
  have hflat : ∀ t : Text, (t.flatMap Json.escape).length ≤ 12 * t.length := by
    intro t
    induction t with
    | nil => simp
    | cons c t ih =>
      have := length_escape_le c
      rw [List.flatMap_cons]
      simp only [List.length_append, List.length_cons]
      omega
  have := hflat t.toList
  simp only [Json.quoted, List.length_cons, List.length_append, List.length_nil]
  omega

theorem statusRequest_fits {name : Option String} {env : Env} {s s' : State}
    {ts : List TunnelStatus}
    (h : execute env (cmdTunnelStatus (tunnelStatusRequest name)) s = (.ok ts, s')) :
    (Json.dumps (.obj (tunnelStatusRequest name))).length ≤ readerLimit := by
  cases name with
  | none => decide
  | some n =>
    have hname : n.toList.length ≤ 16 := by
      obtain ⟨only, honly, -⟩ := status_entries h
      obtain ⟨v, -, rfl⟩ := nullable_name honly
      exact v.length_le
    have hquoted := length_quoted_le n
    rw [tunnelStatusRequest]
    simp only [Option.map_some, Option.getD_some, Json.dumps, Json.dumpsFields, List.length_cons,
      List.length_append, List.length_nil]
    have hcmd : (Json.quoted "cmd").length + (Json.quoted "tunnel_status").length +
        (Json.quoted "name").length ≤ 26 := by decide
    unfold readerLimit
    omega

theorem status_call_eq (float : Text → String) {env : AppEnv} {name : Option String}
    {s s' : State} {ts : List TunnelStatus}
    (h : execute env.helper (cmdTunnelStatus (tunnelStatusRequest name)) s = (.ok ts, s')) :
    callOverSocket float env (tunnelStatusRequest name) s =
      receive float [responseLine (.ok (.tunnels ts))] := by
  have hplain : Json.Plain (.obj (tunnelStatusRequest name)) := by
    refine ⟨⟨trivial, ?_, trivial⟩, by simp [tunnelStatusRequest]⟩
    cases name <;> exact trivial
  have hrun : execute env.helper (do pure (.tunnels (← cmdTunnelStatus (tunnelStatusRequest name))))
      s = (.ok (Result.tunnels ts), s') := by
    rw [execute_bind, h]
    rfl
  exact callOverSocket_eq float env hplain (statusRequest_fits h) rfl rfl hrun

/-- A status call returns the dictionary of the helper exactly where its reply fits into
the limit of the reader. -/
theorem status_call_returns_iff (float : Text → String) (env : AppEnv) (name : Option String)
    (s s' : State) (ts : List TunnelStatus)
    (h : execute env.helper (cmdTunnelStatus (tunnelStatusRequest name)) s = (.ok ts, s')) :
    callOverSocket float env (tunnelStatusRequest name) s = .ok (Result.tunnels ts).json ↔
      (Json.dumps (Response.ok (.tunnels ts)).json).length ≤ readerLimit := by
  rw [status_call_eq float h]
  by_cases hfits : (Json.dumps (Response.ok (.tunnels ts)).json).length ≤ readerLimit
  · rw [receive_fits float hfits]
    exact iff_of_true rfl hfits
  · rw [receive_too_long float hfits]
    exact iff_of_false (by simp) hfits

/-- The tunnel is up with two peers, the second of which was never there. -/
def sampleStatusDump : Text :=
  sampleDump ++
    "wg0\t".toList ++ keyOf 'B' ++
      "\t(none)\t198.51.100.7:40312\t10.8.0.2/32\t1714000000\t1024\t2048\toff\n".toList ++
    "wg0\t".toList ++ keyOf 'C' ++ "\t(none)\t(none)\t10.8.0.3/32,fd00::3/128\t0\t0\t0\t25\n".toList

def sampleStatusEnv : AppEnv :=
  { sampleEnv with
    helper := fun tick c psk live =>
      if c = .wgShowAllDump then (.exited 0 sampleStatusDump [], live) else sampleHelper tick c psk live }

def sampleStatus : TunnelStatus :=
  ⟨"wg0", false, some "51820".toList, some (keyOf 'S'),
    [⟨keyOf 'B', some "198.51.100.7:40312".toList, "10.8.0.2/32".toList, 1714000000, 1024, 2048⟩,
      ⟨keyOf 'C', none, "10.8.0.3/32,fd00::3/128".toList, 0, 0, 0⟩],
    ⟨.server, some (IPInterface.v4 serverAddress).str, none, []⟩⟩

theorem sample_status_returns :
    ∃ s', execute sampleStatusEnv.helper (cmdTunnelStatus (tunnelStatusRequest (some "wg0")))
        sampleWorld.helper = (.ok [sampleStatus], s') ∧
      callOverSocket (fun _ => "") sampleStatusEnv (tunnelStatusRequest (some "wg0")) sampleWorld.helper =
        .ok (Result.tunnels [sampleStatus]).json := by
  have hstatus : ((execute sampleStatusEnv.helper (cmdTunnelStatus (tunnelStatusRequest (some "wg0")))
      sampleWorld.helper).1.toOption.map fun ts => decide (ts = [sampleStatus])) = some true := by
    decide +kernel
  have hfits : (Json.dumps (Response.ok (.tunnels [sampleStatus])).json).length ≤ readerLimit := by
    decide +kernel
  rcases h : execute sampleStatusEnv.helper (cmdTunnelStatus (tunnelStatusRequest (some "wg0")))
    sampleWorld.helper with ⟨_ | ts, s'⟩
  · rw [h] at hstatus
    cases hstatus
  · rw [h] at hstatus
    obtain rfl : ts = [sampleStatus] := of_decide_eq_true (Option.some.inj hstatus)
    exact ⟨s', rfl, (status_call_returns_iff _ sampleStatusEnv (some "wg0") _ s' _ h).mpr hfits⟩

/-! ## How a reply grows -/

theorem length_dumpsItems (xs : List Json) {n : Nat} (h : ∀ x ∈ xs, n ≤ (Json.dumps x).length) :
    n * xs.length ≤ (Json.dumpsItems xs).length := by
  induction xs with
  | nil => simp
  | cons x xs ih =>
    have hx := h x List.mem_cons_self
    have hxs := ih fun y hy => h y (List.mem_cons_of_mem x hy)
    simp only [Json.dumpsItems, List.length_cons, List.length_append, Nat.mul_add, Nat.mul_one]
    omega

theorem length_dumps_arr (xs : List Json) {n : Nat} (h : ∀ x ∈ xs, n ≤ (Json.dumps x).length) :
    n * xs.length ≤ (Json.dumps (.arr xs)).length := by
  cases xs with
  | nil => simp
  | cons x xs =>
    have hx := h x List.mem_cons_self
    have hxs := length_dumpsItems xs fun y hy => h y (List.mem_cons_of_mem x hy)
    simp only [Json.dumps, List.length_cons, List.length_append, Nat.mul_add, Nat.mul_one,
      List.length_nil]
    omega

/-- A peer takes at least a hundred characters, whatever its keys and counters. -/
theorem length_peerStatusJson (p : PeerStatus) : 100 ≤ (Json.dumps (peerStatusJson p)).length := by
  have hkeys : (Json.quoted "public_key").length = 12 ∧ (Json.quoted "endpoint").length = 10 ∧
      (Json.quoted "allowed_ips").length = 13 ∧ (Json.quoted "latest_handshake").length = 18 ∧
      (Json.quoted "rx_bytes").length = 10 ∧ (Json.quoted "tx_bytes").length = 10 := by decide
  have hkey := Json.length_quoted (String.ofList p.publicKey)
  have hips := Json.length_quoted (String.ofList p.allowedIps)
  have hendpoint : 0 < (Json.dumps (optionText p.endpoint)).length :=
    List.length_pos_iff.mpr (Json.dumps_ne_nil (plain_optionText _))
  simp only [peerStatusJson, jsonText, Json.dumps, Json.dumpsFields, List.length_cons,
    List.length_append, List.length_nil, hkeys]
  omega

theorem length_tunnelStatusJson (t : TunnelStatus) :
    100 * t.peers.length ≤ (Json.dumps (tunnelStatusJson t)).length := by
  have hpeers := length_dumps_arr (t.peers.map peerStatusJson) (n := 100) (by
    rw [List.forall_mem_map]
    exact fun p _ => length_peerStatusJson p)
  rw [List.length_map] at hpeers
  simp only [tunnelStatusJson, Json.dumps, Json.dumpsFields, List.length_cons, List.length_append]
  omega

theorem length_le_dumps_of_mem {xs : List Json} {x : Json} (h : x ∈ xs) :
    (Json.dumps x).length ≤ (Json.dumps (.arr xs)).length := by
  have hitems : ∀ ys : List Json, x ∈ ys → (Json.dumps x).length ≤ (Json.dumpsItems ys).length := by
    intro ys hy
    induction ys with
    | nil => cases hy
    | cons y ys ih =>
      simp only [Json.dumpsItems, List.length_cons, List.length_append]
      rcases List.mem_cons.mp hy with rfl | hy
      · omega
      · have := ih hy
        omega
  cases xs with
  | nil => cases h
  | cons y ys =>
    simp only [Json.dumps, List.length_cons, List.length_append, List.length_nil]
    rcases List.mem_cons.mp h with rfl | h
    · omega
    · have := hitems ys h
      omega

/-- From 656 live peers of one tunnel on, no status call returns. -/
theorem crowded_status_too_long {ts : List TunnelStatus} {t : TunnelStatus} (ht : t ∈ ts)
    (h : 656 ≤ t.peers.length) :
    ¬ (Json.dumps (Response.ok (.tunnels ts)).json).length ≤ readerLimit := by
  have htunnel := length_tunnelStatusJson t
  have hmem := length_le_dumps_of_mem (List.mem_map_of_mem (f := tunnelStatusJson) ht)
  simp only [Response.json, Result.json, Json.dumps, Json.dumpsFields, List.length_cons,
    List.length_append]
  unfold readerLimit
  omega

/-! ## A crowded tunnel -/

def dumpLine (cols : List Text) : Text := ['\t'].intercalate cols

/-- A printable character breaks neither the row nor the line. -/
theorem printable_clean {t : Text} (h : Json.Printable t) : Rows.Clean t := by
  constructor
  · intro hmem
    exact absurd (h _ hmem).1 (by decide)
  · intro c hc
    have := h c hc
    simp only [isLineBreak, Bool.or_eq_false_iff, Bool.and_eq_false_imp, decide_eq_true_eq,
      decide_eq_false_iff_not, beq_eq_false_iff_ne]
    omega

theorem dumpLine_lineBreak {cols : List Text} (h : ∀ t ∈ cols, Json.Printable t) :
    ∀ c ∈ dumpLine cols, isLineBreak c = false :=
  Rows.lineBreak_line fun t ht => printable_clean (h t ht)

theorem splitOn_dumpLine {cols : List Text} (h : ∀ t ∈ cols, Json.Printable t) (hne : cols ≠ []) :
    (dumpLine cols).splitOn '\t' = cols :=
  Rows.splitOn_line (fun t ht => printable_clean (h t ht)) hne

def wg0 : Text := ['w', 'g', '0']

/-- The key of the `i`-th peer, padded to its length. -/
def crowdedKey (i : Nat) : Text := List.replicate (43 - (decimal i).length) 'A' ++ (decimal i ++ ['='])

def crowdedAddress (i : Nat) : Text :=
  ['1', '0', '.', '8', '.'] ++ (decimal (i / 250) ++ ('.' :: (decimal (i % 250 + 2) ++ ['/', '3', '2'])))

def crowdedPeer (i : Nat) : List Text :=
  [wg0, crowdedKey i, noneWord, noneWord, crowdedAddress i, ['0'], ['0'], ['0'], ['o', 'f', 'f']]

theorem crowdedPeer_printable (i : Nat) : ∀ t ∈ crowdedPeer i, Json.Printable t := by
  have hpad : Json.Printable (List.replicate (43 - (decimal i).length) 'A') := fun c hc => by
    rw [(List.mem_replicate.mp hc).2]
    decide
  have hkey : Json.Printable (crowdedKey i) := Json.printable_append.mpr ⟨hpad,
    Json.printable_append.mpr ⟨Json.printable_decimal i, Json.printable_of_all rfl⟩⟩
  have haddress : Json.Printable (crowdedAddress i) := by
    refine Json.printable_append.mpr ⟨Json.printable_of_all rfl, Json.printable_append.mpr
      ⟨Json.printable_decimal _, Json.printable_cons.mpr ⟨by decide, Json.printable_append.mpr
        ⟨Json.printable_decimal _, Json.printable_of_all rfl⟩⟩⟩⟩
  intro t ht
  simp only [crowdedPeer, List.mem_cons, List.not_mem_nil, or_false] at ht
  rcases ht with rfl | rfl | rfl | rfl | rfl | rfl | rfl | rfl | rfl
  · exact Json.printable_of_all rfl
  · exact hkey
  · exact Json.printable_of_all rfl
  · exact Json.printable_of_all rfl
  · exact haddress
  · exact Json.printable_of_all rfl
  · exact Json.printable_of_all rfl
  · exact Json.printable_of_all rfl
  · exact Json.printable_of_all rfl

theorem readDumpLine_crowdedPeer (entry : LiveStatus) (i : Nat) :
    ∃ p, readDumpLine [(wg0, entry)] (dumpLine (crowdedPeer i)) =
      [(wg0, { entry with peers := entry.peers ++ [p] })] := by
  unfold readDumpLine
  simp only [splitOn_dumpLine (crowdedPeer_printable i) (by simp [crowdedPeer])]
  exact ⟨_, by simp [crowdedPeer, wg0]; rfl⟩

theorem foldl_crowdedPeers (is : List Nat) (entry : LiveStatus) :
    ∃ ps : List PeerStatus, ps.length = is.length ∧
      (is.map fun i => dumpLine (crowdedPeer i)).foldl readDumpLine [(wg0, entry)] =
        [(wg0, { entry with peers := entry.peers ++ ps })] := by
  induction is generalizing entry with
  | nil => exact ⟨[], rfl, by simp⟩
  | cons i is ih =>
    obtain ⟨p, hp⟩ := readDumpLine_crowdedPeer entry i
    obtain ⟨ps, hlen, hps⟩ := ih { entry with peers := entry.peers ++ [p] }
    refine ⟨p :: ps, by simp [hlen], ?_⟩
    rw [List.map_cons, List.foldl_cons, hp, hps]
    simp

def crowdedInterface : List Text :=
  [wg0, keyOf 'P', keyOf 'S', ['5', '1', '8', '2', '0'], ['o', 'f', 'f']]

/-- What `wg show all dump` prints of `wg0` and its first `n` peers. -/
def crowdedDump (n : Nat) : Text :=
  unlines (dumpLine crowdedInterface :: (List.range n).map fun i => dumpLine (crowdedPeer i))

theorem crowdedInterface_printable : ∀ t ∈ crowdedInterface, Json.Printable t := by
  intro t ht
  simp only [crowdedInterface, List.mem_cons, List.not_mem_nil, or_false] at ht
  rcases ht with rfl | rfl | rfl | rfl | rfl <;> exact Json.printable_of_all rfl

theorem crowdedDump_read (n : Nat) :
    ∃ entry : LiveStatus, entry.peers.length = n ∧
      (splitlines (crowdedDump n)).foldl readDumpLine [] = [(wg0, entry)] := by
  obtain ⟨ps, hlen, hps⟩ := foldl_crowdedPeers (List.range n)
    ⟨some (keyOf 'S'), some ['5', '1', '8', '2', '0'], []⟩
  have hlines : splitlines (crowdedDump n) =
      dumpLine crowdedInterface :: (List.range n).map fun i => dumpLine (crowdedPeer i) := by
    refine splitlines_unlines fun l hl => ?_
    rcases List.mem_cons.mp hl with rfl | hl
    · exact dumpLine_lineBreak crowdedInterface_printable
    · obtain ⟨i, -, rfl⟩ := List.mem_map.mp hl
      exact dumpLine_lineBreak (crowdedPeer_printable i)
  have hfirst : readDumpLine [] (dumpLine crowdedInterface) =
      [(wg0, ⟨some (keyOf 'S'), some ['5', '1', '8', '2', '0'], []⟩)] := by
    unfold readDumpLine
    simp only [splitOn_dumpLine crowdedInterface_printable (by simp [crowdedInterface])]
    rfl
  exact ⟨⟨some (keyOf 'S'), some ['5', '1', '8', '2', '0'], ps⟩, by simpa using hlen,
    by rw [hlines, List.foldl_cons, hfirst, hps]; rfl⟩

def crowdedHelper (n : Nat) : Env := fun _ c _ live =>
  match c with
  | .wgShowAllDump => (.exited 0 (crowdedDump n) [], live)
  | _ => (.exited 0 [] [], live)

theorem crowded_status (n : Nat) :
    ∃ t s', execute (crowdedHelper n) (cmdTunnelStatus (tunnelStatusRequest none))
      sampleWorld.helper = (.ok [t], s') ∧ t.peers.length = n := by
  obtain ⟨entry, hlen, hread⟩ := crowdedDump_read n
  have hnames : sampleWorld.helper.conf.names = ["wg0"] := by simp [ConfDir.names, sampleWorld]
  have hname : nullable (Json.get (tunnelStatusRequest none) "name") validateTunnelName = .ok none :=
    rfl
  have hlive : dumped (.exited 0 (crowdedDump n) []) = [(wg0, entry)] := by
    rw [dumped, if_pos rfl, hread]
  have hlisted : listed sampleWorld.helper.conf none = ["wg0"] := hnames
  have hlookup : [(wg0, entry)].lookup "wg0".toList = some entry := rfl
  rw [execute_cmdTunnelStatus, hname]
  simp only [crowdedHelper, hlive, hlisted, forEach, execute_bind, execute_tunnelStatus, ran, execute_pure]
  refine ⟨_, _, rfl, ?_⟩
  change (([(wg0, entry)].lookup "wg0".toList).getD noStatus).peers.length = n
  rw [hlookup]
  exact hlen

/-- Seven hundred peers are well within a subnet, and no status call returns any more. -/
theorem crowded_status_is_lost :
    ∃ t s', execute (crowdedHelper 700) (cmdTunnelStatus (tunnelStatusRequest none))
        sampleWorld.helper = (.ok [t], s') ∧ t.peers.length = 700 ∧
      ∀ float, callOverSocket float { sampleEnv with helper := crowdedHelper 700 }
          (tunnelStatusRequest none) sampleWorld.helper =
        .error (.unhandled "Separator is found, but chunk is longer than limit") := by
  obtain ⟨t, s', hrun, hlen⟩ := crowded_status 700
  refine ⟨t, s', hrun, hlen, fun float => ?_⟩
  rw [@status_call_eq float { sampleEnv with helper := crowdedHelper 700 } none _ _ _ hrun]
  exact receive_too_long float (crowded_status_too_long (List.mem_singleton_self t) (by omega))

end App
