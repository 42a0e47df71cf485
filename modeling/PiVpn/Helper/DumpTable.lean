import PiVpn.Helper.Machine
import PiVpn.Lib.Rows
import PiVpn.Lib.Dict

/-! The live interfaces as `wg show all dump` prints them, and what the helper reads of that. -/

namespace Helper
open Text Rows Ipaddress

/-! ## What is printed -/

/-- A peer of an interface, with the columns of its row. -/
structure WgPeer where
  publicKey : Cell
  presharedKey : Cell
  endpoint : Option Cell
  allowedIps : Cell
  latestHandshake : Nat
  rxBytes : Nat
  txBytes : Nat
  keepalive : Cell
  known : ∀ e ∈ endpoint, e.text ≠ noneWord

/-- No two peers of an interface have one key. -/
structure WgInterface where
  name : Cell
  privateKey : Cell
  publicKey : Cell
  listenPort : Nat
  fwmark : Cell
  peers : List WgPeer
  named : name.text ≠ []
  distinct : (peers.map fun p => p.publicKey.text).Nodup

structure WgTable where
  ifaces : List WgInterface
  distinct : (ifaces.map fun i => i.name.text).Nodup

def WgPeer.row (name : Text) (p : WgPeer) : List Text :=
  [name, p.publicKey.text, p.presharedKey.text, (p.endpoint.map Cell.text).getD noneWord, p.allowedIps.text,
    decimal p.latestHandshake, decimal p.rxBytes, decimal p.txBytes, p.keepalive.text]

def WgInterface.row (i : WgInterface) : List Text :=
  [i.name.text, i.privateKey.text, i.publicKey.text, decimal i.listenPort, i.fwmark.text]

def WgInterface.rows (i : WgInterface) : List (List Text) := i.row :: i.peers.map (WgPeer.row i.name.text)

/-- `wg show all dump`. -/
def WgTable.dump (t : WgTable) : Text := print (t.ifaces.flatMap WgInterface.rows)

/-! ## What is to be reported -/

def WgPeer.status (p : WgPeer) : PeerStatus where
  publicKey := p.publicKey.text
  endpoint := p.endpoint.map Cell.text
  allowedIps := p.allowedIps.text
  latestHandshake := p.latestHandshake
  rxBytes := p.rxBytes
  txBytes := p.txBytes

def WgInterface.status (i : WgInterface) : LiveStatus :=
  ⟨some i.publicKey.text, some (decimal i.listenPort), i.peers.map WgPeer.status⟩

def WgTable.find (t : WgTable) (name : Text) : Option WgInterface := t.ifaces.find? fun i => i.name.text = name

/-- The key, the port and the peers of the interface of that name, and nothing where there is none. -/
def WgTable.status (t : WgTable) (name : Text) : LiveStatus := ((t.find name).map WgInterface.status).getD noStatus

def WgTable.peers (t : WgTable) (name : Text) : List WgPeer := ((t.find name).map WgInterface.peers).getD []

/-- What a row adds to the entry of its interface. -/
def addRow (entry : LiveStatus) : List Text → LiveStatus
  | [_, _, publicKey, listenPort, _] => { entry with publicKey := some publicKey, listenPort := some listenPort }
  | [_, publicKey, _, endpoint, allowedIps, latestHandshake, rx, tx, _] =>
    { entry with peers := entry.peers ++
      [{ publicKey := publicKey
         endpoint := if endpoint = noneWord then none else some endpoint
         allowedIps := allowedIps
         latestHandshake := counter latestHandshake
         rxBytes := counter rx
         txBytes := counter tx }] }
  | _ => entry

theorem counter_decimal (n : Nat) : counter (decimal n) = n := by
  have hdigits : (decimal n).all Char.isDigit = true :=
    List.all_eq_true.mpr fun c hc => isDigit_of_mem_decimal hc
  rw [counter, if_pos ⟨Nat.toDigits_ne_nil, hdigits⟩]
  exact Nat.ofDigitChars_ten_toDigits

theorem readDumpLine_line (live : List (Text × LiveStatus)) {name : Text} {cells : List Text}
    (h : ∀ t ∈ name :: cells, Clean t) (hne : name ≠ []) :
    readDumpLine live (line (name :: cells)) =
      gather (fun r => r.headD []) addRow noStatus live (name :: cells) := by
  unfold readDumpLine
  rw [splitOn_line h (List.cons_ne_nil _ _)]
  simp only [if_neg hne]
  rfl

theorem clean_none : Clean noneWord := clean_of_all rfl

theorem WgPeer.clean_row (p : WgPeer) (name : Cell) : ∀ t ∈ p.row name.text, Clean t := by
  have hendpoint : Clean ((p.endpoint.map Cell.text).getD noneWord) := by
    cases p.endpoint with
    | none => exact clean_none
    | some e => exact e.clean
  intro t ht
  simp only [WgPeer.row, List.mem_cons, List.not_mem_nil, or_false] at ht
  rcases ht with rfl | rfl | rfl | rfl | rfl | rfl | rfl | rfl | rfl
  · exact name.clean
  · exact p.publicKey.clean
  · exact p.presharedKey.clean
  · exact hendpoint
  · exact p.allowedIps.clean
  · exact clean_decimal _
  · exact clean_decimal _
  · exact clean_decimal _
  · exact p.keepalive.clean

theorem WgInterface.clean_row (i : WgInterface) : ∀ t ∈ i.row, Clean t := by
  intro t ht
  simp only [WgInterface.row, List.mem_cons, List.not_mem_nil, or_false] at ht
  rcases ht with rfl | rfl | rfl | rfl | rfl
  · exact i.name.clean
  · exact i.privateKey.clean
  · exact i.publicKey.clean
  · exact clean_decimal _
  · exact i.fwmark.clean

theorem WgInterface.rows_ok {i : WgInterface} {r : List Text} (hr : r ∈ i.rows) :
    (∀ t ∈ r, Clean t) ∧ ∃ cells, r = i.name.text :: cells := by
  rcases List.mem_cons.mp hr with rfl | hr
  · exact ⟨i.clean_row, _, rfl⟩
  · obtain ⟨p, -, rfl⟩ := List.mem_map.mp hr
    exact ⟨p.clean_row i.name, _, rfl⟩

theorem addRow_peer (entry : LiveStatus) (name : Text) (p : WgPeer) :
    addRow entry (p.row name) = { entry with peers := entry.peers ++ [p.status] } := by
  have hendpoint : (if (p.endpoint.map Cell.text).getD noneWord = noneWord then none
      else some ((p.endpoint.map Cell.text).getD noneWord)) = p.endpoint.map Cell.text := by
    cases he : p.endpoint with
    | none => rfl
    | some e => exact if_neg (p.known e he)
  rw [WgPeer.row, addRow, hendpoint, counter_decimal, counter_decimal, counter_decimal]
  rfl

theorem foldl_rows (i : WgInterface) : i.rows.foldl addRow noStatus = i.status := by
  have hpeers : ∀ (ps : List WgPeer) (entry : LiveStatus),
      (ps.map (WgPeer.row i.name.text)).foldl addRow entry =
        { entry with peers := entry.peers ++ ps.map WgPeer.status } := by
    intro ps
    induction ps with
    | nil =>
      intro entry
      rw [List.map_nil, List.map_nil, List.append_nil]
      rfl
    | cons p ps ih =>
      intro entry
      rw [List.map_cons, List.foldl_cons, addRow_peer, ih, List.map_cons, List.append_assoc]
      rfl
  rw [WgInterface.rows, List.foldl_cons, hpeers]
  rfl

/-- The dump reads back: under every name the helper finds the interface of that name. -/
theorem lookup_dump (t : WgTable) (name : Text) :
    (((splitlines t.dump).foldl readDumpLine []).lookup name).getD noStatus = t.status name := by
  have hrows : ∀ r ∈ t.ifaces.flatMap WgInterface.rows,
      (∀ u ∈ r, Clean u) ∧ ∃ n cells, n ≠ [] ∧ r = n :: cells := by
    intro r hr
    obtain ⟨i, -, hr⟩ := List.mem_flatMap.mp hr
    obtain ⟨hclean, cells, rfl⟩ := i.rows_ok hr
    exact ⟨hclean, _, cells, i.named, rfl⟩
  -- line by line the reader gathers the rows under the name they start with
  have hread : ∀ (rows : List (List Text)) (live : List (Text × LiveStatus)),
      (∀ r ∈ rows, (∀ u ∈ r, Clean u) ∧ ∃ n cells, n ≠ [] ∧ r = n :: cells) →
      (rows.map line).foldl readDumpLine live =
        rows.foldl (gather (fun r => r.headD []) addRow noStatus) live := by
    intro rows
    induction rows with
    | nil => exact fun live _ => rfl
    | cons r rows ih =>
      intro live h
      obtain ⟨hclean, n, cells, hne, rfl⟩ := h r List.mem_cons_self
      rw [List.map_cons, List.foldl_cons, List.foldl_cons, readDumpLine_line live hclean hne]
      exact ih _ fun r' hr' => h r' (List.mem_cons_of_mem _ hr')
  have hkey : ∀ i ∈ t.ifaces, ∀ r ∈ i.rows, r.headD [] = i.name.text := by
    intro i _ r hr
    obtain ⟨-, cells, rfl⟩ := i.rows_ok hr
    rfl
  rw [WgTable.dump, splitlines_print fun r hr => (hrows r hr).1, hread _ _ hrows, lookup_foldl_gather,
    filter_flatMap hkey t.distinct]
  unfold WgTable.status WgTable.find
  cases t.ifaces.find? fun i => i.name.text = name with
  | none => rfl
  | some i => exact foldl_rows i

end Helper
