import PiVpn.App.Transport
import PiVpn.App.StateRequest
import PiVpn.Helper.DumpTable

/-! The live interfaces and their peers, from `wg show all dump` through the status of the
helper to the list of peers of the application. -/

namespace App
open Text Rows Ipaddress Effect Helper

/-! ## What is reported -/

/-- `wg show all dump` prints the interfaces of the table, and every subprocess starts. -/
structure Prints (env : Env) (s : State) (table : WgTable) : Prop where
  starts : Starts env
  dump : ∃ err, (env s.tick .wgShowAllDump s.psk s.live).1 = .exited 0 table.dump err

/-- The key, the port and the peers that a status reports. -/
def shownLive (t : TunnelStatus) : LiveStatus := ⟨t.publicKey, t.listenPort, t.peers⟩

/-- The entry of a tunnel: the key, the port and the peers of the live interface of its name,
and nothing where there is none. -/
structure Shows (table : WgTable) (tname : String) (t : TunnelStatus) : Prop where
  name : t.name = tname
  live : ∀ i ∈ table.ifaces, i.name.text = tname.toList → shownLive t = i.status
  down : (∀ i ∈ table.ifaces, i.name.text ≠ tname.toList) → shownLive t = noStatus

section status

variable {env : Env} {s : State} {table : WgTable}

theorem Prints.status (h : Prints env s table) (name : Option TunnelName) :
    ∃ ts s', execute env (cmdTunnelStatus (tunnelStatusRequest (name.map TunnelName.text))) s = (.ok ts, s') ∧
      List.Forall₂ (fun tname t => t.name = tname ∧ shownLive t = table.status tname.toList)
        (listed s.conf name) ts := by
  obtain ⟨err, hdump⟩ := h.dump
  obtain ⟨ts, s', hrun⟩ := h.starts.cmdTunnelStatus name s
  obtain ⟨only, honly, hall⟩ := status_entries hrun
  obtain rfl : name = only := Except.ok.inj ((nullable_request name).symm.trans honly)
  refine ⟨ts, s', hrun, hall.imp fun tname t ht => ?_⟩
  obtain ⟨out, rfl⟩ := ht
  have hlive : shownLive (statusOf (dumped (env s.tick .wgShowAllDump s.psk s.live).1) s.conf tname out) =
      (((splitlines table.dump).foldl readDumpLine []).lookup tname.toList).getD noStatus := by
    rw [hdump]
    rfl
  exact ⟨rfl, hlive.trans (lookup_dump table tname.toList)⟩

end status

/-! ## The list of peers -/

end App
