import PiVpn.Maintenance.WgGuard

/-! Which tunnels are client tunnels: the search of the guard for a line with an Endpoint
against the reading of the peer sections in the helper. -/

namespace Maintenance
open Text Helper Pattern

/-! ## A line with an Endpoint -/

end Maintenance
